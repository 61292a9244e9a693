import LanguageLlm.PageTranslate.Collect
import LanguageLlm.PageTranslate.Places

/-!
# Added text nodes

The page adds text nodes after a `translateNow`, and the flushes of the mutations collect them.
`entry_of_added` says when none of them is lost: when every flush that meets a new text node
collects it. A flush misses the text nodes of its buffer while a batch is being translated and while
the original is shown, and below elements that an earlier flush has marked.
-/

namespace LanguageLlm.PageTranslate

open Lib

/-- A text node to translate: it has text and lies in no skipped element. `given` is the text that
the page gives to its text nodes. -/
def Eligible (given : NodeId → String) (d : Document) (m : Place) : Prop :=
  (∀ a ∈ m.above, skips d collectOptions a.1 a.2 = false) ∧ trimmed (given m.id) ≠ ""

/-- The text node was collected, and the restore table has the entry of its segment. -/
def HasEntry (h : List (Fired Page PageEvent)) (s : Page) (id : NodeId) : Prop :=
  ∃ f ∈ h, ∃ c ∈ collectedBy f, c.node.id = id ∧ ∃ e ∈ s.restore.get c.segment.id,
    e.path = c.entry.path ∧ trimmed e.originalText = c.segment.originalText

/-- The added roots of the buffer above a text node. -/
def Page.rootsAbove (p : Page) (t : TextNode) : List NodeId :=
  (addedRoots p.doc p.buffer).filter fun root => root ∈ t.ancestors.map Ancestor.id

/-- A flush collects the text nodes below its added roots that have no entry yet. -/
def Caught (given : NodeId → String) (h : List (Fired Page PageEvent)) (f : Fired Page PageEvent) :
    Prop :=
  match f.label with
  | .flush => ∀ t ∈ f.pre.doc.texts, Eligible given f.pre.doc t.place → ¬ HasEntry h f.pre t.id →
      f.pre.rootsAbove t ≠ [] →
      -- the batch is not dropped
      ¬ (f.pre.mode = .original ∨ f.pre.applying) ∧
      -- a root above the text node is not marked
      (∃ root ∈ f.pre.rootsAbove t, f.pre.doc.closest root "data-llm-page-translated" = false) ∧
      -- the text node shows a text
      trimmed (f.pre.doc.data t.id) ≠ ""
  | .translateNow _ | .settle _ _ | .setMode _ | .restore | .edit _ => True

theorem Page.mem_rootsAbove {p : Page} {t : TextNode} {root : NodeId} :
    root ∈ p.rootsAbove t ↔
      root ∈ addedRoots p.doc p.buffer ∧ root ∈ t.ancestors.map Ancestor.id := by
  simp [rootsAbove]

/-! ## Collecting below a root -/

theorem codeUnits_length_pos {s : String} (h : s ≠ "") : 1 ≤ (codeUnits s).length := by
  unfold codeUnits
  cases hs : s.toList with
  | nil => exact absurd (String.toList_eq_nil_iff.1 hs) h
  | cons c cs =>
    rw [List.flatMap_cons, List.length_append]
    split <;> simp only [List.length_cons] <;> omega

/-- A text node that shows a text makes a segment. -/
theorem collectText_isSome {d : Document} {t : TextNode} (h : trimmed (d.data t.id) ≠ "") :
    ∃ c, collectText d collectOptions t = some c ∧ c.node = t := by
  have hs : makeSegment t.absoluteNodePath (d.data t.id) ≠ none := by
    unfold makeSegment
    simp [h]
  obtain ⟨seg, hseg⟩ := Option.ne_none_iff_exists'.1 hs
  have htext : seg.originalText = trimmed (d.data t.id) := by
    unfold makeSegment at hseg
    simp only [if_neg h, Option.some.injEq] at hseg
    rw [← hseg]
  have hlength : 1 ≤ (codeUnits seg.originalText).length :=
    codeUnits_length_pos (htext ▸ h)
  refine ⟨⟨t, seg, seg.id, d.data t.id, t.absoluteNodePath⟩, ?_, rfl⟩
  unfold collectText
  simp only [hseg]
  exact if_pos hlength

section Root

variable {d : Document} {t : TextNode} {root : NodeId}

/-- A root collects the text nodes below it. -/
theorem mem_collectTextSegments (ht : t ∈ d.texts) (hroot : root ∈ t.ancestors.map Ancestor.id)
    (hskip : ∀ a ∈ t.place.above, skips d collectOptions a.1 a.2 = false)
    (htext : trimmed (d.data t.id) ≠ "") :
    ∃ c ∈ collectTextSegments d root collectOptions, c.node = t := by
  obtain ⟨a, ha, rfl⟩ := List.mem_map.1 hroot
  obtain ⟨chain, childNodes, hlocate, hbelow⟩ := Tree.locate_ancestor ht ha
  have hskips : ∀ a ∈ t.ancestors, skips d collectOptions a.id a.tagName = false :=
    fun a ha => hskip a.key (List.mem_map_of_mem ha)
  have hchain : ∀ a ∈ chain, a ∈ t.ancestors := fun a ha => (Nodes.walk_above hbelow).subset ha
  have hopen : ¬ (chain.getLast?.any fun a => skips d collectOptions a.id a.tagName) = true := by
    cases hlast : chain.getLast? with
    | none => simp
    | some b => simp [hskips b (hchain b (List.mem_of_getLast? hlast))]
  have hwalk : t ∈ childNodes.walk (skips d collectOptions) chain 0 :=
    Nodes.mem_walk_iff.2 ⟨hbelow, fun a ha => hskips a (List.mem_of_mem_drop ha)⟩
  obtain ⟨c, hc, hnode⟩ := collectText_isSome htext
  refine ⟨c, ?_, hnode⟩
  unfold collectTextSegments
  rw [hlocate]
  simp only [if_neg hopen]
  exact List.mem_filterMap.2 ⟨t, hwalk, hc⟩

/-- An element above a text node gets no nearer to a mark when nothing above the text node is
marked. -/
theorem closest_mono {d' : Document} {name : String} (htree : d'.tree = d.tree) (ht : t ∈ d.texts)
    (hroot : root ∈ t.ancestors.map Ancestor.id)
    (hmark : ∀ a ∈ t.ancestors, (d'.attributes a.id name).isSome → (d.attributes a.id name).isSome)
    (h : d'.closest root name = true) : d.closest root name = true := by
  obtain ⟨a, ha, rfl⟩ := List.mem_map.1 hroot
  obtain ⟨chain, childNodes, hlocate, hbelow⟩ := Tree.locate_ancestor ht ha
  unfold Document.closest at h ⊢
  rw [htree, hlocate] at h
  rw [hlocate]
  simp only [List.any_eq_true] at h ⊢
  obtain ⟨b, hb, hsome⟩ := h
  exact ⟨b, hb, hmark b ((Nodes.walk_above hbelow).subset hb) hsome⟩

/-- The flush collects a text node below a root that is not marked: at the first of its roots above
the text node that is not marked. -/
theorem mem_rootsCollected_of_above {results : List PageTranslateSegmentResult} {b : Page.Batch}
    {roots : List NodeId} (hb : Marked d b.doc) (ht : t ∈ d.texts)
    (hskip : ∀ a ∈ t.place.above, skips d collectOptions a.1 a.2 = false)
    (htext : trimmed (d.data t.id) ≠ "")
    (hmark : ∀ a ∈ t.ancestors, (b.doc.attributes a.id "data-llm-page-translated").isSome →
      (d.attributes a.id "data-llm-page-translated").isSome)
    (hroots : root ∈ roots) (hroot : root ∈ t.ancestors.map Ancestor.id)
    (hopen : d.closest root "data-llm-page-translated" = false) :
    ∃ c ∈ rootsCollected results b roots, c.node = t := by
  induction roots generalizing b with
  | nil => cases hroots
  | cons r roots ih =>
    simp only [rootsCollected, List.mem_append]
    by_cases hclosest : b.doc.closest r "data-llm-page-translated" = true
    · -- the root is skipped; if it is above the text node, it was already marked before the flush
      have hne : root ≠ r := by
        rintro rfl
        exact Bool.false_ne_true (hopen.symm.trans (closest_mono hb.tree ht hroot hmark hclosest))
      have hskipped : Page.collectRoot results b r = b := by
        unfold Page.collectRoot
        rw [if_pos hclosest]
      rw [hskipped]
      obtain ⟨c, hc, hnode⟩ := ih hb hmark ((List.mem_cons.1 hroots).resolve_left hne)
      exact ⟨c, Or.inr hc, hnode⟩
    · by_cases habove : r ∈ t.ancestors.map Ancestor.id
      · obtain ⟨c, hc, hnode⟩ := mem_collectTextSegments ht habove hskip htext
        refine ⟨c, Or.inl ?_, hnode⟩
        rw [if_neg hclosest, hb.collect]
        exact hc
      · have hne : root ≠ r := fun he => habove (he ▸ hroot)
        -- the new mark is not above the text node
        have hmark' : ∀ a ∈ t.ancestors, ((Page.collectRoot results b r).doc.attributes a.id
            "data-llm-page-translated").isSome →
            (d.attributes a.id "data-llm-page-translated").isSome := by
          intro a ha hsome
          have hid : a.id ≠ r := fun he => habove (he ▸ List.mem_map_of_mem ha)
          unfold Page.collectRoot at hsome
          rw [if_neg hclosest, Document.setAttribute_attributes, if_neg fun he => hid he.1] at hsome
          exact hmark a ha hsome
        obtain ⟨c, hc, hnode⟩ := ih (hb.collectRoot results r) hmark'
          ((List.mem_cons.1 hroots).resolve_left hne)
        exact ⟨c, Or.inr hc, hnode⟩

end Root

/-! ## What does not concern the mutations -/

/-- The tree, the table and the queue of the mutations are as before, and the same elements are
editable. -/
structure Frame (p q : Page) : Prop where
  tree : q.doc.tree = p.doc.tree
  editable : ∀ id, q.doc.attributes id "contenteditable" = p.doc.attributes id "contenteditable"
  restore : q.restore = p.restore
  buffer : q.buffer = p.buffer
  timer : q.timer = p.timer

theorem Eligible.congr {given : NodeId → String} {d d' : Document} {m : Place}
    (h : ∀ id, d'.attributes id "contenteditable" = d.attributes id "contenteditable")
    (he : Eligible given d' m) : Eligible given d m := by
  refine ⟨fun a ha => ?_, he.2⟩
  rw [← he.1 a ha]
  unfold skips
  rw [h]

theorem foldl_editable {f : Document → TextNode → Document}
    (h : ∀ d t id, (f d t).attributes id "contenteditable" = d.attributes id "contenteditable")
    (L : List TextNode) (d : Document) (id : NodeId) :
    (L.foldl f d).attributes id "contenteditable" = d.attributes id "contenteditable" := by
  induction L generalizing d with
  | nil => rfl
  | cons t L ih => exact (ih (f d t)).trans (h d t id)

namespace Frame

variable {p q r : Page}

theorem after (h : Frame q r) (hdoc : q.doc = p.doc) (hrestore : q.restore = p.restore)
    (hbuffer : q.buffer = p.buffer) (htimer : q.timer = p.timer) : Frame p r where
  tree := by rw [h.tree, hdoc]
  editable := fun id => by rw [h.editable, hdoc]
  restore := h.restore.trans hrestore
  buffer := h.buffer.trans hbuffer
  timer := h.timer.trans htimer

theorem applyToDom (p : Page) : Frame p p.applyToDom := by
  refine ⟨p.applyToDom_tree, ?_, ?_, ?_, ?_⟩
  · unfold Page.applyToDom
    split
    · exact fun _ => rfl
    · apply foldl_editable
      intro d t id
      unfold applyText
      split
      · split
        · dsimp only
          split
          · split
            · rw [Document.setAttribute_attributes, Document.setAttribute_attributes,
                if_neg (by simp), if_neg (by simp)]
              rfl
            · rfl
          · rfl
        · rfl
      · rfl
  all_goals
    unfold Page.applyToDom
    split <;> rfl

/-- `applyToDom` at the end of a batch. -/
theorem applied (p : Page) : Frame p { p.applyToDom with applying := false } :=
  have h := applyToDom p
  ⟨h.tree, h.editable, h.restore, h.buffer, h.timer⟩

theorem restoreOriginal (p : Page) : Frame p p.restoreOriginal := by
  refine ⟨p.restoreOriginal_tree, ?_, rfl, rfl, rfl⟩
  apply foldl_editable
  intro d t id
  unfold restoreText
  split
  · dsimp only
    split
    · rw [Document.removeAttribute_attributes, Document.removeAttribute_attributes,
        if_neg (by simp), if_neg (by simp)]
      rfl
    · rfl
  · rfl

theorem setMode (p : Page) (m : PageTranslateMode) : Frame p (p.setMode m) := by
  unfold Page.setMode
  dsimp only
  split
  · exact (restoreOriginal _).after rfl rfl rfl rfl
  · exact (applyToDom _).after rfl rfl rfl rfl

theorem settle {dev : Bool} {k : Nat} {outcome : Outcome} (h : p.settle dev k outcome = some q) :
    Frame p q := by
  obtain ⟨c, -, ⟨-, rfl⟩ | ⟨-, rfl⟩⟩ := Page.settle_cases h
  · unfold Page.settleCall
    split
    · exact (applyToDom _).after rfl rfl rfl rfl
    · exact ⟨rfl, fun _ => rfl, rfl, rfl, rfl⟩
  · unfold Page.settleBatch
    split
    · exact (applied _).after rfl rfl rfl rfl
    · exact (applied _).after rfl rfl rfl rfl

end Frame

/-- The timer is armed, and the buffer covers the text node. -/
def Waits (s : Page) (m : Place) : Prop := s.timer = true ∧ Covered s.buffer m

namespace Page

variable {p : Page} {m : Place}

theorem deliver_records (p : Page) : p.deliver.doc.records = [] := by
  unfold deliver
  split
  · next h => exact h
  · rfl

theorem deliver_editable (p : Page) : p.deliver.doc.attributes = p.doc.attributes := by
  unfold deliver
  split <;> rfl

/-- What waits keeps waiting, and what a queued record covers waits from now on. -/
theorem deliver_waits (h : Waits p m ∨ Covered p.doc.records m) : Waits p.deliver m := by
  unfold deliver
  split
  · next hnil =>
    rcases h with h | ⟨nodes, hr, -⟩
    · exact h
    · rw [hnil] at hr
      cases hr
  · refine ⟨rfl, ?_⟩
    rcases h with ⟨-, h⟩ | h
    · exact h.mono fun r hr => List.mem_append_left _ hr
    · exact h.mono fun r hr => List.mem_append_right _ hr

/-- A flush that collects something marks the page and shows its batch; the structure of the page
stays. -/
theorem flush_deliver_of_batch (s : Page) {b : Batch}
    (hb : b = (addedRoots s.doc s.buffer).foldl (collectRoot s.results) s.firstBatch)
    (hq : s.flush = { s with
          buffer := []
          timer := false
          doc := b.doc
          restore := b.restore
          applying := true }.translateSegments .batch b.newSegments s.targetLang ∨
        s.flush = { { s with
          buffer := []
          timer := false
          doc := b.doc
          restore := b.restore
          applying := true }.applyToDom with applying := false }) :
    s.flush.deliver.doc.tree = s.doc.tree ∧
      (∀ id, s.flush.deliver.doc.attributes id "contenteditable" =
        s.doc.attributes id "contenteditable") ∧
      s.flush.deliver.restore = b.restore := by
  have hmarked : Marked s.doc b.doc := by
    rw [hb]
    exact (Marked.refl s.doc).foldl s.results _
  have hedit := fun id => hmarked.attributes id "contenteditable" (by decide)
  rw [s.flush.deliver_doc.1, s.flush.deliver_doc.2.2, Page.deliver_editable]
  rcases hq with hq | hq <;> rw [hq]
  · exact ⟨hmarked.tree, hedit, rfl⟩
  · have hframe := Frame.applyToDom { s with
      buffer := []
      timer := false
      doc := b.doc
      restore := b.restore
      applying := true }
    exact ⟨hframe.tree.trans hmarked.tree, fun id => (hframe.editable id).trans (hedit id),
      hframe.restore⟩

end Page

/-! ## The invariant -/

/-- Every entry of the table was collected, and every eligible text node has its entry or waits for
the next flush. -/
structure Kept (given : NodeId → String) (h : List (Fired Page PageEvent)) (s : Page) :
    Prop where
  collected : ∀ id e, s.restore.get id = some e → ∃ f ∈ h, ∃ c ∈ collectedBy f, c.entry = e
  waits : ∀ m ∈ s.doc.tree.places, Eligible given s.doc m → HasEntry h s m.id ∨ Waits s m
  records : s.doc.records = []

namespace Kept

variable {given : NodeId → String} {h : List (Fired Page PageEvent)} {s q : Page}
  {f : Fired Page PageEvent}

/-- A collected text node has its entry when its identifier has one. -/
theorem hasEntry_of_isSome
    (hcollected : ∀ id e, s.restore.get id = some e → ∃ f ∈ h, ∃ c ∈ collectedBy f, c.entry = e)
    (hn : NoCollision h) (hf : f ∈ h) {c : Collected} (hc : c ∈ collectedBy f)
    (hsome : (s.restore.get c.segment.id).isSome) : HasEntry h s c.node.id := by
  obtain ⟨e, he⟩ := Option.isSome_iff_exists.1 hsome
  refine ⟨f, hf, c, hc, rfl, e, he, ?_⟩
  obtain ⟨g, hg, c', hc', rfl⟩ := hcollected _ e he
  have hcol := collects_of_collectedBy hc'
  have hid : c'.segment.id = c.segment.id := hcol.segmentId.symm.trans (s.restore.keyed he)
  obtain ⟨hpath, htext⟩ := hn g hg f hf c' hc' c hc hid
  exact ⟨hpath, hcol.segment_eq.1.symm.trans htext⟩

theorem collected_cons (hk : Kept given h s) {id : String} {e : RestoreEntry}
    (he : s.restore.get id = some e) : ∃ g ∈ f :: h, ∃ c ∈ collectedBy g, c.entry = e := by
  obtain ⟨g, hg, hc⟩ := hk.collected id e he
  exact ⟨g, List.mem_cons_of_mem _ hg, hc⟩

theorem hasEntry_cons {n : NodeId} (he : HasEntry h s n) (hrestore : q.restore = s.restore) :
    HasEntry (f :: h) q n := by
  obtain ⟨g, hg, hc⟩ := he
  refine ⟨g, List.mem_cons_of_mem _ hg, ?_⟩
  rw [hrestore]
  exact hc

/-- A step that leaves the tree, the table and the queue of the mutations. -/
theorem frame (hk : Kept given h s) (hframe : Frame s q) : Kept given (f :: h) q.deliver where
  collected := fun id e he => by
    rw [q.deliver_doc.2.2, hframe.restore] at he
    exact hk.collected_cons he
  waits := by
    intro m hm he
    rw [q.deliver_doc.1, hframe.tree] at hm
    have he' : Eligible given s.doc m := he.congr fun id => by
      rw [q.deliver_editable, hframe.editable]
    rcases hk.waits m hm he' with hent | hw
    · exact Or.inl (hasEntry_cons hent (q.deliver_doc.2.2.trans hframe.restore))
    · refine Or.inr (Page.deliver_waits (Or.inl ⟨?_, ?_⟩))
      · rw [hframe.timer]
        exact hw.1
      · rw [hframe.buffer]
        exact hw.2
  records := q.deliver_records

/-- A task of the page: it adds no text node that its records do not cover. -/
theorem edit (hk : Kept given h s) {edits : List PageEdit} {doc : Document}
    (hdoc : edits.foldlM Document.edit s.doc = some doc) :
    Kept given (f :: h) ({ s with doc } : Page).deliver where
  collected := fun id e he => by
    rw [({ s with doc } : Page).deliver_doc.2.2] at he
    exact hk.collected_cons he
  waits := by
    intro m hm he
    rw [({ s with doc } : Page).deliver_doc.1] at hm
    rcases (Document.mem_places_edits hdoc hm).2 with hcov | hplace
    · exact Or.inr (Page.deliver_waits (Or.inr hcov))
    · have he' : Eligible given s.doc m := he.congr fun id => by
        rw [({ s with doc } : Page).deliver_editable, (Document.edits_keep hdoc).2]
      rcases hk.waits m hplace he' with hent | hw
      · exact Or.inl (hasEntry_cons hent ({ s with doc } : Page).deliver_doc.2.2)
      · exact Or.inr (Page.deliver_waits (Or.inl hw))
  records := ({ s with doc } : Page).deliver_records

/-- A buffer that covers a text node has a root above it. -/
theorem rootsAbove_of_covered {t : TextNode} (ht : t ∈ s.doc.texts)
    (hc : Covered s.buffer t.place) : s.rootsAbove t ≠ [] := by
  obtain ⟨nodes, hr, a, ha, hcov⟩ := hc
  have hroot : ∀ root, a = .element root ∨ (∃ id, a = .text id ∧
      s.doc.tree.parentElement id = some root) → root ∈ Page.addedRoots s.doc s.buffer := by
    intro root h
    refine List.mem_flatMap.2 ⟨_, hr, List.mem_filterMap.2 ⟨a, ha, ?_⟩⟩
    rcases h with rfl | ⟨id, rfl, hp⟩
    · rfl
    · exact hp
  cases a with
  | element id =>
    obtain ⟨tagName, hmem⟩ := hcov
    obtain ⟨a, ha, hkey⟩ := List.mem_map.1 hmem
    refine List.ne_nil_of_mem (Page.mem_rootsAbove.2 ⟨hroot id (Or.inl rfl), ?_⟩)
    exact List.mem_map.2 ⟨a, ha, congrArg Prod.fst hkey⟩
  | text id =>
    obtain rfl : t.id = id := hcov
    obtain ⟨parent, hparent⟩ := s.doc.tree.texts_parentElement ht
    refine List.ne_nil_of_mem (Page.mem_rootsAbove.2
      ⟨hroot parent (Or.inr ⟨_, rfl, (Tree.parentElement_eq ht).trans hparent⟩), ?_⟩)
    obtain ⟨a, ha, rfl⟩ := Option.map_eq_some_iff.1 hparent
    exact List.mem_map_of_mem (List.mem_of_getLast? ha)
  | comment id => exact hcov.elim

/-- A flush that catches the text nodes of its buffer collects every eligible one without an
entry. -/
theorem mem_flushCollected (hk : Kept given h s) (hf : f.pre = s ∧ f.label = .flush)
    (hcaught : Caught given h f) {t : TextNode} (ht : t ∈ s.doc.texts)
    (he : Eligible given s.doc t.place) (hent : ¬ HasEntry h s t.id) :
    ∃ c ∈ s.flushCollected, c.node = t := by
  have hwaits : Waits s t.place :=
    (hk.waits _ (Tree.mem_places.2 ⟨t, ht, rfl⟩) he).resolve_left hent
  unfold Caught at hcaught
  rw [hf.2, hf.1] at hcaught
  obtain ⟨hopen, ⟨root, hroot, hmark⟩, htext⟩ :=
    hcaught t ht he hent (rootsAbove_of_covered ht hwaits.2)
  obtain ⟨hmem, habove⟩ := Page.mem_rootsAbove.1 hroot
  unfold Page.flushCollected
  rw [if_neg hopen]
  exact mem_rootsCollected_of_above (.refl s.doc) ht he.1 htext (fun _ _ h => h) hmem habove hmark

/-- A flush that catches the text nodes of its buffer. -/
theorem flush (hk : Kept given h s) (hf : f.pre = s ∧ f.label = .flush)
    (hcaught : Caught given h f) (hn : NoCollision (f :: h)) :
    Kept given (f :: h) s.flush.deliver := by
  have hby : collectedBy f = s.flushCollected := by
    unfold collectedBy
    rw [hf.2, hf.1]
  rcases s.flush_cases with ⟨hq, hnone⟩ | ⟨-, b, hb, hcollected, hq⟩
  · -- nothing was collected, so no text node was waiting
    refine ⟨fun id e he => ?_, fun m hm he => ?_, Page.deliver_records _⟩
    · rw [s.flush.deliver_doc.2.2, hq] at he
      exact hk.collected_cons he
    · rw [s.flush.deliver_doc.1, hq] at hm
      have he' : Eligible given s.doc m := he.congr fun id => by
        rw [Page.deliver_editable, hq]
      obtain ⟨t, ht, rfl⟩ := Tree.mem_places.1 hm
      by_cases hent : HasEntry h s t.id
      · exact Or.inl (hasEntry_cons hent (by rw [s.flush.deliver_doc.2.2, hq]))
      · obtain ⟨c, hc, -⟩ := hk.mem_flushCollected hf hcaught ht he' hent
        rw [hnone] at hc
        cases hc
  · have hpost := s.flush_deliver_of_batch hb hq
    have hcol : ∀ id e, s.flush.deliver.restore.get id = some e →
        ∃ g ∈ f :: h, ∃ c ∈ collectedBy g, c.entry = e := by
      intro id e he
      rw [hpost.2.2, hb] at he
      rcases get_foldl_collectRoot he with ⟨c, hc, rfl⟩ | he
      · exact ⟨f, List.mem_cons_self, c, by rw [hby, hcollected]; exact hc, rfl⟩
      · exact hk.collected_cons he
    have hsome : ∀ id, (∃ c ∈ s.flushCollected, c.segment.id = id) ∨ (s.restore.get id).isSome →
        (s.flush.deliver.restore.get id).isSome := by
      intro id hid
      rw [hpost.2.2, hb]
      rw [hcollected] at hid
      exact isSome_foldl_collectRoot s.results (.refl s.doc) hid
    refine ⟨hcol, fun m hm he => Or.inl ?_, Page.deliver_records _⟩
    rw [hpost.1] at hm
    obtain ⟨t, ht, rfl⟩ := Tree.mem_places.1 hm
    by_cases hent : HasEntry h s t.id
    · obtain ⟨g, hg, c, hc, hid, e, hget, -⟩ := hent
      rw [show t.place.id = c.node.id from hid.symm]
      refine hasEntry_of_isSome hcol hn (List.mem_cons_of_mem _ hg) hc (hsome _ (Or.inr ?_))
      rw [Option.mem_def.1 hget]
      rfl
    · obtain ⟨c, hc, rfl⟩ := hk.mem_flushCollected hf hcaught ht (he.congr hpost.2.1) hent
      exact hasEntry_of_isSome hcol hn List.mem_cons_self (hby ▸ hc)
        (hsome _ (Or.inl ⟨c, hc, rfl⟩))

/-- `translateNow` collects every eligible text node of the body. -/
theorem translateNow {p : Page} {lang : String} (hf : f.pre = p ∧ f.label = .translateNow lang)
    (hn : NoCollision [f]) :
    Kept p.doc.data [f] (p.translateNow lang).deliver := by
  have hby : collectedBy f = collectTextSegments p.doc p.doc.tree.bodyId collectOptions := by
    unfold collectedBy
    rw [hf.2, hf.1]
  have hrestore : (p.translateNow lang).deliver.restore =
      .new ((collectTextSegments p.doc p.doc.tree.bodyId collectOptions).map Collected.entry) :=
    (p.translateNow lang).deliver_doc.2.2
  have hcol : ∀ id e, (p.translateNow lang).deliver.restore.get id = some e →
      ∃ g ∈ [f], ∃ c ∈ collectedBy g, c.entry = e := by
    intro id e he
    rw [hrestore] at he
    obtain ⟨c, hc, rfl⟩ := List.mem_map.1 (RestoreTable.mem_of_get_new he)
    exact ⟨f, List.mem_cons_self, c, hby ▸ hc, rfl⟩
  refine ⟨hcol, fun m hm he => Or.inl ?_, Page.deliver_records _⟩
  rw [(p.translateNow lang).deliver_doc.1] at hm
  obtain ⟨t, ht, rfl⟩ := Tree.mem_places.1 hm
  have he' : Eligible p.doc.data p.doc t.place := he.congr fun id => by
    rw [Page.deliver_editable]
    rfl
  have hbody : p.doc.tree.bodyId ∈ t.ancestors.map Ancestor.id := by
    obtain ⟨rest, hrest⟩ := p.doc.tree.texts_ancestors ht
    rw [hrest]
    exact List.mem_cons_self
  obtain ⟨c, hc, rfl⟩ := mem_collectTextSegments ht hbody he'.1 he'.2
  refine hasEntry_of_isSome hcol hn List.mem_cons_self (hby ▸ hc) ?_
  rw [hrestore]
  apply isSome_foldl_set
  rw [← (collects_of_mem hc).segmentId, List.map_map]
  exact Or.inl (List.mem_map_of_mem hc)

/-- One step after the `translateNow`. -/
theorem step (hk : Kept given h s) {dev : Bool} {e : PageEvent} (hs : s.step dev e = some q)
    (he : ∀ lang, e ≠ .translateNow lang) (hcaught : Caught given h ⟨s, e, q⟩)
    (hn : NoCollision (⟨s, e, q⟩ :: h)) : Kept given (⟨s, e, q⟩ :: h) q := by
  obtain ⟨r, hr, rfl⟩ := Option.map_eq_some_iff.1 hs
  cases e with
  | translateNow lang => exact absurd rfl (he lang)
  | settle k outcome => exact hk.frame (.settle hr)
  | setMode m =>
    cases hr
    exact hk.frame (.setMode s m)
  | restore =>
    cases hr
    exact hk.frame (.restoreOriginal s)
  | edit edits =>
    obtain ⟨doc, hdoc, rfl⟩ := Option.map_eq_some_iff.1 hr
    exact hk.edit hdoc
  | flush =>
    dsimp only at hr
    split at hr
    · cases hr
      exact hk.flush ⟨rfl, rfl⟩ hcaught hn
    · cases hr

end Kept

/-- After a `translateNow`, if every flush catches the new text nodes of its buffer, every eligible
text node in the document has an entry as soon as no flush is due. -/
theorem entry_of_added {dev : Bool} {p q s : Page} {lang : String}
    {h : List (Fired Page PageEvent)} (hq : p.step dev (.translateNow lang) = some q)
    (hr : Run (Page.step dev) q h s) (hlast : ∀ f ∈ h, ∀ lang, f.label ≠ .translateNow lang)
    (hcaught : Meets
      (fun h f => Caught p.doc.data (h ++ [⟨p, .translateNow lang, q⟩]) f) h)
    (hn : NoCollision (h ++ [⟨p, .translateNow lang, q⟩])) (ht : s.timer = false) :
    ∀ t ∈ s.doc.texts, Eligible p.doc.data s.doc t.place →
      HasEntry (h ++ [⟨p, .translateNow lang, q⟩]) s t.id := by
  have hkept : Kept p.doc.data (h ++ [⟨p, .translateNow lang, q⟩]) s := by
    refine hr.invMeets _ (fun h s => (∀ f ∈ h, ∀ lang, f.label ≠ .translateNow lang) →
      NoCollision (h ++ [⟨p, .translateNow lang, q⟩]) →
      Kept p.doc.data (h ++ [⟨p, .translateNow lang, q⟩]) s) ?_ ?_ hcaught hlast hn
    · intro _ hn
      cases hq
      exact Kept.translateNow ⟨rfl, rfl⟩ hn
    · intro h s e s' _ hk hcaught hs hlast hn
      exact (hk (fun f hf => hlast f (List.mem_cons_of_mem _ hf)) hn.tail).step hs
        (hlast _ List.mem_cons_self) hcaught hn
  intro t htext he
  refine (hkept.waits _ (Tree.mem_places.2 ⟨t, htext, rfl⟩) he).resolve_right fun hw => ?_
  exact Bool.false_ne_true (ht.symm.trans hw.1)

instance (given : NodeId → String) (d : Document) (m : Place) : Decidable (Eligible given d m) :=
  inferInstanceAs (Decidable (_ ∧ _))

instance (h : List (Fired Page PageEvent)) (s : Page) (id : NodeId) : Decidable (HasEntry h s id) :=
  inferInstanceAs (Decidable (∃ f ∈ h, ∃ c ∈ collectedBy f, c.node.id = id ∧
    ∃ e ∈ s.restore.get c.segment.id,
      e.path = c.entry.path ∧ trimmed e.originalText = c.segment.originalText))

instance (given : NodeId → String) (h : List (Fired Page PageEvent)) (f : Fired Page PageEvent) :
    Decidable (Caught given h f) :=
  match f with
  | ⟨pre, .flush, _⟩ =>
    inferInstanceAs (Decidable (∀ t ∈ pre.doc.texts, Eligible given pre.doc t.place →
      ¬ HasEntry h pre t.id → pre.rootsAbove t ≠ [] → ¬ (pre.mode = .original ∨ pre.applying) ∧
      (∃ root ∈ pre.rootsAbove t, pre.doc.closest root "data-llm-page-translated" = false) ∧
      trimmed (pre.doc.data t.id) ≠ ""))
  | ⟨_, .translateNow _, _⟩ | ⟨_, .settle _ _, _⟩ | ⟨_, .setMode _, _⟩ | ⟨_, .restore, _⟩
  | ⟨_, .edit _, _⟩ => .isTrue trivial

/-- A page that grows. -/
def feedPage : Document :=
  { helloPage with
    data := fun n =>
      if n = 2 then "Hello" else if n = 4 then "News" else if n = 6 then "Sport"
      else if n = 7 then "More" else "" }

/-- A second paragraph is added, collected and translated. -/
def addedAlone : List PageEvent :=
  [.settle 0 (answer "seg_9bcdc586" "Bonjour"),
    .edit [.create (.element 3 "P" (.text 4 .nil) .nil), .insert 3 0 1 false], .flush,
    .settle 1 (answer "seg_4242929f" "Nouvelles"), .flush]

theorem entry_of_added_alone : ∃ q h s,
    (Page.fresh feedPage).step false (.translateNow "fr") = some q ∧
    Run (Page.step false) q h s ∧ h.map Fired.label = addedAlone.reverse ∧
    s.doc.data 4 = "Nouvelles" ∧
    HasEntry (h ++ [⟨Page.fresh feedPage, .translateNow "fr", q⟩]) s 4 := by
  have hend : (((Page.fresh feedPage).step false (.translateNow "fr")).bind fun q =>
      (exec (Page.step false) q addedAlone).map fun x =>
        (decide (Meets (fun h f => Caught feedPage.data
          (h ++ [⟨Page.fresh feedPage, .translateNow "fr", q⟩]) f) x.1),
        decide (NoCollision (x.1 ++ [⟨Page.fresh feedPage, .translateNow "fr", q⟩])),
        x.2.timer, x.2.doc.data 4,
        decide (∃ t ∈ x.2.doc.texts, t.id = 4 ∧ Eligible feedPage.data x.2.doc t.place))) =
      some (true, true, false, "Nouvelles", true) := by decide +kernel
  obtain ⟨q, hq, hx⟩ := Option.bind_eq_some_iff.1 hend
  obtain ⟨⟨h, s⟩, hx, hfacts⟩ := Option.map_eq_some_iff.1 hx
  simp only [Prod.mk.injEq, decide_eq_true_eq] at hfacts
  obtain ⟨hcaught, hn, htimer, hdata, t, ht, hid, he⟩ := hfacts
  have hlast : ∀ f ∈ h, ∀ lang, f.label ≠ .translateNow lang := by
    intro f hf lang hl
    have hmem : f.label ∈ addedAlone.reverse := exec_labels hx ▸ List.mem_map_of_mem hf
    rw [hl] at hmem
    simp [addedAlone] at hmem
  refine ⟨q, h, s, hq, exec_run hx, exec_labels hx, hdata, ?_⟩
  rw [← hid]
  exact entry_of_added hq (exec_run hx) hlast hcaught hn htimer t ht he

/-- A paragraph is added while the batch of the one before is being translated, and text is added to
a paragraph that is translated. -/
def addedTooSoon : List PageEvent :=
  [.settle 0 (answer "seg_9bcdc586" "Bonjour"),
    .edit [.create (.element 3 "P" (.text 4 .nil) .nil), .insert 3 0 1 false], .flush,
    .edit [.create (.element 5 "P" (.text 6 .nil) .nil), .insert 5 0 2 false], .flush,
    .settle 1 (answer "seg_4242929f" "Nouvelles"),
    .edit [.create (.text 7 .nil), .insert 7 3 1 false], .flush]

/-- Both additions are lost: the controller is at rest in the translated mode, and the added text
nodes were never collected. -/
theorem not_entry_of_added_tooSoon : ∃ q h s,
    (Page.fresh feedPage).step false (.translateNow "fr") = some q ∧
    Run (Page.step false) q h s ∧ h.map Fired.label = addedTooSoon.reverse ∧
    s.timer = false ∧ s.pending.keys = [] ∧ s.mode = .translated ∧
    ∀ id ∈ [6, 7], ∃ t ∈ s.doc.texts, t.id = id ∧ Eligible feedPage.data s.doc t.place ∧
      ¬ HasEntry (h ++ [⟨Page.fresh feedPage, .translateNow "fr", q⟩]) s id ∧
      s.restore.entryAt t.absoluteNodePath = none := by
  have hend : (((Page.fresh feedPage).step false (.translateNow "fr")).bind fun q =>
      (exec (Page.step false) q addedTooSoon).map fun x =>
        (x.2.timer, x.2.pending.keys, x.2.mode,
        decide (∀ id ∈ [6, 7], ∃ t ∈ x.2.doc.texts, t.id = id ∧
          Eligible feedPage.data x.2.doc t.place ∧
          ¬ HasEntry (x.1 ++ [⟨Page.fresh feedPage, .translateNow "fr", q⟩]) x.2 id ∧
          x.2.restore.entryAt t.absoluteNodePath = none))) =
      some (false, [], .translated, true) := by decide +kernel
  obtain ⟨q, hq, hx⟩ := Option.bind_eq_some_iff.1 hend
  obtain ⟨⟨h, s⟩, hx, hfacts⟩ := Option.map_eq_some_iff.1 hx
  simp only [Prod.mk.injEq, decide_eq_true_eq] at hfacts
  obtain ⟨htimer, hpending, hmode, hlost⟩ := hfacts
  exact ⟨q, h, s, hq, exec_run hx, exec_labels hx, htimer, hpending, hmode, hlost⟩

end LanguageLlm.PageTranslate
