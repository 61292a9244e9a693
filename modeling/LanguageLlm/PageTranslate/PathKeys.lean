import LanguageLlm.PageTranslate.Collect

/-!
# Text keyed by paths

The restore table finds a text node by the path at which it was collected, while the page inserts
and removes nodes. `own_text` says when every text node shows its own text or a translation of it:
when no edit moves a node off or onto a path of the table, and nothing is collected from a node
that shows another text than its own.

The text that the page gives to a node is that of the document on which the controller was created;
the data of a node that the page has not created yet is the text it will give to it.
-/

namespace LanguageLlm.PageTranslate

open Lib

/-- The translator, or the mock of a development build, has answered `r`. -/
def Answered (dev : Bool) (h : List (Fired Page PageEvent)) (r : PageTranslateSegmentResult) :
    Prop :=
  ∃ f ∈ h, ∃ k outcome c batch, f.label = .settle k outcome ∧ f.pre.pending.get? k = some c ∧
    (Page.runTranslation dev c.segments c.lang outcome).2 = .ok batch ∧ r ∈ batch

/-- `y` was answered for a segment of the text `x`, and for no other text. -/
def Translates (dev : Bool) (h : List (Fired Page PageEvent)) (x y : String) : Prop :=
  ∃ r, Answered dev h r ∧ r.translatedText = y ∧
    (∃ f ∈ h, ∃ c ∈ collectedBy f, c.segment.id = r.id) ∧
    ∀ f ∈ h, ∀ c ∈ collectedBy f, c.segment.id = r.id → c.segment.originalText = trimmed x

/-- A step under which the paths of the table stay with their nodes. `given` is the text that the
page gives to its text nodes. -/
def PathSafe (given : NodeId → String) (f : Fired Page PageEvent) : Prop :=
  match f.label with
  -- the page is collected while it shows its own text
  | .translateNow _ => ∀ t ∈ f.pre.doc.texts, f.pre.doc.data t.id = given t.id
  -- a batch collects nodes that show their own text
  | .flush => ∀ c ∈ f.pre.flushCollected, ∀ t ∈ f.pre.doc.texts,
      c.entry.path = t.absoluteNodePath → c.entry.originalText = given t.id
  -- a node at a path of the table was there before, and any other shows its own text
  | .edit _ => ∀ t ∈ f.post.doc.texts,
      ((f.pre.restore.entryAt t.absoluteNodePath).isSome → t ∈ f.pre.doc.texts) ∧
      (f.pre.restore.entryAt t.absoluteNodePath = none → f.pre.doc.data t.id = given t.id)
  | .settle _ _ | .setMode _ | .restore => True

section History

variable {dev : Bool} {f : Fired Page PageEvent} {h : List (Fired Page PageEvent)}

theorem Answered.cons {r : PageTranslateSegmentResult} (ha : Answered dev h r) :
    Answered dev (f :: h) r := by
  obtain ⟨g, hg, rest⟩ := ha
  exact ⟨g, List.mem_cons_of_mem _ hg, rest⟩

theorem Translates.cons {x y : String} (hn : NoCollision (f :: h)) (ht : Translates dev h x y) :
    Translates dev (f :: h) x y := by
  obtain ⟨r, hr, hy, ⟨g, hg, c, hc, hid⟩, honly⟩ := ht
  refine ⟨r, hr.cons, hy, ⟨g, List.mem_cons_of_mem _ hg, c, hc, hid⟩, ?_⟩
  intro g' hg' c' hc' hid'
  rw [← honly g hg c hc hid]
  exact (hn g' hg' g (List.mem_cons_of_mem _ hg) c' hc' c hc (hid'.trans hid.symm)).2

end History

/-- What holds of the restore table, the results and the text of the page. -/
structure Owned (dev : Bool) (given : NodeId → String) (h : List (Fired Page PageEvent))
    (s : Page) : Prop where
  /-- The entries at the path of a node hold the text of the node. -/
  entries : ∀ t ∈ s.doc.texts, ∀ id e, s.restore.get id = some e →
    e.path = t.absoluteNodePath → e.originalText = given t.id
  /-- A node without an entry shows its own text. -/
  bare : ∀ t ∈ s.doc.texts, s.restore.entryAt t.absoluteNodePath = none →
    s.doc.data t.id = given t.id
  own : ∀ t ∈ s.doc.texts, s.doc.data t.id = given t.id ∨
    Translates dev h (given t.id) (s.doc.data t.id)
  collected : ∀ id e, s.restore.get id = some e → ∃ f ∈ h, ∃ c ∈ collectedBy f, c.entry = e
  answered : ∀ r ∈ s.results, Answered dev h r

namespace Owned

variable {dev : Bool} {given : NodeId → String} {h : List (Fired Page PageEvent)} {s q : Page}
  {f : Fired Page PageEvent}

theorem fresh (d : Document) : Owned dev d.data [] (Page.fresh d) where
  entries := fun _ _ id e he => by simp [Page.fresh, RestoreTable.empty, RestoreTable.get] at he
  bare := fun _ _ _ => rfl
  own := fun _ _ => Or.inl rfl
  collected := fun id e he => by simp [Page.fresh, RestoreTable.empty, RestoreTable.get] at he
  answered := fun r hr => by simp [Page.fresh] at hr

theorem cons (ho : Owned dev given h s) (hn : NoCollision (f :: h)) :
    Owned dev given (f :: h) s where
  entries := ho.entries
  bare := ho.bare
  own := fun t ht => (ho.own t ht).imp id (·.cons hn)
  collected := fun id e he => by
    obtain ⟨g, hg, rest⟩ := ho.collected id e he
    exact ⟨g, List.mem_cons_of_mem _ hg, rest⟩
  answered := fun r hr => (ho.answered r hr).cons

/-- Only the tree, the text, the table and the results count. -/
theorem congr (ho : Owned dev given h s) (htree : q.doc.tree = s.doc.tree)
    (hdata : q.doc.data = s.doc.data) (hrestore : q.restore = s.restore)
    (hresults : ∀ r ∈ q.results, Answered dev h r) : Owned dev given h q := by
  have htexts : q.doc.texts = s.doc.texts := Document.texts_congr htree
  constructor
  · rw [htexts, hrestore]
    exact ho.entries
  · rw [htexts, hrestore, hdata]
    exact ho.bare
  · rw [htexts, hdata]
    exact ho.own
  · rw [hrestore]
    exact ho.collected
  · exact hresults

/-- What an entry at the path of a node shows is the text of the node or a translation of it. -/
theorem own_shown (ho : Owned dev given h s) (hn : NoCollision h) {t : TextNode}
    (ht : t ∈ s.doc.texts) {e : RestoreEntry} (he : s.restore.entryAt t.absoluteNodePath = some e) :
    shown s.results e = given t.id ∨ Translates dev h (given t.id) (shown s.results e) := by
  obtain ⟨hget, hpath⟩ := RestoreTable.entryAt_spec he
  have htext : e.originalText = given t.id := ho.entries t ht _ e hget hpath
  rcases shown_cases s.results e with hs | ⟨r, hr, hid, hs⟩
  · exact Or.inl (hs.trans htext)
  · obtain ⟨g, hg, c, hc, rfl⟩ := ho.collected _ _ hget
    have hcol := collects_of_collectedBy hc
    refine Or.inr ⟨r, ho.answered r hr, hs.symm, ⟨g, hg, c, hc, ?_⟩, fun g' hg' c' hc' hid' => ?_⟩
    · rw [hid, hcol.segmentId]
    · rw [(hn g' hg' g hg c' hc' c hc (hid'.trans (hid.trans hcol.segmentId))).2,
        hcol.segment_eq.1, htext]

theorem applyToDom (ho : Owned dev given h s) (hn : NoCollision h) :
    Owned dev given h s.applyToDom := by
  by_cases hm : s.mode = .original
  · rw [s.applyToDom_original hm]
    exact ho
  · have htexts : s.applyToDom.doc.texts = s.doc.texts := Document.texts_congr s.applyToDom_tree
    obtain ⟨doc, applying, happly⟩ := s.applyToDom_eq
    have hrestore : s.applyToDom.restore = s.restore := by rw [happly]
    have hresults : s.applyToDom.results = s.results := by rw [happly]
    constructor
    · rw [htexts, hrestore]
      exact ho.entries
    · intro t ht he
      rw [htexts] at ht
      rw [hrestore] at he
      rw [s.applyToDom_data hm ht, he]
      exact ho.bare t ht he
    · intro t ht
      rw [htexts] at ht
      rw [s.applyToDom_data hm ht]
      cases he : s.restore.entryAt t.absoluteNodePath with
      | none => exact Or.inl (ho.bare t ht he)
      | some e => exact ho.own_shown hn ht he
    · rw [hrestore]
      exact ho.collected
    · rw [hresults]
      exact ho.answered

/-- After a restore every text node shows its own text. -/
theorem restored (ho : Owned dev given h s) {t : TextNode} (ht : t ∈ s.doc.texts) :
    s.restoreOriginal.doc.data t.id = given t.id := by
  rw [s.restoreOriginal_data ht]
  cases he : s.restore.entryAt t.absoluteNodePath with
  | none => exact ho.bare t ht he
  | some e =>
    obtain ⟨hget, hpath⟩ := RestoreTable.entryAt_spec he
    exact ho.entries t ht _ e hget hpath

theorem restoreOriginal (ho : Owned dev given h s) : Owned dev given h s.restoreOriginal := by
  have htexts : s.restoreOriginal.doc.texts = s.doc.texts :=
    Document.texts_congr s.restoreOriginal_tree
  constructor
  · rw [htexts]
    exact ho.entries
  · intro t ht _
    exact ho.restored (htexts ▸ ht)
  · intro t ht
    exact Or.inl (ho.restored (htexts ▸ ht))
  · exact ho.collected
  · exact ho.answered

theorem setMode (ho : Owned dev given h s) (hn : NoCollision h) (m : PageTranslateMode) :
    Owned dev given h (s.setMode m) := by
  have hm : Owned dev given h { s with mode := m } := ho.congr rfl rfl rfl ho.answered
  unfold Page.setMode
  dsimp only
  split
  · exact hm.restoreOriginal
  · exact hm.applyToDom hn

theorem deliver (ho : Owned dev given h s) : Owned dev given h s.deliver := by
  unfold Page.deliver
  split
  · exact ho
  · exact ho.congr rfl rfl rfl ho.answered

/-- A completion adds its answers. -/
theorem settle (ho : Owned dev given h s) {k : Nat} {outcome : Outcome}
    (hf : f.pre = s ∧ f.label = .settle k outcome) (hn : NoCollision (f :: h))
    (hs : s.settle dev k outcome = some q) : Owned dev given (f :: h) q := by
  have ho' := ho.cons hn
  obtain ⟨c, hc, hq⟩ := Page.settle_cases hs
  have hanswered : ∀ batch, (Page.runTranslation dev c.segments c.lang outcome).2 = .ok batch →
      ∀ r ∈ batch, Answered dev (f :: h) r := by
    intro batch hbatch r hr
    exact ⟨f, List.mem_cons_self, k, outcome, c, batch, hf.2, hf.1 ▸ hc, hbatch, hr⟩
  rcases hq with ⟨-, rfl⟩ | ⟨-, rfl⟩
  · cases hres : (Page.runTranslation dev c.segments c.lang outcome).2 with
    | ok batch =>
      refine Owned.applyToDom ?_ hn
      exact ho'.congr rfl rfl rfl (hanswered batch hres)
    | error message => exact ho'.congr rfl rfl rfl (by simp [Page.settleCall])
  · cases hres : (Page.runTranslation dev c.segments c.lang outcome).2 with
    | ok batch =>
      have happly : Owned dev given (f :: h) (Page.applyToDom
          { s with
            pending := s.pending.delete k
            lastProvisionalSource := (Page.runTranslation dev c.segments c.lang outcome).1
            results := s.results ++ batch }) := by
        refine Owned.applyToDom (ho'.congr rfl rfl rfl fun r hr => ?_) hn
        rcases List.mem_append.1 hr with hr | hr
        · exact ho'.answered r hr
        · exact hanswered batch hres r hr
      exact happly.congr rfl rfl rfl happly.answered
    | error message =>
      have happly : Owned dev given (f :: h) (Page.applyToDom
          { s with
            pending := s.pending.delete k
            lastProvisionalSource := (Page.runTranslation dev c.segments c.lang outcome).1
            lastError := some message }) :=
        Owned.applyToDom (ho'.congr rfl rfl rfl ho'.answered) hn
      exact happly.congr rfl rfl rfl happly.answered

/-- A new table is collected from a page that shows its own text. -/
theorem translateNow (ho : Owned dev given h s) {lang : String}
    (hf : f.pre = s ∧ f.label = .translateNow lang) (hn : NoCollision (f :: h))
    (hshow : ∀ t ∈ s.doc.texts, s.doc.data t.id = given t.id) :
    Owned dev given (f :: h) (s.translateNow lang) where
  entries := by
    intro t ht id e he hpath
    obtain ⟨c, hc, rfl, rfl⟩ := collected_of_get ht he hpath
    rw [(collects_of_mem hc).originalText]
    exact hshow c.node ht
  bare := fun t ht _ => hshow t ht
  own := fun t ht => Or.inl (hshow t ht)
  collected := by
    intro id e he
    obtain ⟨c, hc, rfl⟩ := List.mem_map.1 (RestoreTable.mem_of_get_new he)
    refine ⟨f, List.mem_cons_self, c, ?_, rfl⟩
    unfold collectedBy
    rw [hf.2, hf.1]
    exact hc
  answered := (ho.cons hn).answered

/-- A task of the page that moves no node off or onto a path of the table. -/
theorem edit (ho : Owned dev given h s) {doc : Document} (hdata : doc.data = s.doc.data)
    (hsafe : ∀ t ∈ doc.texts,
      ((s.restore.entryAt t.absoluteNodePath).isSome → t ∈ s.doc.texts) ∧
      (s.restore.entryAt t.absoluteNodePath = none → s.doc.data t.id = given t.id)) :
    Owned dev given h { s with doc } where
  entries := by
    intro t ht id e he hpath
    obtain ⟨e', he'⟩ := RestoreTable.entryAt_of_get he
    rw [hpath] at he'
    exact ho.entries t ((hsafe t ht).1 (by rw [he']; rfl)) id e he hpath
  bare := fun t ht he => by
    rw [hdata]
    exact (hsafe t ht).2 he
  own := fun t ht => by
    rw [hdata]
    cases he : s.restore.entryAt t.absoluteNodePath with
    | none => exact Or.inl ((hsafe t ht).2 he)
    | some e => exact ho.own t ((hsafe t ht).1 (by rw [he]; rfl))
  collected := ho.collected
  answered := ho.answered

/-- A path with an entry keeps one when a batch is collected: an entry that takes an identifier over
was collected at the path of the entry before it. -/
theorem entryAt_none_of_collected (ho : Owned dev given h s) (hn : NoCollision (f :: h))
    (hmem : ∀ c ∈ rootsCollected s.results s.firstBatch (Page.addedRoots s.doc s.buffer),
      c ∈ collectedBy f) {path : String}
    (he : ((Page.addedRoots s.doc s.buffer).foldl (Page.collectRoot s.results)
      s.firstBatch).restore.entryAt path = none) : s.restore.entryAt path = none := by
  by_contra hne
  obtain ⟨e₀, he₀⟩ := Option.ne_none_iff_exists'.1 hne
  obtain ⟨hget₀, hpath₀⟩ := RestoreTable.entryAt_spec he₀
  have hfirst : (s.firstBatch.restore.get e₀.segmentId).isSome := by
    rw [show s.firstBatch.restore.get e₀.segmentId = some e₀ from hget₀]
    rfl
  have hmarked : Marked s.doc s.firstBatch.doc := .refl s.doc
  obtain ⟨e₁, he₁⟩ := Option.isSome_iff_exists.1
    (isSome_foldl_collectRoot s.results hmarked (Or.inr hfirst))
  have hpath₁ : e₁.path = e₀.path := by
    rcases get_foldl_collectRoot he₁ with ⟨c, hc, rfl⟩ | hkept
    · obtain ⟨g, hg, c₀, hc₀, rfl⟩ := ho.collected _ _ hget₀
      refine (hn f List.mem_cons_self g (List.mem_cons_of_mem _ hg) c (hmem c hc) c₀ hc₀ ?_).1
      rw [← (collects_of_collectedBy (hmem c hc)).segmentId,
        ← (collects_of_collectedBy hc₀).segmentId]
      exact RestoreTable.keyed _ he₁
    · rw [show s.firstBatch.restore.get e₀.segmentId = some e₀ from hget₀] at hkept
      cases hkept
      rfl
  obtain ⟨e₂, he₂⟩ := RestoreTable.entryAt_of_get he₁
  rw [hpath₁, hpath₀, he] at he₂
  cases he₂

/-- What a batch has written before the translator is called or the page is shown. -/
theorem collect (ho : Owned dev given h s) (hn : NoCollision (f :: h)) {b : Page.Batch}
    (hb : (Page.addedRoots s.doc s.buffer).foldl (Page.collectRoot s.results) s.firstBatch = b)
    (hmem : ∀ c ∈ rootsCollected s.results s.firstBatch (Page.addedRoots s.doc s.buffer),
      c ∈ collectedBy f)
    (hsafe : ∀ c ∈ rootsCollected s.results s.firstBatch (Page.addedRoots s.doc s.buffer),
      ∀ t ∈ s.doc.texts, c.entry.path = t.absoluteNodePath →
        c.entry.originalText = given t.id) :
    Owned dev given (f :: h) { s with
      buffer := []
      timer := false
      doc := b.doc
      restore := b.restore
      applying := true } := by
  have ho' := ho.cons hn
  have hmarked : Marked s.doc s.firstBatch.doc := .refl s.doc
  have hdoc := hmarked.foldl s.results (Page.addedRoots s.doc s.buffer)
  rw [hb] at hdoc
  have htexts : b.doc.texts = s.doc.texts := Document.texts_congr hdoc.tree
  have hget : ∀ id e, b.restore.get id = some e →
      (∃ c ∈ rootsCollected s.results s.firstBatch (Page.addedRoots s.doc s.buffer),
        c.entry = e) ∨
        s.restore.get id = some e := by
    intro id e he
    rw [← hb] at he
    exact get_foldl_collectRoot he
  constructor
  · intro t ht id e he hpath
    rcases hget id e he with ⟨c, hc, rfl⟩ | he
    · exact hsafe c hc t (htexts ▸ ht) hpath
    · exact ho.entries t (htexts ▸ ht) id e he hpath
  · intro t ht he
    dsimp only
    rw [hdoc.data]
    refine ho.bare t (htexts ▸ ht) (ho.entryAt_none_of_collected hn hmem ?_)
    rw [hb]
    exact he
  · intro t ht
    dsimp only
    rw [hdoc.data]
    exact ho'.own t (htexts ▸ ht)
  · intro id e he
    rcases hget id e he with ⟨c, hc, rfl⟩ | he
    · exact ⟨f, List.mem_cons_self, c, hmem c hc, rfl⟩
    · exact ho'.collected id e he
  · exact ho'.answered

/-- The flush of a batch collects nodes that show their own text. -/
theorem flush (ho : Owned dev given h s) (hf : f.pre = s ∧ f.label = .flush)
    (hn : NoCollision (f :: h))
    (hsafe : ∀ c ∈ s.flushCollected, ∀ t ∈ s.doc.texts, c.entry.path = t.absoluteNodePath →
      c.entry.originalText = given t.id) : Owned dev given (f :: h) s.flush := by
  have ho' := ho.cons hn
  have hmem : ∀ c ∈ s.flushCollected, c ∈ collectedBy f := by
    intro c hc
    unfold collectedBy
    rw [hf.2, hf.1]
    exact hc
  rcases s.flush_cases with ⟨hq, -⟩ | ⟨hg, b, rfl, hcollected, hq⟩
  · rw [hq]
    exact ho'.congr rfl rfl rfl ho'.answered
  · rw [hcollected] at hsafe hmem
    have hbatch := ho.collect hn rfl hmem hsafe
    rcases hq with hq | hq <;> rw [hq]
    · exact hbatch.congr rfl rfl rfl hbatch.answered
    · have happly := hbatch.applyToDom hn
      exact happly.congr rfl rfl rfl happly.answered

/-- One step. -/
theorem step (ho : Owned dev given h s) {e : PageEvent} (hs : s.step dev e = some q)
    (hsafe : PathSafe given ⟨s, e, q⟩) (hn : NoCollision (⟨s, e, q⟩ :: h)) :
    Owned dev given (⟨s, e, q⟩ :: h) q := by
  obtain ⟨r, hr, rfl⟩ := Option.map_eq_some_iff.1 hs
  apply deliver
  cases e with
  | translateNow lang =>
    cases hr
    exact ho.translateNow ⟨rfl, rfl⟩ hn hsafe
  | settle k outcome => exact ho.settle ⟨rfl, rfl⟩ hn hr
  | setMode m =>
    cases hr
    exact (ho.cons hn).setMode hn m
  | restore =>
    cases hr
    exact (ho.cons hn).restoreOriginal
  | edit edits =>
    obtain ⟨doc, hdoc, rfl⟩ := Option.map_eq_some_iff.1 hr
    apply (ho.cons hn).edit (Document.edits_keep hdoc).1
    intro t ht
    apply hsafe t
    rw [Document.texts_congr ({ s with doc } : Page).deliver_doc.1]
    exact ht
  | flush =>
    dsimp only at hr
    split at hr
    · cases hr
      exact ho.flush ⟨rfl, rfl⟩ hn hsafe
    · cases hr

theorem of_run {d : Document} (hr : Run (Page.step dev) (Page.fresh d) h s)
    (hsafe : ∀ f ∈ h, PathSafe d.data f) (hn : NoCollision h) : Owned dev d.data h s := by
  refine hr.invWhen (PathSafe d.data) (fun h s => NoCollision h → Owned dev d.data h s)
    (fun _ => fresh d) ?_ hsafe hn
  intro h s e q _ ho hf hs hn
  exact (ho hn.tail).step hs hf hn

end Owned

/-- In the runs that keep the paths of the table with their nodes, every text node shows its own
text or a translation of it, and after every restore it shows its own text. -/
theorem own_text {dev : Bool} {d : Document} {h : List (Fired Page PageEvent)} {s : Page}
    (hr : Run (Page.step dev) (Page.fresh d) h s) (hsafe : ∀ f ∈ h, PathSafe d.data f)
    (hn : NoCollision h) :
    (∀ t ∈ s.doc.texts, s.doc.data t.id = d.data t.id ∨
      Translates dev h (d.data t.id) (s.doc.data t.id)) ∧
    ∀ f ∈ h, f.label = .restore ∨ f.label = .setMode .original →
      ∀ t ∈ f.post.doc.texts, f.post.doc.data t.id = d.data t.id := by
  refine ⟨(Owned.of_run hr hsafe hn).own, fun f hf hlabel t ht => ?_⟩
  obtain ⟨hs, h', hr', hsub⟩ := hr.mem hf
  have ho : Owned dev d.data h' f.pre := Owned.of_run hr' (fun g hg => hsafe g (hsub g hg))
    fun g hg g' hg' => hn g (hsub g hg) g' (hsub g' hg')
  have hpost : f.post = f.pre.restoreOriginal.deliver := by
    rcases hlabel with hl | hl <;> rw [hl] at hs <;>
      simpa [Page.step, Page.setMode, Page.restoreOriginal] using hs.symm
  have hdeliver := f.pre.restoreOriginal.deliver_doc
  rw [hpost, hdeliver.2.1]
  apply ho.restored
  rw [hpost, Document.texts_congr (hdeliver.1.trans f.pre.restoreOriginal_tree)] at ht
  exact ht

instance (given : NodeId → String) (f : Fired Page PageEvent) : Decidable (PathSafe given f) :=
  match f with
  | ⟨pre, .translateNow _, _⟩ =>
    inferInstanceAs (Decidable (∀ t ∈ pre.doc.texts, pre.doc.data t.id = given t.id))
  | ⟨pre, .flush, _⟩ =>
    inferInstanceAs (Decidable (∀ c ∈ pre.flushCollected, ∀ t ∈ pre.doc.texts,
      c.entry.path = t.absoluteNodePath → c.entry.originalText = given t.id))
  | ⟨pre, .edit _, post⟩ =>
    inferInstanceAs (Decidable (∀ t ∈ post.doc.texts,
      ((pre.restore.entryAt t.absoluteNodePath).isSome → t ∈ pre.doc.texts) ∧
      (pre.restore.entryAt t.absoluteNodePath = none → pre.doc.data t.id = given t.id)))
  | ⟨_, .settle _ _, _⟩ | ⟨_, .setMode _, _⟩ | ⟨_, .restore, _⟩ => .isTrue trivial

/-- The page whose second paragraph is still to come. -/
def newsPage : Document :=
  { helloPage with data := fun n => if n = 2 then "Hello" else if n = 4 then "News" else "" }

/-- The second paragraph is inserted behind the translated one, and the page is restored. -/
def insertedAfter : List PageEvent :=
  [.translateNow "fr", .settle 0 (answer "seg_9bcdc586" "Bonjour"),
    .edit [.create (.element 3 "P" (.text 4 .nil) .nil), .insert 3 0 1 false], .flush, .restore]

theorem own_text_insertedAfter : ∃ h s, Run (Page.step false) (Page.fresh newsPage) h s ∧
    h.map Fired.label = insertedAfter.reverse ∧
    ∀ f ∈ h, f.label = .restore ∨ f.label = .setMode .original →
      ∀ t ∈ f.post.doc.texts, f.post.doc.data t.id = newsPage.data t.id := by
  have hend : (exec (Page.step false) (Page.fresh newsPage) insertedAfter).map
      (fun x => (decide (∀ f ∈ x.1, PathSafe newsPage.data f), decide (NoCollision x.1))) =
        some (true, true) := by decide +kernel
  obtain ⟨⟨h, s⟩, hx, hfacts⟩ := Option.map_eq_some_iff.1 hend
  simp only [Prod.mk.injEq, decide_eq_true_eq] at hfacts
  exact ⟨h, s, exec_run hx, exec_labels hx, (own_text (exec_run hx) hfacts.1 hfacts.2).2⟩

/-- The second paragraph is inserted in front of the translated one. -/
def insertedBefore : List PageEvent :=
  [.translateNow "fr", .settle 0 (answer "seg_9bcdc586" "Bonjour"),
    .edit [.create (.element 3 "P" (.text 4 .nil) .nil), .insert 3 0 0 false], .restore]

/-- The restored page shows the text of the first paragraph in the second one, and the first one
stays translated. -/
theorem not_own_text_insertedBefore :
    ∃ h s, Run (Page.step false) (Page.fresh newsPage) h s ∧
      h.map Fired.label = insertedBefore.reverse ∧ s.pending.keys = [] ∧
      s.doc.data 2 = "Bonjour" ∧ s.doc.data 4 = "Hello" ∧
      ¬ (∀ t ∈ s.doc.texts, s.doc.data t.id = newsPage.data t.id) ∧
      ¬ ∀ t ∈ s.doc.texts, s.doc.data t.id = newsPage.data t.id ∨
        Translates false h (newsPage.data t.id) (s.doc.data t.id) := by
  have hend : (exec (Page.step false) (Page.fresh newsPage) insertedBefore).map
      (fun x => (x.2.pending.keys, x.2.doc.data 2, x.2.doc.data 4,
        decide (∃ t ∈ x.2.doc.texts, t.id = 4),
        x.1.flatMap fun f => (collectedBy f).map fun c => c.segment.originalText)) =
        some ([], "Bonjour", "Hello", true, ["Hello"]) := by decide +kernel
  obtain ⟨⟨h, s⟩, hx, hfacts⟩ := Option.map_eq_some_iff.1 hend
  simp only [Prod.mk.injEq, decide_eq_true_eq] at hfacts
  obtain ⟨hpending, h2, h4, ⟨t, ht, hid⟩, hcollected⟩ := hfacts
  refine ⟨h, s, exec_run hx, exec_labels hx, hpending, h2, h4, fun hall => ?_, fun hall => ?_⟩
  · have := hall t ht
    rw [hid, h4] at this
    exact absurd this (by decide)
  · -- the only text that was ever collected is the one of the first paragraph
    have := hall t ht
    rw [hid, h4] at this
    rcases this with hne | ⟨r, -, -, ⟨f, hf, c, hc, hcid⟩, honly⟩
    · exact absurd hne (by decide)
    · have htext := honly f hf c hc hcid
      have hmem : c.segment.originalText ∈
          h.flatMap fun f => (collectedBy f).map fun c => c.segment.originalText :=
        List.mem_flatMap.2 ⟨f, hf, List.mem_map.2 ⟨c, hc, rfl⟩⟩
      rw [hcollected, htext] at hmem
      exact absurd hmem (by decide)

end LanguageLlm.PageTranslate
