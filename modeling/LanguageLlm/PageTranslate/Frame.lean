import LanguageLlm.PageTranslate.ModeSwitch

/-!
# What a translation touches

Collection, application and restoration are three walks over the page, which are linked by paths and
segment identifiers alone. After one `translateNow` and any switches of the mode only collected text
nodes show another text, that of a result for their segment, and a restoration gives all texts back
(`translation_frame`), whatever the translator returned.
-/

namespace LanguageLlm.PageTranslate

open Lib

/-- Switches of the mode, between which the timer of the mutations may fire. -/
def switchOps (switches : List (Option PageTranslateMode)) : List Op :=
  switches.map fun
    | some m => .setMode m
    | none => .idle

/-- The results that a call of the translator leaves. -/
def answered (dev : Bool) (d : Document) (lang : String) (outcome : Outcome) :
    List PageTranslateSegmentResult :=
  match (Page.runTranslation dev ((collectTextSegments d d.tree.bodyId collectOptions).map
    Collected.segment) lang outcome).2 with
  | .ok batch => batch
  | .error _ => []

/-- What `collectTextSegments` collects from the body: a text node below no skipped and no editable
element, which is not blank. -/
structure Collectable (d : Document) (t : TextNode) : Prop where
  mem : t ∈ d.texts
  notSkipped : ∀ a ∈ t.ancestors, shouldSkipElement a.tagName collectOptions = false
  notEditable : ∀ a ∈ t.ancestors, d.attributes a.id "contenteditable" ≠ some "true"
  notBlank : trimmed (d.data t.id) ≠ ""

/-- The text node shows the text of a result for its segment. -/
def ShowsResult (d : Document) (results : List PageTranslateSegmentResult) (t : TextNode)
    (text : String) : Prop :=
  ∃ segment, makeSegment t.absoluteNodePath (d.data t.id) = some segment ∧
    ∃ r ∈ results, r.id = segment.id ∧ text = r.translatedText

/-- The texts of the document `d` after a translation with these results, and after a restoration.
-/
structure TranslationFrame (d : Document) (results : List PageTranslateSegmentResult)
    (shown restored : NodeId → String) : Prop where
  changed : ∀ t ∈ d.texts, shown t.id ≠ d.data t.id →
    Collectable d t ∧ ShowsResult d results t (shown t.id)
  outside : ∀ n, (∀ t ∈ d.texts, t.id ≠ n) → shown n = d.data n
  restored : restored = d.data

/-! ## Collection -/

/-- No element above a collected text node is skipped, the body included. -/
theorem not_skips_of_mem {d : Document} {c : Collected}
    (hc : c ∈ collectTextSegments d d.tree.bodyId collectOptions) :
    ∀ a ∈ c.node.ancestors, skips d collectOptions a.id a.tagName = false := by
  unfold collectTextSegments at hc
  rw [d.tree.locate_body] at hc
  dsimp only at hc
  split at hc
  · cases hc
  · next hbody =>
    obtain ⟨t, ht, hcollect⟩ := List.mem_filterMap.1 hc
    rw [(collectText_spec hcollect).1]
    obtain ⟨rest, hrest⟩ := Nodes.walk_above ht
    have hdrop := (Nodes.mem_walk_iff.1 ht).2
    rw [← hrest, List.drop_left] at hdrop
    rw [← hrest, List.singleton_append, List.forall_mem_cons]
    exact ⟨by simpa using hbody, hdrop⟩

theorem collectable_of_mem {d : Document} {c : Collected}
    (hc : c ∈ collectTextSegments d d.tree.bodyId collectOptions) : Collectable d c.node := by
  have hcollects := collects_of_mem hc
  have hsegment := hcollects.segment
  rw [hcollects.originalText] at hsegment
  refine ⟨mem_texts_of_collect hc, fun a ha => ?_, fun a ha => ?_,
    trimmed_ne_of_makeSegment hsegment⟩
  · have hskip := not_skips_of_mem hc a ha
    rw [skips, Bool.or_eq_false_iff] at hskip
    exact hskip.1
  · have hskip := not_skips_of_mem hc a ha
    rw [skips, Bool.or_eq_false_iff] at hskip
    simpa [collectOptions] using hskip.2

/-! ## The switches -/

/-- The restore table of a translation of `d`. -/
def translated (d : Document) : RestoreTable :=
  .new ((collectTextSegments d d.tree.bodyId collectOptions).map Collected.entry)

/-- A page on which `d` was translated once: every text is the given one, or the translation of the
entry of its node. -/
structure Touched (d : Document) (batch : List PageTranslateSegmentResult) (p : Page) : Prop where
  tree : p.doc.tree = d.tree
  restore : p.restore = translated d
  results : p.results = batch
  quiet : p.Quiet
  inside : ∀ t ∈ d.texts, p.doc.data t.id = d.data t.id ∨
    ∃ e, (translated d).entryAt t.absoluteNodePath = some e ∧ p.doc.data t.id = shown batch e
  outside : ∀ n, (∀ t ∈ d.texts, t.id ≠ n) → p.doc.data n = d.data n

namespace Touched

variable {d : Document} {batch : List PageTranslateSegmentResult} {p q : Page}

theorem texts (h : Touched d batch p) : p.doc.texts = d.texts := Document.texts_congr h.tree

/-- The entry of a text node has its given text. -/
theorem originalText {t : TextNode} {e : RestoreEntry} (ht : t ∈ d.texts)
    (he : (translated d).entryAt t.absoluteNodePath = some e) : e.originalText = d.data t.id := by
  obtain ⟨c, hc, rfl, rfl⟩ := collected_of_entryAt ht he
  exact (collects_of_mem hc).originalText

theorem deliver (h : Touched d batch p) : Touched d batch p.deliver := by
  obtain ⟨htree, hdata, hrestore⟩ := p.deliver_doc
  have hresults : p.deliver.results = p.results := by
    unfold Page.deliver
    split <;> rfl
  refine ⟨htree.trans h.tree, hrestore.trans h.restore, hresults.trans h.results, h.quiet.deliver,
    ?_, ?_⟩
  · rw [hdata]
    exact h.inside
  · rw [hdata]
    exact h.outside

/-- The mode does not matter. -/
theorem mode (h : Touched d batch p) (m : PageTranslateMode) :
    Touched d batch { p with mode := m } :=
  ⟨h.tree, h.restore, h.results, h.quiet, h.inside, h.outside⟩

theorem applyToDom (h : Touched d batch p) : Touched d batch p.applyToDom := by
  obtain ⟨doc, applying, heq⟩ := p.applyToDom_eq
  refine ⟨p.applyToDom_tree.trans h.tree, ?_, ?_, h.quiet.applyToDom, fun t ht => ?_,
    fun n hn => ?_⟩
  · rw [heq]
    exact h.restore
  · rw [heq]
    exact h.results
  · by_cases hm : p.mode = .original
    · rw [p.applyToDom_original hm]
      exact h.inside t ht
    · rw [p.applyToDom_data hm (h.texts ▸ ht), h.restore, h.results]
      cases he : (translated d).entryAt t.absoluteNodePath with
      | none => exact (h.inside t ht).imp_right fun ⟨e, he', _⟩ => by rw [he] at he'; cases he'
      | some e => exact Or.inr ⟨e, rfl, rfl⟩
  · rw [p.applyToDom_data_notMem (h.texts ▸ hn)]
    exact h.outside n hn

/-- A restoration gives every text back. -/
theorem restored (h : Touched d batch p) : p.restoreOriginal.doc.data = d.data := by
  funext n
  by_cases hn : ∃ t ∈ d.texts, t.id = n
  · obtain ⟨t, ht, rfl⟩ := hn
    rw [p.restoreOriginal_data (h.texts ▸ ht), h.restore]
    cases he : (translated d).entryAt t.absoluteNodePath with
    | some e => exact originalText ht he
    | none =>
      rcases h.inside t ht with hdata | ⟨e, he', -⟩
      · exact hdata
      · rw [he] at he'
        cases he'
  · simp only [not_exists, not_and] at hn
    rw [p.restoreOriginal_data_notMem (h.texts ▸ hn)]
    exact h.outside n hn

theorem restoreOriginal (h : Touched d batch p) : Touched d batch p.restoreOriginal :=
  ⟨p.restoreOriginal_tree.trans h.tree, h.restore, h.results, h.quiet.restoreOriginal,
    fun t _ => Or.inl (congrFun h.restored t.id), fun n _ => congrFun h.restored n⟩

theorem setMode (h : Touched d batch p) (m : PageTranslateMode) :
    Touched d batch (p.setMode m) := by
  unfold Page.setMode
  dsimp only
  split
  · exact (h.mode m).restoreOriginal
  · exact (h.mode m).applyToDom

/-- The timer of the mutations finds nothing to translate. -/
theorem flush (h : Touched d batch p) : Touched d batch p.flush := by
  rw [h.quiet.flush]
  exact ⟨h.tree, h.restore, h.results,
    fun r hr => h.quiet r (List.mem_append_left _ (by simpa using hr)), h.inside, h.outside⟩

/-- One switch. -/
theorem perform (h : Touched d batch p) (dev : Bool) (switch : Option PageTranslateMode) :
    ∃ q, p.perform dev (match switch with | some m => .setMode m | none => .idle) = some q ∧
      Touched d batch q := by
  cases switch with
  | some m => exact ⟨(p.setMode m).deliver, by simp [Page.perform, Op.events, Page.step],
      (h.setMode m).deliver⟩
  | none =>
    cases ht : p.timer with
    | false => exact ⟨p, by simp [Page.perform, Op.events, ht], h⟩
    | true => exact ⟨p.flush.deliver, by simp [Page.perform, Op.events, Page.step, ht],
        h.flush.deliver⟩

theorem performAll (h : Touched d batch p) (dev : Bool)
    (switches : List (Option PageTranslateMode)) :
    ∃ q, p.performAll dev (switchOps switches) = some q ∧ Touched d batch q := by
  induction switches generalizing p with
  | nil => exact ⟨p, rfl, h⟩
  | cons switch switches ih =>
    obtain ⟨r, hr, htouched⟩ := h.perform dev switch
    obtain ⟨q, hq, hend⟩ := ih htouched
    refine ⟨q, ?_, hend⟩
    unfold Page.performAll at hq ⊢
    rw [switchOps, List.map_cons, List.foldlM_cons, hr]
    exact hq

/-- What another text comes from. -/
theorem changed (h : Touched d batch p) {t : TextNode} (ht : t ∈ d.texts)
    (hne : p.doc.data t.id ≠ d.data t.id) :
    Collectable d t ∧ ShowsResult d batch t (p.doc.data t.id) := by
  obtain ⟨e, he, hdata⟩ := (h.inside t ht).resolve_left hne
  have horiginal := originalText ht he
  obtain ⟨c, hc, rfl, rfl⟩ := collected_of_entryAt ht he
  have hcollects := collects_of_mem hc
  refine ⟨collectable_of_mem hc, c.segment, ?_, ?_⟩
  · rw [← hcollects.path, ← hcollects.originalText]
    exact hcollects.segment
  · rcases shown_cases batch c.entry with hshown | ⟨r, hr, hid, hshown⟩
    · rw [hdata, hshown] at hne
      exact absurd horiginal hne
    · exact ⟨r, hr, hid.trans hcollects.segmentId, hdata.trans hshown⟩

theorem frame (h : Touched d batch p) :
    TranslationFrame d batch p.doc.data p.restoreOriginal.doc.data :=
  ⟨fun _ ht => h.changed ht, h.outside, h.restored⟩

/-- A page that was just collected, before anything is applied. -/
theorem collected (hquiet : p.Quiet) (htree : p.doc.tree = d.tree) (hdata : p.doc.data = d.data)
    (hrestore : p.restore = translated d) (hresults : p.results = batch) : Touched d batch p :=
  ⟨htree, hrestore, hresults, hquiet, fun t _ => Or.inl (congrFun hdata t.id),
    fun n _ => congrFun hdata n⟩

/-- The records of the mutations make no difference to what is collected. -/
theorem collectTextSegments_fresh (d : Document) :
    collectTextSegments (Page.fresh d).doc (Page.fresh d).doc.tree.bodyId collectOptions =
      collectTextSegments d d.tree.bodyId collectOptions := by
  have hdata : (Page.fresh d).doc.data = d.data := rfl
  have hskips : skips (Page.fresh d).doc collectOptions = skips d collectOptions := rfl
  have hcollect : collectText (Page.fresh d).doc collectOptions = collectText d collectOptions := by
    funext t
    simp only [collectText, hdata]
  rw [collectTextSegments, hskips, hcollect]
  rfl

theorem restore_translateNow (d : Document) (lang : String) :
    ((Page.fresh d).translateNow lang).restore = translated d := by
  rw [translated, ← collectTextSegments_fresh]
  rfl

/-- A first `translateNow`. -/
theorem translateNow (dev : Bool) (d : Document) (lang : String) (outcome : Outcome) :
    ∃ p, (Page.fresh d).perform dev (.translateNow lang outcome) = some p ∧
      Touched d (answered dev d lang outcome) p := by
  obtain ⟨q, hs⟩ := Page.settle_isSome dev outcome ((Page.fresh d).translateNow_pending lang)
  refine ⟨q.deliver, by simp [Page.perform, Op.events, Page.step, hs], deliver ?_⟩
  obtain ⟨htree, hdata, hrestore⟩ := ((Page.fresh d).translateNow lang).deliver_doc
  have hquiet : ((Page.fresh d).translateNow lang).deliver.Quiet := by
    apply Page.Quiet.deliver
    intro r hr
    cases hr
  rw [restore_translateNow] at hrestore
  have hcollected : ∀ r : Page, r.doc = ((Page.fresh d).translateNow lang).deliver.doc →
      r.restore = ((Page.fresh d).translateNow lang).deliver.restore →
      r.buffer = ((Page.fresh d).translateNow lang).deliver.buffer → Touched d r.results r := by
    intro r hdoc hr hbuffer
    refine collected (fun x hx => hquiet x ?_) ?_ ?_ (hr.trans hrestore) rfl
    · rwa [hdoc, hbuffer] at hx
    · rw [hdoc, htree]
      rfl
    · rw [hdoc, hdata]
      rfl
  obtain ⟨c, hc, ⟨-, rfl⟩ | ⟨hbatch, -⟩⟩ := Page.settle_cases hs
  all_goals
    rw [Page.translateNow_pending] at hc
    cases hc
  · rw [answered, ← collectTextSegments_fresh]
    dsimp only
    cases (Page.runTranslation dev ((collectTextSegments (Page.fresh d).doc
      (Page.fresh d).doc.tree.bodyId collectOptions).map Collected.segment) lang outcome).2 with
    | ok batch =>
      exact applyToDom (hcollected { ((Page.fresh d).translateNow lang).deliver with
        lastProvisionalSource := _, results := batch, mode := .translated, pending :=
          _ } rfl rfl rfl)
    | error message => exact hcollected (Page.settleCall _ _ (.error message)) rfl rfl rfl
  · cases hbatch

end Touched

/-- For every document, every answer of the translator and every sequence of switches after one
completed `translateNow`: only collected text nodes show another text, that of a result for their
segment, and a restoration gives every text back. -/
theorem translation_frame (dev : Bool) (d : Document) (lang : String) (outcome : Outcome)
    (switches : List (Option PageTranslateMode)) :
    (∀ (html : Nodes) (index : Nat), ∀ t ∈ html.texts [] index, ∀ u ∈ html.texts [] index,
      t.absoluteNodePath = u.absoluteNodePath → t = u) ∧
    ∃ p q, (Page.fresh d).performAll dev (.translateNow lang outcome :: switchOps switches) =
      some p ∧
      p.perform dev .restore = some q ∧ p.doc.tree = d.tree ∧
        TranslationFrame d (answered dev d lang outcome) p.doc.data q.doc.data := by
  refine ⟨fun html index t ht u hu => Nodes.texts_path_inj ht hu, ?_⟩
  obtain ⟨r, hr, htouched⟩ := Touched.translateNow dev d lang outcome
  obtain ⟨p, hp, hend⟩ := htouched.performAll dev switches
  refine ⟨p, p.restoreOriginal.deliver, ?_, by simp [Page.perform, Op.events, Page.step], hend.tree,
    ?_⟩
  · unfold Page.performAll at hp ⊢
    rw [List.foldlM_cons, hr]
    exact hp
  · rw [p.restoreOriginal.deliver_doc.2.1]
    exact hend.frame

end LanguageLlm.PageTranslate
