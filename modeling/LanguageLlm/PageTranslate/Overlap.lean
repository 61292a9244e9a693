import LanguageLlm.PageTranslate.ModeSwitch

/-!
# Overlapping calls

Several calls of `translateNow` await the translator at once and write the same variables when it
settles. `last_wins` says when the call that was requested last determines what remains: when it is
requested on a page that shows its original text and is the last to complete.
-/

namespace LanguageLlm.PageTranslate

open Lib

/-- The requests and the completions of calls; the timer of the mutations may fire in between. -/
def PageEvent.IsCall : PageEvent → Prop
  | .translateNow _ | .settle _ _ | .flush => True
  | .setMode _ | .restore | .edit _ => False

/-- The call gets a batch: from the translator, or from the mock of a development build. -/
def Outcome.succeeds (dev : Bool) : Outcome → Bool
  | .resolved _ => true
  | .rejected _ => dev

/-- The recorded state, the restore table and the document agree. -/
structure SameState (s r : Page) : Prop where
  mode : s.mode = r.mode
  restore : s.restore = r.restore
  results : s.results = r.results
  targetLang : s.targetLang = r.targetLang
  lastError : s.lastError = r.lastError
  source : s.lastProvisionalSource = r.lastProvisionalSource
  dom : SameDom s.doc r.doc

/-- The last requested call, for `lang`, completes last, with `outcome`. It is requested while the
page shows the text of `d`. If it succeeds, no other call fails after its request; if it fails, no
other call succeeds. -/
def LastCompletesLast (dev : Bool) (d : Document) (h : List (Fired Page PageEvent)) (lang : String)
    (outcome : Outcome) : Prop :=
  ∃ (before between after : List (Fired Page PageEvent)) (p p' q q' : Page),
    h = after ++ ⟨q, .settle p.serial outcome, q'⟩ ::
      (between ++ ⟨p, .translateNow lang, p'⟩ :: before) ∧
    (∀ f ∈ after, f.label = .flush) ∧
    (∀ f ∈ between, ∀ lang, f.label ≠ .translateNow lang) ∧
    (∀ t ∈ d.texts, p.doc.data t.id = d.data t.id) ∧
    (outcome.succeeds dev = true → ∀ f ∈ between, ∀ k o, f.label = .settle k o →
      o.succeeds dev = true) ∧
    (outcome.succeeds dev = false → ∀ f ∈ between ++ before, ∀ k o, f.label = .settle k o →
      o.succeeds dev = false)

namespace SameState

theorem refl (s : Page) : SameState s s := ⟨rfl, rfl, rfl, rfl, rfl, rfl, .refl _⟩

theorem symm {s r : Page} (h : SameState s r) : SameState r s :=
  ⟨h.mode.symm, h.restore.symm, h.results.symm, h.targetLang.symm, h.lastError.symm, h.source.symm,
    h.dom.symm⟩

theorem trans {s r t : Page} (h : SameState s r) (h' : SameState r t) : SameState s t :=
  ⟨h.mode.trans h'.mode, h.restore.trans h'.restore, h.results.trans h'.results,
    h.targetLang.trans h'.targetLang, h.lastError.trans h'.lastError, h.source.trans h'.source,
    h.dom.trans h'.dom⟩

theorem deliver (p : Page) : SameState p p.deliver := by
  unfold Page.deliver
  split <;> exact ⟨rfl, rfl, rfl, rfl, rfl, rfl, rfl, rfl, rfl⟩

theorem flush {p : Page} (h : p.Quiet) : SameState p p.flush := by
  rw [h.flush]
  exact ⟨rfl, rfl, rfl, rfl, rfl, rfl, .refl _⟩

end SameState

/-! ## Runs of calls -/

/-- What every run of calls keeps. -/
structure Calling (d : Document) (s : Page) : Prop where
  quiet : s.Quiet
  tree : s.doc.tree = d.tree
  attributes : s.doc.attributes = d.attributes
  data : ∀ n, (∀ t ∈ d.texts, t.id ≠ n) → s.doc.data n = d.data n
  mode : s.mode ≠ .dual
  calls : ∀ k c, s.pending.get? k = some c → c.purpose = .call

namespace Calling

variable {d : Document} {p q : Page}

theorem texts (h : Calling d p) : p.doc.texts = d.texts := Document.texts_congr h.tree

theorem fresh (d : Document) : Calling d (Page.fresh d) where
  quiet := fun r hr => by simp [Page.fresh] at hr
  tree := rfl
  attributes := rfl
  data := fun _ _ => rfl
  mode := by simp [Page.fresh]
  calls := fun k c hc => by simp [Page.fresh] at hc

theorem deliver (h : Calling d p) : Calling d p.deliver := by
  have hq := h.quiet.deliver
  revert hq
  unfold Page.deliver
  split
  · exact fun _ => h
  · exact fun hq => ⟨hq, h.tree, h.attributes, h.data, h.mode, h.calls⟩

theorem translateNow (h : Calling d p) (lang : String) : Calling d (p.translateNow lang) where
  quiet := h.quiet
  tree := h.tree
  attributes := h.attributes
  data := h.data
  mode := h.mode
  calls := by
    intro k c hc
    simp only [Page.translateNow, Page.translateSegments, OrderedMap.get?_set] at hc
    split at hc
    · cases hc; rfl
    · exact h.calls k c hc

theorem applyToDom (h : Calling d p) (hm : p.mode = .translated) : Calling d p.applyToDom := by
  obtain ⟨doc, applying, happly⟩ := p.applyToDom_eq
  refine ⟨h.quiet.applyToDom, p.applyToDom_tree.trans h.tree,
    (Page.applyToDom_translated_attributes hm).trans h.attributes, fun n hn => ?_, ?_, ?_⟩
  · rw [p.applyToDom_data_notMem (by rw [h.texts]; exact hn)]
    exact h.data n hn
  · rw [happly]
    exact h.mode
  · rw [happly]
    exact h.calls

theorem settleCall (h : Calling d p) (source : ProvisionalSource)
    (result : Except String (List PageTranslateSegmentResult)) :
    Calling d (p.settleCall source result) := by
  cases result with
  | ok batch =>
    have hr : Calling d
        { p with lastProvisionalSource := source, results := batch, mode := .translated } :=
      ⟨h.quiet, h.tree, h.attributes, h.data, by simp, h.calls⟩
    exact hr.applyToDom rfl
  | error message => exact ⟨h.quiet, h.tree, h.attributes, h.data, h.mode, h.calls⟩

/-- A completion in a run of calls is that of a call. -/
theorem settle_eq (h : Calling d p) {dev : Bool} {k : Nat} {outcome : Outcome}
    (hs : p.settle dev k outcome = some q) : ∃ c, p.pending.get? k = some c ∧
      q = { p with pending := p.pending.delete k }.settleCall
        (Page.runTranslation dev c.segments c.lang outcome).1
        (Page.runTranslation dev c.segments c.lang outcome).2 := by
  obtain ⟨c, hc, ⟨-, hq⟩ | ⟨hbatch, -⟩⟩ := Page.settle_cases hs
  · exact ⟨c, hc, hq⟩
  · rw [h.calls k c hc] at hbatch
    cases hbatch

/-- A completion does not request anything. -/
theorem delete (h : Calling d p) (k : Nat) :
    Calling d { p with pending := p.pending.delete k } := by
  refine ⟨h.quiet, h.tree, h.attributes, h.data, h.mode, fun j c hc => ?_⟩
  simp only [OrderedMap.get?_delete] at hc
  split at hc
  · cases hc
  · exact h.calls j c hc

theorem step (h : Calling d p) {dev : Bool} {e : PageEvent} (he : e.IsCall)
    (hs : p.step dev e = some q) : Calling d q := by
  obtain ⟨r, hr, rfl⟩ := Option.map_eq_some_iff.1 hs
  refine Calling.deliver ?_
  cases e with
  | translateNow lang =>
    cases hr
    exact h.translateNow lang
  | settle k outcome =>
    obtain ⟨c, -, rfl⟩ := h.settle_eq hr
    exact (h.delete k).settleCall _ _
  | flush =>
    dsimp only at hr
    split at hr <;> cases hr
    rw [h.quiet.flush]
    refine ⟨fun r hr => h.quiet r ?_, h.tree, h.attributes, h.data, h.mode, h.calls⟩
    exact List.mem_append_left _ (by simpa using hr)
  | setMode m => cases he
  | restore => cases he
  | edit edits => cases he

theorem of_run {dev : Bool} {h : List (Fired Page PageEvent)}
    (hr : Run (Page.step dev) (Page.fresh d) h p) (hc : ∀ f ∈ h, f.label.IsCall) : Calling d p :=
  hr.invWhen (fun f => f.label.IsCall) (fun _ s => Calling d s) (fresh d)
    (fun _ _ _ _ _ hI hf hs => hI.step hf hs) hc

end Calling

/-! ## The mode before the first success -/

theorem runTranslation_ok {dev : Bool} {outcome : Outcome} (segments : List PageSegment)
    (lang : String) (h : outcome.succeeds dev = true) :
    ∃ batch, (Page.runTranslation dev segments lang outcome).2 = .ok batch := by
  cases outcome with
  | resolved batch => exact ⟨batch, rfl⟩
  | rejected message =>
    cases h
    exact ⟨_, rfl⟩

theorem runTranslation_error {dev : Bool} {outcome : Outcome} (segments : List PageSegment)
    (lang : String) (h : outcome.succeeds dev = false) :
    ∃ message, Page.runTranslation dev segments lang outcome = (.none, .error message) := by
  cases outcome with
  | resolved batch => cases h
  | rejected message =>
    cases h
    exact ⟨message, rfl⟩

/-- While no call has succeeded the page is as it was. -/
theorem untouched_step {d : Document} {p q : Page} (h : Calling d p) {dev : Bool} {e : PageEvent}
    (he : e.IsCall) (hfail : ∀ k o, e = .settle k o → o.succeeds dev = false)
    (hm : p.mode = .original) (hs : p.step dev e = some q) :
    q.mode = .original ∧ SameDom p.doc q.doc := by
  obtain ⟨r, hr, rfl⟩ := Option.map_eq_some_iff.1 hs
  have hdeliver := SameState.deliver r
  rw [← hdeliver.mode]
  suffices r.mode = .original ∧ SameDom p.doc r.doc from ⟨this.1, this.2.trans hdeliver.dom⟩
  cases e with
  | translateNow lang =>
    cases hr
    exact ⟨hm, .refl _⟩
  | settle k outcome =>
    obtain ⟨c, -, rfl⟩ := h.settle_eq hr
    obtain ⟨message, herror⟩ := runTranslation_error c.segments c.lang
      (hfail k outcome rfl)
    rw [herror]
    exact ⟨hm, .refl _⟩
  | flush =>
    dsimp only at hr
    split at hr <;> cases hr
    have hf := SameState.flush h.quiet
    exact ⟨hf.mode ▸ hm, hf.dom⟩
  | setMode m => cases he
  | restore => cases he
  | edit edits => cases he

theorem untouched {dev : Bool} {d : Document} {h : List (Fired Page PageEvent)} {p q : Page}
    (hp : Calling d p) (hm : p.mode = .original) (hr : Run (Page.step dev) p h q)
    (hc : ∀ f ∈ h, f.label.IsCall)
    (hfail : ∀ f ∈ h, ∀ k o, f.label = .settle k o → o.succeeds dev = false) :
    q.mode = .original ∧ SameDom p.doc q.doc := by
  refine (hr.invWhen (fun f => f.label.IsCall ∧
    ∀ k o, f.label = .settle k o → o.succeeds dev = false)
    (fun _ s => Calling d s ∧ s.mode = .original ∧ SameDom p.doc s.doc)
    ⟨hp, hm, .refl _⟩ ?_ fun f hf => ⟨hc f hf, hfail f hf⟩).2
  rintro _ s e s' - ⟨hs, hm, hd⟩ ⟨he, hfail⟩ hstep
  obtain ⟨hm', hd'⟩ := untouched_step hs he hfail hm hstep
  exact ⟨hs.step he hstep, hm', hd.trans hd'⟩

/-! ## Between the last request and its completion -/

/-- The state while the last requested call, number `k`, is pending. -/
structure Awaiting (dev : Bool) (d : Document) (lang : String) (outcome : Outcome) (k : Nat)
    (s : Page) : Prop where
  calling : Calling d s
  restore : s.restore = ((Page.fresh d).translateNow lang).restore
  targetLang : s.targetLang = lang
  lastError : outcome.succeeds dev = true → s.lastError = none
  untranslated : ∀ t ∈ d.texts, s.restore.entryAt t.absoluteNodePath = none →
    s.doc.data t.id = d.data t.id
  pending : ∀ c, s.pending.get? k = some c → c.lang = lang ∧ c.segments =
    (collectTextSegments d d.tree.bodyId collectOptions).map Collected.segment

namespace Awaiting

variable {dev : Bool} {d : Document} {lang : String} {outcome : Outcome} {k : Nat} {p q : Page}

theorem collect_congr {d d' : Document} (h : SameDom d d') (root : NodeId)
    (opts : DomSegmentOptions) :
    collectTextSegments d root opts = collectTextSegments d' root opts := by
  obtain ⟨tree, data, attributes, records⟩ := d
  obtain ⟨tree', data', attributes', records'⟩ := d'
  obtain ⟨rfl, rfl, rfl⟩ := h
  rfl

/-- The request on a page that shows its original text. -/
theorem request (h : Calling d p) (hd : ∀ t ∈ d.texts, p.doc.data t.id = d.data t.id) :
    Awaiting dev d lang outcome p.serial (p.translateNow lang) := by
  have hsame : SameDom p.doc d := by
    refine ⟨h.tree, ?_, h.attributes⟩
    funext n
    by_cases hn : ∃ t ∈ d.texts, t.id = n
    · obtain ⟨t, ht, rfl⟩ := hn
      exact hd t ht
    · simp only [not_exists, not_and] at hn
      exact h.data n hn
  have hcollect : collectTextSegments p.doc p.doc.tree.bodyId collectOptions =
      collectTextSegments d d.tree.bodyId collectOptions := by
    rw [collect_congr hsame, h.tree]
  refine ⟨h.translateNow lang, ?_, rfl, fun _ => rfl, fun t ht _ => hd t ht, ?_⟩
  · simp only [Page.translateNow, Page.translateSegments, hcollect]
    rfl
  · intro c hc
    have hget : (p.translateNow lang).pending.get? p.serial = some _ := OrderedMap.get?_set_self ..
    rw [hget] at hc
    cases hc
    exact ⟨rfl, by rw [hcollect]⟩

theorem deliver (h : Awaiting dev d lang outcome k p) :
    Awaiting dev d lang outcome k p.deliver := by
  have hc := h.calling.deliver
  revert hc
  unfold Page.deliver
  split
  · exact fun _ => h
  · exact fun hc => ⟨hc, h.restore, h.targetLang, h.lastError, h.untranslated, h.pending⟩

/-- What a completion with a batch changes besides the document. -/
theorem settleCall_ok (s : Page) (source : ProvisionalSource)
    (batch : List PageTranslateSegmentResult) :
    ∃ doc applying, s.settleCall source (.ok batch) =
      { s with
        lastProvisionalSource := source
        results := batch
        mode := .translated
        doc
        applying } := by
  unfold Page.settleCall
  obtain ⟨doc, applying, h⟩ := Page.applyToDom_eq
    { s with lastProvisionalSource := source, results := batch, mode := .translated }
  exact ⟨doc, applying, h⟩

/-- Another call completes while the last one is pending. -/
theorem step (h : Awaiting dev d lang outcome k p) {e : PageEvent} (he : e.IsCall)
    (hne : ∀ lang, e ≠ .translateNow lang)
    (hok : outcome.succeeds dev = true → ∀ k o, e = .settle k o → o.succeeds dev = true)
    (hs : p.step dev e = some q) : Awaiting dev d lang outcome k q := by
  obtain ⟨r, hr, rfl⟩ := Option.map_eq_some_iff.1 hs
  refine Awaiting.deliver ?_
  cases e with
  | translateNow lang => exact absurd rfl (hne lang)
  | settle j o =>
    obtain ⟨c, -, rfl⟩ := h.calling.settle_eq hr
    have hcalling := (h.calling.delete j).settleCall (Page.runTranslation dev c.segments c.lang o).1
      (Page.runTranslation dev c.segments c.lang o).2
    have hpending : ∀ c, (p.pending.delete j).get? k = some c → p.pending.get? k = some c := by
      intro c hc
      rw [OrderedMap.get?_delete] at hc
      split at hc
      · cases hc
      · exact hc
    cases hres : (Page.runTranslation dev c.segments c.lang o).2 with
    | ok batch =>
      rw [hres] at hcalling
      have hdata : ∀ t ∈ d.texts, p.restore.entryAt t.absoluteNodePath = none →
          (({ p with pending := p.pending.delete j } : Page).settleCall
            (Page.runTranslation dev c.segments c.lang o).1 (.ok batch)).doc.data t.id =
          d.data t.id := by
        intro t ht he
        refine (Page.applyToDom_data _ (by simp) (h.calling.texts ▸ ht)).trans ?_
        rw [he]
        exact h.untranslated t ht he
      obtain ⟨doc, applying, happly⟩ := settleCall_ok { p with pending := p.pending.delete j }
        (Page.runTranslation dev c.segments c.lang o).1 batch
      rw [happly] at hcalling hdata ⊢
      exact ⟨hcalling, h.restore, h.targetLang, h.lastError, hdata,
        fun c hc => h.pending c (hpending c hc)⟩
    | error message =>
      rw [hres] at hcalling
      refine ⟨hcalling, h.restore, h.targetLang, fun hsucceeds => ?_, h.untranslated,
        fun c hc => h.pending c (hpending c hc)⟩
      obtain ⟨batch, hbatch⟩ := runTranslation_ok c.segments c.lang
        (hok hsucceeds j o rfl)
      rw [hres] at hbatch
      cases hbatch
  | flush =>
    have hc := h.calling.step (e := .flush) trivial hs
    dsimp only at hr
    split at hr <;> cases hr
    rw [h.calling.quiet.flush]
    refine ⟨⟨fun r hr => h.calling.quiet r ?_, h.calling.tree, h.calling.attributes, h.calling.data,
      h.calling.mode, h.calling.calls⟩, h.restore, h.targetLang, h.lastError, h.untranslated,
      h.pending⟩
    exact List.mem_append_left _ (by simpa using hr)
  | setMode m => cases he
  | restore => cases he
  | edit edits => cases he

/-- Between the request and its completion. -/
theorem run (h : Awaiting dev d lang outcome k p) {fired : List (Fired Page PageEvent)}
    (hr : Run (Page.step dev) p fired q) (hc : ∀ f ∈ fired, f.label.IsCall)
    (hne : ∀ f ∈ fired, ∀ lang, f.label ≠ .translateNow lang)
    (hok : outcome.succeeds dev = true → ∀ f ∈ fired, ∀ k o, f.label = .settle k o →
      o.succeeds dev = true) :
    Awaiting dev d lang outcome k q := by
  refine hr.invWhen (fun f => f.label.IsCall ∧ (∀ lang, f.label ≠ .translateNow lang) ∧
    (outcome.succeeds dev = true → ∀ k o, f.label = .settle k o → o.succeeds dev = true))
    (fun _ s => Awaiting dev d lang outcome k s) h ?_ ?_
  · exact fun _ s e s' _ hs hf hstep => hs.step hf.1 hf.2.1 hf.2.2 hstep
  · exact fun f hf => ⟨hc f hf, hne f hf, fun hsucceeds => hok hsucceeds f hf⟩

/-- A batch gives every text of the page what it was collected for. -/
theorem settled_data (h : Awaiting dev d lang outcome k p) (source : ProvisionalSource)
    (batch : List PageTranslateSegmentResult) {t : TextNode} (ht : t ∈ d.texts) :
    (({ p with
        pending := p.pending.delete k
        lastProvisionalSource := source
        results := batch
        mode := .translated } : Page).applyToDom).doc.data t.id =
      ((((Page.fresh d).translateNow lang).restore.entryAt t.absoluteNodePath).map
        (shown batch)).getD (d.data t.id) := by
  refine (Page.applyToDom_data _ (by simp) (h.calling.texts ▸ ht)).trans ?_
  dsimp only
  rw [h.restore]
  cases he : ((Page.fresh d).translateNow lang).restore.entryAt t.absoluteNodePath with
  | some e => rfl
  | none => exact h.untranslated t ht (by rw [h.restore]; exact he)

/-- The completion of the last requested call leaves the same, whatever ran before. -/
theorem complete {j : Nat} {p' q' : Page} (h : Awaiting dev d lang outcome k p)
    (h' : Awaiting dev d lang outcome j p')
    (hfail : outcome.succeeds dev = false → p.mode = .original ∧ SameDom d p.doc)
    (hfail' : outcome.succeeds dev = false → p'.mode = .original ∧ SameDom d p'.doc)
    (hs : p.settle dev k outcome = some q) (hs' : p'.settle dev j outcome = some q') :
    SameState q q' := by
  obtain ⟨c, hc, rfl⟩ := h.calling.settle_eq hs
  obtain ⟨c', hc', rfl⟩ := h'.calling.settle_eq hs'
  obtain ⟨hlang, hseg⟩ := h.pending c hc
  obtain ⟨hlang', hseg'⟩ := h'.pending c' hc'
  rw [hlang, hseg, hlang', hseg']
  generalize (collectTextSegments d d.tree.bodyId collectOptions).map Collected.segment = segments
  cases hsucceeds : outcome.succeeds dev with
  | true =>
    obtain ⟨batch, hbatch⟩ := runTranslation_ok segments lang hsucceeds
    rw [hbatch]
    generalize (Page.runTranslation dev segments lang outcome).1 = source
    have hcall := (h.calling.delete k).settleCall source (.ok batch)
    have hcall' := (h'.calling.delete j).settleCall source (.ok batch)
    have hdom : SameDom (({ p with pending := p.pending.delete k } : Page).settleCall source
        (.ok batch)).doc (({ p' with pending := p'.pending.delete j } : Page).settleCall source
        (.ok batch)).doc := by
      refine ⟨hcall.tree.trans hcall'.tree.symm, ?_, hcall.attributes.trans hcall'.attributes.symm⟩
      funext n
      by_cases hn : ∃ t ∈ d.texts, t.id = n
      · obtain ⟨t, ht, rfl⟩ := hn
        exact (h.settled_data source batch ht).trans (h'.settled_data source batch ht).symm
      · simp only [not_exists, not_and] at hn
        exact (hcall.data n hn).trans (hcall'.data n hn).symm
    obtain ⟨doc, applying, he⟩ :=
      settleCall_ok { p with pending := p.pending.delete k } source batch
    obtain ⟨doc', applying', he'⟩ :=
      settleCall_ok { p' with pending := p'.pending.delete j } source batch
    rw [he, he'] at hdom ⊢
    exact ⟨rfl, h.restore.trans h'.restore.symm, rfl, h.targetLang.trans h'.targetLang.symm,
      (h.lastError hsucceeds).trans (h'.lastError hsucceeds).symm, rfl, hdom⟩
  | false =>
    obtain ⟨message, herror⟩ := runTranslation_error segments lang hsucceeds
    obtain ⟨hm, hd⟩ := hfail hsucceeds
    obtain ⟨hm', hd'⟩ := hfail' hsucceeds
    rw [herror]
    exact ⟨hm.trans hm'.symm, h.restore.trans h'.restore.symm, rfl,
      h.targetLang.trans h'.targetLang.symm, rfl, rfl, hd.symm.trans hd'⟩

end Awaiting

/-- Once the calls have settled, only the timer of the mutations fires, and it changes nothing. -/
theorem sameState_flushes {dev : Bool} {d : Document} {h : List (Fired Page PageEvent)} {q s : Page}
    (hcall : Calling d q) (hr : Run (Page.step dev) q h s) (hflush : ∀ f ∈ h, f.label = .flush) :
    SameState q s := by
  refine (hr.invWhen (fun f => f.label = .flush)
    (fun _ s => Calling d s ∧ SameState q s) ⟨hcall, .refl _⟩ ?_ hflush).2
  rintro _ u e u' - ⟨hu, hsu⟩ rfl hstep
  refine ⟨hu.step (e := .flush) trivial hstep, hsu.trans ?_⟩
  obtain ⟨v, hv, rfl⟩ := Option.map_eq_some_iff.1 hstep
  dsimp only at hv
  split at hv <;> cases hv
  exact (SameState.flush hu.quiet).trans (.deliver _)

/-- A call alone on the page leaves it in the original mode until it settles. -/
theorem translateNow_idle (d : Document) (lang : String) :
    ((Page.fresh d).translateNow lang).deliver.mode = .original ∧
      SameDom d ((Page.fresh d).translateNow lang).deliver.doc := by
  have h := SameState.deliver ((Page.fresh d).translateNow lang)
  have hfresh : SameDom d ((Page.fresh d).translateNow lang).doc := ⟨rfl, rfl, rfl⟩
  exact ⟨h.mode.symm, hfresh.trans h.dom⟩

/-- The last requested call wins, as if it had run alone on the original page, when it is requested
on a page that shows its original text and is the last to complete. -/
theorem last_wins {dev : Bool} {d : Document} {h : List (Fired Page PageEvent)} {s : Page}
    {lang : String} {outcome : Outcome} (hr : Run (Page.step dev) (Page.fresh d) h s)
    (hc : ∀ f ∈ h, f.label.IsCall) (hlast : LastCompletesLast dev d h lang outcome) :
    ∃ r, (Page.fresh d).perform dev (.translateNow lang outcome) = some r ∧ SameState s r := by
  obtain ⟨before, between, after, p, p', q, q', rfl, hafter, hbetween, hdata, hok, hfail⟩ := hlast
  have hmem : ∀ f ∈ between ++ ⟨p, .translateNow lang, p'⟩ :: before, f.label.IsCall :=
    fun f hf => hc f (List.mem_append_right _ (List.mem_cons_of_mem _ hf))
  -- the run up to the request, up to the completion, and after it
  obtain ⟨m, hrm, hra⟩ := hr.split
  obtain ⟨hrq, hsettle, hm⟩ := hrm.uncons
  obtain ⟨n, hrn, hrb⟩ := hrq.split
  obtain ⟨hrp, hstart, hn⟩ := hrn.uncons
  dsimp only at hm hn hstart hsettle hrp hrq
  subst hm hn
  have hp : Calling d p := .of_run hrp fun f hf =>
    hmem f (List.mem_append_right _ (List.mem_cons_of_mem _ hf))
  have hp' : Awaiting dev d lang outcome p.serial p' := by
    obtain ⟨_, he, rfl⟩ := Option.map_eq_some_iff.1 hstart
    cases he
    exact (Awaiting.request hp hdata).deliver
  have hq : Awaiting dev d lang outcome p.serial q :=
    hp'.run hrb (fun f hf => hmem f (List.mem_append_left _ hf)) hbetween hok
  have hqfail : outcome.succeeds dev = false → q.mode = .original ∧ SameDom d q.doc := by
    intro hfails
    have hfresh : SameDom d (Page.fresh d).doc := ⟨rfl, rfl, rfl⟩
    refine (untouched (.fresh d) rfl hrq hmem fun f hf k o hl => ?_).imp_right hfresh.trans
    rcases List.mem_append.1 hf with hf | hf
    · exact hfail hfails f (List.mem_append_left _ hf) k o hl
    · rcases List.mem_cons.1 hf with rfl | hf
      · cases hl
      · exact hfail hfails f (List.mem_append_right _ hf) k o hl
  have halone : Awaiting dev d lang outcome (Page.fresh d).serial
      ((Page.fresh d).translateNow lang).deliver :=
    (Awaiting.request (.fresh d) fun _ _ => rfl).deliver
  obtain ⟨r, hsettle', hperform⟩ := Page.perform_settle dev (.fresh d) lang outcome
  obtain ⟨q₁, hq₁, rfl⟩ := Option.map_eq_some_iff.1 hsettle
  have hsame : SameState q₁ r := hq.complete halone hqfail (fun _ => translateNow_idle d lang) hq₁
    hsettle'
  -- only the timer of the mutations fires afterwards
  have hcall : Calling d q₁.deliver :=
    hq.calling.step (e := .settle p.serial outcome) trivial hsettle
  have hend : SameState q₁.deliver s := sameState_flushes hcall hra hafter
  exact ⟨_, hperform, hend.symm.trans ((SameState.deliver q₁).symm.trans
    (hsame.trans (SameState.deliver r)))⟩

/-! ## Two orders of two calls -/

/-- Two calls that complete in the order of their requests. -/
def inOrder : List PageEvent :=
  [.translateNow "fr", .translateNow "de", .settle 0 (answer "seg_9bcdc586" "Bonjour"),
    .settle 1 (answer "seg_9bcdc586" "Hallo")]

/-- The call that was requested last completes first. -/
def outOfOrder : List PageEvent :=
  [.translateNow "fr", .translateNow "de", .settle 1 (answer "seg_9bcdc586" "Hallo"),
    .settle 0 (answer "seg_9bcdc586" "Bonjour")]

theorem last_wins_inOrder :
    ∃ h s r, exec (Page.step false) (Page.fresh helloPage) inOrder = some (h, s) ∧
      (Page.fresh helloPage).perform false (.translateNow "de" (answer "seg_9bcdc586" "Hallo")) =
        some r ∧ s.doc.data 2 = "Hallo" ∧ SameState s r := by
  have hend : (exec (Page.step false) (Page.fresh helloPage) inOrder).map (fun x =>
      (x.2.doc.data 2, x.1.map fun f => (f.pre.serial, f.pre.doc.data 2))) =
      some ("Hallo", [(2, "Bonjour"), (2, "Hello"), (1, "Hello"), (0, "Hello")]) := by
    decide +kernel
  obtain ⟨⟨h, s⟩, he, hx⟩ := Option.map_eq_some_iff.1 hend
  obtain ⟨hs, hpre⟩ := Prod.mk.inj hx
  have hlabels : h.map Fired.label = inOrder.reverse := exec_labels he
  obtain ⟨f₄, h, rfl, h₄, hlabels⟩ := List.map_eq_cons_iff.1 hlabels
  obtain ⟨f₃, h, rfl, h₃, hlabels⟩ := List.map_eq_cons_iff.1 hlabels
  obtain ⟨f₂, h, rfl, h₂, hlabels⟩ := List.map_eq_cons_iff.1 hlabels
  obtain ⟨f₁, h, rfl, h₁, hlabels⟩ := List.map_eq_cons_iff.1 hlabels
  obtain rfl := List.map_eq_nil_iff.1 hlabels
  simp only [List.map_cons, List.map_nil, List.cons.injEq, Prod.mk.injEq] at hpre
  obtain ⟨-, -, ⟨hserial, hdata⟩, -⟩ := hpre
  have hlast : LastCompletesLast false helloPage [f₄, f₃, f₂, f₁] "de"
      (answer "seg_9bcdc586" "Hallo") := by
    refine ⟨[f₁], [f₃], [], f₂.pre, f₂.post, f₄.pre, f₄.post, ?_, by simp, ?_, ?_, ?_, ?_⟩
    · rw [hserial]
      simp only [List.nil_append, List.cons_append, List.cons.injEq, and_true, true_and]
      exact ⟨by rw [← h₄], by rw [← h₂]⟩
    · intro f hf lang hl
      rw [List.mem_singleton.1 hf, h₃] at hl
      cases hl
    · intro t ht
      rw [List.mem_singleton.1 (ht : t ∈ [_])]
      exact hdata
    · intro _ f hf k o hl
      rw [List.mem_singleton.1 hf, h₃] at hl
      cases hl
      rfl
    · intro hfalse
      cases hfalse
  obtain ⟨r, hr, hsame⟩ := last_wins (exec_run he) (by
    intro f hf
    simp only [List.mem_cons, List.not_mem_nil, or_false] at hf
    rcases hf with rfl | rfl | rfl | rfl
    · rw [h₄]; trivial
    · rw [h₃]; trivial
    · rw [h₂]; trivial
    · rw [h₁]; trivial) hlast
  exact ⟨_, s, r, he, hr, hs, hsame⟩

/-- Out of order the first language wins. -/
theorem not_last_wins_outOfOrder :
    ∃ h s r, Run (Page.step false) (Page.fresh helloPage) h s ∧
      h.map Fired.label = outOfOrder.reverse ∧ s.pending.entries = [] ∧
      (Page.fresh helloPage).perform false (.translateNow "de" (answer "seg_9bcdc586" "Hallo")) =
        some r ∧ s.doc.data 2 = "Bonjour" ∧ ¬ SameState s r := by
  have hend : (exec (Page.step false) (Page.fresh helloPage) outOfOrder).bind (fun x =>
      ((Page.fresh helloPage).perform false
        (.translateNow "de" (answer "seg_9bcdc586" "Hallo"))).map
        fun r => (x.2.doc.data 2, r.doc.data 2, x.2.pending.entries.length)) =
      some ("Bonjour", "Hallo", 0) := by
    decide +kernel
  obtain ⟨⟨h, s⟩, he, hx⟩ := Option.bind_eq_some_iff.1 hend
  obtain ⟨r, hr, hx⟩ := Option.map_eq_some_iff.1 hx
  simp only [Prod.mk.injEq] at hx
  refine ⟨h, s, r, exec_run he, exec_labels he, List.length_eq_zero_iff.1 hx.2.2, hr, hx.1, ?_⟩
  intro hsame
  rw [hsame.dom.data, hx.2.1] at hx
  exact absurd hx.1 (by decide)

end LanguageLlm.PageTranslate
