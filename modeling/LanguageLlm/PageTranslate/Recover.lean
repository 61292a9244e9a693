import LanguageLlm.PageTranslate.Render

/-!
# Recovering the original text

Operations of the controller, each run to completion on a page that nobody else modifies. What a
`restore` puts back is fixed when a `translateNow` collects the page: the text that the page shows
then. `recovers_iff` says that a final `restore` puts back the original text exactly when the last
`translateNow` started on a page that showed it.
-/

namespace LanguageLlm.PageTranslate

open Lib

namespace Page

/-- The text that `restoreOriginal` would put back. -/
def recovered (p : Page) : NodeId → String := p.restoreOriginal.doc.data

/-- The observer has seen no change but the writes of the controller. -/
def Quiet (p : Page) : Prop := ∀ r ∈ p.doc.records ++ p.buffer, r = .characterData

variable {p q : Page}

/-! ## What is recovered -/

theorem recovered_congr (htree : q.doc.tree = p.doc.tree) (hrestore : q.restore = p.restore)
    (hdata : ∀ n, (∀ t ∈ p.doc.texts, t.id = n → p.restore.entryAt t.absoluteNodePath = none) →
      q.doc.data n = p.doc.data n) : q.recovered = p.recovered := by
  have htexts : q.doc.texts = p.doc.texts := Document.texts_congr htree
  funext n
  unfold recovered
  by_cases hn : ∃ t ∈ p.doc.texts, t.id = n
  · obtain ⟨t, ht, rfl⟩ := hn
    rw [restoreOriginal_data p ht, restoreOriginal_data q (htexts ▸ ht), hrestore]
    cases he : p.restore.entryAt t.absoluteNodePath with
    | some e => rfl
    | none =>
      refine hdata t.id fun u hu hid => ?_
      rw [p.doc.tree.texts_id_inj hu ht hid]
      exact he
  · simp only [not_exists, not_and] at hn
    rw [restoreOriginal_data_notMem p hn, restoreOriginal_data_notMem q (htexts ▸ hn)]
    exact hdata n fun t ht hid => absurd hid (hn t ht)

theorem applyToDom_recovered (p : Page) : p.applyToDom.recovered = p.recovered := by
  have hrestore : p.applyToDom.restore = p.restore := by
    obtain ⟨doc, applying, h⟩ := p.applyToDom_eq
    rw [h]
  refine recovered_congr p.applyToDom_tree hrestore fun n hn => ?_
  by_cases hm : p.mode = .original
  · rw [p.applyToDom_original hm]
  · by_cases ht : ∃ t ∈ p.doc.texts, t.id = n
    · obtain ⟨t, ht, rfl⟩ := ht
      rw [p.applyToDom_data hm ht, hn t ht rfl]
      rfl
    · simp only [not_exists, not_and] at ht
      exact p.applyToDom_data_notMem ht

theorem restoreOriginal_recovered (p : Page) : p.restoreOriginal.recovered = p.recovered := by
  refine recovered_congr p.restoreOriginal_tree rfl fun n hn => ?_
  by_cases ht : ∃ t ∈ p.doc.texts, t.id = n
  · obtain ⟨t, ht, rfl⟩ := ht
    rw [p.restoreOriginal_data ht, hn t ht rfl]
    rfl
  · simp only [not_exists, not_and] at ht
    exact p.restoreOriginal_data_notMem ht

theorem deliver_recovered (p : Page) : p.deliver.recovered = p.recovered := by
  obtain ⟨htree, hdata, hrestore⟩ := p.deliver_doc
  exact recovered_congr htree hrestore fun n _ => by rw [hdata]

theorem setMode_recovered (p : Page) (m : PageTranslateMode) :
    (p.setMode m).recovered = p.recovered := by
  have hm : ({ p with mode := m } : Page).recovered = p.recovered :=
    recovered_congr rfl rfl fun _ _ => rfl
  unfold setMode
  dsimp only
  split
  · rw [restoreOriginal_recovered, hm]
  · rw [applyToDom_recovered, hm]

/-- A new table recovers what the page shows when it is collected. -/
theorem translateNow_recovered (p : Page) (lang : String) :
    (p.translateNow lang).recovered = p.doc.data := by
  funext n
  unfold recovered
  by_cases hn : ∃ t ∈ p.doc.texts, t.id = n
  · obtain ⟨t, ht, rfl⟩ := hn
    rw [restoreOriginal_data _ (show t ∈ (p.translateNow lang).doc.texts from ht)]
    cases he : (p.translateNow lang).restore.entryAt t.absoluteNodePath with
    | none => rfl
    | some e =>
      obtain ⟨c, hc, rfl, rfl⟩ := collected_of_entryAt ht he
      exact (collects_of_mem hc).originalText
  · simp only [not_exists, not_and] at hn
    exact restoreOriginal_data_notMem (p.translateNow lang) hn

theorem settle_recovered {dev : Bool} {serial : Nat} {outcome : Outcome}
    (h : p.settle dev serial outcome = some q) : q.recovered = p.recovered := by
  obtain ⟨c, -, ⟨-, rfl⟩ | ⟨-, rfl⟩⟩ := settle_cases h
  · cases (runTranslation dev c.segments c.lang outcome).2 with
    | ok batch => exact (applyToDom_recovered _).trans (recovered_congr rfl rfl fun _ _ => rfl)
    | error message => exact recovered_congr rfl rfl fun _ _ => rfl
  · cases (runTranslation dev c.segments c.lang outcome).2 with
    | ok batch => exact (applyToDom_recovered _).trans (recovered_congr rfl rfl fun _ _ => rfl)
    | error message =>
      exact (applyToDom_recovered _).trans (recovered_congr rfl rfl fun _ _ => rfl)

theorem setMode_tree (p : Page) (m : PageTranslateMode) :
    (p.setMode m).doc.tree = p.doc.tree := by
  unfold setMode
  dsimp only
  split
  · exact restoreOriginal_tree _
  · exact applyToDom_tree _

theorem settle_tree {dev : Bool} {serial : Nat} {outcome : Outcome}
    (h : p.settle dev serial outcome = some q) : q.doc.tree = p.doc.tree := by
  obtain ⟨c, -, ⟨-, rfl⟩ | ⟨-, rfl⟩⟩ := settle_cases h
  · cases (runTranslation dev c.segments c.lang outcome).2 with
    | ok batch => exact applyToDom_tree _
    | error message => rfl
  · cases (runTranslation dev c.segments c.lang outcome).2 with
    | ok batch => exact applyToDom_tree _
    | error message => exact applyToDom_tree _

/-! ## Quiet pages -/

theorem Quiet.congr (h : Quiet p) (hbuffer : q.buffer = p.buffer)
    (hrecords : ∃ l, q.doc.records = p.doc.records ++ l ∧ ∀ r ∈ l, r = .characterData) :
    Quiet q := by
  obtain ⟨l, hl, hc⟩ := hrecords
  intro r hr
  rw [hl, hbuffer, List.mem_append, List.mem_append] at hr
  rcases hr with (hr | hr) | hr
  · exact h r (List.mem_append_left _ hr)
  · exact hc r hr
  · exact h r (List.mem_append_right _ hr)

theorem Quiet.applyToDom (h : Quiet p) : Quiet p.applyToDom := by
  refine h.congr ?_ p.applyToDom_records
  obtain ⟨doc, applying, he⟩ := p.applyToDom_eq
  rw [he]

theorem Quiet.restoreOriginal (h : Quiet p) : Quiet p.restoreOriginal :=
  h.congr rfl p.restoreOriginal_records

theorem Quiet.setMode (h : Quiet p) (m : PageTranslateMode) : Quiet (p.setMode m) := by
  have hm : Quiet { p with mode := m } := h
  unfold Page.setMode
  dsimp only
  split
  · exact hm.restoreOriginal
  · exact hm.applyToDom

theorem Quiet.deliver (h : Quiet p) : Quiet p.deliver := by
  unfold Page.deliver
  split
  · exact h
  · intro r hr
    simp only [List.nil_append, List.mem_append] at hr
    exact h r (List.mem_append.2 hr.symm)

theorem Quiet.settle {dev : Bool} {serial : Nat} {outcome : Outcome} (h : Quiet p)
    (hs : p.settle dev serial outcome = some q) : Quiet q := by
  have happly : ∀ {r : Page}, r.doc = p.doc → r.buffer = p.buffer → Quiet r.applyToDom := by
    intro r hd hb
    have hr : Quiet r := by
      unfold Quiet
      rw [hd, hb]
      exact h
    exact hr.applyToDom
  have hbatch : ∀ {r : Page}, r.doc = p.doc → r.buffer = p.buffer →
      Quiet { r.applyToDom with applying := false } := happly
  obtain ⟨c, -, ⟨-, rfl⟩ | ⟨-, rfl⟩⟩ := settle_cases hs
  · cases (runTranslation dev c.segments c.lang outcome).2 with
    | ok batch => exact happly rfl rfl
    | error message => exact h
  · cases (runTranslation dev c.segments c.lang outcome).2 with
    | ok batch => exact hbatch rfl rfl
    | error message => exact hbatch rfl rfl

/-- Without added nodes a flush empties the buffer and nothing else. -/
theorem Quiet.flush (h : Quiet p) : p.flush = { p with buffer := [], timer := false } := by
  have hroots : addedRoots p.doc p.buffer = [] := by
    unfold addedRoots
    rw [List.flatMap_eq_nil_iff]
    intro r hr
    rw [h r (List.mem_append_right _ hr)]
  unfold Page.flush
  dsimp only
  rw [if_pos hroots, ite_self]

/-! ## Operations -/

end Page

/-- An operation, run to completion. -/
inductive Op where
  | translateNow (lang : String) (outcome : Outcome)
  | setMode (m : PageTranslateMode)
  | restore
  /-- The timer of the mutations fires, if it is armed. -/
  | idle

/-- The steps of an operation. -/
def Op.events (p : Page) : Op → List PageEvent
  | .translateNow lang outcome => [.translateNow lang, .settle p.serial outcome]
  | .setMode m => [.setMode m]
  | .restore => [.restore]
  | .idle => if p.timer then [.flush] else []

/-- The page, if the operation collects it. -/
def Op.collects (p : Page) : Op → Option Page
  | .translateNow _ _ => some p
  | .setMode _ | .restore | .idle => none

namespace Page

def perform (dev : Bool) (p : Page) (op : Op) : Option Page := (op.events p).foldlM (step dev) p

def performAll (dev : Bool) (p : Page) (ops : List Op) : Option Page := ops.foldlM (perform dev) p

/-- The page on which the last `translateNow` of the operations starts. -/
def lastStart (dev : Bool) (p : Page) : List Op → Option Page
  | [] => none
  | op :: ops =>
    ((p.perform dev op).bind fun p' => p'.lastStart dev ops).or (op.collects p)

/-- A started call is pending until it settles. -/
theorem translateNow_pending (p : Page) (lang : String) :
    (p.translateNow lang).deliver.pending.get? p.serial = some
      { purpose := .call
        segments := (collectTextSegments p.doc p.doc.tree.bodyId collectOptions).map
          Collected.segment
        lang } := by
  rw [show (p.translateNow lang).deliver.pending = (p.translateNow lang).pending by
    unfold deliver; split <;> rfl]
  exact OrderedMap.get?_set_self ..

/-- A call settles, which completes the operation. -/
theorem perform_settle (dev : Bool) (p : Page) (lang : String) (outcome : Outcome) :
    ∃ q, (p.translateNow lang).deliver.settle dev p.serial outcome = some q ∧
      p.perform dev (.translateNow lang outcome) = some q.deliver := by
  obtain ⟨q, hs⟩ := settle_isSome dev outcome (p.translateNow_pending lang)
  refine ⟨q, hs, ?_⟩
  simp [perform, Op.events, step, hs]

/-- What an operation leaves to be recovered. -/
theorem perform_spec (dev : Bool) {p : Page} (hq : Quiet p) (op : Op) :
    ∃ q, p.perform dev op = some q ∧ Quiet q ∧ q.doc.tree = p.doc.tree ∧
      q.recovered = match op.collects p with
        | some r => r.doc.data
        | none => p.recovered := by
  cases op with
  | translateNow lang outcome =>
    have hstart : Quiet (p.translateNow lang) := hq
    obtain ⟨q, hs, hperform⟩ := perform_settle dev p lang outcome
    refine ⟨q.deliver, hperform, (hstart.deliver.settle hs).deliver, ?_, ?_⟩
    · rw [q.deliver_doc.1, settle_tree hs, (p.translateNow lang).deliver_doc.1]
      rfl
    · dsimp only [Op.collects]
      rw [deliver_recovered, settle_recovered hs, deliver_recovered, translateNow_recovered]
  | setMode m =>
    refine ⟨(p.setMode m).deliver,
      by simp [perform, Op.events, step], (hq.setMode m).deliver, ?_, ?_⟩
    · rw [(p.setMode m).deliver_doc.1, setMode_tree]
    · dsimp only [Op.collects]
      rw [deliver_recovered, setMode_recovered]
  | restore =>
    refine ⟨p.restoreOriginal.deliver, by simp [perform, Op.events, step],
      hq.restoreOriginal.deliver, ?_, ?_⟩
    · rw [p.restoreOriginal.deliver_doc.1, restoreOriginal_tree]
    · dsimp only [Op.collects]
      rw [deliver_recovered, restoreOriginal_recovered]
  | idle =>
    cases ht : p.timer with
    | false => exact ⟨p, by simp [perform, Op.events, ht], hq, rfl, rfl⟩
    | true =>
      have hflush : Quiet p.flush := by
        rw [hq.flush]
        exact fun r hr => hq r (List.mem_append_left _ (by simpa using hr))
      refine ⟨p.flush.deliver, by simp [perform, Op.events, step, ht], hflush.deliver, ?_, ?_⟩
      · rw [p.flush.deliver_doc.1, hq.flush]
      · dsimp only [Op.collects]
        rw [deliver_recovered, hq.flush]
        exact recovered_congr rfl rfl fun _ _ => rfl

/-- What a sequence of operations leaves to be recovered: what the page showed when its last
`translateNow` started. -/
theorem performAll_spec (dev : Bool) (ops : List Op) {p : Page} (hq : Quiet p) :
    ∃ q, p.performAll dev ops = some q ∧ Quiet q ∧ q.doc.tree = p.doc.tree ∧
      q.recovered = match p.lastStart dev ops with
        | some r => r.doc.data
        | none => p.recovered := by
  induction ops generalizing p with
  | nil => exact ⟨p, rfl, hq, rfl, rfl⟩
  | cons op ops ih =>
    obtain ⟨r, hr, hqr, htree, hrec⟩ := perform_spec dev hq op
    obtain ⟨q, hall, hqq, htree', hrec'⟩ := ih hqr
    refine ⟨q, ?_, hqq, htree'.trans htree, ?_⟩
    · unfold performAll at hall ⊢
      rw [List.foldlM_cons, hr]
      exact hall
    · rw [hrec', lastStart, hr, Option.bind_some]
      cases r.lastStart dev ops with
      | some s => rfl
      | none => exact hrec

end Page

/-- A final `restore` puts back the text of every text node if and only if the last `translateNow`
of the sequence starts on a page that shows it. -/
theorem recovers_iff (dev : Bool) (d : Document) (ops : List Op) :
    ∃ p, (Page.fresh d).performAll dev (ops ++ [.restore]) = some p ∧
      ((∀ t ∈ d.texts, p.doc.data t.id = d.data t.id) ↔
        ∀ q, (Page.fresh d).lastStart dev ops = some q →
          ∀ t ∈ d.texts, q.doc.data t.id = d.data t.id) := by
  have hq : (Page.fresh d).Quiet := fun r hr => by simp [Page.fresh] at hr
  obtain ⟨p, hp, hqp, htree, hrec⟩ := Page.performAll_spec dev ops hq
  have hfresh : (Page.fresh d).recovered = d.data := by
    funext n
    by_cases hn : ∃ t ∈ d.texts, t.id = n
    · obtain ⟨t, ht, rfl⟩ := hn
      exact (Page.fresh d).restoreOriginal_data ht
    · simp only [not_exists, not_and] at hn
      exact (Page.fresh d).restoreOriginal_data_notMem hn
  refine ⟨p.restoreOriginal.deliver, ?_, ?_⟩
  · unfold Page.performAll at hp ⊢
    rw [List.foldlM_append, hp]
    simp [Page.perform, Op.events, Page.step]
  · rw [p.restoreOriginal.deliver_doc.2.1]
    change (∀ t ∈ d.texts, p.recovered t.id = d.data t.id) ↔ _
    rw [hrec]
    cases (Page.fresh d).lastStart dev ops with
    | none => simp [hfresh]
    | some q => simp

/-- Another target language is chosen while the page shows French. -/
def switchLanguage : List Op :=
  [.translateNow "fr" (answer "seg_9bcdc586" "Bonjour"),
    .translateNow "de" (answer "seg_099e90f4" "Hallo")]

/-- The original text is lost when the language is switched. -/
theorem not_recovers_switchLanguage :
    ∃ p, (Page.fresh helloPage).performAll false (switchLanguage ++ [.restore]) = some p ∧
      p.doc.data 2 = "Bonjour" ∧
        ¬ ∀ t ∈ helloPage.texts, p.doc.data t.id = helloPage.data t.id := by
  have hend : ((Page.fresh helloPage).performAll false (switchLanguage ++ [.restore])).map
      (fun p => p.doc.data 2) = some "Bonjour" := by decide +kernel
  obtain ⟨p, hp, hdata⟩ := Option.map_eq_some_iff.1 hend
  refine ⟨p, hp, hdata, fun h => ?_⟩
  have ht := h ⟨2, 0, [⟨0, "BODY", 1⟩, ⟨1, "P", 0⟩]⟩ (by decide)
  rw [hdata] at ht
  exact absurd ht (by decide)

end LanguageLlm.PageTranslate
