import Mathlib.Data.Finset.Basic
import LanguageLlm.PageTranslate.Mutations

/-!
# Coalescing mutations

`coalesceMutations` (`segmenter.ts`) with its timers. The function that it returns may be called at
any time, from inside `flush` as well, and an armed timer may fire whenever `flush` is not running.
A handle is given out again once its timer has fired or is cleared, so that the variable `timer` may
hold a handle that is stale. The last section runs the controller's buffer by it.
-/

namespace LanguageLlm.PageTranslate

open Lib

/-! ## The code -/

/-- The variables of `coalesceMutations`, the timers that it has armed, and the calls of `flush`. -/
structure Coalescer (α τ : Type) where
  buffer : List α
  timer : Option τ
  armed : Finset τ
  flushing : Bool
  flushed : List (List α)

variable {α τ : Type}

/-- What a call of `coalesceMutations` sets up. -/
def coalesceMutations : Coalescer α τ where
  buffer := []
  timer := none
  armed := ∅
  flushing := false
  flushed := []

inductive CoalescerEvent (α τ : Type) where
  /-- The function is called with records, and `setTimeout` returns the handle. -/
  | call (records : List α) (handle : τ)
  /-- A timer fires, and `flush` begins. -/
  | fire (handle : τ)
  /-- `flush` returns or throws. -/
  | done

namespace Coalescer

section

variable [DecidableEq τ]

/-- `if (timer) clearTimeout(timer)`. No handle is falsy. -/
def clearTimer (c : Coalescer α τ) : Coalescer α τ :=
  match c.timer with
  | some timer => { c with armed := c.armed.erase timer }
  | none => c

/-- `setTimeout` does not return the handle of a timer that is armed. -/
def setTimer (c : Coalescer α τ) (handle : τ) : Option (Coalescer α τ) :=
  if handle ∈ c.armed then none
  else some { c with armed := insert handle c.armed, timer := some handle }

/-- The function that `coalesceMutations` returns. -/
def call (c : Coalescer α τ) (records : List α) (handle : τ) : Option (Coalescer α τ) :=
  { c with buffer := c.buffer ++ records }.clearTimer.setTimer handle

/-- The callback of the timer, up to the body of `flush`. -/
def fire (c : Coalescer α τ) (handle : τ) : Option (Coalescer α τ) :=
  if handle ∈ c.armed ∧ c.flushing = false then
    let batch := c.buffer
    some
      { c with
        armed := c.armed.erase handle
        buffer := []
        flushing := true
        flushed := c.flushed ++ [batch] }
  else none

def step (c : Coalescer α τ) : CoalescerEvent α τ → Option (Coalescer α τ)
  | .call records handle => c.call records handle
  | .fire handle => c.fire handle
  | .done => if c.flushing then some { c with flushing := false } else none

end

/-! ## What is received is flushed or waits -/

/-- The records of all calls, in order. -/
def received : List (Fired (Coalescer α τ) (CoalescerEvent α τ)) → List α
  | [] => []
  | f :: h =>
    match f.label with
    | .call records _ => received h ++ records
    | _ => received h

variable {c : Coalescer α τ} {records : List α}

/-- The records are conserved, only the timer in the variable may be armed, and it is armed when
something waits. -/
structure Exact (records : List α) (c : Coalescer α τ) : Prop where
  conserved : c.flushed.flatten ++ c.buffer = records
  tracked : ∀ t ∈ c.armed, c.timer = some t
  waiting : c.buffer ≠ [] → c.armed.Nonempty

theorem exact_coalesceMutations : Exact [] (coalesceMutations : Coalescer α τ) where
  conserved := rfl
  tracked := by simp [coalesceMutations]
  waiting := fun h => absurd rfl h

/-- A timer is armed alone. -/
theorem Exact.armed_eq (h : Exact records c) (hne : c.buffer ≠ []) :
    ∃ t, c.armed = {t} ∧ c.timer = some t := by
  obtain ⟨t, ht⟩ := h.waiting hne
  have htimer := h.tracked t ht
  refine ⟨t, Finset.eq_singleton_iff_unique_mem.2 ⟨ht, fun u hu => ?_⟩, htimer⟩
  have heq := h.tracked u hu
  rw [htimer] at heq
  exact (Option.some.inj heq).symm

section

variable [DecidableEq τ] {c' : Coalescer α τ}

theorem clearTimer_eq (h : ∀ t ∈ c.armed, c.timer = some t) :
    c.clearTimer = { c with armed := ∅ } := by
  unfold clearTimer
  split
  · next timer htimer =>
    have hnone : c.armed.erase timer = ∅ := by
      rw [Finset.eq_empty_iff_forall_notMem]
      intro t ht
      obtain ⟨hne, ht⟩ := Finset.mem_erase.1 ht
      have heq := h t ht
      rw [htimer] at heq
      exact hne (Option.some.inj heq).symm
    rw [hnone]
  · next hnone =>
    have hempty : c.armed = ∅ := by
      rw [Finset.eq_empty_iff_forall_notMem]
      intro t ht
      have heq := h t ht
      rw [hnone] at heq
      cases heq
    rw [← hempty]

/-- A call leaves the timer that it arms as the only one. -/
theorem call_eq (h : ∀ t ∈ c.armed, c.timer = some t) (records : List α) (handle : τ) :
    c.call records handle =
      some { c with buffer := c.buffer ++ records, timer := some handle, armed := {handle} } := by
  have htracked : ∀ t ∈ { c with buffer := c.buffer ++ records }.armed,
      { c with buffer := c.buffer ++ records }.timer = some t := h
  rw [call, clearTimer_eq htracked, setTimer, if_neg (Finset.notMem_empty handle)]
  rfl

theorem Exact.call (h : Exact records c) {batch : List α} {handle : τ}
    (hs : c.call batch handle = some c') : Exact (records ++ batch) c' := by
  rw [call_eq h.tracked] at hs
  cases hs
  constructor
  · rw [← h.conserved, List.append_assoc]
  · intro t ht
    rw [Finset.mem_singleton.1 ht]
  · exact fun _ => Finset.singleton_nonempty handle

theorem fire_eq {handle : τ} (hmem : handle ∈ c.armed) (hidle : c.flushing = false) :
    c.fire handle =
      some
        { c with
          armed := c.armed.erase handle
          buffer := []
          flushing := true
          flushed := c.flushed ++ [c.buffer] } :=
  if_pos ⟨hmem, hidle⟩

theorem Exact.fire (h : Exact records c) {handle : τ} (hs : c.fire handle = some c') :
    Exact records c' := by
  unfold Coalescer.fire at hs
  split at hs
  · cases hs
    constructor
    · rw [← h.conserved, List.flatten_append, List.flatten_singleton, List.append_nil]
    · exact fun t ht => h.tracked t (Finset.mem_of_mem_erase ht)
    · exact fun hne => absurd rfl hne
  · cases hs

theorem Exact.done (h : Exact records c) (hs : c.step .done = some c') : Exact records c' := by
  simp only [step] at hs
  split at hs
  · cases hs
    exact ⟨h.conserved, h.tracked, h.waiting⟩
  · cases hs

theorem exact_of_run {h : List (Fired (Coalescer α τ) (CoalescerEvent α τ))}
    (hr : Run step coalesceMutations h c) : Exact (received h) c := by
  refine Run.invHist (fun h c => Exact (received h) c) exact_coalesceMutations ?_ hr
  intro h c e c' _ hexact hs
  cases e with
  | call records handle => exact hexact.call hs
  | fire handle => exact hexact.fire hs
  | done => exact hexact.done hs

/-- What waits can be flushed as soon as `flush` is not running. -/
theorem exists_fire {h : List (Fired (Coalescer α τ) (CoalescerEvent α τ))}
    (hr : Run step coalesceMutations h c) (hne : c.buffer ≠ []) (hidle : c.flushing = false) :
    ∃ t c', c.step (.fire t) = some c' ∧ c'.buffer = [] ∧ c'.flushed.flatten = received h := by
  have hexact := exact_of_run hr
  obtain ⟨t, ht⟩ := hexact.waiting hne
  refine ⟨t, _, fire_eq ht hidle, rfl, ?_⟩
  rw [← hexact.conserved, List.flatten_append, List.flatten_singleton]

end

end Coalescer

/-- In every run what `flush` was called with, followed by the buffer, is what was received, and one
timer is armed when the buffer is not empty, also while `flush` is running. -/
theorem coalesceMutations_exact [DecidableEq τ] {c : Coalescer α τ}
    {h : List (Fired (Coalescer α τ) (CoalescerEvent α τ))}
    (hr : Run Coalescer.step coalesceMutations h c) :
    c.flushed.flatten ++ c.buffer = Coalescer.received h ∧
      (c.buffer ≠ [] → ∃ t, c.armed = {t} ∧ c.timer = some t) :=
  ⟨(Coalescer.exact_of_run hr).conserved, (Coalescer.exact_of_run hr).armed_eq⟩

/-- A call from inside `flush`, whose timer has the handle of the one that has fired. -/
theorem coalesceMutations_exact_inside : ∃ h, ∃ c : Coalescer Nat Nat,
    Run Coalescer.step coalesceMutations h c ∧ Coalescer.received h = [1, 2, 3, 4] ∧
      c.flushed = [[1, 2, 3]] ∧ c.buffer = [4] ∧ c.flushing = true ∧
      c.flushed.flatten ++ c.buffer = Coalescer.received h ∧
      (c.buffer ≠ [] → ∃ t, c.armed = {t} ∧ c.timer = some t) := by
  have he : exec Coalescer.step (coalesceMutations : Coalescer Nat Nat)
    [.call [1, 2] 1, .call [3] 2, .fire 2, .call [4] 2] = some (_, _) := rfl
  exact ⟨_, _, exec_run he, rfl, rfl, rfl, rfl, coalesceMutations_exact (exec_run he)⟩

/-! ## The controller -/

/-- The batches of the mutations that the controller has flushed. -/
def Page.batches : List (Fired Page PageEvent) → List (List MutationRecord)
  | [] => []
  | f :: h =>
    match f.label with
    | .flush => batches h ++ [f.pre.buffer]
    | _ => batches h

/-- The page holds what `coalesceMutations` holds after a run. A handle is free again when its timer
is gone, so that one handle is enough. -/
def Coalesces (batches : List (List MutationRecord)) (p : Page) : Prop :=
  ∃ h, ∃ c : Coalescer MutationRecord Unit, Run Coalescer.step coalesceMutations h c ∧
    c.buffer = p.buffer ∧ (c.armed.Nonempty ↔ p.timer = true) ∧ c.flushing = false ∧
      c.flushed = batches

namespace Coalesces

variable {batches : List (List MutationRecord)} {p q : Page}

theorem congr (h : Coalesces batches p) (hbuffer : q.buffer = p.buffer)
    (htimer : q.timer = p.timer) : Coalesces batches q := by
  obtain ⟨h, c, hr, hb, ht, hrest⟩ := h
  exact ⟨h, c, hr, hb.trans hbuffer.symm, by rw [ht, htimer], hrest⟩

theorem fresh (doc : Document) : Coalesces [] (Page.fresh doc) :=
  ⟨[], _, .nil, rfl, by simp [coalesceMutations, Page.fresh], rfl, rfl⟩

/-- The observer's call. -/
theorem deliver (h : Coalesces batches p) : Coalesces batches p.deliver := by
  unfold Page.deliver
  split
  · exact h
  · obtain ⟨h, c, hr, hb, ht, hidle, hflushed⟩ := h
    have hcall : c.step (.call p.doc.records ()) = _ :=
      Coalescer.call_eq (Coalescer.exact_of_run hr).tracked p.doc.records ()
    refine ⟨_, _, hr.cons hcall, ?_, ?_, hidle, hflushed⟩
    · exact congrArg (· ++ p.doc.records) hb
    · exact iff_of_true (Finset.singleton_nonempty ()) rfl

/-- The timer fires, and `flush` returns. -/
theorem flush (h : Coalesces batches p) (htimer : p.timer = true) :
    Coalesces (batches ++ [p.buffer]) p.flush := by
  obtain ⟨h, c, hr, hb, ht, hidle, hflushed⟩ := h
  obtain ⟨t, hmem⟩ := ht.2 htimer
  have hfire : c.step (.fire t) = _ := Coalescer.fire_eq hmem hidle
  have hdone := (hr.cons hfire).cons (l := .done) rfl
  have hgone : ¬ (c.armed.erase t).Nonempty := by
    rintro ⟨u, hu⟩
    exact (Finset.mem_erase.1 hu).1 rfl
  have hpage : p.flush.buffer = [] ∧ p.flush.timer = false := by
    rcases p.flush_cases with ⟨he, -⟩ | ⟨-, b, -, -, he | he⟩
    · rw [he]
      exact ⟨rfl, rfl⟩
    · rw [he]
      exact ⟨rfl, rfl⟩
    · rw [he]
      have hframe := Frame.applied { p with
        buffer := []
        timer := false
        doc := b.doc
        restore := b.restore
        applying := true }
      exact ⟨hframe.buffer, hframe.timer⟩
  refine ⟨_, _, hdone, hpage.1.symm, ?_, rfl, ?_⟩
  · rw [hpage.2]
    exact iff_of_false hgone Bool.false_ne_true
  · rw [← hb, ← hflushed]

end Coalesces

variable {dev : Bool} {doc : Document} {p : Page} {h : List (Fired Page PageEvent)}

/-- The controller's buffer and timer are those of `coalesceMutations`. -/
theorem coalesces_of_run (hr : Run (Page.step dev) (Page.fresh doc) h p) :
    Coalesces (Page.batches h) p := by
  refine Run.invHist (fun h p => Coalesces (Page.batches h) p) (.fresh doc) ?_ hr
  intro h p e q _ hcoalesces hs
  obtain ⟨r, hstep, rfl⟩ := Option.map_eq_some_iff.1 hs
  cases e with
  | translateNow lang =>
    cases hstep
    exact (hcoalesces.congr (q := p.translateNow lang) rfl rfl).deliver
  | settle serial outcome =>
    have hframe := Frame.settle hstep
    exact (hcoalesces.congr hframe.buffer hframe.timer).deliver
  | setMode m =>
    cases hstep
    have hframe := Frame.setMode p m
    exact (hcoalesces.congr hframe.buffer hframe.timer).deliver
  | restore =>
    cases hstep
    exact (hcoalesces.congr (q := p.restoreOriginal) rfl rfl).deliver
  | edit edits =>
    obtain ⟨doc, -, rfl⟩ := Option.map_eq_some_iff.1 hstep
    exact (hcoalesces.congr (q := { p with doc }) rfl rfl).deliver
  | flush =>
    dsimp only at hstep
    split at hstep
    · next htimer =>
      cases hstep
      exact (hcoalesces.flush htimer).deliver
    · cases hstep

/-- Records do not wait on a page without a timer that will flush them. -/
theorem timer_of_buffer (hr : Run (Page.step dev) (Page.fresh doc) h p) (hne : p.buffer ≠ []) :
    p.timer = true := by
  obtain ⟨_, c, hc, hb, ht, -⟩ := coalesces_of_run hr
  exact ht.1 ((Coalescer.exact_of_run hc).waiting (hb ▸ hne))

end LanguageLlm.PageTranslate
