import Mathlib.Data.List.Basic

/-!
# Runs of labelled transition systems

A system is a partial step function `step : σ → ℓ → Option σ`; a label that is not enabled in a
state has no successor. `Run step s₀ h s` says that the steps recorded in `h` (the latest first)
lead from `s₀` to `s`. The history is kept so that a property may speak about earlier steps
("an accepted handshake was processed on this connection before").

* `Run.inv`: an invariant kept by every step holds in every state reached.
* `Run.invHist`: the same for a relation between the history and the state.
* `Run.invWhen`: an invariant kept by the steps that meet a condition.
* `Run.invMeets`: the same where the condition may look at the steps before.
* `Run.forall_iff`: a property of the steps, which makes an invariant, is equivalent to a condition
  on them.
* `Run.mem`: every recorded step is a step of the system, taken after a run.
* `Run.split`: a run is cut at any of its states.
* `exec`: the computable run of a list of labels, and `exec_run`: it is a run.
-/

namespace LanguageLlm.Lib

variable {σ ℓ : Type}

/-- One step that was taken: the state before it, its label and the state after it. -/
structure Fired (σ ℓ : Type) where
  pre : σ
  label : ℓ
  post : σ

/-- The runs of `step` from `s₀`, with the steps taken, the latest first. -/
inductive Run (step : σ → ℓ → Option σ) (s₀ : σ) : List (Fired σ ℓ) → σ → Prop
  | nil : Run step s₀ [] s₀
  | cons {h : List (Fired σ ℓ)} {s s' : σ} {l : ℓ} (hr : Run step s₀ h s)
      (hs : step s l = some s') : Run step s₀ (⟨s, l, s'⟩ :: h) s'

/-- Every step of the history meets `C`, which may look at the steps before it. -/
def Meets (C : List (Fired σ ℓ) → Fired σ ℓ → Prop) : List (Fired σ ℓ) → Prop
  | [] => True
  | f :: h => C h f ∧ Meets C h

instance decidableMeets (C : List (Fired σ ℓ) → Fired σ ℓ → Prop) [∀ h f, Decidable (C h f)] :
    ∀ h, Decidable (Meets C h)
  | [] => .isTrue trivial
  | f :: h =>
    have := decidableMeets C h
    inferInstanceAs (Decidable (C h f ∧ Meets C h))

/-- Two conditions that are equivalent wherever a third is met are met by the same histories. -/
theorem Meets.congr {B C D : List (Fired σ ℓ) → Fired σ ℓ → Prop}
    (hCD : ∀ h f, B h f → (C h f ↔ D h f)) :
    ∀ {h : List (Fired σ ℓ)}, Meets B h → (Meets C h ↔ Meets D h)
  | [], _ => Iff.rfl
  | f :: h, hB => and_congr (hCD h f hB.1) (Meets.congr hCD hB.2)

namespace Run

variable {step : σ → ℓ → Option σ} {s₀ : σ}

/-- An invariant of the history and the state together. -/
theorem invHist (I : List (Fired σ ℓ) → σ → Prop) (h0 : I [] s₀)
    (hstep : ∀ h s l s', Run step s₀ h s → I h s → step s l = some s' →
      I (⟨s, l, s'⟩ :: h) s')
    {h : List (Fired σ ℓ)} {s : σ} (hr : Run step s₀ h s) : I h s := by
  induction hr with
  | nil => exact h0
  | cons hr hs ih => exact hstep _ _ _ _ hr ih hs

/-- An invariant kept by every step holds in every state reached. -/
theorem inv (I : σ → Prop) (h0 : I s₀)
    (hstep : ∀ s l s', I s → step s l = some s' → I s')
    {h : List (Fired σ ℓ)} {s : σ} (hr : Run step s₀ h s) : I s :=
  invHist (fun _ s => I s) h0 (fun _ s l s' _ hI hs => hstep s l s' hI hs) hr

/-- An invariant kept by every step that meets `C` holds after the runs all of whose steps do. -/
theorem invWhen (C : Fired σ ℓ → Prop) (I : List (Fired σ ℓ) → σ → Prop) (h0 : I [] s₀)
    (hstep : ∀ h s l s', Run step s₀ h s → I h s → C ⟨s, l, s'⟩ → step s l = some s' →
      I (⟨s, l, s'⟩ :: h) s')
    {h : List (Fired σ ℓ)} {s : σ} (hr : Run step s₀ h s) (hC : ∀ f ∈ h, C f) : I h s := by
  induction hr with
  | nil => exact h0
  | cons hr hs ih =>
    exact hstep _ _ _ _ hr (ih fun f hf => hC f (List.mem_cons_of_mem _ hf))
      (hC _ List.mem_cons_self) hs

/-- An invariant kept by every step that meets `C` after the steps before it. -/
theorem invMeets (C : List (Fired σ ℓ) → Fired σ ℓ → Prop) (I : List (Fired σ ℓ) → σ → Prop)
    (h0 : I [] s₀)
    (hstep : ∀ h s l s', Run step s₀ h s → I h s → C h ⟨s, l, s'⟩ → step s l = some s' →
      I (⟨s, l, s'⟩ :: h) s')
    {h : List (Fired σ ℓ)} {s : σ} (hr : Run step s₀ h s) (hC : Meets C h) : I h s := by
  induction hr with
  | nil => exact h0
  | cons hr hs ih => exact hstep _ _ _ _ hr (ih hC.2) hC.1 hs

/-- When the property `P` of a step makes the invariant `I`, and a step from a state with `I` has
`P` exactly when it meets `C`, the steps of a run have `P` exactly when they meet `C`. -/
theorem forall_iff {I : σ → Prop} {P C : Fired σ ℓ → Prop} (h0 : I s₀) (hP : ∀ f, P f → I f.post)
    (hstep : ∀ h s l s', Run step s₀ h s → I s → step s l = some s' → (P ⟨s, l, s'⟩ ↔ C ⟨s, l, s'⟩))
    {h : List (Fired σ ℓ)} {s : σ} (hr : Run step s₀ h s) : (∀ f ∈ h, P f) ↔ ∀ f ∈ h, C f := by
  have hboth : ((∀ f ∈ h, P f) ↔ ∀ f ∈ h, C f) ∧ ((∀ f ∈ h, P f) → I s) := by
    induction hr with
    | nil => exact ⟨⟨nofun, nofun⟩, fun _ => h0⟩
    | cons hr hs ih =>
      simp only [List.forall_mem_cons]
      obtain ⟨hiff, hI⟩ := ih
      refine ⟨⟨fun hall => ?_, fun hall => ?_⟩, fun hall => hP _ hall.1⟩
      · exact ⟨(hstep _ _ _ _ hr (hI hall.2) hs).1 hall.1, hiff.1 hall.2⟩
      · have hbefore := hiff.2 hall.2
        exact ⟨(hstep _ _ _ _ hr (hI hbefore) hs).2 hall.1, hbefore⟩
  exact hboth.1

/-- Every recorded step is a step of the system, and its pre-state ends a run. -/
theorem mem {h : List (Fired σ ℓ)} {s : σ} (hr : Run step s₀ h s) {f : Fired σ ℓ} (hf : f ∈ h) :
    step f.pre f.label = some f.post ∧ ∃ h', Run step s₀ h' f.pre ∧ ∀ g ∈ h', g ∈ h := by
  induction hr with
  | nil => cases hf
  | cons hr hs ih =>
    rcases List.mem_cons.1 hf with rfl | hf
    · exact ⟨hs, _, hr, fun g hg => List.mem_cons_of_mem _ hg⟩
    · obtain ⟨hstep, h', hr', hsub⟩ := ih hf
      exact ⟨hstep, h', hr', fun g hg => List.mem_cons_of_mem _ (hsub g hg)⟩

/-- A run is a run to each of its states followed by a run from it. -/
theorem split {h₁ h₂ : List (Fired σ ℓ)} {s : σ} (hr : Run step s₀ (h₂ ++ h₁) s) :
    ∃ m, Run step s₀ h₁ m ∧ Run step m h₂ s := by
  induction h₂ generalizing s with
  | nil => exact ⟨s, hr, .nil⟩
  | cons f h₂ ih =>
    cases hr with
    | cons hr hs =>
      obtain ⟨m, hm, hm'⟩ := ih hr
      exact ⟨m, hm, hm'.cons hs⟩

/-- A run goes on with a run from its last state. -/
theorem append {h₁ h₂ : List (Fired σ ℓ)} {m s : σ} (hm : Run step s₀ h₁ m) (hr : Run step m h₂ s) :
    Run step s₀ (h₂ ++ h₁) s := by
  induction hr with
  | nil => exact hm
  | cons _ hs ih => exact ih.cons hs

/-- The last step of a run. -/
theorem uncons {h : List (Fired σ ℓ)} {f : Fired σ ℓ} {s : σ} (hr : Run step s₀ (f :: h) s) :
    Run step s₀ h f.pre ∧ step f.pre f.label = some f.post ∧ f.post = s := by
  cases hr with
  | cons hr hs => exact ⟨hr, hs, rfl⟩

end Run

/-- Run the labels in order, recording the steps; `none` as soon as one is not enabled. -/
def exec (step : σ → ℓ → Option σ) (s₀ : σ) : List ℓ → Option (List (Fired σ ℓ) × σ) :=
  go [] s₀
where
  go (h : List (Fired σ ℓ)) (s : σ) : List ℓ → Option (List (Fired σ ℓ) × σ)
    | [] => some (h, s)
    | l :: ls =>
      match step s l with
      | some s' => go (⟨s, l, s'⟩ :: h) s' ls
      | none => none

theorem exec_go_run {step : σ → ℓ → Option σ} {s₀ : σ} :
    ∀ (ls : List ℓ) {h h' : List (Fired σ ℓ)} {s s' : σ}, Run step s₀ h s →
      exec.go step h s ls = some (h', s') → Run step s₀ h' s' := by
  intro ls
  induction ls with
  | nil =>
    intro h h' s s' hr he
    simp only [exec.go, Option.some.injEq, Prod.mk.injEq] at he
    obtain ⟨rfl, rfl⟩ := he
    exact hr
  | cons l ls ih =>
    intro h h' s s' hr he
    simp only [exec.go] at he
    split at he
    · rename_i t ht
      exact ih (hr.cons ht) he
    · cases he

/-- What `exec` records is a run. -/
theorem exec_run {step : σ → ℓ → Option σ} {s₀ s : σ} {ls : List ℓ} {h : List (Fired σ ℓ)}
    (he : exec step s₀ ls = some (h, s)) : Run step s₀ h s :=
  exec_go_run ls .nil he

theorem exec_go_labels {step : σ → ℓ → Option σ} :
    ∀ (ls : List ℓ) {h h' : List (Fired σ ℓ)} {s s' : σ}, exec.go step h s ls = some (h', s') →
      h'.map Fired.label = ls.reverse ++ h.map Fired.label := by
  intro ls
  induction ls with
  | nil =>
    intro h h' s s' he
    simp only [exec.go, Option.some.injEq, Prod.mk.injEq] at he
    rw [he.1]
    rfl
  | cons l ls ih =>
    intro h h' s s' he
    simp only [exec.go] at he
    split at he
    · rw [ih he]
      simp
    · cases he

/-- `exec` takes the given labels. -/
theorem exec_labels {step : σ → ℓ → Option σ} {s₀ s : σ} {ls : List ℓ} {h : List (Fired σ ℓ)}
    (he : exec step s₀ ls = some (h, s)) : h.map Fired.label = ls.reverse := by
  rw [exec_go_labels ls he, List.map_nil, List.append_nil]

end LanguageLlm.Lib
