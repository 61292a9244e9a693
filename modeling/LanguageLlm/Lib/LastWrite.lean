import Mathlib.Data.List.Induction

/-!
# Last writes

A log of writes, the oldest first. `look_foldl` reads a store that was written in the order of the
log, whatever it keeps of a write; `le_lastOf` compares the times of writes when the clock never
went back.
-/

namespace LanguageLlm.Lib

variable {ι σ κ α : Type} {p q : ι → Bool} {log : List ι} {w x : ι}

/-- The last write of a log that satisfies `p`. -/
def lastOf (p : ι → Bool) (log : List ι) : Option ι := log.reverse.find? p

@[simp] theorem lastOf_nil (p : ι → Bool) : lastOf p [] = none := rfl

theorem lastOf_append_one (p : ι → Bool) (log : List ι) (x : ι) :
    lastOf p (log ++ [x]) = if p x then some x else lastOf p log := by
  rw [lastOf, List.reverse_append, List.reverse_singleton, List.singleton_append, List.find?_cons]
  cases p x <;> rfl

theorem lastOf_mem (h : lastOf p log = some w) : w ∈ log ∧ p w = true :=
  ⟨List.mem_reverse.1 (List.mem_of_find?_eq_some h), List.find?_some h⟩

theorem exists_lastOf (hx : x ∈ log) (hp : p x = true) : ∃ w, lastOf p log = some w := by
  rw [← Option.isSome_iff_exists, lastOf, List.find?_isSome]
  exact ⟨x, List.mem_reverse.2 hx, hp⟩

/-- The last of more writes is the last of those among them that it is one of. -/
theorem lastOf_of_imp (hpq : ∀ y ∈ log, q y = true → p y = true) (h : lastOf p log = some w)
    (hq : q w = true) : lastOf q log = some w := by
  obtain ⟨-, later, earlier, hlog, hlater⟩ := List.find?_eq_some_iff_append.1 h
  refine List.find?_eq_some_iff_append.2 ⟨hq, later, earlier, hlog, fun y hy => ?_⟩
  have hin : y ∈ log := by
    rw [← List.mem_reverse, hlog]
    exact List.mem_append_left _ hy
  have hnp := hlater y hy
  cases hqy : q y with
  | false => rfl
  | true => simp [hpq y hin hqy] at hnp

theorem lastOf_congr (hpq : ∀ y ∈ log, p y = q y) : lastOf p log = lastOf q log := by
  induction log using List.reverseRecOn with
  | nil => rfl
  | append_singleton log x ih =>
    rw [lastOf_append_one, lastOf_append_one, hpq x (by simp),
      ih fun y hy => hpq y (List.mem_append_left _ hy)]

/-! ## Stores -/

/-- A store in which a write changes what is found under its key, and nothing else, holds the last
write of every key. -/
theorem look_foldl [DecidableEq κ] {step : σ → ι → σ} {look : σ → κ → Option α} {key : ι → κ}
    {value : ι → α}
    (hstep : ∀ s x k, look (step s x) k = if k = key x then some (value x) else look s k)
    (s : σ) (log : List ι) (k : κ) :
    look (log.foldl step s) k =
      ((lastOf (fun x => k = key x) log).map value).or (look s k) := by
  induction log using List.reverseRecOn with
  | nil => rfl
  | append_singleton log x ih =>
    rw [List.foldl_append, List.foldl_cons, List.foldl_nil, hstep, ih, lastOf_append_one]
    by_cases hk : k = key x
    · simp [hk]
    · simp [hk]

/-- The last write of some keys is the last one of its own key. -/
theorem lastOf_key [DecidableEq κ] {key : ι → κ} {r : κ → Bool}
    (h : lastOf (fun x => r (key x)) log = some w) :
    lastOf (fun x => decide (key w = key x)) log = some w := by
  have hw : r (key w) = true := (lastOf_mem h).2
  exact lastOf_of_imp (fun x _ hx => of_decide_eq_true hx ▸ hw) h (decide_eq_true rfl)

/-! ## Times -/

/-- When the clock never goes back, no write is later than the last one. -/
theorem le_lastOf {time : ι → Nat} (hclock : log.Pairwise fun x y => time x ≤ time y)
    (h : lastOf p log = some w) (hx : x ∈ log) (hp : p x = true) : time x ≤ time w := by
  obtain ⟨hw, later, earlier, hlog, hlater⟩ := List.find?_eq_some_iff_append.1 h
  rw [← List.mem_reverse, hlog, List.mem_append] at hx
  have hback := List.pairwise_reverse.2 hclock
  rw [hlog] at hback
  rcases hx with hx | hx
  · exact absurd hp (by simpa using hlater x hx)
  · rcases List.mem_cons.1 hx with rfl | hx
    · exact Nat.le_refl _
    · exact (List.pairwise_cons.1 (List.pairwise_append.1 hback).2.1).1 x hx

end LanguageLlm.Lib
