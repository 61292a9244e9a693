import Mathlib.Data.List.Basic

/-!
# Tables and counting loops

A table of fixed size is read and written cell by cell. `forLoop` is the loop that counts from `lo`
up to `hi`, and `forLoop_inv` its rule: an invariant of the counter and the state that every pass
keeps holds with the counter at `hi` when the loop ends.
-/

namespace LanguageLlm.Lib

/-! ## Loops -/

variable {σ α : Type}

/-- `for (let i = lo; i < hi; i++)`. -/
def forLoop (lo hi : Nat) (body : Nat → σ → σ) (s : σ) : σ :=
  (List.range' lo (hi - lo)).foldl (fun s i => body i s) s

theorem forLoop_inv {P : Nat → σ → Prop} {lo hi : Nat} {body : Nat → σ → σ} {s : σ}
    (hle : lo ≤ hi) (hstart : P lo s)
    (hstep : ∀ i s, lo ≤ i → i < hi → P i s → P (i + 1) (body i s)) :
    P hi (forLoop lo hi body s) := by
  obtain ⟨n, rfl⟩ := Nat.exists_eq_add_of_le hle
  rw [forLoop, Nat.add_sub_cancel_left]
  clear hle
  induction n generalizing lo s with
  | zero => exact hstart
  | succ n ih =>
    rw [List.range'_succ, List.foldl_cons]
    have hrest := ih (hstep lo s (Nat.le_refl lo) (by omega) hstart)
      (fun i s hi hlt => hstep i s (by omega) (by omega))
    rwa [Nat.add_right_comm] at hrest

/-! ## Tables -/

/-- Rows of the same length. -/
abbrev Table (α : Type) (rows cols : Nat) := Vector (Vector α cols) rows

namespace Table

variable [Inhabited α] {rows cols : Nat}

def get (t : Table α rows cols) (i j : Nat) : α := (t[i]!)[j]!

def set (t : Table α rows cols) (i j : Nat) (value : α) : Table α rows cols :=
  t.set! i (t[i]!.set! j value)

theorem getElem!_set! {β : Type} [Inhabited β] {n : Nat} (v : Vector β n) {i k : Nat} (x : β)
    (hk : k < n) : (v.set! i x)[k]! = if i = k then x else v[k]! := by
  rw [getElem!_pos (v.set! i x) k hk, getElem!_pos v k hk, Vector.set!_eq_setIfInBounds,
    Vector.getElem_setIfInBounds]

/-- A write changes one cell. -/
theorem get_set (t : Table α rows cols) {i j k l : Nat} (value : α) (hk : k < rows)
    (hl : l < cols) : (t.set i j value).get k l = if i = k ∧ j = l then value else t.get k l := by
  rw [get, set, getElem!_set! t _ hk]
  by_cases hi : i = k
  · subst hi
    rw [if_pos rfl, getElem!_set! _ _ hl]
    by_cases hj : j = l
    · rw [if_pos hj, if_pos ⟨rfl, hj⟩]
    · rw [if_neg hj, if_neg (fun h => hj h.2), get]
  · rw [if_neg hi, if_neg (fun h => hi h.1), get]

end Table

end LanguageLlm.Lib
