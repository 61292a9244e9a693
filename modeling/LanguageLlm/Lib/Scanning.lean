import Mathlib.Data.List.TakeWhile

/-!
# Scanning

A list is read from the left. Where something begins it is taken, and reading goes on behind it;
elsewhere one element is passed over. When nothing that is taken reaches over a separator, the
halves of a list can be read one after the other (`scan_append_cons`).
-/

namespace LanguageLlm.Lib

variable {α β : Type} {take : List α → Option (β × List α)} {a b l rest : List α} {sep c : α}

/-- A run of a class ends before what is not in it. -/
theorem takeWhile_append_cons {p : α → Bool} (hsep : p sep = false) (a b : List α) :
    (a ++ sep :: b).takeWhile p = a.takeWhile p ∧
      (a ++ sep :: b).dropWhile p = a.dropWhile p ++ sep :: b := by
  induction a with
  | nil => simp [hsep]
  | cons c a ih =>
    cases hc : p c with
    | true => simp [hc, ih]
    | false => simp [hc]

/-- The part of a list before a separator, and the part after it where it occurs. -/
def cut [DecidableEq α] (sep : α) (l : List α) : List α × Option (List α) :=
  (l.takeWhile (· ≠ sep), if sep ∈ l then some ((l.dropWhile (· ≠ sep)).drop 1) else none)

theorem ne_of_mem_of_not_mem [DecidableEq α] (h : sep ∉ a) : ∀ x ∈ a, decide (x ≠ sep) = true := by
  intro x hx
  rw [decide_eq_true_eq]
  rintro rfl
  exact h hx

theorem cut_append_cons [DecidableEq α] (h : sep ∉ a) (b : List α) :
    cut sep (a ++ sep :: b) = (a, some b) := by
  have hall := ne_of_mem_of_not_mem h
  rw [cut, List.takeWhile_append_of_pos hall, List.dropWhile_append_of_pos hall,
    if_pos (by simp)]
  simp

theorem cut_of_not_mem [DecidableEq α] (h : sep ∉ a) : cut sep a = (a, none) := by
  rw [cut, if_neg h, List.takeWhile_eq_self_iff.2 (ne_of_mem_of_not_mem h)]

/-- A word does not reach over what is not in it. -/
theorem prefix_append_cons_iff {w : List α} (hsep : sep ∉ w) (a b : List α) :
    w <+: a ++ sep :: b ↔ w <+: a := by
  induction w generalizing a with
  | nil => simp
  | cons x w ih =>
    have hx : x ≠ sep := (List.ne_of_not_mem_cons hsep).symm
    have hw : sep ∉ w := List.not_mem_of_not_mem_cons hsep
    cases a with
    | nil => simp [List.cons_prefix_cons, hx]
    | cons c a => rw [List.cons_append, List.cons_prefix_cons, List.cons_prefix_cons, ih hw]

/-- What is taken from a list, from left to right; the fuel is the length of the list. -/
def scanFrom (take : List α → Option (β × List α)) : Nat → List α → List β
  | fuel + 1, c :: cs =>
    match take (c :: cs) with
    | some (found, rest) => found :: scanFrom take fuel rest
    | none => scanFrom take fuel cs
  | _, _ => []

def scan (take : List α → Option (β × List α)) (l : List α) : List β := scanFrom take l.length l

/-- What is taken has elements. -/
def Consumes (take : List α → Option (β × List α)) : Prop :=
  ∀ l found rest, take l = some (found, rest) → rest.length < l.length

/-- What is taken does not depend on what comes behind a separator. -/
def StopsAt (take : List α → Option (β × List α)) (sep : α) : Prop :=
  ∀ a b, take (a ++ sep :: b) = (take a).map fun r => (r.1, r.2 ++ sep :: b)

theorem scanFrom_eq (h : Consumes take) {fuel n : Nat} (hfuel : l.length ≤ fuel)
    (hn : l.length ≤ n) : scanFrom take fuel l = scanFrom take n l := by
  induction fuel generalizing n l with
  | zero =>
    rw [List.length_eq_zero_iff.1 (Nat.le_zero.1 hfuel)]
    cases n <;> rfl
  | succ fuel ih =>
    cases l with
    | nil => cases n <;> rfl
    | cons c cs =>
      obtain ⟨n, rfl⟩ : ∃ k, n = k + 1 := ⟨n - 1, by rw [List.length_cons] at hn; omega⟩
      rw [List.length_cons] at hfuel hn
      rw [scanFrom, scanFrom]
      cases htake : take (c :: cs) with
      | none => exact ih (by omega) (by omega)
      | some r =>
        have hlt := h _ _ _ htake
        rw [List.length_cons] at hlt
        dsimp only
        rw [ih (l := r.2) (n := n) (by omega) (by omega)]

theorem scan_none (h : take (c :: l) = none) : scan take (c :: l) = scan take l := by
  rw [scan, List.length_cons, scanFrom, h, scan]

theorem scan_some (hconsumes : Consumes take) {found : β} (h : take l = some (found, rest)) :
    scan take l = found :: scan take rest := by
  have hlt := hconsumes _ _ _ h
  cases l with
  | nil => exact absurd hlt (Nat.not_lt_zero _)
  | cons c cs =>
    rw [List.length_cons] at hlt
    rw [scan, List.length_cons, scanFrom, h]
    dsimp only
    rw [scanFrom_eq hconsumes (l := rest) (n := rest.length) (Nat.le_of_lt_succ hlt)
      (Nat.le_refl _), scan]

/-- The parts before and behind a separator are read one after the other. -/
theorem scan_append_cons (hconsumes : Consumes take) (hstops : StopsAt take sep) (a b : List α) :
    scan take (a ++ sep :: b) = scan take a ++ scan take b := by
  induction hlength : a.length using Nat.strongRecOn generalizing a with
  | ind n ih =>
    subst hlength
    cases a with
    | nil =>
      have hnil : take [] = none := by
        cases htake : take [] with
        | none => rfl
        | some r => exact absurd (hconsumes _ _ _ htake) (Nat.not_lt_zero _)
      have hsep : take (sep :: b) = none := by
        have hstop := hstops [] b
        rwa [hnil] at hstop
      exact scan_none hsep
    | cons c cs =>
      cases htake : take (c :: cs) with
      | none =>
        have hnone : take (c :: (cs ++ sep :: b)) = none := by
          rw [← List.cons_append, hstops, htake, Option.map_none]
        rw [scan_none htake, List.cons_append, scan_none hnone]
        exact ih cs.length (by simp) cs rfl
      | some r =>
        obtain ⟨found, rest⟩ := r
        have hsome : take (c :: cs ++ sep :: b) = some (found, rest ++ sep :: b) := by
          rw [hstops, htake, Option.map_some]
        rw [scan_some hconsumes htake, scan_some hconsumes hsome, List.cons_append,
          ih rest.length (hconsumes _ _ _ htake) rest rfl]

/-- Lists that are joined with a separator. -/
theorem scan_intercalate (hconsumes : Consumes take) (hstops : StopsAt take sep)
    (l : List (List α)) : scan take ([sep].intercalate l) = l.flatMap (scan take) := by
  induction l with
  | nil => rfl
  | cons part l ih =>
    cases l with
    | nil => rw [List.intercalate_singleton, List.flatMap_singleton]
    | cons next l =>
      rw [List.intercalate_cons_cons, List.append_assoc, List.singleton_append,
        scan_append_cons hconsumes hstops, ih]
      rfl

end LanguageLlm.Lib
