import Mathlib.Data.List.Sort

/-!
# Stable sorting

`List.insertionSort` by a key is stable: an element comes after those with a smaller key and after
the ones before it with the same key. `place_of_insertionSort` reads the place of an element from
the list that is sorted. `filter_insertionSort` says that elements may be left out before or after
the sort, and `insertionSort_eq_of_perm` when the order of the list that is sorted does not matter.
-/

namespace LanguageLlm.Lib

/-! ## Leaving out, and reordering -/

section Preorder

variable {α : Type} {r : α → α → Prop} [DecidableRel r] [IsTrans α r]

theorem filter_orderedInsert (p : α → Bool) (a : α) {l : List α} (h : l.Pairwise r) :
    (l.orderedInsert r a).filter p =
      if p a then (l.filter p).orderedInsert r a else l.filter p := by
  induction l with
  | nil => cases hp : p a <;> simp [hp]
  | cons b l ih =>
    obtain ⟨hb, hl⟩ := List.pairwise_cons.1 h
    by_cases hab : r a b
    · -- `a` comes first, as it does among the elements that stay
      rw [List.orderedInsert_cons_of_le r l hab, List.filter_cons]
      split
      · symm
        cases hrest : (b :: l).filter p with
        | nil => rfl
        | cons c rest =>
          apply List.orderedInsert_cons_of_le
          have hc : c ∈ b :: l := (List.mem_filter.1 (hrest ▸ List.mem_cons_self)).1
          rcases List.mem_cons.1 hc with rfl | hc
          · exact hab
          · exact IsTrans.trans _ _ _ hab (hb c hc)
      · rfl
    · rw [List.orderedInsert_of_not_le r l hab, List.filter_cons, ih hl, List.filter_cons]
      by_cases hpa : p a = true
      · by_cases hpb : p b = true
        · simp only [hpa, hpb, if_true, List.orderedInsert_of_not_le r _ hab]
        · simp only [hpa, hpb, if_true, Bool.false_eq_true, if_false]
      · simp only [hpa, Bool.false_eq_true, if_false]

variable [Std.Total r]

/-- A stable sort and the choice of the elements commute. -/
theorem filter_insertionSort (p : α → Bool) (l : List α) :
    (l.insertionSort r).filter p = (l.filter p).insertionSort r := by
  induction l with
  | nil => rfl
  | cons a l ih =>
    rw [List.insertionSort_cons, filter_orderedInsert p a (List.pairwise_insertionSort r l), ih,
      List.filter_cons]
    split
    · rw [List.insertionSort_cons]
    · rfl

/-- Elements that no two of which are tied have one sorted list. -/
theorem insertionSort_eq_of_perm {l₁ l₂ : List α} (hp : l₁.Perm l₂)
    (hanti : ∀ a ∈ l₁, ∀ b ∈ l₁, r a b → r b a → a = b) :
    l₁.insertionSort r = l₂.insertionSort r := by
  have h₁ := List.perm_insertionSort r l₁
  have h₂ := List.perm_insertionSort r l₂
  apply List.Perm.eq_of_pairwise _ (List.pairwise_insertionSort r l₁)
    (List.pairwise_insertionSort r l₂) (h₁.trans (hp.trans h₂.symm))
  intro a b ha hb
  apply hanti a (h₁.mem_iff.1 ha) b (hp.mem_iff.2 (h₂.mem_iff.1 hb))

end Preorder

/-! ## Where an element comes -/

variable {α β : Type} [LinearOrder β] {key : α → β}

/-- The place of `c` in the sorted list, from the elements before it and those after it. -/
def place (key : α → β) (before : List α) (c : α) (after : List α) : Nat :=
  before.countP (fun b => key b ≤ key c) + after.countP fun b => key b < key c

/-- In a sorted list the elements with a smaller key come first. -/
theorem takeWhile_sorted (a : α) {l : List α} (h : l.Pairwise fun b c => key b ≤ key c) :
    (l.takeWhile fun b => ¬ key a ≤ key b) = (l.filter fun b => key b < key a) ∧
      (l.dropWhile fun b => ¬ key a ≤ key b) = l.filter fun b => key a ≤ key b := by
  induction l with
  | nil => exact ⟨rfl, rfl⟩
  | cons b l ih =>
    obtain ⟨hb, hl⟩ := List.pairwise_cons.1 h
    obtain ⟨htake, hdrop⟩ := ih hl
    by_cases hab : key a ≤ key b
    · have hall : ∀ c ∈ l, key a ≤ key c := fun c hc => hab.trans (hb c hc)
      have hnone : (l.filter fun c => key c < key a) = [] := by
        rw [List.filter_eq_nil_iff]
        intro c hc
        simpa using hall c hc
      have hself : (l.filter fun c => key a ≤ key c) = l := by
        rw [List.filter_eq_self]
        intro c hc
        simpa using hall c hc
      simp [hab, hnone, hself]
    · have hba := not_le.1 hab
      rw [List.takeWhile_cons_of_pos (by simpa using hba),
        List.dropWhile_cons_of_pos (by simpa using hba), htake, hdrop]
      simp [hab, hba]

/-- Every element of the sorted list stands at its place. -/
theorem place_of_insertionSort {l : List α} {i : Nat} {c : α}
    (h : (l.insertionSort fun a b => key a ≤ key b)[i]? = some c) :
    ∃ before after, l = before ++ c :: after ∧ i = place key before c after := by
  induction l generalizing i c with
  | nil => cases h
  | cons a l ih =>
    let sorted := l.insertionSort fun a b => key a ≤ key b
    obtain ⟨htake, hdrop⟩ :=
      takeWhile_sorted a (List.pairwise_insertionSort (fun a b => key a ≤ key b) l)
    let smaller := sorted.filter fun b => key b < key a
    let larger := sorted.filter fun b => key a ≤ key b
    have hsplit : smaller ++ larger = sorted := by
      have happend :=
        List.takeWhile_append_dropWhile (p := fun b => decide ¬ key a ≤ key b) (l := sorted)
      rwa [htake, hdrop] at happend
    have hlength : smaller.length = l.countP fun b => key b < key a := by
      rw [← List.countP_eq_length_filter]
      exact (List.perm_insertionSort (fun a b => key a ≤ key b) l).countP_eq _
    rw [List.insertionSort_cons, List.orderedInsert_eq_take_drop, htake, hdrop] at h
    change (smaller ++ a :: larger)[i]? = some c at h
    rcases Nat.lt_trichotomy i smaller.length with hlt | heq | hgt
    · -- before `a`, as in the sorted rest
      rw [List.getElem?_append_left hlt] at h
      have hsmall : key c < key a := by simpa using (List.mem_filter.1 (List.mem_of_getElem? h)).2
      have hrest : sorted[i]? = some c := by rw [← hsplit, List.getElem?_append_left hlt, h]
      obtain ⟨before, after, rfl, rfl⟩ := ih hrest
      refine ⟨a :: before, after, rfl, ?_⟩
      simp [place, not_le.2 hsmall]
    · subst heq
      rw [List.getElem?_append_right le_rfl, Nat.sub_self] at h
      cases h
      exact ⟨[], l, rfl, by simp [place, hlength]⟩
    · -- behind `a`, one place later than in the sorted rest
      obtain ⟨j, rfl⟩ := Nat.exists_eq_add_of_lt hgt
      rw [List.getElem?_append_right (by omega)] at h
      have hindex : smaller.length + j + 1 - smaller.length = j + 1 := by omega
      rw [hindex, List.getElem?_cons_succ] at h
      have hlarge : key a ≤ key c := by simpa using (List.mem_filter.1 (List.mem_of_getElem? h)).2
      have hrest : sorted[smaller.length + j]? = some c := by
        rw [← hsplit, List.getElem?_append_right (Nat.le_add_right ..), Nat.add_sub_cancel_left, h]
      obtain ⟨before, after, rfl, hplace⟩ := ih hrest
      refine ⟨a :: before, after, rfl, ?_⟩
      rw [place, List.countP_cons_of_pos (by simpa using hlarge)]
      rw [place] at hplace
      omega

end LanguageLlm.Lib
