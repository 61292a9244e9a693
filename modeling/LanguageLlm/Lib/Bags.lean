import Mathlib.Algebra.BigOperators.Group.Finset.Basic
import Mathlib.Algebra.Order.Field.Basic
import Mathlib.Data.Rat.Cast.Order
import Mathlib.Tactic.Linarith
import LanguageLlm.Lib.OrderedMap

/-!
# Bags

A bag is counted into a map from its elements to how often they occur (`tally`). The sum of the
counts is the size of the bag, and the sum of the smaller counts of two bags is the size of what
they have in common. The share of one bag that another has (`share`) and the harmonic mean of two
shares lie between zero and one.
-/

namespace LanguageLlm.Lib

/-! ## Counting -/

section

variable {κ : Type} [DecidableEq κ]

/-- One more occurrence of a key. -/
def OrderedMap.bump (m : OrderedMap κ Nat) (k : κ) : OrderedMap κ Nat :=
  m.set k ((m.get? k).getD 0 + 1)

/-- How often each element occurs in a list. -/
def tally (l : List κ) : OrderedMap κ Nat := l.foldl OrderedMap.bump .empty

theorem get?_foldl_bump (l : List κ) (m : OrderedMap κ Nat) (k : κ) :
    (l.foldl OrderedMap.bump m).get? k =
      if k ∈ l then some ((m.get? k).getD 0 + l.count k) else m.get? k := by
  induction l generalizing m with
  | nil => rfl
  | cons a l ih =>
    rw [List.foldl_cons, ih, OrderedMap.bump, OrderedMap.get?_set]
    by_cases hka : k = a
    · subst hka
      rw [if_pos rfl, if_pos List.mem_cons_self, List.count_cons_self, Option.getD_some]
      split
      · congr 1
        omega
      · next hk => rw [List.count_eq_zero_of_not_mem hk]
    · have hmem : k ∈ a :: l ↔ k ∈ l := by rw [List.mem_cons, or_iff_right hka]
      simp only [if_neg hka, List.count_cons_of_ne (Ne.symm hka), hmem]

theorem get?_tally (l : List κ) (k : κ) :
    (tally l).get? k = if k ∈ l then some (l.count k) else none := by
  rw [tally, get?_foldl_bump, OrderedMap.get?_empty, Option.getD_none, Nat.zero_add]

theorem mem_keys_tally {l : List κ} {k : κ} : k ∈ (tally l).keys ↔ k ∈ l := by
  rw [OrderedMap.mem_keys_iff, get?_tally]
  split
  · next hk => exact ⟨fun _ => hk, fun _ => ⟨_, rfl⟩⟩
  · next hk => exact ⟨nofun, fun h => absurd h hk⟩

theorem count_of_mem_tally {l : List κ} {e : κ × Nat} (he : e ∈ (tally l).entries) :
    e.2 = l.count e.1 := by
  have hget := (OrderedMap.get?_eq_some_iff (tally l)).2 he
  rw [get?_tally] at hget
  split at hget
  · exact (Option.some.inj hget).symm
  · cases hget

/-- A sum over a tally is a sum over the elements. -/
theorem sum_tally (l : List κ) (f : κ → Nat → Nat) :
    ((tally l).entries.map fun e => f e.1 e.2).sum = ∑ k ∈ l.toFinset, f k (l.count k) := by
  have hkeys : (tally l).keys.toFinset = l.toFinset := by
    ext k
    rw [List.mem_toFinset, List.mem_toFinset, mem_keys_tally]
  have hentries : ((tally l).entries.map fun e => f e.1 e.2) =
      (tally l).keys.map fun k => f k (l.count k) := by
    rw [OrderedMap.keys, List.map_map]
    refine List.map_congr_left fun e he => ?_
    rw [count_of_mem_tally he]
    rfl
  have hnodup : (tally l).keys.Nodup := (tally l).nodup
  rw [hentries, ← List.sum_toFinset _ hnodup, hkeys]

/-- The counts add up to the size. -/
theorem sum_values_tally (l : List κ) : (tally l).values.sum = l.length := by
  rw [OrderedMap.values, sum_tally l fun _ count => count]
  exact List.sum_toFinset_count_eq_length l

/-- The smaller counts add up to the size of what two bags have in common. -/
theorem sum_overlap_tally (l l' : List κ) :
    ((tally l).entries.map fun e => (((tally l').get? e.1).map (min e.2)).getD 0).sum =
      ((l : Multiset κ) ∩ (l' : Multiset κ)).card := by
  rw [sum_tally l fun k count => (((tally l').get? k).map (min count)).getD 0]
  have hcommon : ∀ k ∈ ((l : Multiset κ) ∩ (l' : Multiset κ)), k ∈ l.toFinset := by
    intro k hk
    rw [List.mem_toFinset]
    exact Multiset.mem_coe.1 (Multiset.mem_inter.1 hk).1
  rw [← Multiset.sum_count_eq_card hcommon]
  refine Finset.sum_congr rfl fun k _ => ?_
  rw [Multiset.count_inter, Multiset.coe_count, Multiset.coe_count, get?_tally]
  split
  · rfl
  · next hk =>
    rw [List.count_eq_zero_of_not_mem hk, Nat.min_zero]
    rfl

theorem entries_tally_eq_nil {l : List κ} : (tally l).entries = [] ↔ l = [] := by
  constructor
  · intro h
    rw [List.eq_nil_iff_forall_not_mem]
    intro k hk
    rw [← mem_keys_tally, OrderedMap.keys, h] at hk
    cases hk
  · rintro rfl
    rfl

end

/-! ## Shares -/

section

variable {κ : Type} [DecidableEq κ]

/-- The share of the bag `s` that the bag `t` has as well. -/
def share (s t : Multiset κ) : Rat := (s ∩ t).card / s.card

theorem share_nonneg (s t : Multiset κ) : 0 ≤ share s t :=
  div_nonneg (Nat.cast_nonneg _) (Nat.cast_nonneg _)

theorem share_le_one (s t : Multiset κ) : share s t ≤ 1 := by
  refine div_le_one_of_le₀ ?_ (Nat.cast_nonneg _)
  exact Nat.cast_le.2 (Multiset.card_le_card (Multiset.inter_le_left))

theorem share_self {s : Multiset κ} (h : s ≠ 0) : share s s = 1 := by
  have hcard : (s.card : Rat) ≠ 0 := by
    rw [Nat.cast_ne_zero, Ne, Multiset.card_eq_zero]
    exact h
  have hinter : s ∩ s = s := inf_idem s
  rw [share, hinter, div_self hcard]

end

/-! ## The harmonic mean -/

section

variable {K : Type} [Field K]

/-- The harmonic mean, zero for two zeros. -/
def harmonicMean (p r : K) : K := (p * r + p * r) / (p + r)

theorem harmonicMean_comm (p r : K) : harmonicMean p r = harmonicMean r p := by
  rw [harmonicMean, harmonicMean, mul_comm p r, add_comm p r]

variable [LinearOrder K] [IsStrictOrderedRing K] {p r : K}

theorem harmonicMean_nonneg (hp : 0 ≤ p) (hr : 0 ≤ r) : 0 ≤ harmonicMean p r :=
  div_nonneg (add_nonneg (mul_nonneg hp hr) (mul_nonneg hp hr)) (add_nonneg hp hr)

theorem harmonicMean_le_one (hp : 0 ≤ p) (hr : 0 ≤ r) (hp' : p ≤ 1) (hr' : r ≤ 1) :
    harmonicMean p r ≤ 1 := by
  refine div_le_one_of_le₀ ?_ (add_nonneg hp hr)
  have hleft : p * r ≤ p := mul_le_of_le_one_right hp hr'
  have hright : p * r ≤ r := mul_le_of_le_one_left hr hp'
  exact add_le_add hleft hright

theorem harmonicMean_one : harmonicMean (1 : K) 1 = 1 := by
  rw [harmonicMean, mul_one, one_add_one_eq_two, div_self two_ne_zero]

end

end LanguageLlm.Lib
