import Mathlib.Order.Bounds.Basic
import Mathlib.Order.MinMax
import Mathlib.Data.List.Basic

/-!
# Edit distance

A list is edited one element at a time, at any place and in any order; the distance of two lists is
the least number of edits that turn one into the other. As many edits as it takes can also be made
from left to right (`Edits.aligns`), and an alignment has a last step, so that the distance of two
lists follows from the distances of their beginnings (`IsDistance.concat`).
-/

namespace LanguageLlm.Lib

variable {α : Type} {a b c : List α} {m n : Nat}

/-! ## Edits -/

/-- One element is inserted, deleted or substituted. -/
inductive Edit : List α → List α → Prop
  | insert (before : List α) (x : α) (after : List α) :
      Edit (before ++ after) (before ++ x :: after)
  | delete (before : List α) (x : α) (after : List α) :
      Edit (before ++ x :: after) (before ++ after)
  | substitute (before : List α) (x y : α) (after : List α) :
      Edit (before ++ x :: after) (before ++ y :: after)

/-- So many edits, one after the other. -/
inductive Edits : Nat → List α → List α → Prop
  | refl (a : List α) : Edits 0 a a
  | edit {a b c : List α} {n : Nat} (first : Edit a b) (rest : Edits n b c) : Edits (n + 1) a c

namespace Edit

theorem symm (h : Edit a b) : Edit b a := by
  cases h with
  | insert before x after => exact .delete before x after
  | delete before x after => exact .insert before x after
  | substitute before x y after => exact .substitute before y x after

theorem cons (x : α) (h : Edit a b) : Edit (x :: a) (x :: b) := by
  cases h with
  | insert before y after => exact .insert (x :: before) y after
  | delete before y after => exact .delete (x :: before) y after
  | substitute before y z after => exact .substitute (x :: before) y z after

/-- An edit replaces at most one element by at most one. -/
theorem exists_replace (h : Edit a b) : ∃ before u v after, a = before ++ (u ++ after) ∧
    b = before ++ (v ++ after) ∧ u.length ≤ 1 ∧ v.length ≤ 1 := by
  cases h with
  | insert before x after =>
    exact ⟨before, [], [x], after, rfl, rfl, Nat.zero_le 1, Nat.le_refl 1⟩
  | delete before x after =>
    exact ⟨before, [x], [], after, rfl, rfl, Nat.le_refl 1, Nat.zero_le 1⟩
  | substitute before x y after =>
    exact ⟨before, [x], [y], after, rfl, rfl, Nat.le_refl 1, Nat.le_refl 1⟩

end Edit

namespace Edits

theorem trans (h : Edits m a b) (h' : Edits n b c) : Edits (m + n) a c := by
  induction h with
  | refl => rwa [Nat.zero_add]
  | edit first _ ih =>
    rw [Nat.succ_add]
    exact .edit first (ih h')

theorem symm (h : Edits n a b) : Edits n b a := by
  induction h with
  | refl a => exact .refl a
  | edit first _ ih => exact ih.trans (.edit first.symm (.refl _))

theorem cons (x : α) (h : Edits n a b) : Edits n (x :: a) (x :: b) := by
  induction h with
  | refl a => exact .refl (x :: a)
  | edit first _ ih => exact .edit (first.cons x) ih

theorem zero_iff : Edits 0 a b ↔ a = b := by
  constructor
  · intro h
    cases h
    rfl
  · intro h
    subst h
    exact .refl a

end Edits

/-! ## Alignments -/

/-- So many edits, made from left to right. -/
inductive Aligns : Nat → List α → List α → Prop
  | nil : Aligns 0 [] []
  | keep {n : Nat} {a b : List α} (x : α) (rest : Aligns n a b) : Aligns n (x :: a) (x :: b)
  | substitute {n : Nat} {a b : List α} (x y : α) (rest : Aligns n a b) :
      Aligns (n + 1) (x :: a) (y :: b)
  | delete {n : Nat} {a b : List α} (x : α) (rest : Aligns n a b) : Aligns (n + 1) (x :: a) b
  | insert {n : Nat} {a b : List α} (y : α) (rest : Aligns n a b) : Aligns (n + 1) a (y :: b)

namespace Aligns

theorem edits (h : Aligns n a b) : Edits n a b := by
  induction h with
  | nil => exact .refl []
  | keep x _ ih => exact ih.cons x
  | substitute x y _ ih => exact .edit (.substitute [] x y _) (ih.cons y)
  | delete x _ ih => exact .edit (.delete [] x _) ih
  | insert y _ ih => exact .edit (.insert [] y _) (ih.cons y)

theorem refl (a : List α) : Aligns 0 a a := by
  induction a with
  | nil => exact .nil
  | cons x a ih => exact .keep x ih

theorem append {a' b' : List α} (h : Aligns m a b) (h' : Aligns n a' b') :
    Aligns (m + n) (a ++ a') (b ++ b') := by
  induction h with
  | nil => rwa [Nat.zero_add]
  | keep x _ ih => exact .keep x ih
  | substitute x y _ ih =>
    rw [Nat.succ_add]
    exact .substitute x y ih
  | delete x _ ih =>
    rw [Nat.succ_add]
    exact .delete x ih
  | insert y _ ih =>
    rw [Nat.succ_add]
    exact .insert y ih

theorem reverse (h : Aligns n a b) : Aligns n a.reverse b.reverse := by
  induction h with
  | nil => exact .nil
  | keep x _ ih =>
    rw [List.reverse_cons, List.reverse_cons]
    exact ih.append (.keep x .nil)
  | substitute x y _ ih =>
    rw [List.reverse_cons, List.reverse_cons]
    exact ih.append (.substitute x y .nil)
  | delete x _ ih =>
    rw [List.reverse_cons]
    have h := ih.append (.delete x .nil)
    rwa [List.append_nil] at h
  | insert y _ ih =>
    rw [List.reverse_cons]
    have h := ih.append (.insert y .nil)
    rwa [List.append_nil] at h

theorem length_le (h : Aligns n a b) : a.length ≤ b.length + n ∧ b.length ≤ a.length + n := by
  induction h with
  | nil => exact ⟨Nat.le_refl 0, Nat.le_refl 0⟩
  | keep x _ ih | substitute x y _ ih | delete x _ ih | insert y _ ih =>
    simp only [List.length_cons]
    omega

/-- What is aligned with the first element comes first. -/
theorem cons_split {x : α} (h : Aligns n (x :: a) c) : ∃ k l b b', n = k + l ∧ c = b ++ b' ∧
    Aligns k [x] b ∧ Aligns l a b' := by
  generalize hs : x :: a = s at h
  induction h with
  | nil => cases hs
  | keep y rest =>
    obtain ⟨rfl, rfl⟩ := List.cons.inj hs
    exact ⟨0, _, [x], _, (Nat.zero_add _).symm, rfl, .keep x .nil, rest⟩
  | substitute y z rest =>
    obtain ⟨rfl, rfl⟩ := List.cons.inj hs
    exact ⟨1, _, [z], _, Nat.add_comm _ 1, rfl, .substitute x z .nil, rest⟩
  | delete y rest =>
    obtain ⟨rfl, rfl⟩ := List.cons.inj hs
    exact ⟨1, _, [], _, Nat.add_comm _ 1, rfl, .delete x .nil, rest⟩
  | insert z _ ih =>
    obtain ⟨k, l, b, b', rfl, rfl, hk, hl⟩ := ih hs
    exact ⟨k + 1, l, z :: b, b', Nat.add_right_comm k l 1, rfl, .insert z hk, hl⟩

/-- What is aligned with a list in two parts has two parts. -/
theorem split {a' : List α} (h : Aligns n (a ++ a') c) : ∃ k l b b', n = k + l ∧ c = b ++ b' ∧
    Aligns k a b ∧ Aligns l a' b' := by
  induction a generalizing n c with
  | nil => exact ⟨0, n, [], c, (Nat.zero_add n).symm, rfl, .nil, h⟩
  | cons x a ih =>
    obtain ⟨k₁, l, b₁, b', rfl, rfl, h₁, h'⟩ := h.cons_split
    obtain ⟨k₂, k₃, b₂, b₃, rfl, rfl, h₂, h₃⟩ := ih h'
    refine ⟨k₁ + k₂, k₃, b₁ ++ b₂, b₃, ?_, ?_, h₁.append h₂, h₃⟩
    · rw [Nat.add_assoc]
    · rw [List.append_assoc]

/-- The last elements are kept or substituted, or one of them is deleted or inserted. -/
theorem last {x y : α} (h : Aligns n (a ++ [x]) (b ++ [y])) : (x = y ∧ Aligns n a b) ∨
    ∃ k, n = k + 1 ∧
      (Aligns k a b ∨ Aligns k a (b ++ [y]) ∨ Aligns k (a ++ [x]) b) := by
  have hback : ∀ {k : Nat} {s t : List α}, Aligns k s.reverse t.reverse → Aligns k s t := by
    intro k s t h
    simpa only [List.reverse_reverse] using h.reverse
  -- the last step is the first one of the reversed alignment
  have hreverse := h.reverse
  rw [List.reverse_concat, List.reverse_concat] at hreverse
  cases hreverse with
  | keep _ rest => exact .inl ⟨rfl, hback rest⟩
  | substitute _ _ rest => exact .inr ⟨_, rfl, .inl (hback rest)⟩
  | delete _ rest =>
    rw [← List.reverse_concat] at rest
    exact .inr ⟨_, rfl, .inr (.inl (hback rest))⟩
  | insert _ rest =>
    rw [← List.reverse_concat] at rest
    exact .inr ⟨_, rfl, .inr (.inr (hback rest))⟩

/-- Any two lists can be aligned element by element. -/
theorem exists_le (a b : List α) : ∃ k ≤ max a.length b.length, Aligns k a b := by
  induction a generalizing b with
  | nil =>
    induction b with
    | nil => exact ⟨0, Nat.le_refl 0, .nil⟩
    | cons y b ih =>
      obtain ⟨k, hk, h⟩ := ih
      refine ⟨k + 1, ?_, .insert y h⟩
      simp only [List.length_cons, List.length_nil] at hk ⊢
      omega
  | cons x a ih =>
    cases b with
    | nil =>
      obtain ⟨k, hk, h⟩ := ih []
      refine ⟨k + 1, ?_, .delete x h⟩
      simp only [List.length_cons, List.length_nil] at hk ⊢
      omega
    | cons y b =>
      obtain ⟨k, hk, h⟩ := ih b
      refine ⟨k + 1, ?_, .substitute x y h⟩
      simp only [List.length_cons]
      omega

/-- An edit before an alignment costs at most one more. -/
theorem edit (first : Edit a b) (h : Aligns n b c) : ∃ k ≤ n + 1, Aligns k a c := by
  obtain ⟨before, u, v, after, rfl, rfl, hu, hv⟩ := first.exists_replace
  obtain ⟨k₁, l, c₁, c', rfl, rfl, h₁, h'⟩ := h.split
  obtain ⟨k₂, k₃, c₂, c₃, rfl, rfl, h₂, h₃⟩ := h'.split
  obtain ⟨k, hk, hreplaced⟩ := exists_le u c₂
  have hlength := h₂.length_le.2
  exact ⟨k₁ + (k + k₃), by omega, h₁.append (hreplaced.append h₃)⟩

end Aligns

theorem Edits.aligns (h : Edits n a b) : ∃ k ≤ n, Aligns k a b := by
  induction h with
  | refl a => exact ⟨0, Nat.le_refl 0, .refl a⟩
  | edit first _ ih =>
    obtain ⟨k, hk, h⟩ := ih
    obtain ⟨k', hk', h'⟩ := h.edit first
    exact ⟨k', by omega, h'⟩

/-! ## The distance -/

/-- The least number of edits that turn one list into the other. -/
def IsDistance (a b : List α) (n : Nat) : Prop := IsLeast { k | Edits k a b } n

theorem isDistance_iff : IsDistance a b n ↔ Aligns n a b ∧ ∀ k, Aligns k a b → n ≤ k := by
  constructor
  · intro h
    have hleast : ∀ k, Aligns k a b → n ≤ k := fun k hk => h.2 hk.edits
    obtain ⟨k, hk, haligns⟩ := Edits.aligns h.1
    have heq : k = n := Nat.le_antisymm hk (hleast k haligns)
    exact ⟨heq ▸ haligns, hleast⟩
  · intro h
    refine ⟨h.1.edits, fun k hk => ?_⟩
    obtain ⟨l, hl, haligns⟩ := Edits.aligns hk
    exact (h.2 l haligns).trans hl

namespace IsDistance

theorem nil_left (b : List α) : IsDistance [] b b.length := by
  have hleast : ∀ k, Aligns k [] b → b.length ≤ k := by
    intro k hk
    have h := hk.length_le.2
    simp only [List.length_nil] at h
    omega
  obtain ⟨k, hk, haligns⟩ := Aligns.exists_le [] b
  have heq : k = b.length := by
    have h := hleast k haligns
    simp only [List.length_nil] at hk
    omega
  exact isDistance_iff.2 ⟨heq ▸ haligns, hleast⟩

theorem symm (h : IsDistance a b n) : IsDistance b a n :=
  ⟨h.1.symm, fun _ hk => h.2 hk.symm⟩

theorem nil_right (a : List α) : IsDistance a [] a.length := (nil_left a).symm

theorem triangle {k : Nat} (hab : IsDistance a b m) (hbc : IsDistance b c n)
    (hac : IsDistance a c k) : k ≤ m + n :=
  hac.2 (hab.1.trans hbc.1)

theorem eq_zero_iff (h : IsDistance a b n) : n = 0 ↔ a = b := by
  rw [← Edits.zero_iff]
  constructor
  · intro hn
    exact hn ▸ h.1
  · intro hzero
    exact Nat.le_zero.1 (h.2 hzero)

/-- The last elements are kept or substituted, or one of them is deleted or inserted. -/
theorem concat [DecidableEq α] {x y : α} {p q r : Nat} (hp : IsDistance a (b ++ [y]) p)
    (hq : IsDistance (a ++ [x]) b q) (hr : IsDistance a b r) :
    IsDistance (a ++ [x]) (b ++ [y])
      (min (min (p + 1) (q + 1)) (r + if x = y then 0 else 1)) := by
  rw [isDistance_iff] at hp hq hr ⊢
  have hdelete : Aligns (p + 1) (a ++ [x]) (b ++ [y]) := by
    have h := hp.1.append (.delete x .nil)
    rwa [List.append_nil] at h
  have hinsert : Aligns (q + 1) (a ++ [x]) (b ++ [y]) := by
    have h := hq.1.append (.insert y .nil)
    rwa [List.append_nil] at h
  have hlast : Aligns (r + if x = y then 0 else 1) (a ++ [x]) (b ++ [y]) := by
    split
    · rename_i heq
      subst heq
      exact hr.1.append (.keep x .nil)
    · exact hr.1.append (.substitute x y .nil)
  refine ⟨?_, ?_⟩
  · rcases min_choice (min (p + 1) (q + 1)) (r + if x = y then 0 else 1) with h | h
    · rw [h]
      rcases min_choice (p + 1) (q + 1) with h' | h'
      · rw [h']
        exact hdelete
      · rw [h']
        exact hinsert
    · rw [h]
      exact hlast
  · intro k hk
    rcases hk.last with ⟨heq, h⟩ | ⟨k, rfl, h | h | h⟩
    · have hle := hr.2 k h
      rw [if_pos heq]
      omega
    · have hle := hr.2 k h
      split <;> omega
    · have hle := hp.2 k h
      omega
    · have hle := hq.2 k h
      omega

end IsDistance

end LanguageLlm.Lib
