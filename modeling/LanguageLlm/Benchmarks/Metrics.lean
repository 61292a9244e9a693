import Mathlib.Algebra.Field.Rat
import Mathlib.Data.Rat.Cast.CharZero
import LanguageLlm.Lib.EditDistance
import LanguageLlm.Lib.Tables
import LanguageLlm.PageTranslate.Segmenter

/-!
# Metrics

`metrics.ts` of the benchmarks: the edit distance of two token lists and the word error rate that is
computed from it. `editDistance` fills a table row by row; every cell holds the distance of the
beginnings of the lists that it stands for (`Known`).
-/

namespace LanguageLlm.Benchmarks

open Lib
open PageTranslate (collapseSpaces trim)

/-! ## The metrics -/

def normalizeWhitespace (toLowerCase : String → String) (text : String) : List Char :=
  collapseSpaces false (toLowerCase (String.ofList (trim text.toList))).toList

def tokenizeWords (toLowerCase : String → String) (text : String) : List String :=
  let normalized := normalizeWhitespace toLowerCase text
  if normalized = [] then [] else (normalized.splitOn ' ').map String.ofList

/-- The value that the loops of `editDistance` write to `dp[i][j]`. -/
def cell {rows cols : Nat} (a b : List String) (dp : Table Nat rows cols) (i j : Nat) : Nat :=
  let cost := if a[i - 1]? = b[j - 1]? then 0 else 1
  min (min (dp.get (i - 1) j + 1) (dp.get i (j - 1) + 1)) (dp.get (i - 1) (j - 1) + cost)

def editDistance (a b : List String) : Nat :=
  let rows := a.length + 1
  let cols := b.length + 1
  let dp : Table Nat rows cols := Vector.replicate rows (Vector.replicate cols 0)
  let dp := forLoop 0 rows (fun i dp => dp.set i 0 i) dp
  let dp := forLoop 0 cols (fun j dp => dp.set 0 j j) dp
  let dp := forLoop 1 rows (fun i dp =>
    forLoop 1 cols (fun j dp => dp.set i j (cell a b dp i j)) dp) dp
  dp.get a.length b.length

/-- A quotient of numbers far below `2 ^ 53`, taken exactly. -/
def wordErrorRate (toLowerCase : String → String) (reference hypothesis : String) : Rat :=
  let ref := tokenizeWords toLowerCase reference
  let hyp := tokenizeWords toLowerCase hypothesis
  if ref.length = 0 then if hyp.length = 0 then 0 else 1
  else editDistance ref hyp / ref.length

/-! ## The table -/

section

variable {a b : List String} {dp : Table Nat (a.length + 1) (b.length + 1)} {i j : Nat}

/-- The cell holds the distance of the first `i` elements and the first `j` elements. -/
def Holds (a b : List String) (dp : Table Nat (a.length + 1) (b.length + 1)) (i j : Nat) : Prop :=
  IsDistance (a.take i) (b.take j) (dp.get i j)

/-- The cells that are filled before row `i` and up to column `j` in it, and the first column. -/
def Known (a b : List String) (i j : Nat) (dp : Table Nat (a.length + 1) (b.length + 1)) : Prop :=
  ∀ k l, k ≤ a.length → l ≤ b.length → k < i ∨ l = 0 ∨ k = i ∧ l < j → Holds a b dp k l

theorem holds_cell (hi : i < a.length) (hj : j < b.length) (habove : Holds a b dp i (j + 1))
    (hleft : Holds a b dp (i + 1) j) (hdiagonal : Holds a b dp i j) :
    IsDistance (a.take (i + 1)) (b.take (j + 1)) (cell a b dp (i + 1) (j + 1)) := by
  unfold Holds at habove hleft hdiagonal
  have ha : a.take (i + 1) = a.take i ++ [a[i]] := (List.take_concat_get' a i hi).symm
  have hb : b.take (j + 1) = b.take j ++ [b[j]] := (List.take_concat_get' b j hj).symm
  rw [hb] at habove
  rw [ha] at hleft
  have hconcat := habove.concat hleft hdiagonal
  rw [ha, hb, cell]
  simp only [Nat.add_sub_cancel, List.getElem?_eq_getElem hi, List.getElem?_eq_getElem hj,
    Option.some.injEq]
  exact hconcat

/-- What is known after one more cell. -/
theorem Known.next (h : Known a b (i + 1) (j + 1) dp) (hi : i < a.length) (hj : j < b.length) :
    Known a b (i + 1) (j + 2) (dp.set (i + 1) (j + 1) (cell a b dp (i + 1) (j + 1))) := by
  intro k l hk hl hkl
  rw [Holds, Table.get_set _ _ (by omega) (by omega)]
  split
  · rename_i heq
    obtain ⟨rfl, rfl⟩ := heq
    exact holds_cell hi hj (h i (j + 1) (by omega) hl (by omega))
      (h (i + 1) j hk (by omega) (by omega)) (h i j (by omega) (by omega) (by omega))
  · exact h k l hk hl (by omega)

/-- What is known after one more row. -/
theorem Known.row (h : Known a b i 1 dp) (hpos : 1 ≤ i) (hi : i < a.length + 1) :
    Known a b (i + 1) 1
      (forLoop 1 (b.length + 1) (fun j dp => dp.set i j (cell a b dp i j)) dp) := by
  obtain ⟨i, rfl⟩ := Nat.exists_eq_add_of_le' hpos
  have hrow : Known a b (i + 1) (b.length + 1) (forLoop 1 (b.length + 1)
      (fun j dp => dp.set (i + 1) j (cell a b dp (i + 1) j)) dp) := by
    refine forLoop_inv (P := fun j dp => Known a b (i + 1) j dp) (Nat.le_add_left 1 b.length) h ?_
    intro j dp hj hlt hknown
    obtain ⟨j, rfl⟩ := Nat.exists_eq_add_of_le' hj
    exact hknown.next (by omega) (by omega)
  intro k l hk hl hkl
  exact hrow k l hk hl (by omega)

theorem known_first (hcol : ∀ k < a.length + 1, dp.get k 0 = k)
    (hrow : ∀ l < b.length + 1, dp.get 0 l = l) : Known a b 1 1 dp := by
  intro k l hk hl hkl
  rw [Holds]
  by_cases hzero : l = 0
  · subst hzero
    rw [hcol k (by omega), List.take_zero]
    have h := IsDistance.nil_right (a.take k)
    rwa [List.length_take_of_le hk] at h
  · have hk0 : k = 0 := by omega
    subst hk0
    rw [hrow l (by omega), List.take_zero]
    have h := IsDistance.nil_left (b.take l)
    rwa [List.length_take_of_le hl] at h

end

/-! ## The loops -/

section

variable {rows cols : Nat} (dp : Table Nat rows cols)

theorem get_firstColumn (hcols : 0 < cols) :
    ∀ k < rows, (forLoop 0 rows (fun i dp => dp.set i 0 i) dp).get k 0 = k := by
  refine forLoop_inv (P := fun i (dp : Table Nat rows cols) => ∀ k < i, dp.get k 0 = k)
    (Nat.zero_le rows) (fun k hk => absurd hk (Nat.not_lt_zero k)) ?_
  intro i dp _ hi hbefore k hk
  rw [Table.get_set _ _ (by omega) hcols]
  split
  · rename_i heq
    exact heq.1
  · exact hbefore k (by omega)

/-- The first row keeps the first column. -/
theorem get_firstRow (hrows : 0 < rows) (hcolumn : ∀ k < rows, dp.get k 0 = k) :
    (∀ k < rows, (forLoop 0 cols (fun j dp => dp.set 0 j j) dp).get k 0 = k) ∧
      ∀ l < cols, (forLoop 0 cols (fun j dp => dp.set 0 j j) dp).get 0 l = l := by
  refine forLoop_inv (P := fun j (dp : Table Nat rows cols) =>
      (∀ k < rows, dp.get k 0 = k) ∧ ∀ l < j, dp.get 0 l = l)
    (Nat.zero_le cols) ⟨hcolumn, fun l hl => absurd hl (Nat.not_lt_zero l)⟩ ?_
  intro j dp _ hj hbefore
  obtain ⟨hcolumn, hrow⟩ := hbefore
  constructor
  · intro k hk
    rw [Table.get_set _ _ hk (by omega)]
    split
    · omega
    · exact hcolumn k hk
  · intro l hl
    rw [Table.get_set _ _ hrows (by omega)]
    split
    · rename_i heq
      exact heq.2
    · exact hrow l (by omega)

end

/-- The table ends with the distance of the whole lists. -/
theorem isDistance_editDistance (a b : List String) : IsDistance a b (editDistance a b) := by
  let zeros : Table Nat (a.length + 1) (b.length + 1) :=
    Vector.replicate (a.length + 1) (Vector.replicate (b.length + 1) 0)
  let column := forLoop 0 (a.length + 1) (fun i dp => dp.set i 0 i) zeros
  let first := forLoop 0 (b.length + 1) (fun j dp => dp.set 0 j j) column
  let filled := forLoop 1 (a.length + 1) (fun i dp =>
    forLoop 1 (b.length + 1) (fun j dp => dp.set i j (cell a b dp i j)) dp) first
  have hcolumn : ∀ k < a.length + 1, column.get k 0 = k :=
    get_firstColumn zeros (Nat.succ_pos _)
  have hfirst := get_firstRow column (Nat.succ_pos _) hcolumn
  have hfilled : Known a b (a.length + 1) 1 filled := by
    refine forLoop_inv (P := fun i dp => Known a b i 1 dp) (Nat.le_add_left 1 a.length)
      (known_first hfirst.1 hfirst.2) ?_
    intro i dp hpos hi hknown
    exact hknown.row hpos hi
  have hlast := hfilled a.length b.length (Nat.le_refl _) (Nat.le_refl _) (by omega)
  rwa [Holds, List.take_length, List.take_length] at hlast

/-! ## The metrics are exact -/

theorem editDistance_eq_zero {a b : List String} : editDistance a b = 0 ↔ a = b :=
  (isDistance_editDistance a b).eq_zero_iff

theorem editDistance_comm (a b : List String) : editDistance a b = editDistance b a :=
  (isDistance_editDistance a b).unique (isDistance_editDistance b a).symm

theorem wordErrorRate_eq_zero {toLowerCase : String → String} {reference hypothesis : String} :
    wordErrorRate toLowerCase reference hypothesis = 0 ↔
      tokenizeWords toLowerCase reference = tokenizeWords toLowerCase hypothesis := by
  unfold wordErrorRate
  generalize tokenizeWords toLowerCase reference = ref
  generalize tokenizeWords toLowerCase hypothesis = hyp
  dsimp only
  split
  · rename_i href
    rw [List.length_eq_zero_iff] at href
    subst href
    split
    · rename_i hhyp
      rw [List.length_eq_zero_iff] at hhyp
      simp [hhyp]
    · rename_i hhyp
      rw [List.length_eq_zero_iff] at hhyp
      simp [Ne.symm hhyp]
  · rename_i href
    have hne : (ref.length : Rat) ≠ 0 := by exact_mod_cast href
    rw [div_eq_zero_iff, or_iff_left hne, Nat.cast_eq_zero, editDistance_eq_zero]

/-- The edit distance is the least number of edits, hence a metric, and the word error rate is zero
for equal token lists alone. -/
theorem editDistance_exact :
    (∀ a b : List String, IsLeast { n | Edits n a b } (editDistance a b)) ∧
    (∀ a b : List String, editDistance a b = 0 ↔ a = b) ∧
    (∀ a b : List String, editDistance a b = editDistance b a) ∧
    (∀ a b c : List String, editDistance a c ≤ editDistance a b + editDistance b c) ∧
    ∀ (toLowerCase : String → String) (reference hypothesis : String),
      wordErrorRate toLowerCase reference hypothesis = 0 ↔
        tokenizeWords toLowerCase reference = tokenizeWords toLowerCase hypothesis := by
  refine ⟨isDistance_editDistance, fun _ _ => editDistance_eq_zero, editDistance_comm, ?_,
    fun _ _ _ => wordErrorRate_eq_zero⟩
  intro a b c
  exact (isDistance_editDistance a b).triangle (isDistance_editDistance b c)
    (isDistance_editDistance a c)

example : editDistance ["the", "cat", "sat"] ["the", "bat", "sat", "down"] = 2 := by decide

end LanguageLlm.Benchmarks
