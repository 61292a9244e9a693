import Mathlib.Algebra.Group.Nat.Defs
import Mathlib.Data.List.TakeWhile

/-!
# Decimal digits

Texts of digits: the digits of a number, alone or with zeros in front of them, and the number that
digits make.
-/

namespace LanguageLlm.Lib

theorem toNat_of_isDigit {c : Char} (h : c.isDigit = true) : 48 ≤ c.toNat ∧ c.toNat ≤ 57 := by
  simpa [Char.isDigit, UInt32.le_iff_toNat_le] using h

theorem isDigit_toDigits {n : Nat} {c : Char} (h : c ∈ Nat.toDigits 10 n) : c.isDigit = true :=
  Nat.isDigit_of_mem_toDigits (by decide) (by decide) h

/-- The digits end at the first character that is not one. -/
theorem toDigits_eq_of_append {sep : Char} (hsep : sep.isDigit = false) {i j : Nat}
    {r r' : List Char} (h : Nat.toDigits 10 i ++ sep :: r = Nat.toDigits 10 j ++ sep :: r') :
    i = j := by
  have hdigits : ∀ n r, (Nat.toDigits 10 n ++ sep :: r).takeWhile Char.isDigit =
      Nat.toDigits 10 n := by
    intro n r
    rw [List.takeWhile_append_of_pos fun c hc => isDigit_toDigits hc,
      List.takeWhile_cons_of_neg (by simp [hsep]), List.append_nil]
  have he : Nat.toDigits 10 i = Nat.toDigits 10 j := by
    rw [← hdigits i r, h, hdigits]
  rw [← Nat.ofDigitChars_ten_toDigits (n := i), he, Nat.ofDigitChars_ten_toDigits]

/-- The decimal digits of a number with zeros in front up to a width. -/
def padded (width n : Nat) : List Char := List.leftpad width '0' (Nat.toDigits 10 n)

theorem isDigit_of_mem_padded {width n : Nat} {c : Char} (h : c ∈ padded width n) :
    c.isDigit = true := by
  rw [padded, List.leftpad, List.mem_append] at h
  rcases h with h | h
  · rw [List.eq_of_mem_replicate h]
    rfl
  · exact isDigit_toDigits h

theorem not_mem_padded {width n : Nat} {c : Char} (hc : c.isDigit = false) :
    c ∉ padded width n := by
  intro h
  rw [isDigit_of_mem_padded h] at hc
  cases hc

theorem ofDigitChars_padded (width n : Nat) : Nat.ofDigitChars 10 (padded width n) 0 = n := by
  rw [padded, List.leftpad, Nat.ofDigitChars_append, Nat.ofDigitChars_replicate_zero, Nat.mul_zero,
    Nat.ofDigitChars_ten_toDigits]

theorem length_padded {width n : Nat} (hpos : 0 < width) (h : n < 10 ^ width) :
    (padded width n).length = width := by
  have hlength : (padded width n).length = max width (Nat.toDigits 10 n).length :=
    List.length_leftpad
  have hle := (Nat.length_toDigits_le_iff (b := 10) (by omega) hpos).2 h
  omega

theorem padded_ne_nil (width n : Nat) : padded width n ≠ [] := by
  intro h
  obtain ⟨-, hdigits⟩ := List.append_eq_nil_iff.1 h
  exact Nat.toDigits_ne_nil hdigits

/-- A number that does not fit the width takes more digits. -/
theorem width_lt_length_padded {width n : Nat} (h : 10 ^ width ≤ n) :
    width < (padded width n).length := by
  have hlength : (padded width n).length = max width (Nat.toDigits 10 n).length :=
    List.length_leftpad
  by_contra hle
  have hdigits : (Nat.toDigits 10 n).length ≤ width := by omega
  have hpos : 0 < (Nat.toDigits 10 n).length := Nat.length_toDigits_pos
  have hlt := (Nat.length_toDigits_le_iff (b := 10) (by omega) (by omega)).1 hdigits
  omega

theorem ofDigitChars_lt {digits : List Char} (h : ∀ c ∈ digits, c.isDigit = true) (first : Nat) :
    Nat.ofDigitChars 10 digits first < 10 ^ digits.length * (first + 1) := by
  induction digits generalizing first with
  | nil => simp
  | cons c digits ih =>
    obtain ⟨hc, hdigits⟩ := List.forall_mem_cons.1 h
    have hrange := toNat_of_isDigit hc
    have hvalue : c.toNat - '0'.toNat ≤ 9 := by
      have hzero : '0'.toNat = 48 := rfl
      omega
    calc Nat.ofDigitChars 10 (c :: digits) first
        = Nat.ofDigitChars 10 digits (10 * first + (c.toNat - '0'.toNat)) :=
          Nat.ofDigitChars_cons
      _ < 10 ^ digits.length * (10 * first + (c.toNat - '0'.toNat) + 1) := ih hdigits _
      _ ≤ 10 ^ digits.length * (10 * (first + 1)) := Nat.mul_le_mul_left _ (by omega)
      _ = 10 ^ (c :: digits).length * (first + 1) := by
          rw [List.length_cons, Nat.pow_succ, Nat.mul_assoc]

end LanguageLlm.Lib
