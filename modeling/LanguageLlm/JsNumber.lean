import Mathlib.Data.Int.Log
import Mathlib.Data.Rat.Floor
import Mathlib.Tactic.Linarith
import LanguageLlm.JsText

/-!
# Numbers of JavaScript

A number is `NaN`, an infinity or a rational. What an operation rounds its result to is a
`Rounding`: `Rounding.exact` keeps it, `Rounding.double` takes the nearest double. The two zeros are
one.
-/

namespace LanguageLlm

open PageTranslate Lib

inductive JsNumber where
  | nan
  | infinite (negative : Bool)
  | fin (q : Rat)
  deriving DecidableEq

namespace JsNumber

/-- `a < b`. -/
def lt : JsNumber → JsNumber → Bool
  | nan, _ => false
  | _, nan => false
  | infinite n, infinite m => n && !m
  | infinite n, fin _ => n
  | fin _, infinite m => !m
  | fin a, fin b => a < b

/-- `a <= b`. -/
def le : JsNumber → JsNumber → Bool
  | nan, _ => false
  | _, nan => false
  | infinite n, infinite m => n || !m
  | infinite n, fin _ => n
  | fin _, infinite m => !m
  | fin a, fin b => a ≤ b

/-- `Math.max(a, b)`. -/
def max (a b : JsNumber) : JsNumber :=
  if a = nan ∨ b = nan then nan else if a.lt b then b else a

/-- `Math.round(a)`: half way up. -/
def mathRound : JsNumber → JsNumber
  | fin q => fin ⌊q + 1 / 2⌋
  | a => a

@[simp]
theorem lt_fin {a b : Rat} : (fin a).lt (fin b) = true ↔ a < b := decide_eq_true_iff

@[simp]
theorem le_fin {a b : Rat} : (fin a).le (fin b) = true ↔ a ≤ b := decide_eq_true_iff

end JsNumber

/-- What the results of operations are rounded to. Small integers stay, the others become integers
or infinite, and no sign is lost. -/
structure Rounding where
  round : Rat → JsNumber
  integer : ∀ n : Int, |n| ≤ 2 ^ 53 → round n = .fin n
  whole : ∀ n : Int, ∀ q, round n = .fin q → ∃ m : Int, q = m
  nonneg : ∀ q, 0 ≤ q → (JsNumber.fin 0).le (round q) = true

namespace Rounding

/-- No rounding. -/
def exact : Rounding where
  round := .fin
  integer _ _ := rfl
  whole n _ h := ⟨n, (JsNumber.fin.inj h).symm⟩
  nonneg _ h := JsNumber.le_fin.2 h

/-- The nearest integer, the even one half way. -/
def roundEven (q : Rat) : Int :=
  if q - ⌊q⌋ < 1 / 2 then ⌊q⌋
  else if 1 / 2 < q - ⌊q⌋ then ⌊q⌋ + 1
  else ⌊q⌋ + ⌊q⌋ % 2

/-- The exponent of the last digit of a double of this size. -/
def lastDigit (q : Rat) : Int := max (Int.log 2 |q| - 52) (-1074)

/-- The nearest double. -/
def nearest (q : Rat) : JsNumber :=
  let r := roundEven (q / 2 ^ lastDigit q) * (2 : Rat) ^ lastDigit q
  if |r| < 2 ^ 1024 then .fin r else .infinite (q < 0)

theorem roundEven_intCast (n : Int) : roundEven n = n := by
  have hfloor : ⌊(n : Rat)⌋ = n := Int.floor_intCast n
  have hhalf : (n : Rat) - n < 1 / 2 := by norm_num
  rw [roundEven, hfloor, if_pos hhalf]

theorem roundEven_nonneg {q : Rat} (h : 0 ≤ q) : 0 ≤ roundEven q := by
  have hfloor : 0 ≤ ⌊q⌋ := Int.floor_nonneg.2 h
  unfold roundEven
  split_ifs <;> omega

/-- A small integer is a multiple of its last digit. -/
theorem exists_div_lastDigit {n : Int} (h : |n| ≤ 2 ^ 53) :
    ∃ k : Int, (n : Rat) / 2 ^ lastDigit n = k := by
  have hcast : |(n : Rat)| = ((n.natAbs : Nat) : Rat) := by rw [Nat.cast_natAbs, Int.cast_abs]
  have hlog : Int.log 2 |(n : Rat)| = Nat.log 2 n.natAbs := by rw [hcast, Int.log_natCast]
  rw [Int.abs_eq_natAbs] at h
  have hle : n.natAbs ≤ 2 ^ 53 := by omega
  rcases hle.lt_or_eq with hlt | heq
  · -- the last digit is not above the unit
    have hsmall : Nat.log 2 n.natAbs < 53 := Nat.log_lt_of_lt_pow' (by norm_num) hlt
    obtain ⟨j, hj⟩ : ∃ j : Nat, lastDigit n = -(j : Int) :=
      ⟨(-lastDigit n).toNat, by rw [lastDigit, hlog]; omega⟩
    refine ⟨n * 2 ^ j, ?_⟩
    rw [hj, zpow_neg, zpow_natCast, div_inv_eq_mul]
    push_cast
    rfl
  · have hdigit : lastDigit n = 1 := by
      rw [lastDigit, hlog, heq, Nat.log_pow (by norm_num)]
      rfl
    have hn : n = 2 ^ 53 ∨ n = -2 ^ 53 := by omega
    rcases hn with rfl | rfl
    · exact ⟨2 ^ 52, by rw [hdigit]; norm_num⟩
    · exact ⟨-2 ^ 52, by rw [hdigit]; norm_num⟩

theorem nearest_integer {n : Int} (h : |n| ≤ 2 ^ 53) : nearest n = .fin n := by
  obtain ⟨k, hk⟩ := exists_div_lastDigit h
  have hr : (roundEven ((n : Rat) / 2 ^ lastDigit n) : Rat) * 2 ^ lastDigit n = n := by
    rw [hk, roundEven_intCast, ← hk]
    exact div_mul_cancel₀ _ (zpow_ne_zero _ (by norm_num))
  have hbound : |(n : Rat)| < 2 ^ 1024 := by
    have hcast : |(n : Rat)| ≤ 2 ^ 53 := by exact_mod_cast h
    exact hcast.trans_lt (pow_lt_pow_right₀ (by norm_num) (by norm_num))
  rw [nearest, hr]
  exact if_pos hbound

/-- The last digit of a larger integer is not behind the point. -/
theorem exists_lastDigit {n : Int} (h : ¬ |n| ≤ 2 ^ 53) : ∃ j : Nat, lastDigit n = j := by
  have hcast : |(n : Rat)| = ((n.natAbs : Nat) : Rat) := by rw [Nat.cast_natAbs, Int.cast_abs]
  have hlog : Int.log 2 |(n : Rat)| = Nat.log 2 n.natAbs := by rw [hcast, Int.log_natCast]
  rw [Int.abs_eq_natAbs] at h
  have hle : 53 ≤ Nat.log 2 n.natAbs := Nat.le_log_of_pow_le (by norm_num) (by omega)
  exact ⟨(lastDigit n).toNat, by rw [lastDigit, hlog]; omega⟩

/-- Doubles. -/
def double : Rounding where
  round := nearest
  integer _ h := nearest_integer h
  whole n q h := by
    by_cases hn : |n| ≤ 2 ^ 53
    · rw [nearest_integer hn] at h
      exact ⟨n, (JsNumber.fin.inj h).symm⟩
    · obtain ⟨j, hj⟩ := exists_lastDigit hn
      rw [nearest, hj] at h
      split_ifs at h
      refine ⟨roundEven ((n : Rat) / 2 ^ (j : Int)) * 2 ^ j, ?_⟩
      rw [← JsNumber.fin.inj h, zpow_natCast]
      push_cast
      rfl
  nonneg q h := by
    have hpow : 0 ≤ (2 : Rat) ^ lastDigit q := zpow_nonneg (by norm_num) _
    have hr : 0 ≤ (roundEven (q / 2 ^ lastDigit q) : Rat) * 2 ^ lastDigit q :=
      mul_nonneg (Int.cast_nonneg (roundEven_nonneg (div_nonneg h hpow))) hpow
    rw [nearest]
    split_ifs
    · exact JsNumber.le_fin.2 hr
    · simpa [JsNumber.le] using h

/-- `a + b`. -/
def add (R : Rounding) : JsNumber → JsNumber → JsNumber
  | .fin a, .fin b => R.round (a + b)
  | .infinite n, .infinite m => if n = m then .infinite n else .nan
  | .infinite n, .fin _ => .infinite n
  | .fin _, .infinite m => .infinite m
  | _, _ => .nan

/-- `a * k` for a positive constant. -/
def scale (R : Rounding) (k : Nat) : JsNumber → JsNumber
  | .fin a => R.round (a * k)
  | a => a

/-! ## Number texts -/

/-- The value of a digit, also of one above nine. -/
def digitValue (c : Char) : Nat :=
  if c.isDigit then c.toNat - '0'.toNat
  else if c.isUpper then c.toNat - 'A'.toNat + 10
  else c.toNat - 'a'.toNat + 10

/-- Digits of a base and nothing else. -/
def radixDigits (base : Nat) (digits : List Char) : Option Rat :=
  if digits ≠ [] ∧ digits.all fun c => c.isAlphanum ∧ digitValue c < base then
    some (digits.foldl (fun n c => n * base + digitValue c) 0 : Nat)
  else none

/-- The power of ten at the end of a decimal number. -/
def exponent : List Char → Option Int
  | [] => some 0
  | c :: cs =>
    if c = 'e' ∨ c = 'E' then
      let negative := cs.head? = some '-'
      let digits := if negative ∨ cs.head? = some '+' then cs.tail else cs
      if digits ≠ [] ∧ digits.all Char.isDigit then
        let n := Nat.ofDigitChars 10 digits 0
        some (if negative then -n else n)
      else none
    else none

/-- A decimal number without a sign. -/
def decimal (cs : List Char) : Option Rat :=
  let whole := cs.takeWhile Char.isDigit
  let rest := cs.dropWhile Char.isDigit
  let hasPoint := rest.head? = some '.'
  let fraction := if hasPoint then rest.tail.takeWhile Char.isDigit else []
  let rest := if hasPoint then rest.tail.dropWhile Char.isDigit else rest
  if whole = [] ∧ fraction = [] then none
  else
    (exponent rest).map fun e =>
      (Nat.ofDigitChars 10 (whole ++ fraction) 0 : Rat) * 10 ^ (e - (fraction.length : Int))

/-- A number with a sign or without one. -/
def signed (R : Rounding) (cs : List Char) : JsNumber :=
  let negative := cs.head? = some '-'
  let cs := if negative ∨ cs.head? = some '+' then cs.tail else cs
  if cs = "Infinity".toList then .infinite negative
  else
    match decimal cs with
    | none => .nan
    | some q => R.round (if negative then -q else q)

/-- The base that the character behind a zero stands for. -/
def radix : Char → Option Nat
  | 'x' | 'X' => some 16
  | 'o' | 'O' => some 8
  | 'b' | 'B' => some 2
  | _ => none

/-- `Number(text)`. -/
def number (R : Rounding) (text : List Char) : JsNumber :=
  match trim text with
  | [] => .fin 0
  | [c] => R.signed [c]
  | c :: x :: digits =>
    match if c = '0' then radix x else none with
    | some base => (radixDigits base digits).elim .nan R.round
    | none => R.signed (c :: x :: digits)

variable {R : Rounding} {cs whole fraction : List Char}

/-- Digits and points make a decimal number, if they make one at all. -/
theorem number_numeral (h : ∀ c ∈ cs, c.isDigit = true ∨ c = '.') (hne : cs ≠ []) :
    R.number cs = (decimal cs).elim .nan R.round := by
  have htrim : trim cs = cs := by
    refine trim_of_forall fun c hc => ?_
    rcases h c hc with hdigit | rfl
    · exact isSpace_of_isDigit hdigit
    · rfl
  have hradix : ∀ c ∈ cs, radix c = none := by
    intro c hc
    unfold radix
    split
    all_goals first | rfl | exact absurd (h _ hc) (by decide)
  have hsigned : R.number cs = R.signed cs := by
    rw [number, htrim]
    match cs, hne with
    | [_], _ => rfl
    | c :: x :: digits, _ =>
      have hx := hradix x (List.mem_cons_of_mem _ List.mem_cons_self)
      simp only [hx, ite_self]
  obtain ⟨c, cs, rfl⟩ := List.exists_cons_of_ne_nil hne
  have hc := h c List.mem_cons_self
  have hminus : c ≠ '-' := by
    rintro rfl
    exact absurd hc (by decide)
  have hplus : c ≠ '+' := by
    rintro rfl
    exact absurd hc (by decide)
  have hword : c :: cs ≠ "Infinity".toList := by
    intro heq
    rw [(List.cons.inj heq).1] at hc
    exact absurd hc (by decide)
  rw [hsigned, signed]
  simp only [List.head?_cons, Option.some.injEq, hminus, hplus, or_false, if_false, hword]
  cases decimal (c :: cs) with
  | none => rfl
  | some q => simp

theorem decimal_digits (h : ∀ c ∈ whole, c.isDigit = true) (hne : whole ≠ []) :
    decimal whole = some (Nat.ofDigitChars 10 whole 0 : Rat) := by
  have htake : whole.takeWhile Char.isDigit = whole := List.takeWhile_eq_self_iff.2 h
  have hdrop : whole.dropWhile Char.isDigit = [] := List.dropWhile_eq_nil_iff.2 h
  simp [decimal, htake, hdrop, hne, exponent]

/-- The number of a text of digits. -/
theorem number_digits (h : ∀ c ∈ whole, c.isDigit = true) (hne : whole ≠ []) :
    R.number whole = R.round (Nat.ofDigitChars 10 whole 0) := by
  rw [number_numeral (fun c hc => Or.inl (h c hc)) hne, decimal_digits h hne]
  rfl

/-- The number of a text of digits with a fraction. -/
theorem number_fraction (hw : ∀ c ∈ whole, c.isDigit = true) (hne : whole ≠ [])
    (hf : ∀ c ∈ fraction, c.isDigit = true) :
    R.number (whole ++ '.' :: fraction) =
      R.round (Nat.ofDigitChars 10 (whole ++ fraction) 0 / 10 ^ fraction.length) := by
  have hpoint : ('.' : Char).isDigit = false := rfl
  have htake : (whole ++ '.' :: fraction).takeWhile Char.isDigit = whole := by
    rw [List.takeWhile_append_of_pos hw, List.takeWhile_cons_of_neg (by simp), List.append_nil]
  have hdrop : (whole ++ '.' :: fraction).dropWhile Char.isDigit = '.' :: fraction := by
    rw [List.dropWhile_append_of_pos hw, List.dropWhile_cons_of_neg (by simp)]
  have htake' : fraction.takeWhile Char.isDigit = fraction := List.takeWhile_eq_self_iff.2 hf
  have hdrop' : fraction.dropWhile Char.isDigit = [] := List.dropWhile_eq_nil_iff.2 hf
  have hdecimal : decimal (whole ++ '.' :: fraction) =
      some (Nat.ofDigitChars 10 (whole ++ fraction) 0 / 10 ^ fraction.length : Rat) := by
    simp [decimal, htake, hdrop, htake', hdrop', hne, exponent, div_eq_mul_inv]
  rw [number_numeral _ (by simp), hdecimal]
  · rfl
  · intro c hc
    rcases List.mem_append.1 hc with hc | hc
    · exact Or.inl (hw c hc)
    · rcases List.mem_cons.1 hc with rfl | hc
      · exact Or.inr rfl
      · exact Or.inl (hf c hc)

/-! ## Natural numbers -/

theorem mathRound_nat (n : Nat) : (JsNumber.fin n).mathRound = .fin n := by
  have hfloor : ⌊(n : Rat) + 1 / 2⌋ = n := by
    rw [Int.floor_eq_iff, Int.cast_natCast]
    constructor
    · linarith
    · linarith
  rw [JsNumber.mathRound, hfloor, Int.cast_natCast]

/-- A natural number that doubles have. -/
theorem round_nat {n : Nat} (h : n ≤ 2 ^ 53) : R.round n = .fin n := by
  have hround := R.integer n (by rw [Int.abs_eq_natAbs, Int.natAbs_natCast]; exact_mod_cast h)
  rwa [Int.cast_natCast] at hround

theorem number_padded (width : Nat) {n : Nat} (h : n ≤ 2 ^ 53) :
    R.number (padded width n) = .fin n := by
  rw [number_digits (fun c hc => isDigit_of_mem_padded hc) (padded_ne_nil width n),
    ofDigitChars_padded, round_nat h]

theorem scale_nat {n k : Nat} (h : n * k ≤ 2 ^ 53) : R.scale k (.fin n) = .fin (n * k : Nat) := by
  rw [scale, ← Nat.cast_mul, round_nat h]

theorem add_nat {n k : Nat} (h : n + k ≤ 2 ^ 53) :
    R.add (.fin n) (.fin k) = .fin (n + k : Nat) := by
  rw [add, ← Nat.cast_add, round_nat h]

end Rounding

end LanguageLlm
