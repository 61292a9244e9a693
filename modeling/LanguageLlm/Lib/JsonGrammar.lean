import Mathlib.Data.List.Basic

/-!
# The grammar of JSON

Which texts are values of JSON, as a relation between the symbols of the grammar and texts of UTF-16
code units. White space stands around values and keys only.
-/

namespace LanguageLlm.Lib.JsonGrammar

/-- The code unit of an ASCII character. -/
def unit (c : Char) : UInt16 := UInt16.ofNat c.toNat

/-- The code units of an ASCII text. -/
def units (text : String) : List UInt16 := text.toList.map unit

/-! ## Terminals -/

def isWs (u : UInt16) : Bool := u = unit ' ' || u = unit '\t' || u = unit '\n' || u = unit '\r'

/-- White space, which means nothing. -/
def Ws (t : List UInt16) : Prop := ∀ u ∈ t, isWs u = true

def isDigit (u : UInt16) : Bool := unit '0' ≤ u && u ≤ unit '9'

def isHex (u : UInt16) : Bool :=
  isDigit u || (unit 'a' ≤ u && u ≤ unit 'f') || (unit 'A' ≤ u && u ≤ unit 'F')

/-- What stands between the quotes of a string. -/
inductive Chars : List UInt16 → Prop
  | nil : Chars []
  | plain {u : UInt16} {t : List UInt16} (hu : 0x20 ≤ u) (hquote : u ≠ unit '"')
    (hescape : u ≠ unit '\\') (ht : Chars t) : Chars (u :: t)
  | escape {u : UInt16} {t : List UInt16} (hu : u ∈ units "\"\\/bfnrt") (ht : Chars t) :
    Chars (unit '\\' :: u :: t)
  | code {a b c d : UInt16} {t : List UInt16} (ha : isHex a = true) (hb : isHex b = true)
    (hc : isHex c = true) (hd : isHex d = true) (ht : Chars t) :
    Chars (unit '\\' :: unit 'u' :: a :: b :: c :: d :: t)

inductive IsString : List UInt16 → Prop
  | mk {t : List UInt16} (ht : Chars t) : IsString (unit '"' :: (t ++ [unit '"']))

/-- One digit or more. -/
def Digits (t : List UInt16) : Prop := t ≠ [] ∧ ∀ u ∈ t, isDigit u = true

/-- The digits before the point: a zero alone, or no zero first. -/
def Whole (t : List UInt16) : Prop :=
  t = [unit '0'] ∨ Digits t ∧ t.head? ≠ some (unit '0')

def Fraction (t : List UInt16) : Prop := t = [] ∨ ∃ ds, Digits ds ∧ t = unit '.' :: ds

def Exponent (t : List UInt16) : Prop :=
  t = [] ∨ ∃ e sign ds, (e = unit 'e' ∨ e = unit 'E') ∧
    (sign = [] ∨ sign = [unit '+'] ∨ sign = [unit '-']) ∧ Digits ds ∧ t = e :: (sign ++ ds)

inductive IsNumber : List UInt16 → Prop
  | mk {sign whole fraction exponent : List UInt16} (hsign : sign = [] ∨ sign = [unit '-'])
    (hwhole : Whole whole) (hfraction : Fraction fraction) (hexponent : Exponent exponent) :
    IsNumber (sign ++ (whole ++ (fraction ++ exponent)))

/-! ## Symbols -/

inductive Symbol where
  | value
  | object
  | elements
  | members

/-- What a symbol of the grammar stands for. -/
inductive Derives : Symbol → List UInt16 → Prop
  | null : Derives .value (units "null")
  | true : Derives .value (units "true")
  | false : Derives .value (units "false")
  | number {t : List UInt16} (h : IsNumber t) : Derives .value t
  | string {t : List UInt16} (h : IsString t) : Derives .value t
  | emptyArray {ws : List UInt16} (hws : Ws ws) : Derives .value (unit '[' :: (ws ++ [unit ']']))
  | array {t : List UInt16} (h : Derives .elements t) :
    Derives .value (unit '[' :: (t ++ [unit ']']))
  | ofObject {t : List UInt16} (h : Derives .object t) : Derives .value t
  | emptyObject {ws : List UInt16} (hws : Ws ws) :
    Derives .object (unit '{' :: (ws ++ [unit '}']))
  | object {t : List UInt16} (h : Derives .members t) :
    Derives .object (unit '{' :: (t ++ [unit '}']))
  | element {a v b : List UInt16} (ha : Ws a) (hv : Derives .value v) (hb : Ws b) :
    Derives .elements (a ++ (v ++ b))
  | elementAnd {a v b t : List UInt16} (ha : Ws a) (hv : Derives .value v) (hb : Ws b)
    (ht : Derives .elements t) : Derives .elements (a ++ (v ++ (b ++ unit ',' :: t)))
  | member {a k b c v d : List UInt16} (ha : Ws a) (hk : IsString k) (hb : Ws b) (hc : Ws c)
    (hv : Derives .value v) (hd : Ws d) :
    Derives .members (a ++ (k ++ (b ++ unit ':' :: (c ++ (v ++ d)))))
  | memberAnd {a k b c v d t : List UInt16} (ha : Ws a) (hk : IsString k) (hb : Ws b) (hc : Ws c)
    (hv : Derives .value v) (hd : Ws d) (ht : Derives .members t) :
    Derives .members (a ++ (k ++ (b ++ unit ':' :: (c ++ (v ++ (d ++ unit ',' :: t))))))

/-- The text of an object, without white space around it. -/
abbrev IsObject (t : List UInt16) : Prop := Derives .object t

/-! ## Their units -/

variable {t ds : List UInt16} {u : UInt16}

theorem Whole.isDigit_of_mem (h : Whole t) (hu : u ∈ t) : isDigit u = true := by
  rcases h with rfl | ⟨h, -⟩
  · rw [List.mem_singleton.1 hu]
    rfl
  · exact h.2 u hu

theorem Fraction.units_of_mem (h : Fraction t) (hu : u ∈ t) : isDigit u = true ∨ u = unit '.' := by
  rcases h with rfl | ⟨ds, hds, rfl⟩
  · cases hu
  · rcases List.mem_cons.1 hu with rfl | hu
    · exact Or.inr rfl
    · exact Or.inl (hds.2 u hu)

theorem Exponent.units_of_mem (h : Exponent t) (hu : u ∈ t) :
    isDigit u = true ∨ u ∈ units "eE+-" := by
  rcases h with rfl | ⟨e, sign, ds, he, hsign, hds, rfl⟩
  · cases hu
  · rcases List.mem_cons.1 hu with rfl | hu
    · right
      rcases he with rfl | rfl
      all_goals decide
    · rcases List.mem_append.1 hu with hu | hu
      · right
        rcases hsign with rfl | rfl | rfl
        · cases hu
        all_goals
          rw [List.mem_singleton.1 hu]
          decide
      · exact Or.inl (hds.2 u hu)

/-- A number has digits, signs, a point and an exponent mark. -/
theorem IsNumber.units_of_mem (h : IsNumber t) (hu : u ∈ t) :
    isDigit u = true ∨ u ∈ units "eE+-." := by
  obtain ⟨hsign, hwhole, hfraction, hexponent⟩ := h
  simp only [List.mem_append] at hu
  rcases hu with hu | hu | hu | hu
  · right
    rcases hsign with rfl | rfl
    · cases hu
    · rw [List.mem_singleton.1 hu]
      decide
  · exact Or.inl (hwhole.isDigit_of_mem hu)
  · refine (hfraction.units_of_mem hu).imp id fun heq => ?_
    rw [heq]
    decide
  · refine (hexponent.units_of_mem hu).imp id fun hmem => ?_
    exact List.mem_append_left _ hmem

/-- An object begins with its brace. -/
theorem IsObject.exists_cons (h : IsObject t) : ∃ rest, t = unit '{' :: rest := by
  cases h with
  | emptyObject _ => exact ⟨_, rfl⟩
  | object _ => exact ⟨_, rfl⟩

end LanguageLlm.Lib.JsonGrammar
