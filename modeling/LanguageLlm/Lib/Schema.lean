import Mathlib.Algebra.Order.Group.Nat
import Mathlib.Data.List.Basic
import LanguageLlm.Json

/-!
# Schemas

The checks that validators of JSON values are built of (`zod` in TypeScript), as predicates that can
be run: texts by length or from a list, numbers, arrays, objects by their fields, and unions that
are told apart by a field. Fields that an object schema does not know are ignored.
-/

namespace LanguageLlm.Lib

/-- A check of a value. -/
abbrev Schema := Json → Bool

/-- The length of a text in UTF-16 code units. -/
def utf16Length (s : String) : Nat :=
  s.toList.foldr (fun c n => (if c.toNat < 0x10000 then 1 else 2) + n) 0

theorem length_le_utf16Length (s : String) : s.length ≤ utf16Length s := by
  rw [utf16Length, ← String.length_toList]
  induction s.toList with
  | nil => exact Nat.le_refl 0
  | cons c cs ih =>
    rw [List.length_cons, List.foldr_cons]
    split
    · omega
    · omega

theorem utf16Length_pos {s : String} (hs : s ≠ "") : 0 < utf16Length s := by
  refine Nat.lt_of_lt_of_le (Nat.pos_of_ne_zero fun hzero => hs ?_) (length_le_utf16Length s)
  rwa [← String.length_toList, List.length_eq_zero_iff, String.toList_eq_nil_iff] at hzero

namespace Schema

/-! ## Schemas of simple values -/

/-- `z.string().min(min)`. -/
def string (min : Nat) : Schema
  | .str s => min ≤ utf16Length s
  | _ => false

/-- `z.literal(value)` of a text, and `z.enum(values)`. -/
def oneOf (values : List String) : Schema
  | .str s => s ∈ values
  | _ => false

def boolean : Schema
  | .bool _ => true
  | _ => false

/-- `z.literal(value)` of a boolean. -/
def literal (value : Bool) : Schema
  | .bool b => b = value
  | _ => false

/-- `z.number()` with a condition. -/
def number (p : Rat → Bool) : Schema
  | .int n => p n
  | .float q => p q
  | _ => false

/-- `z.number().int()` with a condition; a number that is written with a fraction may be whole. -/
def int (p : Rat → Bool) : Schema
  | .int n => p n
  | .float q => q.den = 1 && p q
  | _ => false

/-- `z.record(z.unknown())`. -/
def record : Schema
  | .obj _ => true
  | _ => false

/-- `z.array(item).min(min)`. -/
def array (item : Schema) (min : Nat) : Schema
  | .arr items => min ≤ items.length && items.all item
  | _ => false

/-! ## Schemas of objects -/

/-- A field of an object schema. -/
structure Field where
  key : String
  schema : Schema
  required : Bool := true

/-- A field that is missing must not be required; one that is `null` is not missing. -/
def Field.accepts (f : Field) (fields : List (String × Json)) : Bool :=
  match fields.lookup f.key with
  | some v => f.schema v
  | none => !f.required

/-- `z.object(fields)`. -/
def object (fields : List Field) : Schema
  | .obj entries => fields.all fun f => f.accepts entries
  | _ => false

/-- `z.object(fields).refine(p)`. -/
def refine (schema : Schema) (p : Json → Bool) : Schema := fun v => schema v && p v

/-- `z.discriminatedUnion(key, options)`. -/
def union (key : String) (options : List (String × Schema)) : Schema := fun v =>
  match (v.getStr key).bind fun tag => options.lookup tag with
  | some schema => schema v
  | none => false

variable {fields : List Field} {entries : List (String × Json)} {key : String} {schema : Schema}

theorem object_obj :
    object fields (.obj entries) = true ↔ ∀ f ∈ fields, f.accepts entries = true :=
  List.all_eq_true

@[simp]
theorem object_nil : object [] (.obj entries) = true := rfl

@[simp]
theorem object_cons {f : Field} :
    object (f :: fields) (.obj entries) = true ↔
      f.accepts entries = true ∧ object fields (.obj entries) = true := by
  rw [object, List.all_cons, Bool.and_eq_true]
  rfl

/-- A required field is there and meets its schema. -/
theorem exists_of_object {v : Json} (h : object fields v = true)
    (hf : { key, schema : Field } ∈ fields) : ∃ x, v.get key = some x ∧ schema x = true := by
  cases v with
  | obj entries =>
    have haccepts := object_obj.1 h _ hf
    simp only [Field.accepts, Bool.not_true] at haccepts
    split at haccepts
    · next x hx => exact ⟨x, hx, haccepts⟩
    · cases haccepts
  | null | bool | int | float | str | arr => cases h

/-- Unknown fields at the end of an object are ignored. -/
theorem object_append {more : List (String × Json)}
    (hmore : ∀ f ∈ fields, more.lookup f.key = none) :
    object fields (.obj (entries ++ more)) = object fields (.obj entries) := by
  rw [Bool.eq_iff_iff, object_obj, object_obj]
  refine forall₂_congr fun f hf => ?_
  rw [Field.accepts, Field.accepts, List.lookup_append, hmore f hf, Option.or_none]

theorem string_str {min : Nat} {s : String} (h : min ≤ utf16Length s) :
    string min (.str s) = true :=
  decide_eq_true h

theorem string_zero (s : String) : string 0 (.str s) = true := string_str (Nat.zero_le _)

theorem string_of_ne {s : String} (hs : s ≠ "") : string 1 (.str s) = true :=
  string_str (utf16Length_pos hs)

/-- What a text that is not empty is. -/
theorem exists_of_string {v : Json} (h : string 1 v = true) : ∃ s, v = .str s ∧ s ≠ "" := by
  cases v with
  | str s =>
    refine ⟨s, rfl, ?_⟩
    rintro rfl
    cases h
  | null | bool | int | float | arr | obj => cases h

theorem exists_of_oneOf {values : List String} {v : Json} (h : oneOf values v = true) :
    ∃ s ∈ values, v = .str s := by
  cases v with
  | str s => exact ⟨s, of_decide_eq_true h, rfl⟩
  | null | bool | int | float | arr | obj => cases h

end Schema

end LanguageLlm.Lib
