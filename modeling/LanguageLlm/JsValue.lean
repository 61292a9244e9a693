import LanguageLlm.JsNumber
import LanguageLlm.Json

/-!
# Values of JavaScript

What the operators of JavaScript do with a value that `JSON.parse` returned. A number of the value
is the written one; it is rounded where it is used. `none` is an exception: an object with an own
field `toString` cannot be made a text, because what stands there is not a function.
-/

namespace LanguageLlm

/-- The parts of the language that are taken as they are: how numbers are rounded, how a number is
printed, and `JSON.parse`, which is `none` when it throws. -/
structure Engine where
  rounding : Rounding
  numberText : JsNumber → String
  jsonParse : String → Option Json

namespace Engine

variable (E : Engine)

mutual

/-- `String(v)`. -/
def textOf : Json → Option String
  | .null => some "null"
  | .bool b => some (if b then "true" else "false")
  | .int n => some (E.numberText (E.rounding.round n))
  | .float q => some (E.numberText (E.rounding.round q))
  | .str s => some s
  | .arr items => (textsOf items).map (",".intercalate ·)
  | .obj fields => if (fields.lookup "toString").isSome then none else some "[object Object]"

/-- The texts that `join` puts together: one of `null` is empty. -/
def textsOf : List Json → Option (List String)
  | [] => some []
  | .null :: items => (textsOf items).map ("" :: ·)
  | item :: items => do
    let text ← textOf item
    let texts ← textsOf items
    some (text :: texts)

end

end Engine

namespace Json

mutual

/-- `String(v)` returns. -/
def printable : Json → Bool
  | .arr items => allPrintable items
  | .obj fields => (fields.lookup "toString").isNone
  | _ => true

def allPrintable : List Json → Bool
  | [] => true
  | item :: items => printable item && allPrintable items

end

end Json

namespace Engine

variable {E : Engine}

mutual

theorem isSome_textOf : ∀ v : Json, (E.textOf v).isSome = v.printable
  | .null => rfl
  | .bool _ => rfl
  | .int _ => rfl
  | .float _ => rfl
  | .str _ => rfl
  | .arr items => by
    rw [textOf, Option.isSome_map, isSome_textsOf items]
    rfl
  | .obj fields => by
    rw [textOf, Json.printable]
    cases fields.lookup "toString" with
    | none => rfl
    | some _ => rfl

theorem isSome_textsOf : ∀ items : List Json, (E.textsOf items).isSome = Json.allPrintable items
  | [] => rfl
  | item :: items => by
    have hitem := isSome_textOf item
    have hitems := isSome_textsOf items
    have hcons : (E.textsOf (item :: items)).isSome =
        ((E.textOf item).isSome && (E.textsOf items).isSome) := by
      cases item with
      | null => simp [textsOf, textOf]
      | _ =>
        rw [textsOf]
        · cases E.textOf _ <;> cases E.textsOf items <;> rfl
        · nofun
    rw [hcons, hitem, hitems, Json.allPrintable]

end

end Engine

/-- A value that is neither `null` nor `undefined`. -/
inductive JsValue where
  | number (n : JsNumber)
  | bool (b : Bool)
  | text (s : String)
  | object (v : Json)

namespace JsValue

/-- `v ?? d` for a field of a JSON value that may be missing. -/
def ofField (E : Engine) (v : Option Json) (d : JsNumber) : JsValue :=
  match v with
  | none | some .null => number d
  | some (.bool b) => bool b
  | some (.int n) => number (E.rounding.round n)
  | some (.float q) => number (E.rounding.round q)
  | some (.str s) => text s
  | some v => object v

/-- Arrays and objects become texts where a primitive value is needed. -/
def toPrimitive (E : Engine) : JsValue → Option JsValue
  | object v => (E.textOf v).map text
  | v => some v

/-- The text of a primitive value. -/
def primitiveText (E : Engine) : JsValue → String
  | number n => E.numberText n
  | bool b => if b then "true" else "false"
  | text s => s
  | object _ => ""

/-- The number of a primitive value that is not a text. -/
def primitiveNumber : JsValue → JsNumber
  | number n => n
  | bool b => .fin (if b then 1 else 0)
  | _ => .nan

/-- `v` in a template literal. -/
def template (E : Engine) (v : JsValue) : Option String := (v.toPrimitive E).map (primitiveText E)

def isText : JsValue → Bool
  | text _ => true
  | _ => false

/-- `a + b`. -/
def add (E : Engine) (a b : JsValue) : Option JsValue := do
  let a ← a.toPrimitive E
  let b ← b.toPrimitive E
  if a.isText || b.isText then some (text (primitiveText E a ++ primitiveText E b))
  else some (number (E.rounding.add (primitiveNumber a) (primitiveNumber b)))

end JsValue

end LanguageLlm
