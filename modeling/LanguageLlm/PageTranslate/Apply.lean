import Mathlib.Data.List.Infix
import Mathlib.Data.Rat.Defs
import LanguageLlm.PageTranslate.Segmenter

/-!
# Display texts

`apply.ts`: what each mode shows for an entry of the restore table, and the mock translator of
development builds.
-/

namespace LanguageLlm.PageTranslate

open Lib

inductive PageTranslateMode where
  | original
  | translated
  | dual
  deriving DecidableEq

structure PageTranslateSegmentResult where
  id : String
  translatedText : String
  confidence : Rat
  provisional : Bool
  deriving DecidableEq

structure AppliedSegment where
  id : String
  displayText : String
  originalText : String

/-- The text and the title that `resolveDisplayText` returns. -/
structure Display where
  text : String
  title : Option String

def resolveDisplayText (mode : PageTranslateMode) (original translated : String) : Display :=
  match mode with
  | .original => { text := original, title := none }
  | .translated => { text := translated, title := none }
  | .dual => { text := translated, title := some original }

def buildAppliedMap (mode : PageTranslateMode) (restore : RestoreTable)
    (results : List PageTranslateSegmentResult) : List AppliedSegment :=
  let byId := OrderedMap.ofList (results.map fun r => (r.id, r))
  restore.originals.entries.map fun (id, entry) =>
    let translated := ((byId.get? id).map PageTranslateSegmentResult.translatedText).getD entry
    { id, displayText := (resolveDisplayText mode entry translated).text, originalText := entry }

/-! ## The mock translator -/

/-- The matches of `/https?:\/\/\S+/` at the start of a text. -/
def matchUrl (cs : List Char) : Option (List Char) :=
  let scheme :=
    if "https://".toList.isPrefixOf cs then some "https://".toList
    else if "http://".toList.isPrefixOf cs then some "http://".toList
    else none
  scheme.bind fun scheme =>
    let rest := (cs.drop scheme.length).takeWhile fun c => !isSpace c
    if rest = [] then none else some (scheme ++ rest)

/-- The matches of `/\d+(?:[.,]\d+)?/` at the start of a text. -/
def matchNumber (cs : List Char) : Option (List Char) :=
  let whole := cs.takeWhile Char.isDigit
  if whole = [] then none
  else
    match cs.drop whole.length with
    | c :: rest =>
      let part := rest.takeWhile Char.isDigit
      if (c = '.' || c = ',') && part ≠ [] then some (whole ++ c :: part) else some whole
    | [] => some whole

/-- `text.match(/…/g)`: the matches from left to right; `skip` characters belong to the last
one. -/
def matchAll (first : List Char → Option (List Char)) (skip : Nat) : List Char → List (List Char)
  | [] => []
  | c :: cs =>
    match skip with
    | skip + 1 => matchAll first skip cs
    | 0 =>
      match first (c :: cs) with
      | some m => m :: matchAll first (m.length - 1) cs
      | none => matchAll first 0 cs

/-- `if (!body.includes(u)) body += " " + u`. -/
def appendMissing (body u : List Char) : List Char :=
  if u <:+: body then body else body ++ ' ' :: u

def mockTranslateSegment (text targetLang : String) : String :=
  let urls := matchAll matchUrl 0 text.toList
  let numbers := matchAll matchNumber 0 text.toList
  let body := "[".toList ++ targetLang.toList ++ "] ".toList ++ text.toList
  String.ofList (numbers.foldl appendMissing (urls.foldl appendMissing body))

theorem matchUrl_prefix {cs m : List Char} (h : matchUrl cs = some m) : m <+: cs := by
  have hurl : ∀ {scheme : List Char}, scheme.isPrefixOf cs →
      scheme ++ (cs.drop scheme.length).takeWhile (fun c => !isSpace c) <+: cs := by
    intro scheme hs
    obtain ⟨rest, rfl⟩ := List.isPrefixOf_iff_prefix.1 hs
    rw [List.drop_left]
    exact (List.prefix_append_right_inj scheme).2 (List.takeWhile_prefix _)
  unfold matchUrl at h
  obtain ⟨scheme, hscheme, h⟩ := Option.bind_eq_some_iff.1 h
  have hs : scheme.isPrefixOf cs := by
    split at hscheme
    · cases hscheme; assumption
    · split at hscheme
      · cases hscheme; assumption
      · cases hscheme
  dsimp only at h
  split at h
  · cases h
  · cases h
    exact hurl hs

theorem matchNumber_prefix {cs m : List Char} (h : matchNumber cs = some m) : m <+: cs := by
  have hwhole : cs.takeWhile Char.isDigit <+: cs := List.takeWhile_prefix _
  unfold matchNumber at h
  generalize cs.takeWhile Char.isDigit = whole at h hwhole
  obtain ⟨rest, rfl⟩ := hwhole
  dsimp only at h
  rw [List.drop_left] at h
  split at h
  · cases h
  · cases rest with
    | nil =>
      cases h
      exact List.prefix_append _ _
    | cons c rest =>
      dsimp only at h
      split at h <;> cases h
      · have hpart : rest.takeWhile Char.isDigit <+: rest := List.takeWhile_prefix _
        exact (List.prefix_append_right_inj whole).2 ((List.prefix_cons_inj c).2 hpart)
      · exact List.prefix_append _ _

/-- A match is a part of the text. -/
theorem infix_of_mem_matchAll {first : List Char → Option (List Char)}
    (hfirst : ∀ {cs m}, first cs = some m → m <+: cs) {m : List Char} :
    ∀ {skip : Nat} {cs : List Char}, m ∈ matchAll first skip cs → m <:+: cs := by
  intro skip cs
  induction cs generalizing skip with
  | nil => intro h; cases h
  | cons c cs ih =>
    intro h
    unfold matchAll at h
    split at h
    · exact (ih h).trans (List.suffix_cons c cs).isInfix
    · split at h
      · next m' hm =>
        rcases List.mem_cons.1 h with rfl | h
        · exact (hfirst hm).isInfix
        · exact (ih h).trans (List.suffix_cons c cs).isInfix
      · exact (ih h).trans (List.suffix_cons c cs).isInfix

theorem foldl_appendMissing {us : List (List Char)} {body : List Char}
    (h : ∀ u ∈ us, u <:+: body) : us.foldl appendMissing body = body := by
  induction us with
  | nil => rfl
  | cons u us ih =>
    rw [List.foldl_cons, appendMissing, if_pos (h u List.mem_cons_self)]
    exact ih fun v hv => h v (List.mem_cons_of_mem _ hv)

/-- The mock keeps the text whole, so that it never has to append a URL or a number. -/
theorem mockTranslateSegment_eq (text targetLang : String) :
    mockTranslateSegment text targetLang = "[" ++ targetLang ++ "] " ++ text := by
  have hpart : ∀ {first : List Char → Option (List Char)},
      (∀ {cs m}, first cs = some m → m <+: cs) → ∀ u ∈ matchAll first 0 text.toList,
      u <:+: "[".toList ++ targetLang.toList ++ "] ".toList ++ text.toList := by
    intro first hfirst u hu
    exact (infix_of_mem_matchAll hfirst hu).trans (List.suffix_append _ _).isInfix
  unfold mockTranslateSegment
  dsimp only
  rw [foldl_appendMissing (hpart matchUrl_prefix), foldl_appendMissing (hpart matchNumber_prefix)]
  exact String.toList_injective (by simp)

end LanguageLlm.PageTranslate
