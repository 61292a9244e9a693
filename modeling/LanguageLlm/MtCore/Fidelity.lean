import Mathlib.Data.List.Dedup
import Mathlib.Data.Rat.Defs
import LanguageLlm.PageTranslate.Segmenter
import LanguageLlm.Protocol.Timeline

/-!
# Fidelity checks

`fidelity.ts` of the mt-core package: what a translation must keep of its source. The case mapping
of Unicode, `toLowerCase`, is a parameter.
-/

namespace LanguageLlm.MtCore

open PageTranslate Protocol

/-! ## Numbers and addresses -/

/-- `\d+(?:[.,]\d+)?` where a digit stands, and the text behind it. -/
def matchNumber (cs : List Char) : List Char × List Char :=
  let digits := cs.takeWhile Char.isDigit
  match cs.dropWhile Char.isDigit with
  | sep :: c :: rest =>
    if (sep = '.' || sep = ',') && c.isDigit then
      (digits ++ sep :: (c :: rest).takeWhile Char.isDigit, (c :: rest).dropWhile Char.isDigit)
    else (digits, sep :: c :: rest)
  | rest => (digits, rest)

/-- The matches of `NUMBER_RE`, from left to right; the fuel is the length of the text. -/
def numbersFrom : Nat → List Char → List String
  | fuel + 1, c :: cs =>
    if c.isDigit then
      let (digits, rest) := matchNumber (c :: cs)
      String.ofList digits :: numbersFrom fuel rest
    else numbersFrom fuel cs
  | _, _ => []

def extractNumbers (text : String) : List String := numbersFrom text.toList.length text.toList

/-- `https?:\/\/[^\s]+` at the beginning of the text, and the text behind it. -/
def matchUrl (cs : List Char) : Option (List Char × List Char) :=
  let scheme := cs.take 4
  let rest := cs.drop 4
  let (scheme, rest) :=
    match rest with
    | c :: rest' => if c.toLower = 's' then (scheme ++ [c], rest') else (scheme, rest)
    | [] => (scheme, rest)
  if (scheme.take 4).map Char.toLower = ['h', 't', 't', 'p'] ∧ rest.take 3 = [':', '/', '/'] then
    let tail := (rest.drop 3).takeWhile fun c => !isSpace c
    if tail = [] then none
    else some (scheme ++ [':', '/', '/'] ++ tail, (rest.drop 3).dropWhile fun c => !isSpace c)
  else none

/-- The matches of `URL_RE`. -/
def urlsFrom : Nat → List Char → List String
  | fuel + 1, c :: cs =>
    match matchUrl (c :: cs) with
    | some (url, rest) => String.ofList url :: urlsFrom fuel rest
    | none => urlsFrom fuel cs
  | _, _ => []

def extractUrls (text : String) : List String := urlsFrom text.toList.length text.toList

example : extractNumbers "at 3,5 or 1.2.3" = ["3,5", "1.2", "3"] := by decide +kernel

example : extractUrls "see HTTPS://a.b/c, or http:// x" = ["HTTPS://a.b/c,"] := by decide +kernel

/-! ## The checks -/

inductive FidelityCheckKind where
  | missingNumber
  | extraNumber
  | urlMismatch
  | emptyOutput
  | cueCount
  | missingName
  deriving DecidableEq

def FidelityCheckKind.text : FidelityCheckKind → String
  | missingNumber => "missing-number"
  | extraNumber => "extra-number"
  | urlMismatch => "url-mismatch"
  | emptyOutput => "empty-output"
  | cueCount => "cue-count"
  | missingName => "missing-name"

structure FidelityCheck where
  kind : FidelityCheckKind
  passed : Bool
  detail : Option String
  deriving DecidableEq

structure FidelityCheckResult where
  ok : Bool
  checks : List FidelityCheck
  score : Rat

/-- `new Set(xs)` spread into an array. -/
def distinct (xs : List String) : List String := xs.eraseDups

/-- The text has the other one in it. -/
def includes (text part : String) : Bool :=
  text.toList.tails.any fun tail => part.toList.isPrefixOf tail

/-- A check that lists what it misses. -/
def listing (kind : FidelityCheckKind) (missing : List String) : FidelityCheck where
  kind := kind
  passed := missing = []
  detail := if missing = [] then none else some (", ".intercalate missing)

def runFidelityChecks (toLowerCase : String → String) (sourceCues : List Cue)
    (targetTexts : List String) (glossary : List GlossaryEntry) : FidelityCheckResult :=
  let sourceJoined := " ".intercalate (sourceCues.map Cue.text)
  let targetJoined := " ".intercalate targetTexts
  let srcNums := distinct (extractNumbers sourceJoined)
  let tgtNums := distinct (extractNumbers targetJoined)
  let srcUrls := (extractUrls sourceJoined).map toLowerCase
  let tgtUrls := (extractUrls targetJoined).map toLowerCase
  let distance :=
    max targetTexts.length sourceCues.length - min targetTexts.length sourceCues.length
  let checks :=
    [listing .missingNumber (srcNums.filter fun n => n ∉ tgtNums),
      listing .extraNumber (tgtNums.filter fun n => n ∉ srcNums),
      { kind := .urlMismatch, passed := srcUrls.all fun u => u ∈ tgtUrls, detail := none },
      { kind := .emptyOutput
        passed := !targetTexts.any fun t => trim t.toList = []
        detail := none },
      { kind := .cueCount
        passed := targetTexts = [] || distance ≤ max 2 (sourceCues.length / 2)
        detail := none }] ++
    (glossary.filter GlossaryEntry.locked).map fun g =>
      { kind := .missingName
        passed := includes targetJoined g.target
        detail := some ("glossary:" ++ g.source ++ "->" ++ g.target) }
  { ok := checks.all FidelityCheck.passed
    checks := checks
    score := (checks.filter FidelityCheck.passed).length / checks.length }

/-- `CRITICAL_CHECK_KINDS`. -/
def FidelityCheckKind.critical : FidelityCheckKind → Bool
  | emptyOutput | missingNumber | urlMismatch => true
  | extraNumber | cueCount | missingName => false

def hasCriticalFidelityFailure (result : FidelityCheckResult) : Bool :=
  result.checks.any fun c => !c.passed && c.kind.critical

def formatFidelityEvidence (result : FidelityCheckResult) : String :=
  "; ".intercalate ((result.checks.filter fun c => !c.passed).map fun c =>
    match c.detail with
    | some detail => c.kind.text ++ (if detail = "" then "" else ": " ++ detail)
    | none => c.kind.text)

def mockMtDraft (texts : List String) (targetLang : String) : List String :=
  texts.map fun t => "[" ++ targetLang ++ "] " ++ t

/-- A critical failure is a failure. -/
theorem ok_eq_false_of_critical {toLowerCase : String → String} {sourceCues : List Cue}
    {targetTexts : List String} {glossary : List GlossaryEntry}
    (h : hasCriticalFidelityFailure
      (runFidelityChecks toLowerCase sourceCues targetTexts glossary) = true) :
    (runFidelityChecks toLowerCase sourceCues targetTexts glossary).ok = false := by
  obtain ⟨c, hc, hfails⟩ := List.any_eq_true.1 h
  have hpassed : c.passed = false := by
    simp only [Bool.and_eq_true, Bool.not_eq_true'] at hfails
    exact hfails.1
  rw [Bool.eq_false_iff]
  intro hok
  have hall : c.passed = true := List.all_eq_true.1 hok c hc
  rw [hpassed] at hall
  cases hall

end LanguageLlm.MtCore
