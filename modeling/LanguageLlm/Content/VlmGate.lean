import Mathlib.Data.Rat.Defs
import LanguageLlm.PageTranslate.Segmenter

/-!
# The gate of the visual review

`gate.ts` and the offline stub of `review.ts`: drafts of cues that look like visual deixis are
marked.
-/

namespace LanguageLlm.Content

open PageTranslate

inductive Profile where
  | lite
  | balanced
  | quality
  | workstation
  deriving DecidableEq

/-- `\w`. -/
def isWordChar (c : Char) : Bool := c.isAlphanum || c = '_'

/-- The maximal runs of word characters. -/
def words (text : String) : List (List Char) := text.toList.splitOnP fun c => !isWordChar c

def deixisWords : List String :=
  ["this", "that", "these", "those", "here", "there", "it", "eso", "esto", "aquel", "celle",
    "celui"]

/-- `DEIXIS_RE.test(text)`: a word of the list, in any case. -/
def isDeixis (text : String) : Bool :=
  (words text).any fun word => String.ofList (word.map Char.toLower) ∈ deixisWords

def flagVisualAmbiguity (sourceText : String) (draftConfidence : Rat) : Bool :=
  decide (draftConfidence < 55 / 100) && isDeixis sourceText

def shouldInvokeVlm (confidence : Rat) (flaggedAmbiguity : Bool) (profile : Profile) : Bool :=
  if profile = .lite then false else flaggedAmbiguity && decide (confidence < 55 / 100)

/-- `text.slice(0, units)`, in UTF-16 code units; half of a pair is left out. -/
def sliceUnits : Nat → List Char → List Char
  | _, [] => []
  | units, c :: cs =>
    let width := if c.toNat < 0x10000 then 1 else 2
    if width ≤ units then c :: sliceUnits (units - width) cs else []

/-- `runVlmGate` with `mockVlmCorrection`, for a draft without frames: the text, and the summary of
its evidence when the review was invoked. -/
def runVlmGate (sourceText draftText : String) (confidence : Rat) (profile : Profile) :
    String × Option String :=
  let flaggedAmbiguity := flagVisualAmbiguity sourceText confidence
  if shouldInvokeVlm confidence flaggedAmbiguity profile then
    let question :=
      "Resolve visual referent in: " ++ String.ofList (sliceUnits 80 sourceText.toList)
    -- the stub returns the draft, in the category "none", with one mock frame
    let targetText := if isDeixis sourceText then draftText ++ " [visual-ref]" else draftText
    (targetText, some ("Stub VLM; question=" ++ question ++ "; frames=1"))
  else (draftText, none)

structure VlmGateBatch where
  texts : List String
  evidenceByIndex : List String
  invokedCount : Nat

/-- `applyVlmGateToDrafts` without confidences. -/
def applyVlmGateToDrafts (sources drafts : List String) (profile : Profile) : VlmGateBatch :=
  let results :=
    sources.mapIdx fun i source => runVlmGate source (drafts.getD i source) (1 / 2) profile
  { texts := results.map Prod.fst
    evidenceByIndex := results.map fun result => result.2.getD ""
    invokedCount := results.countP fun result => result.2.isSome }

/-- `applyVlmGateToDrafts` with all its arguments. -/
def applyVlmGateToDraftsWith (sources drafts : List String) (confidences : Option (List Rat))
    (profile : Profile) : VlmGateBatch :=
  let results := sources.mapIdx fun i source =>
    let confidence := (confidences.bind fun given => given[i]?).getD (1 / 2)
    runVlmGate source (drafts.getD i source) confidence profile
  { texts := results.map Prod.fst
    evidenceByIndex := results.map fun result => result.2.getD ""
    invokedCount := results.countP fun result => result.2.isSome }

theorem applyVlmGateToDrafts_eq (sources drafts : List String) (profile : Profile) :
    applyVlmGateToDrafts sources drafts profile =
      applyVlmGateToDraftsWith sources drafts none profile := rfl

/-- The review leaves a draft or marks it. -/
theorem runVlmGate_text (sourceText draftText : String) (confidence : Rat) (profile : Profile) :
    (runVlmGate sourceText draftText confidence profile).1 = draftText ∨
      (runVlmGate sourceText draftText confidence profile).1 = draftText ++ " [visual-ref]" := by
  unfold runVlmGate
  dsimp only
  split_ifs
  · exact Or.inr rfl
  · exact Or.inl rfl
  · exact Or.inl rfl

/-- The review does not empty a draft. -/
theorem runVlmGate_ne_empty {sourceText draftText : String} (confidence : Rat) (profile : Profile)
    (h : draftText ≠ "") : (runVlmGate sourceText draftText confidence profile).1 ≠ "" := by
  rcases runVlmGate_text sourceText draftText confidence profile with htext | htext
  · rwa [htext]
  · rw [htext]
    exact fun hempty => absurd (congrArg String.toList hempty) (by simp)

end LanguageLlm.Content
