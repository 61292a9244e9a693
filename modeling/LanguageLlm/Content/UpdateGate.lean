import LanguageLlm.Content.Script
import LanguageLlm.JsNumber
import LanguageLlm.Lib.Words

/-!
# The update gate of the overlay

`mount.tsx` and `updateGate.ts`: the overlay is painted when the key of its state changes, which
joins texts of selected fields. `gate_sound_iff` says for which two states a key that stays means
that nothing changed that the overlay displays.
-/

namespace LanguageLlm.Content.Mount

open Lib Protocol

/-! ## The state and its key -/

/-- The state of a mounted overlay. -/
structure OverlayState where
  sourceCue : Option Cue
  translationCue : Option Cue
  showSource : Bool
  showTranslation : Bool
  blurTranslation : Bool
  confidence : Option JsNumber
  provenance : Option String
  karaokeActive : Option Bool
  evidenceSummary : Option String
  emptyKind : Option String
  jobState : Option String
  density : Option String
  statusMessage : Option String
  confirmAction : Option ConfirmAction
  deriving DecidableEq

structure OverlayVisualKey where
  sourceId : Option String
  translationText : Option String
  showSource : Bool
  showTranslation : Bool
  blurTranslation : Bool
  provenance : Option String
  confidence : Option JsNumber
  evidenceSummary : Option String
  karaokeActive : Option Bool
  emptyKind : Option String
  jobState : Option String
  density : Option String
  statusMessage : Option String
  confirmActionId : Option String

/-- A text that is not empty: `if (text) …`. -/
def truthy (text : Option String) : Option String := text.filter (· ≠ "")

def toVisualKey (state : OverlayState) : OverlayVisualKey where
  sourceId := truthy (state.sourceCue.map Cue.id)
  translationText := truthy (state.translationCue.map Cue.text)
  showSource := state.showSource
  showTranslation := state.showTranslation
  blurTranslation := state.blurTranslation
  provenance := truthy state.provenance
  confidence := state.confidence
  evidenceSummary := truthy state.evidenceSummary
  karaokeActive := state.karaokeActive
  emptyKind := truthy state.emptyKind
  jobState := truthy state.jobState
  density := truthy state.density
  statusMessage := truthy state.statusMessage
  confirmActionId := truthy (state.confirmAction.map ConfirmAction.id)

/-- How the language prints a number, and that it prints no bar. -/
structure NumberText where
  text : JsNumber → String
  plain : ∀ n, '|' ∉ (text n).toList

/-- `toFixed(2)` of a number that is not negative: the nearest number of hundredths, the larger one
half way. -/
def fixedText (q : Rat) : String :=
  let digits := List.leftpad 3 '0' (Nat.toDigits 10 ⌊100 * q + 1 / 2⌋.toNat)
  String.ofList (digits.take (digits.length - 2) ++ '.' :: digits.drop (digits.length - 2))

def NumberText.toFixed2 (N : NumberText) : JsNumber → String
  | .fin q =>
    if |q| < 10 ^ 21 then if q < 0 then "-" ++ fixedText (-q) else fixedText q
    else N.text (.fin q)
  | n => N.text n

def flagText (flag : Bool) : String := if flag then "1" else "0"

def overlayStateKeyFields (N : NumberText) (state : OverlayVisualKey) : List String :=
  [state.sourceId.getD "", state.translationText.getD "", flagText state.showSource,
    flagText state.showTranslation, flagText state.blurTranslation, state.provenance.getD "",
    (state.confidence.map N.toFixed2).getD "", state.evidenceSummary.getD "",
    flagText (state.karaokeActive.getD false), state.emptyKind.getD "", state.jobState.getD "",
    state.density.getD "", state.statusMessage.getD "", state.confirmActionId.getD ""]

def overlayStateKey (N : NumberText) (state : OverlayVisualKey) : String :=
  "|".intercalate (overlayStateKeyFields N state)

def shouldUpdateOverlay (N : NumberText) (prev : Option OverlayVisualKey)
    (next : OverlayVisualKey) : Bool :=
  match prev with
  | none => true
  | some prev => overlayStateKey N prev ≠ overlayStateKey N next

/-! ## What is displayed -/

/-- What the overlay displays of a confidence: the percentage, and whether it says that it is
uncertain. -/
structure ShownConfidence where
  percent : String
  uncertain : Bool
  deriving DecidableEq

/-- `Math.round(confidence * 100)` and `confidence < 0.55`. -/
def shownConfidence (N : NumberText) (R : Rounding) (confidence : JsNumber) : ShownConfidence where
  percent :=
    match confidence with
    | .fin q => N.text (R.round (q * 100)).mathRound
    | n => N.text n
  uncertain := confidence.lt (R.round (55 / 100))

/-- What the overlay displays; a text that is missing is displayed as an empty one is. -/
structure Displayed where
  sourceText : String
  translationText : String
  showSource : Bool
  showTranslation : Bool
  blurTranslation : Bool
  provenance : String
  confidence : Option ShownConfidence
  evidenceSummary : String
  karaokeActive : Bool
  emptyKind : String
  jobState : String
  density : String
  statusMessage : String
  confirmAction : Option ConfirmAction
  deriving DecidableEq

def displayed (N : NumberText) (R : Rounding) (state : OverlayState) : Displayed where
  sourceText := (state.sourceCue.map Cue.text).getD ""
  translationText := (state.translationCue.map Cue.text).getD ""
  showSource := state.showSource
  showTranslation := state.showTranslation
  blurTranslation := state.blurTranslation
  provenance := state.provenance.getD ""
  confidence := state.confidence.map (shownConfidence N R)
  evidenceSummary := state.evidenceSummary.getD ""
  karaokeActive := state.karaokeActive.getD false
  emptyKind := state.emptyKind.getD ""
  jobState := state.jobState.getD ""
  density := state.density.getD ""
  statusMessage := state.statusMessage.getD ""
  confirmAction := state.confirmAction

/-! ## The fields of the key -/

section Fields

variable {N : NumberText} {R : Rounding} {prev next : OverlayState}

@[simp] theorem getD_truthy (text : Option String) : (truthy text).getD "" = text.getD "" := by
  cases text with
  | none => rfl
  | some text =>
    rw [truthy, Option.filter_some]
    split
    · rfl
    · next h =>
      have htext : text = "" := by simpa using h
      rw [htext]
      rfl

theorem flagText_inj {a b : Bool} : flagText a = flagText b ↔ a = b := by
  cases a <;> cases b <;> simp [flagText]

/-- The texts that the key of a state joins. -/
def keyTexts (N : NumberText) (state : OverlayState) : List (List Char) :=
  (overlayStateKeyFields N (toVisualKey state)).map String.toList

theorem keyTexts_ne_nil (state : OverlayState) : keyTexts N state ≠ [] := List.cons_ne_nil _ _

/-- The gate stays closed when the keys are made of the same pieces. -/
theorem shouldUpdateOverlay_eq_false_iff :
    shouldUpdateOverlay N (some (toVisualKey prev)) (toVisualKey next) = false ↔
      ((keyTexts N prev).flatMap fun text => text.splitOn '|') =
        (keyTexts N next).flatMap fun text => text.splitOn '|' := by
  rw [← intercalate_eq_iff (keyTexts_ne_nil prev) (keyTexts_ne_nil next)]
  simp only [shouldUpdateOverlay, overlayStateKey, ne_eq, decide_not, Bool.not_eq_false',
    decide_eq_true_eq, ← String.toList_inj, String.toList_intercalate]
  exact Iff.rfl

end Fields

/-! ## Texts without bars -/

section Plain

theorem plain_append {a b : String} (ha : '|' ∉ a.toList) (hb : '|' ∉ b.toList) :
    '|' ∉ (a ++ b).toList := by
  rw [String.toList_append, List.mem_append]
  exact not_or.2 ⟨ha, hb⟩

theorem plain_fixedText (q : Rat) : '|' ∉ (fixedText q).toList := by
  have hdigits : '|' ∉ List.leftpad 3 '0' (Nat.toDigits 10 ⌊100 * q + 1 / 2⌋.toNat) := by
    rw [List.leftpad, List.mem_append, List.mem_replicate]
    rintro (⟨-, hbar⟩ | hmem)
    · cases hbar
    · have hdigit := isDigit_toDigits hmem
      cases hdigit
  rw [fixedText, String.toList_ofList, List.mem_append, List.mem_cons]
  rintro (hmem | hbar | hmem)
  · exact hdigits (List.mem_of_mem_take hmem)
  · cases hbar
  · exact hdigits (List.mem_of_mem_drop hmem)

theorem plain_toFixed2 (N : NumberText) (n : JsNumber) : '|' ∉ (N.toFixed2 n).toList := by
  cases n with
  | nan => exact N.plain _
  | infinite negative => exact N.plain _
  | fin q =>
    rw [NumberText.toFixed2]
    split
    · split
      · exact plain_append (by decide) (plain_fixedText _)
      · exact plain_fixedText q
    · exact N.plain _

end Plain

/-! ## When the gate hides nothing -/

section Gate

variable (N : NumberText) (R : Rounding) (prev next : OverlayState)

/-- What is displayed and not in the key: the source text (the key has the identifier of the cue),
all of the confirm action but its identifier, and how the confidence is displayed. -/
structure SameBesides : Prop where
  sourceText : (prev.sourceCue.map Cue.text).getD "" = (next.sourceCue.map Cue.text).getD ""
  confirmAction : prev.confirmAction = next.confirmAction
  confidence : prev.confidence.map (shownConfidence N R) =
    next.confidence.map (shownConfidence N R)

/-- The texts of the two states, cut at their bars, are different pieces; or each has as many bars
in both states, and the states do not differ in what the key leaves out. -/
def ToldApart : Prop :=
  ((keyTexts N prev).flatMap fun text => text.splitOn '|') ≠
    ((keyTexts N next).flatMap fun text => text.splitOn '|') ∨
  (keyTexts N prev).map (List.count '|') = (keyTexts N next).map (List.count '|') ∧
    SameBesides N R prev next

variable {N R prev next}

/-- States with the same texts display the same when they do besides. -/
theorem displayed_eq_of_keyTexts (htexts : keyTexts N prev = keyTexts N next)
    (h : SameBesides N R prev next) : displayed N R prev = displayed N R next := by
  have hfields : overlayStateKeyFields N (toVisualKey prev) =
      overlayStateKeyFields N (toVisualKey next) :=
    List.map_injective_iff.2 (fun _ _ => String.toList_inj.1) htexts
  simp only [overlayStateKeyFields, toVisualKey, getD_truthy, flagText_inj, List.cons.injEq,
    and_true] at hfields
  obtain ⟨-, htranslation, hsource, hshow, hblur, hprovenance, -, hevidence, hkaraoke, hempty, hjob,
    hdensity, hstatus, -⟩ := hfields
  simp only [displayed, Displayed.mk.injEq]
  exact ⟨h.sourceText, htranslation, hsource, hshow, hblur, hprovenance, h.confidence, hevidence,
    hkaraoke, hempty, hjob, hdensity, hstatus, h.confirmAction⟩

theorem sameBesides_of_displayed (h : displayed N R prev = displayed N R next) :
    SameBesides N R prev next where
  sourceText := congrArg Displayed.sourceText h
  confirmAction := congrArg Displayed.confirmAction h
  confidence := congrArg Displayed.confidence h

theorem count_confidence (N : NumberText) (confidence : Option JsNumber) :
    ((confidence.map N.toFixed2).getD "").toList.count '|' = 0 := by
  rw [List.count_eq_zero]
  cases confidence with
  | none => exact List.not_mem_nil
  | some confidence => exact plain_toFixed2 N confidence

/-- States that display the same and have the same pieces have the same number of bars in every
text: of the confidence it is none, of the other texts that are displayed it is the same, and the
identifiers of the cues have what is left. -/
theorem count_keyTexts (h : displayed N R prev = displayed N R next)
    (hpieces : ((keyTexts N prev).flatMap fun text => text.splitOn '|') =
      (keyTexts N next).flatMap fun text => text.splitOn '|') :
    (keyTexts N prev).map (List.count '|') = (keyTexts N next).map (List.count '|') := by
  have hsum : ((keyTexts N prev).map (List.count '|')).sum =
      ((keyTexts N next).map (List.count '|')).sum := by
    have hjoin := (intercalate_eq_iff (keyTexts_ne_nil prev) (keyTexts_ne_nil next)).2 hpieces
    have hprev : (['|'].intercalate (keyTexts N prev)).count '|' + 1 = _ :=
      count_intercalate (keyTexts_ne_nil prev)
    have hnext : (['|'].intercalate (keyTexts N next)).count '|' + 1 = _ :=
      count_intercalate (keyTexts_ne_nil next)
    have hlength : (keyTexts N prev).length = (keyTexts N next).length := rfl
    rw [hjoin] at hprev
    omega
  simp only [displayed, Displayed.mk.injEq] at h
  obtain ⟨-, htranslation, hsource, hshow, hblur, hprovenance, -, hevidence, hkaraoke, hempty, hjob,
    hdensity, hstatus, hconfirm⟩ := h
  simp only [keyTexts, overlayStateKeyFields, toVisualKey, getD_truthy, htranslation, hsource,
    hshow, hblur, hprovenance, hevidence, hkaraoke, hempty, hjob, hdensity, hstatus, hconfirm,
    count_confidence, List.map_cons, List.map_nil, List.sum_cons, List.sum_nil,
    Nat.add_right_cancel_iff] at hsum ⊢
  rw [hsum]

/-- A gate that stays closed hides nothing that is displayed exactly when the states are told
apart. -/
theorem gate_sound_iff :
    (shouldUpdateOverlay N (some (toVisualKey prev)) (toVisualKey next) = false →
      displayed N R prev = displayed N R next) ↔ ToldApart N R prev next := by
  rw [shouldUpdateOverlay_eq_false_iff]
  constructor
  · intro h
    by_cases hpieces : ((keyTexts N prev).flatMap fun text => text.splitOn '|') =
        (keyTexts N next).flatMap fun text => text.splitOn '|'
    · have hdisplayed := h hpieces
      exact Or.inr ⟨count_keyTexts hdisplayed hpieces, sameBesides_of_displayed hdisplayed⟩
    · exact Or.inl hpieces
  · rintro (hne | ⟨hcount, hbesides⟩) hpieces
    · exact absurd hpieces hne
    · have hjoin := (intercalate_eq_iff (keyTexts_ne_nil prev) (keyTexts_ne_nil next)).2 hpieces
      exact displayed_eq_of_keyTexts (intercalate_inj_of_count hcount hjoin) hbesides

end Gate

/-- The overlay with a cue. -/
def withCue (text : String) : OverlayState where
  sourceCue := some ⟨"c1", 0, 1000, text, .asr⟩
  translationCue := none
  showSource := true
  showTranslation := true
  blurTranslation := false
  confidence := none
  provenance := none
  karaokeActive := none
  evidenceSummary := none
  emptyKind := none
  jobState := none
  density := none
  statusMessage := none
  confirmAction := none

/-- A cue whose text is revised under its identifier stays as it was. -/
theorem not_gate_sound : ¬ ∀ (N : NumberText) (R : Rounding) (prev next : OverlayState),
    shouldUpdateOverlay N (some (toVisualKey prev)) (toVisualKey next) = false →
      displayed N R prev = displayed N R next := by
  intro h
  let N : NumberText := ⟨fun _ => "0", fun _ => by decide⟩
  have hkey : shouldUpdateOverlay N (some (toVisualKey (withCue "a"))) (toVisualKey (withCue "b")) =
      false := by decide +kernel
  have hdisplayed := h N .exact _ _ hkey
  have htext : "a" = "b" := congrArg Displayed.sourceText hdisplayed
  simp at htext

end LanguageLlm.Content.Mount
