import LanguageLlm.Desktop.Handlers
import LanguageLlm.JsText

/-!
# Subtitle export

`validate_cue` and the WebVTT and LRC writers of `subtitle-core`.
-/

namespace LanguageLlm.Subtitle

open Lib

/-- The fields of a cue that the writers read. The times are `u64`, of which they take quotients and
remainders only. -/
structure Cue where
  startMs : Nat
  endMs : Nat
  text : String
  deriving DecidableEq

inductive SubtitleError where
  | invalidTiming (startMs endMs : Nat)
  | emptyText
  deriving DecidableEq

def validateCue (cue : Cue) : Except SubtitleError Unit :=
  if cue.endMs ≤ cue.startMs then .error (.invalidTiming cue.startMs cue.endMs)
  else if cue.text.toList.all Desktop.isWhitespace then .error .emptyText
  else .ok ()

def fmtTs (ms : Nat) : List Char :=
  padded 2 (ms / 3600000) ++ ':' :: padded 2 (ms / 60000 % 60) ++ ':' ::
    padded 2 (ms / 1000 % 60) ++ ',' :: padded 3 (ms % 1000)

def fmtTsVtt (ms : Nat) : List Char := (fmtTs ms).map fun c => if c = ',' then '.' else c

def toVtt (cues : List Cue) : String :=
  String.ofList ("WEBVTT\n\n".toList ++ cues.flatMap fun c =>
    fmtTsVtt c.startMs ++ " --> ".toList ++ fmtTsVtt c.endMs ++ '\n' :: c.text.toList ++
      "\n\n".toList)

/-- The time tag of a cue. -/
def lrcStamp (startMs : Nat) : List Char :=
  let totalCs := startMs / 10
  '[' :: padded 2 (totalCs / 6000) ++ ':' :: padded 2 (totalCs / 100 % 60) ++ '.' ::
    padded 2 (totalCs % 100) ++ [']']

def toLrc (cues : List Cue) : String :=
  String.ofList (cues.flatMap fun c => lrcStamp c.startMs ++ c.text.toList ++ ['\n'])

theorem fmtTsVtt_eq (ms : Nat) :
    fmtTsVtt ms = padded 2 (ms / 3600000) ++ ':' :: (padded 2 (ms / 60000 % 60) ++ ':' ::
      (padded 2 (ms / 1000 % 60) ++ '.' :: padded 3 (ms % 1000))) := by
  have hdigits : ∀ width n, ((padded width n).map fun c => if c = ',' then '.' else c) =
      padded width n := by
    intro width n
    rw [List.map_congr_left, List.map_id]
    intro c hc
    have hcomma : c ≠ ',' := by
      rintro rfl
      exact not_mem_padded rfl hc
    exact if_neg hcomma
  simp [fmtTsVtt, fmtTs, hdigits]

end LanguageLlm.Subtitle
