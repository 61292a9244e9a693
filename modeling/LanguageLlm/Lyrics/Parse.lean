import Mathlib.Data.List.Sort
import LanguageLlm.JsNumber
import LanguageLlm.Lib.Regex
import LanguageLlm.Lyrics.Resolve
import LanguageLlm.Protocol.Cues

/-!
# Lyrics files

`parse.ts` of the lyrics package: LRC, TTML and plain text become lines with start times, and the
lines a timeline. Times are numbers of JavaScript; `numberText` is how a number is printed.
-/

namespace LanguageLlm.Lyrics.Import

open Lib Lib.Matcher LanguageKits PageTranslate Protocol

structure ParsedLine where
  startMs : JsNumber
  text : String
  deriving DecidableEq

/-! ## LRC -/

/-- `TS`. -/
def timeTag : Matcher (List Char × List Char × Option (List Char)) := do
  let _ ← one (· == '[')
  let mm ← greedy Char.isDigit 1 (some 2)
  let _ ← one (· == ':')
  let ss ← greedy Char.isDigit 2 (some 2)
  let frac ← opt (do
    let _ ← one fun c => c == '.' || c == ':'
    greedy Char.isDigit 1 (some 3))
  let _ ← one (· == ']')
  pure (mm, ss, frac)

/-- Three digits of a fraction. -/
def threeDigits : List Char → List Char
  | [a] => [a, '0', '0']
  | [a, b] => [a, b, '0']
  | frac => frac.take 3

/-- The milliseconds of a fraction; an empty one counts as none. -/
def fractionMs (R : Rounding) (frac : Option (List Char)) : JsNumber :=
  match frac.getD [] with
  | [] => .fin 0
  | c :: cs => R.number (threeDigits (c :: cs))

def parseTimestampMs (R : Rounding) (mm ss : List Char) (frac : Option (List Char)) : JsNumber :=
  let minutes := R.number mm
  let seconds := R.number ss
  R.add (R.scale 1000 (R.add (R.scale 60 minutes) seconds)) (fractionMs R frac)

/-- The lines of one row of the file: one for each time tag in it. -/
def parseLrcRow (R : Rounding) (raw : List Char) : List ParsedLine :=
  let textPart := trim (replaceAll timeTag (fun _ => []) raw)
  (matchAll timeTag raw).map fun m =>
    { startMs := parseTimestampMs R m.1 m.2.1 m.2.2
      text := String.ofList textPart }

/-- The starts are finite here, so that the comparison of `sort` is an order, and the sort is
stable. -/
def parseLrc (R : Rounding) (content : String) : List ParsedLine :=
  let lines := (splitLines content.toList).flatMap (parseLrcRow R)
  (lines.insertionSort fun a b => a.startMs.le b.startMs = true).filter fun l => l.text ≠ ""

/-! ## TTML -/

/-- `\bname="([^"]+)"`. -/
def clockAttribute (name : String) : Matcher (List Char) := do
  boundary isWordChar
  word sameLetter (name.toList ++ ['=', '"'])
  let value ← greedy (· != '"') 1 none
  let _ ← one (· == '"')
  pure value

/-- The expression of `parseTtml`. -/
def paragraph : Matcher (List Char × List Char × List Char) := do
  word sameLetter "<p".toList
  boundary isWordChar
  let _ ← greedy (· != '>') 0 none
  let start ← clockAttribute "begin"
  let _ ← greedy (· != '>') 0 none
  let stop ← clockAttribute "end"
  let _ ← greedy (· != '>') 0 none
  let _ ← one (· == '>')
  let inner ← lazy (fun _ => true) 0 none
  word sameLetter "</p>".toList
  pure (start, stop, inner)

def parseClock (R : Rounding) (value : List Char) : JsNumber :=
  let part (parts : List (List Char)) := parts.head?.elim (.fin 0) R.number
  if ':' ∈ value then
    let parts := (value.splitOn ':').reverse
    let seconds := part parts
    let minutes := part parts.tail
    let hours := part parts.tail.tail
    (R.scale 1000 (R.add (R.add (R.scale 3600 hours) (R.scale 60 minutes)) seconds)).mathRound
  else (R.scale 1000 (R.number value)).mathRound

/-- The begin clocks and the texts of the paragraphs, without those that have no text. -/
def ttmlParagraphs (content : String) : List (List Char × List Char) :=
  ((matchAll paragraph content.toList).map fun m =>
    (m.1, trim (replaceAll anyTag (fun _ => []) m.2.2))).filter fun p => p.2 ≠ []

def parseTtml (R : Rounding) (content : String) : List ParsedLine :=
  (ttmlParagraphs content).map fun p =>
    { startMs := parseClock R p.1
      text := String.ofList p.2 }

/-! ## Plain text -/

def plainRows (content : String) : List (List Char) :=
  ((splitLines content.toList).map trim).filter fun row => row ≠ []

def parsePlain (R : Rounding) (content : String) : List ParsedLine :=
  let lineDurationMs := 3000
  (plainRows content).mapIdx fun i text =>
    { startMs := R.round (i * lineDurationMs)
      text := String.ofList text }

/-! ## The timeline -/

/-- The end of the `i`-th line. -/
def endOf (R : Rounding) (lines : List ParsedLine) (i : Nat) (line : ParsedLine) : JsNumber :=
  match lines[i + 1]? with
  | some next => next.startMs.max (R.add line.startMs (.fin 200))
  | none => R.add line.startMs (.fin 3000)

/-- The cue of the `i`-th line. -/
def cueOfLine (R : Rounding) (numberText : JsNumber → String) (videoId : String)
    (lines : List ParsedLine) (provenance : Provenance) (i : Nat) (line : ParsedLine) :
    CueOf JsNumber where
  id := "lyr_" ++ fnv1aLike (videoId ++ ":" ++ toString i ++ ":" ++ numberText line.startMs ++
    ":" ++ line.text)
  startMs := line.startMs
  endMs := endOf R lines i line
  text := line.text
  provenance := provenance

def linesToTimeline (R : Rounding) (numberText : JsNumber → String) (videoId : String)
    (lines : List ParsedLine) (provenance : Provenance) : TimelineOf JsNumber :=
  let cues := lines.mapIdx (cueOfLine R numberText videoId lines provenance)
  { videoId := videoId
    cues := cues
    sourceHash := fnv1aLike ("\n".intercalate (cues.map CueOf.text))
    captionSource := if provenance = .asr then .asrImport else .human }

inductive Format where
  | lrc
  | ttml
  | plain
  deriving DecidableEq

def parseLines (R : Rounding) (format : Format) (content : String) : List ParsedLine :=
  match format with
  | .lrc => parseLrc R content
  | .ttml => parseTtml R content
  | .plain => parsePlain R content

def resolveImportedLyrics (R : Rounding) (numberText : JsNumber → String) (videoId : String)
    (format : Format) (content : String) : TimelineOf JsNumber :=
  linesToTimeline R numberText videoId (parseLines R format content) .lyricsImport

end LanguageLlm.Lyrics.Import
