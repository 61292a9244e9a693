import LanguageLlm.Content.Handlers
import LanguageLlm.JsValue
import LanguageLlm.Lib.Regex
import LanguageLlm.Protocol.Cues

/-!
# Captions

`parser.ts` of the extension: timed text in the formats json3, srv3 and WebVTT becomes a timeline of
cues. `none` is an exception.
-/

namespace LanguageLlm.Captions

open Lib Lib.Matcher LanguageKits PageTranslate Protocol
open Content (simpleHash)
open Lyrics (hasPart isWordChar)

/-- What every parser needs: the language, the video and the provenance of its cues. -/
structure Source where
  engine : Engine
  videoId : String
  provenance : Provenance

namespace Source

variable (S : Source)

/-- A number text. -/
def number (text : List Char) : JsNumber := S.engine.rounding.number text

/-- `a + b` for numbers. -/
def add (a b : JsNumber) : JsNumber := S.engine.rounding.add a b

/-- `timelineFromCues` for cues whose times may be any value. -/
def timelineFromCues (cues : List (CueOf JsValue)) : TimelineOf JsValue where
  videoId := S.videoId
  cues := cues
  sourceHash := simpleHash ("|".intercalate (cues.map CueOf.text))
  captionSource := if S.provenance = .humanCaption then .human else .auto

def emptyTimeline : TimelineOf JsValue := S.timelineFromCues []

/-- A cue with an identifier made of the place and the start. -/
def cue (kind : String) (i : Nat) (startText : String) (startMs endMs : JsValue)
    (text : List Char) : CueOf JsValue where
  id := "yt_" ++ S.videoId ++ "_" ++ kind ++ toString i ++ "_" ++ startText
  startMs := startMs
  endMs := endMs
  text := String.ofList text
  provenance := S.provenance

/-- A cue with times that are numbers. -/
def numberCue (kind : String) (i : Nat) (startMs endMs : JsNumber) (text : List Char) :
    CueOf JsValue :=
  S.cue kind i (S.engine.numberText startMs) (.number startMs) (.number endMs) text

/-! ## json3 -/

/-- `s.utf8 ?? ""` as `join` prints it. -/
def segText : Json → Option String
  | .null => none
  | .obj fields =>
    match fields.lookup "utf8" with
    | none | some .null => some ""
    | some v => S.engine.textOf v
  | _ => some ""

/-- The text of the segments of an event. -/
def eventText : Json → Option (List Char)
  | .null => none
  | .obj fields =>
    match fields.lookup "segs" with
    | none | some .null => some []
    | some (.arr segs) =>
      (segs.mapM S.segText).map fun texts =>
        trim (("".intercalate texts).toList.map fun c => if c = '\n' then ' ' else c)
    | some _ => none
  | _ => some []

/-- The cue of the `i`-th event, if it has a text. -/
def eventCue (i : Nat) (e : Json) : Option (Option (CueOf JsValue)) := do
  let text ← S.eventText e
  if text = [] then some none
  else
    let startMs := JsValue.ofField S.engine (e.get "tStartMs") (.fin 0)
    let endMs ← startMs.add S.engine (JsValue.ofField S.engine (e.get "dDurationMs") (.fin 2000))
    let startText ← startMs.template S.engine
    some (some (S.cue "" i startText startMs endMs text))

/-- The cues of the events from the `i`-th on. -/
def eventCues (i : Nat) : List Json → Option (List (CueOf JsValue))
  | [] => some []
  | e :: events => do
    let c ← S.eventCue i e
    let cues ← eventCues (i + 1) events
    some (c.toList ++ cues)

def parseTimedtextEvents (events : List Json) : Option (TimelineOf JsValue) :=
  (S.eventCues 0 events).map S.timelineFromCues

/-- `Array.isArray(parsed.events) ? parsed.events : []`, which throws for `null`. -/
def eventsOf : Json → Option (List Json)
  | .null => none
  | parsed =>
    match parsed.get "events" with
    | some (.arr events) => some events
    | _ => some []

def parseJson3Timedtext (body : List Char) : Option (TimelineOf JsValue) :=
  let trimmed := trim body
  if trimmed = [] then some S.emptyTimeline
  else
    match S.engine.jsonParse (String.ofList trimmed) with
    | none => some S.emptyTimeline
    | some parsed => (eventsOf parsed).bind S.parseTimedtextEvents

end Source

/-! ## srv3 -/

/-- `\b([^>]*)>([\s\S]*?)<\/p>`. -/
def paragraphBody : Matcher (List Char × List Char) := do
  boundary isWordChar
  let attrs ← greedy (· != '>') 0 none
  let _ ← one (· == '>')
  let inner ← lazy (fun _ => true) 0 none
  word sameLetter "</p>".toList
  pure (attrs, inner)

/-- `<p\b([^>]*)>([\s\S]*?)<\/p>`. -/
def paragraph : Matcher (List Char × List Char) := do
  word sameLetter "<p".toList
  paragraphBody

/-- `\bname="(\d+)"`. -/
def numberAttribute (name : String) : Matcher (List Char) := do
  boundary isWordChar
  word sameLetter (name.toList ++ ['=', '"'])
  let digits ← greedy Char.isDigit 1 none
  let _ ← one (· == '"')
  pure digits

/-- `<br\s*\/?>`. -/
def lineBreak : Matcher Unit := do
  word sameLetter "<br".toList
  let _ ← greedy isSpace 0 none
  let _ ← opt (one (· == '/'))
  let _ ← one (· == '>')

/-- `s.replace(/entity/g, text)` for a fixed entity. -/
def replaceEntity (entity : String) (c : Char) (s : List Char) : List Char :=
  replaceAll (word (· == ·) entity.toList) (fun _ => [c]) s

def stripXml (s : List Char) : List Char :=
  let s := replaceAll lineBreak (fun _ => [' ']) s
  let s := replaceAll anyTag (fun _ => []) s
  let s := replaceEntity "&amp;" '&' s
  let s := replaceEntity "&lt;" '<' s
  let s := replaceEntity "&gt;" '>' s
  let s := replaceEntity "&quot;" '"' s
  replaceEntity "&#39;" '\'' s

/-- The text of a paragraph. -/
def paragraphText (inner : List Char) : List Char := trim (collapseSpaces false (stripXml inner))

namespace Source

variable (S : Source)

def attrNumber (attrs : List Char) (name : String) : Option JsNumber :=
  (search (numberAttribute name) attrs).map S.number

/-- The start, the duration and the text of each paragraph that has a text. -/
def paragraphs (body : List Char) : List (JsNumber × JsNumber × List Char) :=
  ((matchAll paragraph body).map fun m =>
    ((S.attrNumber m.1 "t").getD (.fin 0), (S.attrNumber m.1 "d").getD (.fin 2000),
      paragraphText m.2)).filter fun p => p.2.2 ≠ []

def parseSrv3Timedtext (body : List Char) : TimelineOf JsValue :=
  S.timelineFromCues <| (S.paragraphs (trim body)).mapIdx fun i p =>
    S.numberCue "srv3_" i p.1 (S.add p.1 p.2.1) p.2.2

end Source

/-! ## WebVTT -/

/-- `(\d{1,2}:)?\d{2}:\d{2}\.\d{3}`. -/
def vttTime : Matcher Unit := do
  let _ ← opt (do
    let _ ← greedy Char.isDigit 1 (some 2)
    one (· == ':'))
  let _ ← greedy Char.isDigit 2 (some 2)
  let _ ← one (· == ':')
  let _ ← greedy Char.isDigit 2 (some 2)
  let _ ← one (· == '.')
  let _ ← greedy Char.isDigit 3 (some 3)

/-- The expression of a timing line. -/
def timing : Matcher Unit := do
  vttTime
  let _ ← greedy isSpace 0 none
  word (· == ·) "-->".toList
  let _ ← greedy isSpace 0 none
  vttTime

/-- What is before the first arrow and what is behind it. -/
def cutArrow : List Char → Option (List Char × List Char)
  | [] => none
  | c :: cs =>
    if "-->".toList.isPrefixOf (c :: cs) then some ([], cs.drop 2)
    else (cutArrow cs).map fun p => (c :: p.1, p.2)

/-- `timingLine.split("-->").map((s) => s.trim())`, the first two parts. -/
def timingParts (timingLine : List Char) : List Char × List Char :=
  match cutArrow timingLine with
  | none => (trim timingLine, [])
  | some (before, after) =>
    (trim before, trim ((cutArrow after).elim after Prod.fst))

/-- A line before the cues, or between them. -/
def skipsLine (line : List Char) : Bool :=
  line.isEmpty || "WEBVTT".toList.isPrefixOf line || "NOTE".toList.isPrefixOf line ||
    "STYLE".toList.isPrefixOf line

/-- The timing line that belongs to a line, which may be the identifier before it, and the lines
behind it. -/
def timingLineOf (line : List Char) (rest : List (List Char)) : List Char × List (List Char) :=
  match rest with
  | [] => (line, [])
  | next :: rest =>
    if ¬ hasPart line "-->".toList ∧ hasPart next "-->".toList then (trim next, rest)
    else (line, next :: rest)

/-- The lines of the text. -/
def textLines (rest : List (List Char)) : List (List Char) :=
  (rest.takeWhile fun l => trim l ≠ []).map trim

/-- `textLines.join(" ").replace(/<[^>]+>/g, "").trim()`. -/
def blockText (lines : List (List Char)) : List Char :=
  trim (replaceAll anyTag (fun _ => []) ([' '].intercalate lines))

theorem length_timingLineOf (line : List Char) (rest : List (List Char)) :
    (timingLineOf line rest).2.length ≤ rest.length := by
  cases rest with
  | nil => exact le_rfl
  | cons next rest =>
    rw [timingLineOf]
    split_ifs
    · exact Nat.le_succ _
    · exact le_rfl

/-- The timing lines and the texts of the blocks. -/
def vttBlocks : List (List Char) → List (List Char × List Char)
  | [] => []
  | raw :: rest =>
    let line := trim raw
    if skipsLine line then vttBlocks rest
    else
      let timed := timingLineOf line rest
      if search timing timed.1 = none then vttBlocks timed.2
      else
        (timed.1, blockText (textLines timed.2)) ::
          vttBlocks (timed.2.dropWhile fun l => trim l ≠ []).tail
termination_by lines => lines.length
decreasing_by
  · exact Nat.lt_succ_self _
  · exact Nat.lt_succ_of_le (length_timingLineOf _ _)
  · have hdrop := (List.dropWhile_sublist (fun l => trim l ≠ []) (l := timed.2)).length_le
    have hlength := length_timingLineOf line rest
    rw [List.length_tail, List.length_cons]
    exact Nat.lt_succ_of_le (Nat.le_trans (Nat.sub_le _ _) (Nat.le_trans hdrop hlength))

/-- The timing lines and the texts of the blocks that have a text. -/
def textBlocks (body : List Char) : List (List Char × List Char) :=
  (vttBlocks (splitLines body)).filter fun b => b.2 ≠ []

namespace Source

variable (S : Source)

def parseVttTimestamp (ts : List Char) : JsNumber :=
  let R := S.engine.rounding
  let total (h m s : JsNumber) :=
    (R.scale 1000 (R.add (R.add (R.scale 3600 h) (R.scale 60 m)) s)).mathRound
  match (trim ts).splitOn ':' with
  | [h, m, s] => total (R.number h) (R.number m) (R.number s)
  | [m, s] => total (.fin 0) (R.number m) (R.number s)
  | parts => total (.fin 0) (.fin 0) (R.number (parts.headD []))

/-- The start and the end on a timing line. -/
def timesOf (timingLine : List Char) : JsNumber × JsNumber :=
  let parts := timingParts timingLine
  (S.parseVttTimestamp (parts.1.takeWhile fun c => !isSpace c),
    S.parseVttTimestamp (parts.2.takeWhile fun c => !isSpace c))

def parseVttTimedtext (body : List Char) : TimelineOf JsValue :=
  let trimmed := trim (if body.head? = some '\uFEFF' then body.tail else body)
  if trimmed = [] then S.emptyTimeline
  else
    S.timelineFromCues <| (textBlocks trimmed).mapIdx fun i b =>
      S.numberCue "vtt_" i (S.timesOf b.1).1 (S.timesOf b.1).2 b.2

end Source

/-! ## The format -/

inductive Format where
  | json3
  | srv3
  | vtt
  | srv1
  | unknown
  deriving DecidableEq

def detectFormat (body : List Char) : Format :=
  let t := trim body
  if t.head? = some '\x7b' ∨ t.head? = some '[' then .json3
  else if hasPart t "WEBVTT".toList then .vtt
  else if hasPart t "<p ".toList ∨ hasPart t "<transcript".toList ∨ hasPart t "<?xml".toList then
    .srv3
  else .unknown

/-- `/^\d{2}:\d{2}/`. -/
def startsWithTime (body : List Char) : Bool :=
  (body.take 2).length = 2 && (body.take 2).all Char.isDigit && (body.drop 2).head? = some ':' &&
    ((body.drop 3).take 2).length = 2 && ((body.drop 3).take 2).all Char.isDigit

/-- The parser that `parseTimedtextBody` chooses for a text. -/
def route (trimmed : List Char) (formatHint : Option Format) : Format :=
  match formatHint.getD (detectFormat trimmed) with
  | .vtt => .vtt
  | .srv3 | .srv1 => .srv3
  | .json3 | .unknown =>
    if trimmed.head? = some '\x7b' then .json3
    else if hasPart trimmed "WEBVTT".toList || startsWithTime trimmed then .vtt
    else if hasPart trimmed "<p ".toList || hasPart trimmed "<transcript".toList then .srv3
    else .json3

def Source.parseTimedtextBody (S : Source) (body : String) (formatHint : Option Format) :
    Option (TimelineOf JsValue) :=
  let trimmed := trim body.toList
  if trimmed = [] then some S.emptyTimeline
  else
    match route trimmed formatHint with
    | .vtt => some (S.parseVttTimedtext trimmed)
    | .srv3 | .srv1 => some (S.parseSrv3Timedtext trimmed)
    | .json3 | .unknown => S.parseJson3Timedtext trimmed

/-! ## The active cue -/

def activeCueAt (timeline : SourceTimeline) (timeMs : Rat) : Option Cue :=
  timeline.cues.find? fun c => c.startMs ≤ timeMs ∧ timeMs < c.endMs

end LanguageLlm.Captions
