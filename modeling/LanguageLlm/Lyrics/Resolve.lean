import Mathlib.Algebra.Order.Ring.Rat
import LanguageLlm.PageTranslate.Segmenter
import LanguageLlm.Protocol.Timeline

/-!
# Lyrics

The timelines that `linesToTimeline` makes of parsed lines, the song detection of `detect.ts`, the
position of `karaokeAt`, and `resolveLyricsLocal` as the content script calls it.
-/

namespace LanguageLlm.Lyrics

open PageTranslate Protocol

structure ParsedLine where
  startMs : Int
  text : String
  deriving DecidableEq

/-- `hash.ts` of the package, which is that of the page translation. -/
def fnv1aLike (text : String) : String := fnv1a text

def linesToTimeline (videoId : String) (lines : List ParsedLine) (provenance : Provenance) :
    SourceTimeline :=
  let defaultDurationMs := 3000
  let cues := lines.mapIdx fun i line =>
    { id := "lyr_" ++ fnv1aLike (videoId ++ ":" ++ toString i ++ ":" ++ toString line.startMs ++
      ":" ++ line.text)
      startMs := line.startMs
      endMs :=
        match lines[i + 1]? with
        | some next => max next.startMs (line.startMs + 200)
        | none => line.startMs + defaultDurationMs
      text := line.text
      provenance := provenance : Cue }
  { videoId := videoId
    cues := cues
    sourceHash := fnv1aLike ("\n".intercalate (cues.map Cue.text))
    captionSource := if provenance = .asr then some .asrImport else some .human
    developmentFallback := none }

/-! ## Karaoke -/

structure KaraokeState where
  activeCueId : Option String
  activeIndex : Int
  previousId : Option String
  nextId : Option String
  deriving DecidableEq

/-- The loop of `karaokeAt` from the `i`-th cue on, with `activeIndex` so far. -/
def activeIndexFrom (timeMs : Rat) (i : Nat) (activeIndex : Option Nat) : List Cue → Option Nat
  | [] => activeIndex
  | c :: cs =>
    if c.startMs ≤ timeMs ∧ timeMs < c.endMs then some i
    else activeIndexFrom timeMs (i + 1) (if c.startMs ≤ timeMs then some i else activeIndex) cs

def karaokeAt (cues : List Cue) (timeMs : Rat) : KaraokeState :=
  match activeIndexFrom timeMs 0 none cues with
  | none =>
    { activeCueId := none
      activeIndex := -1
      previousId := none
      nextId := cues.head?.map Cue.id }
  | some i =>
    { activeCueId := cues[i]?.map Cue.id
      activeIndex := i
      previousId := if i = 0 then none else cues[i - 1]?.map Cue.id
      nextId := cues[i + 1]?.map Cue.id }

/-! ## Songs -/

/-- The text has the other one in it. -/
def hasPart (text part : List Char) : Bool := text.tails.any fun tail => part.isPrefixOf tail

/-- The text behind `part` when it begins with it. -/
def after (part : String) (text : List Char) : Option (List Char) :=
  if part.toList.isPrefixOf text then some (text.drop part.length) else none

/-- `\w`. -/
def isWordChar (c : Char) : Bool := c.isAlphanum || c = '_'

/-- `/official\s*audio|lyrics?\s*video|topic\b/` at the beginning of the text. -/
def titleMarkerHere (text : List Char) : Bool :=
  ((after "official" text).any fun rest => (after "audio" (rest.dropWhile isSpace)).isSome) ||
    ((after "lyric" text).any fun rest =>
      (after "video" (rest.dropWhile isSpace)).isSome ||
        (after "s" rest).any fun rest => (after "video" (rest.dropWhile isSpace)).isSome) ||
    (after "topic" text).any fun rest => !rest.head?.any isWordChar

/-- `/\blyrics?\b/`. -/
def lyricsWord (text : List Char) : Bool :=
  (text.splitOnP fun c => !isWordChar c).any fun word => String.ofList word = "lyric" ∨
    String.ofList word = "lyrics"

/-- The score of `detectSongContext` for an address and a title, and its reasons. -/
def detectSongContext (toLowerCase : String → String) (href title : String) : Rat × List String :=
  let href := (toLowerCase href).toList
  let title := (toLowerCase title).toList
  let found : List (Rat × String) :=
    (if hasPart href "music.youtube.com".toList then [(55 / 100, "youtube-music-host")] else []) ++
    (if title.tails.any titleMarkerHere then [(25 / 100, "title-marker")] else []) ++
    (if lyricsWord title then [(10 / 100, "lyrics-in-title")] else [])
  ((found.map Prod.fst).sum, found.map Prod.snd)

/-- `detection.isSong`. -/
def isSong (toLowerCase : String → String) (href title : String) : Bool :=
  decide (45 / 100 ≤ min 1 (detectSongContext toLowerCase href title).1)

end LanguageLlm.Lyrics
