import Mathlib.Data.List.Sort
import LanguageLlm.Content.VlmGate
import LanguageLlm.Lib.OrderedMap
import LanguageLlm.Lib.Run
import LanguageLlm.Lyrics.Resolve
import LanguageLlm.MtCore.Fidelity

/-!
# The content script

`content.ts`: the variables that the handlers of one tab share, and what each handler does with
them. The function `runCaptionSmoke` is suspended at its awaits while other handlers go on; a
navigation starts another run of it and stops none.

Three things are kept beside what the code has, for the statements only: the video of the timeline
that a cue came with, the text and the video of the cue that a draft translates, and the videos of
what the evidence was made from.
-/

namespace LanguageLlm.Content

open Lib Protocol MtCore Lyrics

/-! ## Data -/

/-- A cue and the video of the timeline that it came with. -/
structure HeldCue extends Cue where
  video : String
  deriving DecidableEq

structure HeldTimeline where
  videoId : String
  cues : List HeldCue
  captionSource : Option CaptionSourceKind
  developmentFallback : Option Bool
  deriving DecidableEq

/-- The timeline as the script holds it. -/
def hold (timeline : SourceTimeline) : HeldTimeline where
  videoId := timeline.videoId
  cues := timeline.cues.map fun c => { c with video := timeline.videoId }
  captionSource := timeline.captionSource
  developmentFallback := timeline.developmentFallback

/-- The text of a cue, with its video. -/
structure SourceText where
  text : String
  video : String
  deriving DecidableEq

def HeldCue.source (c : HeldCue) : SourceText where
  text := c.text
  video := c.video

/-- `timeline.cues.map((c) => c.text)`. -/
def HeldTimeline.texts (timeline : HeldTimeline) : List SourceText :=
  timeline.cues.map HeldCue.source

/-- A translated text and the text that it is a translation of. -/
structure Draft where
  text : String
  source : SourceText
  deriving DecidableEq

/-- A cue of a translation, and the text that it is a translation of. -/
structure TranslationCue where
  text : Option String
  provisional : Bool
  source : SourceText
  deriving DecidableEq

/-- `cues.map((c, i) => c.text ?? texts[i] ?? "")`. -/
def draftsOf (texts : List SourceText) (cues : List TranslationCue) : List Draft :=
  cues.mapIdx fun i c =>
    match c.text with
    | some text => { text := text, source := c.source }
    | none =>
      match texts[i]? with
      | some source => { text := source.text, source := source }
      | none => { text := "", source := c.source }

/-- `mockMtDraft(sources, "en")`. -/
def mockDrafts (sources : List SourceText) : List Draft :=
  (mockMtDraft (sources.map SourceText.text) "en").zipWith Draft.mk sources

inductive CaptionTrackKind where
  | human
  | auto
  | asrNone
  deriving DecidableEq

structure CaptionTrackMeta where
  id : String
  kind : CaptionTrackKind
  baseUrl : Option String
  deriving DecidableEq

inductive SourceDecision where
  | useCaption (track : CaptionTrackMeta)
  | askTabCapture
  | offerImport

def preferCaptionTrack (tracks : List CaptionTrackMeta) (userSelectedId : Option String) :
    Option CaptionTrackMeta :=
  (userSelectedId.bind fun id => tracks.find? fun t => id ≠ "" ∧ t.id = id) <|>
    tracks.find? (fun t => t.kind = .human) <|> tracks.find? (fun t => t.kind = .auto)

def routeCaptionSource (tracks : List CaptionTrackMeta) (userSelectedId : Option String)
    (userGestureForCapture hasOwnedMedia : Bool) : SourceDecision :=
  match (preferCaptionTrack tracks userSelectedId).filter fun track => track.kind ≠ .asrNone with
  | some track => .useCaption track
  | none =>
    if userGestureForCapture then .askTabCapture
    else if hasOwnedMedia then .offerImport
    else .askTabCapture

inductive EmptyStateKind where
  | noCaptions
  | noCompanion
  | noModel
  | modelInstalling
  | noLyrics
  | unsupportedPage
  | permissionDenied
  | emptyDictionary
  | noReviewDue
  | generic
  deriving DecidableEq

structure ConfirmAction where
  id : String
  label : String
  deriving DecidableEq

/-- What the script sets of the overlay's state. -/
structure OverlayState where
  sourceCue : Option Cue
  translationCue : Option Cue
  showSource : Bool
  showTranslation : Bool
  blurTranslation : Bool
  confidence : Option Rat
  provenance : Option String
  karaokeActive : Option Bool
  evidenceSummary : Option String
  emptyKind : Option EmptyStateKind
  jobState : Option String
  statusMessage : Option String
  confirmAction : Option ConfirmAction

structure TranscriptItem where
  id : String
  startMs : Int
  endMs : Int
  text : String
  translationText : Option Draft
  provenance : Provenance

/-- The value of `language-llm.transcript`. -/
structure Transcript where
  items : List TranscriptItem
  activeId : Option String
  videoId : Option String
  captionSource : Option CaptionSourceKind

/-- What the script calls: the case mapping, the address parser and the lyrics parsers; and whether
the build allows development drafts. -/
structure Host where
  toLowerCase : String → String
  extractVideoId : String → Option String
  parseLrc : String → List ParsedLine
  parseTtml : String → List ParsedLine
  parsePlain : String → List ParsedLine
  isDevelopmentMtFallbackAllowed : Bool

/-- Where a run of `runCaptionSmoke` is suspended. -/
inductive Awaiting where
  | hydrate
  | bridge (restoredCueCount : Nat)
  | fixtures (restoredCueCount : Nat) (bridgeTracks : List CaptionTrackMeta)
  | fetch (restoredCueCount : Nat) (track : CaptionTrackMeta)
  | events (restoredCueCount : Nat) (track : CaptionTrackMeta)
  | translate (texts : List SourceText)

structure CaptionRun where
  id : String
  href : String
  awaiting : Awaiting

/-- The variables of the script, the overlay's state, the published transcript, and the runs of
`runCaptionSmoke`; one that has ended is `none`. -/
structure Script where
  last : String
  videoId : Option String
  timeline : Option HeldTimeline
  translationTexts : List Draft
  lyricsTimeline : Option HeldTimeline
  evidenceByCueIndex : List String
  lastEvidence : String
  evidenceFrom : List String
  emptyKind : Option EmptyStateKind
  pendingLyricsLrc : Option String
  pendingLyricsTimeline : Option HeldTimeline
  syncOffsetMs : Int
  captionSourceLabel : Option CaptionSourceKind
  asrCaptureActive : Bool
  lastPaintedCueId : Option String
  showSource : Bool
  showTranslation : Bool
  blurTranslation : Bool
  overlay : OverlayState
  transcript : Option Transcript
  runs : List (Option CaptionRun)

/-- The variables that hold what is of a video. -/
structure Shown where
  videoId : Option String
  timeline : Option HeldTimeline
  translationTexts : List Draft
  evidenceFrom : List String
  lyricsTimeline : Option HeldTimeline

namespace Script

def fresh : Script where
  last := ""
  videoId := none
  timeline := none
  translationTexts := []
  lyricsTimeline := none
  evidenceByCueIndex := []
  lastEvidence := ""
  evidenceFrom := []
  emptyKind := some .noCaptions
  pendingLyricsLrc := none
  pendingLyricsTimeline := none
  syncOffsetMs := 0
  captionSourceLabel := none
  asrCaptureActive := false
  lastPaintedCueId := none
  showSource := true
  showTranslation := true
  blurTranslation := false
  overlay :=
    { sourceCue := none
      translationCue := none
      showSource := true
      showTranslation := true
      blurTranslation := false
      confidence := none
      provenance := none
      karaokeActive := none
      evidenceSummary := none
      emptyKind := none
      jobState := none
      statusMessage := none
      confirmAction := none }
  transcript := none
  runs := []

/-- `overlay.update`. -/
def update (s : Script) (patch : OverlayState → OverlayState) : Script :=
  { s with overlay := patch s.overlay }

/-- `overlay.update({ statusMessage })`. -/
def say (s : Script) (statusMessage : String) : Script :=
  s.update fun o => { o with statusMessage := some statusMessage }

def shown (s : Script) : Shown where
  videoId := s.videoId
  timeline := s.timeline
  translationTexts := s.translationTexts
  evidenceFrom := s.evidenceFrom
  lyricsTimeline := s.lyricsTimeline

@[simp] theorem shown_update (s : Script) (patch : OverlayState → OverlayState) :
    (s.update patch).shown = s.shown := rfl

end Script

/-! ## Translations -/

/-- The fidelity checks of `applyTranslationTexts`. -/
def Host.fidelity (host : Host) (sources : List SourceText) (drafts : List Draft) :
    FidelityCheckResult :=
  let sourceCues := sources.mapIdx fun i source =>
    { id := "c-" ++ toString i
      startMs := 0
      endMs := 1000
      text := source.text
      provenance := .humanCaption : Cue }
  runFidelityChecks host.toLowerCase sourceCues (drafts.map Draft.text) []

/-- The drafts fail a critical check. -/
def Host.blocks (host : Host) (sources : List SourceText) (drafts : List Draft) : Bool :=
  hasCriticalFidelityFailure (host.fidelity sources drafts)

inductive ProvisionalReason where
  | offlineMock
  | devFallback
  | vlmStub
  deriving DecidableEq

def provisionalMessage : Option ProvisionalReason → String
  | some .vlmStub => "Stub VLM (no multimodal weights) — provisional correction"
  | some .devFallback =>
    "Companion MT unavailable — provisional [dev] draft (not a real translation)"
  | some .offlineMock | none =>
    "Provisional OfflineMock draft (weights not installed; companion connected)"

namespace Script

def applyTranslationTexts (s : Script) (host : Host) (sources : List SourceText)
    (drafts : List Draft)
    (provisional : Bool) (provisionalReason : Option ProvisionalReason) : Script :=
  let fidelity := host.fidelity sources drafts
  let evidence := formatFidelityEvidence fidelity
  let evidenceFrom := sources.map SourceText.video ++ drafts.map fun d => d.source.video
  if host.blocks sources drafts then
    let s :=
      if host.isDevelopmentMtFallbackAllowed then
        { s with translationTexts := mockDrafts sources }.say
          "Fidelity check failed — provisional [dev] draft shown (not a real MT result)"
      else { s with translationTexts := [] }.say "Fidelity check blocked translation revision"
    { s with
      evidenceByCueIndex := sources.map fun _ => evidence
      lastEvidence := evidence
      evidenceFrom := evidenceFrom }
  else
    let s := { s with translationTexts := drafts }
    if provisional || !fidelity.ok then
      let s := { s with
        evidenceByCueIndex := sources.map fun _ => if fidelity.ok then "" else evidence
        lastEvidence := evidence
        evidenceFrom := evidenceFrom }
      if provisional then s.say (provisionalMessage provisionalReason) else s
    else s

/-! ## The transcript and the frame -/

def publishTranscript (s : Script) (activeCueId : Option String) : Script :=
  match s.timeline with
  | none =>
    { s with
      transcript := some { items := [], activeId := none, videoId := none, captionSource := none } }
  | some timeline =>
    let items := timeline.cues.mapIdx fun i c =>
      { id := c.id
        startMs := c.startMs
        endMs := c.endMs
        text := c.text
        translationText := (s.translationTexts[i]?).filter fun d => d.text ≠ ""
        provenance := c.provenance : TranscriptItem }
    { s with
      transcript := some
        { items := items
          activeId := activeCueId
          videoId := s.videoId
          captionSource := s.captionSourceLabel } }

def activeCueAt (timeline : HeldTimeline) (timeMs : Int) : Option HeldCue :=
  timeline.cues.find? fun c => c.startMs ≤ timeMs ∧ timeMs < c.endMs

/-- The draft that the frame shows beside a cue. -/
def translationOf (s : Script) (timeline : HeldTimeline) (source : HeldCue) : Option Draft :=
  (s.translationTexts[timeline.cues.findIdx fun c => c.id = source.id]?).filter fun d => d.text ≠ ""

/-- One frame; the time of the video element, if the page has one, in milliseconds. -/
def tick (s : Script) (currentTimeMs : Option Int) : Script :=
  match currentTimeMs, s.timeline.filter fun timeline => timeline.cues ≠ [] with
  | some time, some timeline =>
    let t := time + s.syncOffsetMs
    let source := activeCueAt timeline t
    let translationCue := source.bind fun source => (s.translationOf timeline source).map fun d =>
      { source.toCue with text := d.text, provenance := .mt }
    let evidence := (source.bind fun source =>
      s.evidenceByCueIndex[timeline.cues.findIdx fun c => c.id = source.id]?).filter (· ≠ "")
    let s := { s with lastEvidence := evidence.getD s.lastEvidence }
    let evidenceSummary := evidence <|> some s.lastEvidence |>.filter (· ≠ "")
    let provenance :=
      s.captionSourceLabel.map CaptionSourceKind.text <|> source.map (·.provenance.text)
    let karaokeActive :=
      match s.lyricsTimeline with
      | some lyrics =>
        match (karaokeAt (lyrics.cues.map HeldCue.toCue) t).activeCueId with
        | some id => source.any fun source => source.id = id
        | none => false
      | none => source.isNone
    let s := s.update fun o => { o with
      showSource := s.showSource
      showTranslation := s.showTranslation && translationCue.isSome
      blurTranslation := s.blurTranslation
      karaokeActive := some karaokeActive
      emptyKind := none
      sourceCue := source.map HeldCue.toCue <|> o.sourceCue
      translationCue := translationCue <|> o.translationCue
      provenance := provenance <|> o.provenance
      confidence := if evidence.isSome then some (42 / 100) else o.confidence
      evidenceSummary := evidenceSummary <|> o.evidenceSummary }
    match source.filter fun source => source.id ≠ "" ∧ some source.id ≠ s.lastPaintedCueId with
    | some source =>
      { s with lastPaintedCueId := some source.id }.publishTranscript (some source.id)
    | none => s
  | _, _ =>
    match s.emptyKind with
    | some kind => s.update fun o => { o with
        emptyKind := some kind
        showSource := s.showSource
        showTranslation := s.showTranslation
        blurTranslation := s.blurTranslation }
    | none => s

@[simp] theorem shown_publishTranscript (s : Script) (activeCueId : Option String) :
    (s.publishTranscript activeCueId).shown = s.shown := by
  unfold publishTranscript
  split <;> rfl

/-- A frame changes nothing that is of a video. -/
@[simp] theorem shown_tick (s : Script) (currentTimeMs : Option Int) :
    (s.tick currentTimeMs).shown = s.shown := by
  unfold tick
  split
  · dsimp only
    split
    · exact shown_publishTranscript _ _
    · rfl
  · split <;> rfl

end Script

end LanguageLlm.Content
