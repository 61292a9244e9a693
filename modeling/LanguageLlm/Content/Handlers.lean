import LanguageLlm.Content.Script

/-!
# The handlers of the content script

The steps of the script: a navigation, what a suspended run of `runCaptionSmoke` gets from its
await, the messages of the companion and of the panels, the buttons of the overlay, and the frames.
-/

namespace LanguageLlm.Content

open Lib Protocol MtCore Lyrics

/-! ## Timelines -/

/-- `simpleHash` of the caption parser. -/
def simpleHash (s : String) : String :=
  let h := (PageTranslate.codeUnits s).foldl (fun h u => (h ^^^ u) * 0x01000193 % 2 ^ 32) 0x811c9dc5
  String.ofList (Nat.toDigits 16 h)

/-- What the caption parsers make of the cues that they find. -/
def timelineFromCues (videoId : String) (cues : List Cue) (provenance : Provenance) :
    SourceTimeline where
  videoId := videoId
  cues := cues
  sourceHash := simpleHash ("|".intercalate (cues.map Cue.text))
  captionSource := if provenance = .humanCaption then some .human else some .auto
  developmentFallback := none

/-- `byId` of `mergeAsrTimeline`: the cues by identifier, in the order in which these came first. -/
def byId (held incoming : List HeldCue) : List HeldCue :=
  (((OrderedMap.ofList (held.map fun c => (c.id, c))).setAll
    (incoming.map fun c => (c.id, c)))).values

/-- `[...byId.values()].sort((a, b) => a.startMs - b.startMs)`, which is stable. -/
def mergedCues (held incoming : List HeldCue) : List HeldCue :=
  (byId held incoming).insertionSort fun a b => a.startMs ≤ b.startMs

/-- The merged cues have different identifiers. -/
theorem nodup_byId (held incoming : List HeldCue) :
    ((byId held incoming).map fun c => c.id).Nodup := by
  let m := (OrderedMap.ofList (held.map fun c => (c.id, c))).setAll
    (incoming.map fun c => (c.id, c))
  have hkey : ∀ e ∈ m.entries, e.2.id = e.1 := by
    intro ⟨k, c⟩ he
    rcases OrderedMap.get?_setAll (m.get?_eq_some_iff.2 he) with hmem | ⟨-, hmem⟩
    · obtain ⟨c, -, heq⟩ := List.mem_map.1 hmem
      cases heq
      rfl
    · obtain ⟨c, -, heq⟩ := List.mem_map.1 (OrderedMap.mem_of_get?_ofList hmem)
      cases heq
      rfl
  have hids : (m.entries.map Prod.snd).map (fun c => c.id) = m.entries.map Prod.fst := by
    rw [List.map_map]
    exact List.map_congr_left hkey
  exact hids ▸ m.nodup

/-- What `hydrateTimeline` resolves to. -/
structure Hydrated where
  ok : Bool
  timeline : Option SourceTimeline
  translation : Option (List TranslationCue)

/-- The stored timeline, when the reply has one with cues. -/
def Hydrated.stored (res : Hydrated) : Option SourceTimeline :=
  if res.ok then res.timeline.filter fun stored => stored.cues ≠ [] else none

/-- The stored translation, when it has cues. -/
def Hydrated.cues (res : Hydrated) : Option (List TranslationCue) :=
  res.translation.filter fun cues => cues ≠ []

namespace Script

def mergeAsrTimeline (s : Script) (incoming : SourceTimeline) : Script :=
  if incoming.cues = [] then s
  else
    let incoming := hold incoming
    match s.timeline.filter fun timeline => timeline.cues ≠ [] with
    | some timeline =>
      { s with
        timeline := some { timeline with
          cues := mergedCues timeline.cues incoming.cues
          captionSource := incoming.captionSource <|> timeline.captionSource
          developmentFallback := incoming.developmentFallback <|> timeline.developmentFallback }
        asrCaptureActive := true }
    | none => { s with timeline := some incoming, asrCaptureActive := true }

def applyHydratedCompanionState (s : Script) (host : Host) (res : Hydrated) : Script :=
  match res.stored with
  | none => s
  | some stored =>
    let timeline := hold stored
    let s := { s with
      timeline := some timeline
      emptyKind := none
      captionSourceLabel := some (stored.captionSource.getD .asrLive) }
    let s :=
      match res.cues with
      | some cues =>
        s.applyTranslationTexts host timeline.texts (draftsOf timeline.texts cues)
          (cues.any TranslationCue.provisional) none
      | none => s
    (s.publishTranscript none).update fun o => { o with
      emptyKind := none
      statusMessage := some "Restored timeline from companion store" }

/-! ## Runs -/

/-- `runCaptionSmoke` up to its first await. -/
def runCaptionSmoke (s : Script) (id href : String) : Script :=
  let s := { s with
    timeline := none
    translationTexts := []
    lyricsTimeline := none
    evidenceByCueIndex := []
    lastEvidence := ""
    evidenceFrom := []
    lastPaintedCueId := none
    emptyKind := some .noCaptions
    captionSourceLabel := none
    pendingLyricsLrc := none
    pendingLyricsTimeline := none }
  let s := (s.update fun o => { o with emptyKind := some .noCaptions }).publishTranscript none
  { s with runs := s.runs ++ [some { id := id, href := href, awaiting := .hydrate }] }

/-- The callback of `subscribeYtNavigation`, which is called when the address has changed. -/
def navigate (s : Script) (host : Host) (href : String) : Option Script :=
  if href = s.last then none
  else
    let s := { s with last := href, videoId := host.extractVideoId href }
    match s.videoId.filter (· ≠ "") with
    | none => some s
    | some id => some (s.runCaptionSmoke id href)

/-- `resolveLyricsLocal` with the captions of the page and no other lyrics: the captions, to be
confirmed. -/
def resolveLyricsLocal (host : Host) (href title : String)
    (pageCaptionTimeline : Option HeldTimeline) :
    Option HeldTimeline :=
  if isSong host.toLowerCase href title then
    pageCaptionTimeline.filter fun timeline => timeline.cues ≠ []
  else none

/-- The end of `runCaptionSmoke`. -/
def offerLyrics (s : Script) (host : Host) (run : CaptionRun) (title : String) : Script :=
  match resolveLyricsLocal host run.href title s.timeline with
  | some timeline =>
    { s with pendingLyricsTimeline := some timeline }.update fun o => { o with
      statusMessage := some "Possible lyrics match from captions — confirm before karaoke"
      confirmAction := some { id := "confirm-lyrics", label := "Confirm as lyrics" } }
  | none => s

/-- No captions are shown, unless some have been restored. -/
def showEmpty (s : Script) (restoredCueCount : Nat) (statusMessage : Option String) : Script :=
  if restoredCueCount = 0 then
    { s with emptyKind := some .noCaptions }.update fun o => { o with
      emptyKind := some .noCaptions
      statusMessage := statusMessage <|> o.statusMessage }
  else s

/-- The decision on the source of the captions, up to the first await of `loadTimelineFromTrack`. -/
def routeSource (s : Script) (host : Host) (run : CaptionRun) (title : String)
    (restoredCueCount : Nat) (tracks : List CaptionTrackMeta) : Script × Option Awaiting :=
  match routeCaptionSource tracks none false false with
  | .useCaption track =>
    let s := { s with
      captionSourceLabel := if track.kind = .human then some .human else some .auto }
    match track.baseUrl.filter (· ≠ "") with
    | some _ => (s, some (.fetch restoredCueCount track))
    | none => (s, some (.events restoredCueCount track))
  | .askTabCapture =>
    let statusMessage :=
      if s.asrCaptureActive then "Waiting for ASR…" else "No captions — transcribe tab audio?"
    ((s.showEmpty restoredCueCount (some statusMessage)).offerLyrics host run title, none)
  | .offerImport => ((s.showEmpty restoredCueCount none).offerLyrics host run title, none)

/-- `loadTimelineFromTrack` has returned, up to the request for a translation. -/
def loaded (s : Script) (host : Host) (run : CaptionRun) (title : String) (restoredCueCount : Nat)
    (track : CaptionTrackMeta) (cues : List Cue) : Script × Option Awaiting :=
  if cues ≠ [] then
    let provenance := if track.kind = .human then .humanCaption else .autoCaption
    let live := hold (timelineFromCues run.id cues provenance)
    ({ s with timeline := some live, emptyKind := none }, some (.translate live.texts))
  else ((s.showEmpty restoredCueCount none).offerLyrics host run title, none)

/-- The drafts after the visual review, which keep what they are translations of. -/
def reviewed (sources : List SourceText) (drafts : List Draft) (texts : List String) : List Draft :=
  (texts.zip sources).mapIdx fun i (text, source) =>
    { text := text, source := (drafts[i]?.map Draft.source).getD source }

/-- The translation of the live captions, until the visual review. -/
def applyReply (s : Script) (host : Host) (texts : List SourceText)
    (reply : Option (List TranslationCue)) :
    Script × Bool × Option ProvisionalReason :=
  match reply with
  | some cues =>
    let mtProvisional := cues.any TranslationCue.provisional
    let mtReason := if mtProvisional then some .offlineMock else none
    (s.applyTranslationTexts host texts (draftsOf texts cues) mtProvisional mtReason, mtProvisional,
      mtReason)
  | none =>
    if host.isDevelopmentMtFallbackAllowed then
      (s.applyTranslationTexts host texts (mockDrafts texts) true (some .devFallback), true,
        some .devFallback)
    else
      ({ s with translationTexts := [] }.say
        "Companion MT unavailable — showing source captions only", false, none)

/-- The visual review of the drafts that are shown. -/
def review (s : Script) (host : Host) (texts : List SourceText) (mtProvisional : Bool)
    (mtReason : Option ProvisionalReason) : Script :=
  if s.translationTexts = [] then s
  else
    let gated :=
      applyVlmGateToDrafts (texts.map SourceText.text) (s.translationTexts.map Draft.text) .balanced
    let provisional := mtProvisional || decide (0 < gated.invokedCount)
    let evidenceFrom := texts.map SourceText.video ++ s.translationTexts.map fun d => d.source.video
    let s := s.applyTranslationTexts host texts (reviewed texts s.translationTexts gated.texts)
      provisional
      (if 0 < gated.invokedCount then some .vlmStub else mtReason)
    { s with
      evidenceByCueIndex := gated.evidenceByIndex
      lastEvidence := (gated.evidenceByIndex.find? (· ≠ "")).getD ""
      evidenceFrom := evidenceFrom }

/-- `companion.translate` has answered; `none` stands for an answer without cues. -/
def translated (s : Script) (host : Host) (run : CaptionRun) (title : String)
    (texts : List SourceText) (reply : Option (List TranslationCue)) : Script :=
  let (s, mtProvisional, mtReason) := s.applyReply host texts reply
  let s := (s.review host texts mtProvisional mtReason).publishTranscript none
  ({ s with emptyKind := none }.update fun o => { o with emptyKind := none }).offerLyrics host
    run title

end Script

/-- What an await of `runCaptionSmoke` gives. -/
inductive Outcome where
  | hydrated (res : Hydrated)
  | bridged (tracks : List CaptionTrackMeta)
  | fixtures (tracks : List CaptionTrackMeta)
  /-- The cues of the body; `none` when the request or the parser threw. -/
  | fetched (cues : Option (List Cue))
  /-- The cues of the events or of the text; `none` for any other answer. -/
  | events (cues : Option (List Cue))
  | translated (reply : Option (List TranslationCue))
  /-- The message got no answer. -/
  | rejected

/-- A run goes on with what its await gives, up to its next await; the title is that of the page. -/
def CaptionRun.resume (run : CaptionRun) (host : Host) (title : String) (s : Script) :
    Outcome → Option (Script × Option Awaiting)
  | .hydrated res =>
    match run.awaiting with
    | .hydrate =>
      let s := s.applyHydratedCompanionState host res
      some (s, some (.bridge ((s.timeline.map fun timeline => timeline.cues.length).getD 0)))
    | _ => none
  | .bridged tracks =>
    match run.awaiting with
    | .bridge restoredCueCount => some (s, some (.fixtures restoredCueCount tracks))
    | _ => none
  | .fixtures fixtureTracks =>
    match run.awaiting with
    | .fixtures restoredCueCount bridgeTracks =>
      some (s.routeSource host run title restoredCueCount
        (if bridgeTracks ≠ [] then bridgeTracks else fixtureTracks))
    | _ => none
  | .fetched cues =>
    match run.awaiting, cues with
    | .fetch restoredCueCount track, some cues =>
      some (s.loaded host run title restoredCueCount track cues)
    | .fetch restoredCueCount track, none => some (s, some (.events restoredCueCount track))
    | _, _ => none
  | .events cues =>
    match run.awaiting with
    | .events restoredCueCount track =>
      some (s.loaded host run title restoredCueCount track (cues.getD []))
    | _ => none
  | .translated reply =>
    match run.awaiting with
    | .translate texts => some (s.translated host run title texts reply, none)
    | _ => none
  | .rejected =>
    match run.awaiting with
    | .fixtures .. | .events .. | .translate _ => some (s, none)
    | .hydrate | .bridge _ | .fetch .. => none

/-! ## Messages -/

/-- The events of the companion that the script handles. -/
inductive CompanionEvent where
  | timelineSource (timeline : SourceTimeline)
  | timelineTranslation (cues : List TranslationCue)
  | jobProgress (status : Option String) (message : String)
  | error (message code : Option String)

inductive LyricsFormat where
  | lrc
  | ttml
  | plain

def resolveImportedLyrics (host : Host) (videoId : String) (format : LyricsFormat)
    (content : String) :
    SourceTimeline :=
  let lines :=
    match format with
    | .lrc => host.parseLrc content
    | .ttml => host.parseTtml content
    | .plain => host.parsePlain content
  linesToTimeline videoId lines .lyricsImport

namespace Script

def companionEvent (s : Script) (host : Host) : CompanionEvent → Script
  | .timelineSource timeline =>
    let s := { s.mergeAsrTimeline timeline with emptyKind := none }
    let stub := timeline.developmentFallback.getD false
    let s := { s with
      captionSourceLabel := if stub then none else some (timeline.captionSource.getD .asrLive) }
    let s := s.update fun o => { o with
      jobState := some "asr-running"
      statusMessage := some (
        if stub then "Offline ASR stub (weights not installed) — not a real transcript"
        else "Live ASR cues received") }
    s.publishTranscript none
  | .timelineTranslation cues =>
    match s.timeline with
    | some timeline =>
      let provisional := cues.any TranslationCue.provisional
      (s.applyTranslationTexts host timeline.texts (draftsOf timeline.texts cues) provisional
        (if provisional then some .offlineMock else none)).publishTranscript none
    | none => s
  | .jobProgress status message =>
    if message = "" then s
    else s.update fun o => { o with
      jobState := if status = some "running" then some "asr-running" else o.jobState
      statusMessage := some message }
  | .error message code => s.say ((message <|> code).getD "Companion error")

/-- `lyrics.import`; the address is that of the page. -/
def importLyrics (s : Script) (host : Host) (videoId : Option String) (href : String)
    (format : LyricsFormat) (content : String) : Script :=
  let id := (videoId <|> s.videoId <|> host.extractVideoId href).getD "import"
  let lyrics := hold (resolveImportedLyrics host id format content)
  { s with
    lyricsTimeline := some lyrics
    timeline := s.timeline <|> some lyrics
    emptyKind := none }.update fun o => { o with
    emptyKind := none
    statusMessage := some "Imported lyrics applied" }

def applyLrc (s : Script) (host : Host) (videoId : Option String) (lrc : String) : Script :=
  let id := (videoId <|> s.videoId).getD "lrclib"
  { s with
    lyricsTimeline := some (hold (linesToTimeline id (host.parseLrc lrc) .lyricsOpenApi)) }.say
    "Lyrics applied (attributed)"

def confirmCandidate (s : Script) (lrc : String) (attribution : Option String) : Script :=
  { s with pendingLyricsLrc := some lrc }.update fun o => { o with
    emptyKind := some .noLyrics
    statusMessage :=
      some ("Lyrics candidate from " ++ attribution.getD "open API" ++ " — confirm to apply") }

/-- `onConfirmLyrics`. -/
def confirmLyrics (s : Script) (host : Host) (href : String) : Script :=
  let confirmed (s : Script) := s.update fun o => { o with
    emptyKind := none
    statusMessage := some "Lyrics confirmed and applied"
    confirmAction := none }
  match s.pendingLyricsLrc.filter (· ≠ "") with
  | some lrc =>
    let id := (s.videoId <|> host.extractVideoId href).getD "lrclib"
    confirmed { s with
      lyricsTimeline := some (hold (linesToTimeline id (host.parseLrc lrc) .lyricsOpenApi))
      pendingLyricsLrc := none }
  | none =>
    match s.pendingLyricsTimeline with
    | some timeline =>
      confirmed { s with lyricsTimeline := some timeline, pendingLyricsTimeline := none }
    | none => s

end Script

/-- What can happen to the script. -/
inductive ScriptEvent where
  | navigate (href : String)
  | resumed (run : Nat) (title : String) (outcome : Outcome)
  | companion (event : CompanionEvent)
  | importLyrics (videoId : Option String) (href : String) (format : LyricsFormat)
      (content : String)
  | applyLrc (videoId : Option String) (lrc : String)
  | confirmCandidate (lrc : String) (attribution : Option String)
  | confirmLyrics (href : String)
  | setSyncOffset (offsetMs : Int)
  | setEmpty (kind : EmptyStateKind)
  | toggle (showSource showTranslation blurTranslation : Bool)
  | transcribeTab
  | tick (currentTimeMs : Option Int)

def Script.step (host : Host) (s : Script) : ScriptEvent → Option Script
  | .navigate href => s.navigate host href
  | .resumed i title outcome =>
    match s.runs[i]?.join with
    | some run => (run.resume host title s outcome).map fun (s, awaiting) =>
        { s with
          runs := s.runs.set i (awaiting.map fun awaiting => { run with awaiting := awaiting }) }
    | none => none
  | .companion event => some (s.companionEvent host event)
  | .importLyrics videoId href format content =>
    some (s.importLyrics host videoId href format content)
  | .applyLrc videoId lrc => some (s.applyLrc host videoId lrc)
  | .confirmCandidate lrc attribution => some (s.confirmCandidate lrc attribution)
  | .confirmLyrics href => some (s.confirmLyrics host href)
  | .setSyncOffset offsetMs =>
    some ({ s with syncOffsetMs := offsetMs }.say ("Sync offset " ++ toString offsetMs ++ "ms"))
  | .setEmpty kind =>
    some ({ s with emptyKind := some kind }.update fun o => { o with emptyKind := some kind })
  | .toggle showSource showTranslation blurTranslation =>
    some { s with
      showSource := showSource
      showTranslation := showTranslation
      blurTranslation := blurTranslation }
  | .transcribeTab =>
    some ({ s with emptyKind := none }.update fun o => { o with
      emptyKind := none
      statusMessage := some "Capture started — waiting for ASR…"
      jobState := some "asr-running" })
  | .tick currentTimeMs => some (s.tick currentTimeMs)

end LanguageLlm.Content
