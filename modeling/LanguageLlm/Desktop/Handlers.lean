import LanguageLlm.Desktop.Handler

/-!
# The handlers of the messages

What `handle_socket` (`ws_server.rs`) does with a message after its session has been checked, one
definition for each type of message. `token` is the local variable `session_token`.
-/

namespace LanguageLlm.Desktop

open Handler

/-! ## Messages -/

/-- A string that may be missing. -/
def jsonOption : Option String → Json
  | some s => .str s
  | none => .null

/-- `job.progress`, stamped with the time. -/
def sendProgress (token : String) (jobId kind status : String) (fraction : Rat)
    (message : Option Json) (more : List (String × Json)) : Handler Unit := do
  let t ← nowMs
  reply <| .obj <|
    [("type", .str "job.progress"), ("sessionToken", .str token),
      ("progress", .obj <|
        [("jobId", .str jobId), ("kind", .str kind), ("status", .str status),
          ("fraction", .float fraction)] ++
        (message.map fun m => ("message", m)).toList ++ [("updatedAtMs", .nat t)])] ++ more

/-- `error`. -/
def sendError (token : Json) (code message : String) (more : List (String × Json)) :
    Handler Unit :=
  reply <| .obj <|
    [("type", .str "error"), ("sessionToken", token), ("code", .str code),
      ("message", .str message)] ++ more ++ [("fatal", .bool false)]

/-! ## Jobs -/

/-- `session.ping`. -/
def handlePing (token : String) : Handler Unit := do
  let t ← nowMs
  reply (.obj [("type", .str "session.pong"), ("sessionToken", .str token), ("atMs", .nat t)])

def persistTranslation (env : External) (videoId : String) (result : Json) : Handler Unit := do
  let key : TranslationKey :=
    { videoId
      sourceHash := result.strOr "sourceHash" "unknown"
      modelId := result.strOr "modelId" "mock"
      modelRevision := result.strOr "modelRevision" "1"
      targetLang := result.strOr "targetLang" "ja" }
  let revisionId := result.strOr "revisionId" "rev-mock"
  let cuesJson := env.toString (result.getOr "cues" (.arr []))
  let _ ← withSqlite fun t _ db => (some (), db.putTranslation key cuesJson revisionId t)

/-- `job.submit` of a translate job. -/
def runTranslateJob (env : External) (token jobId videoId : String) : Handler Unit := do
  let (mode, backend) ← answer Answers.translator
  let run ← lockJobs fun t r => r.runTranslate jobId mode backend t
  match run with
  | .error _ => return ()
  | .ok p =>
    let found ← lockJobs fun _ r => (r.get jobId, r)
    let result := (found.bind TrackedJob.result).getD (.obj [])
    sendProgress token p.jobId "translate" "succeeded" 1 (some (jsonOption p.message)) []
    reply (.obj [("type", .str "timeline.translation"), ("sessionToken", .str token),
      ("videoId", .str videoId), ("cues", result.getOr "cues" (.arr [])),
      ("revisionId", result.getOr "revisionId" (.str "rev-mock"))])
    persistTranslation env videoId result
    reply (.obj [("type", .str "job.result"), ("sessionToken", .str token), ("jobId", .str jobId),
      ("kind", .str "translate"), ("result", result)])

/-- `job.submit` of a page-translate job. -/
def runPageTranslateJob (token jobId : String) : Handler Unit := do
  let (mode, backend) ← answer Answers.translator
  let run ← lockJobs fun _ r => r.runPageTranslate jobId mode backend
  match run with
  | none => return ()
  | some result =>
    let message := if mode = .offlineMock then "page-translate complete (offline mock)"
      else "page-translate complete (llama.cpp)"
    sendProgress token jobId "page-translate" "succeeded" 1 (some (.str message)) []
    reply (.obj [("type", .str "page.translate.result"), ("sessionToken", .str token),
      ("jobId", .str jobId), ("results", result.getOr "results" (.arr [])),
      ("cacheHit", .bool false), ("mode", result.getOr "mode" (.str "OfflineMock"))])

/-- `job.submit` of an ASR job. -/
def runAsrJob (token jobId videoId : String) (payload : Json) : Handler Unit := do
  let plan ← answer fun a => a.asrPlan (payload.getStr "modelId")
  match plan with
  | some (.error (id, err)) =>
    sendError (.str token) "model-not-installed" err
      [("modelId", .str id), ("jobId", .str jobId)]
    sendProgress token jobId "asr" "failed" 1 (some (.str err)) []
  | other =>
    let asrMeta : Json := match other with
      | some (.ok planned) => planned
      | _ => .null
    lockCapture fun _ q => (some (), q.startWithId jobId videoId)
    sendProgress token jobId "asr" "running" (5 / 100)
      (some (.str "awaiting audio.chunk from tabCapture")) [("asr", asrMeta)]

/-- `job.submit` of a job of another kind. -/
def failUnsupportedJob (token jobId kindStr : String) : Handler Unit := do
  lockJobs fun _ r => ((), r.unsupported jobId kindStr)
  sendProgress token jobId kindStr "failed" 1
    (some (.str ("unsupported job kind via job.submit: " ++ kindStr))) []
  reply (.obj [("type", .str "job.result"), ("sessionToken", .str token), ("jobId", .str jobId),
    ("kind", .str kindStr), ("result", .obj [("ok", .bool false),
      ("error", .str "unsupported-job-kind"), ("kind", .str kindStr)])])

def handleJobSubmit (env : External) (value : Json) : Handler Unit := do
  let jobId := value.strOr "jobId" ""
  let videoId := value.strOr "videoId" ""
  let kindStr := value.strOr "kind" "translate"
  let payload := value.getOr "payload" (.obj [])
  let token := value.strOr "sessionToken" ""
  match JobKind.parse kindStr with
  | none =>
    sendError (.str token) "unsupported-job-kind" ("unknown job kind: " ++ kindStr)
      [("jobId", .str jobId)]
  | some kind =>
    lockJobs fun _ r => ((), r.submit jobId kind videoId payload)
    sendProgress token jobId kindStr "running" (1 / 10) none []
    match kind with
    | .translate => runTranslateJob env token jobId videoId
    | .pageTranslate => runPageTranslateJob token jobId
    | .asr => runAsrJob token jobId videoId payload
    | _ => failUnsupportedJob token jobId kindStr

/-- `job.cancel`. -/
def handleJobCancel (value : Json) (token : String) : Handler Unit := do
  let jobId := value.strOr "jobId" ""
  let ok ← lockJobs fun _ r => r.cancel jobId
  let _ ← lockCapture fun _ q => (some (q.cancel jobId).1, (q.cancel jobId).2)
  sendProgress token jobId "asr" (if ok then "cancelled" else "failed") 1 none []

/-- `job.pause`. -/
def handleJobPause (value : Json) (token : String) : Handler Unit := do
  let jobId := value.strOr "jobId" ""
  let _ ← lockCapture fun _ q => (some (q.pause jobId).1, (q.pause jobId).2)
  let ok ← lockJobs fun _ r => r.pause jobId
  sendProgress token jobId "asr" (if ok then "paused" else "failed") 0 none []

/-- `job.resume`. -/
def handleJobResume (value : Json) (token : String) : Handler Unit := do
  let jobId := value.strOr "jobId" ""
  let _ ← lockCapture fun _ q => (some (q.resume jobId).1, (q.resume jobId).2)
  let ok ← lockJobs fun _ r => r.resume jobId
  sendProgress token jobId "asr" (if ok then "running" else "failed") 0 none []

/-! ## Live audio -/

/-- `char::is_whitespace`. -/
def isWhitespace (c : Char) : Bool :=
  let n := c.toNat
  (9 ≤ n && n ≤ 13) || n = 0x20 || n = 0x85 || n = 0xa0 || n = 0x1680 ||
    (0x2000 ≤ n && n ≤ 0x200a) || n = 0x2028 || n = 0x2029 || n = 0x202f || n = 0x205f || n = 0x3000

/-- `WhisperStub::transcribe`; `none` for empty audio. -/
def whisperStub (samples : List Rat) : Option String :=
  if samples = [] then none
  else some "[whisper-stub] OfflineMock ASR — install verified weights for real transcription"

/-- `run_asr_on_pcm`: the text, whether it is the offline stub's and whether the inference
failed. -/
def runAsrOnPcm (pcm : PcmMono) (modelId : String) (mode : InferenceMode) :
    Handler (String × Bool × Bool) := do
  match mode with
  | .offlineMock =>
    let text := (whisperStub pcm.samples).getD
      "[whisper-stub] OfflineMock ASR — install verified weights for real transcription"
    return (text, true, false)
  | .weights =>
    let result ← answer fun a => a.whisper modelId
    match result with
    | .ok text =>
      if text.toList.all isWhitespace then
        return ("whisper.cpp returned empty transcript", false, true)
      else return (text, false, false)
    | .error e => return (e, false, true)

/-- The timeline of a transcribed segment. -/
def asrTimeline (videoId : String) (segment durationMs : Nat) (transcript : String)
    (usedStub : Bool) : Json :=
  .obj <|
    [("videoId", .str videoId),
      ("cues", .arr [.obj [("id", .str ("asr-" ++ segment.repr)), ("startMs", .nat 0),
        ("endMs", .nat (max durationMs 500)), ("text", .str transcript),
        ("provenance", .str "asr")]]),
      ("sourceHash", .str ((if usedStub then "asr-stub-" else "asr-live-") ++ segment.repr)),
      ("immutable", .bool true)] ++
    if usedStub then [("developmentFallback", .bool true)]
    else [("captionSource", .str "asr-live")]

/-- What `handle_audio_chunk` learns of the job after it has ingested a chunk: whether to
transcribe, the video and whether the capture runs. -/
def asrDecision (job : CaptureJob) : Bool × String × Bool :=
  let sampleCount := job.ring.lenSamples
  let segment := max (sampleCount / 16000) 1
  (decide (sampleCount > 16000 ∧ segment > job.lastAsrSegment), job.videoId,
    decide (job.state = .running))

/-- `handle_audio_chunk` after the chunk has been ingested. -/
def transcribeCapture (jobId token : String) : Handler Unit := do
  let decision ← lockCapture fun a q =>
    (some ((q.get jobId).map fun job => (asrDecision job, a.asrModel)), q)
  match decision with
  | none => return ()
  | some ((shouldAsr, videoId, captureRunning), (asrModelId, asrMode)) =>
    if !shouldAsr then return ()
    let snapshot ← lockCapture fun _ q => (some (q.snapshotPcm jobId), q)
    match snapshot with
    | .error _ => return ()
    | .ok pcm =>
      let segment := max (pcm.samples.length / 16000) 1
      let _ ← lockCapture fun _ q =>
        (some (q.markAsrSegment jobId segment).1, (q.markAsrSegment jobId segment).2)
      let durationMs := pcm.samples.length * 1000 / targetSampleRateHz
      let (transcript, usedStub, asrFailed) ← runAsrOnPcm pcm asrModelId asrMode
      if asrFailed then
        sendError (.str token) "asr-inference" transcript [("jobId", .str jobId)]
      else
        reply (.obj [("type", .str "timeline.source"), ("sessionToken", .str token),
          ("timeline", asrTimeline videoId segment durationMs transcript usedStub)])
        if captureRunning then
          let message := if usedStub then
              "OfflineMock ASR stub from ring buffer (weights not installed)"
            else "whisper.cpp ASR from ring buffer"
          sendProgress token jobId "asr" "running" (1 / 2) (some (.str message)) []

def handleAudioChunk (env : External) (value : Json) (token : String) : Handler Unit := do
  let jobId := value.strOr "jobId" ""
  let sampleRateHz := ((value.get "sampleRateHz").bind Json.asU64).getD 48000 % 2 ^ 32
  let seq := ((value.get "seq").bind Json.asU64).getD 0
  let pcmI16Le := (env.decodeBase64 (value.strOr "pcmI16LeBase64" "")).getD []
  let ingested ← lockCapture fun _ q =>
    if (q.get jobId).isNone then (some none, q)
    else
      let (r, q') := q.ingestI16Le { jobId, sampleRateHz, pcmI16Le, seq }
      match r with
      | .ok _ => (some (some none), q')
      | .error (.error e) => (some (some (some e)), q')
      | .error .panic => (none, q')
  match ingested with
  | none => return ()
  | some (some e) => sendError (.str token) "audio-ingest" e.toString []
  | some none => transcribeCapture jobId token

/-! ## Lyrics -/

def urlencodingEncode (s : String) : String :=
  String.join <| s.toUTF8.toList.map fun b =>
    let c := Char.ofNat b.toNat
    if c.isAlphanum || c = '-' || c = '_' || c = '.' || c = '~' then String.singleton c
    else
      let digits := Nat.toDigits 16 b.toNat
      String.ofList ('%' :: (List.leftpad 2 '0' digits).map Char.toUpper)

def cacheLyrics (videoId source body attribution : String) : Handler Unit := do
  let key := lyricsCacheKey videoId source
  lockMemory fun m => ((), m.putLyrics key body attribution)
  let _ ← withSqlite fun t _ db => (some (), db.putLyrics key videoId source body attribution t)

/-- `value.get(key).or_else(|| value.pointer("/payload/key")).and_then(|v| v.as_str())`. -/
def fieldOrPayload (value : Json) (key : String) : Option String :=
  ((value.get key).or ((value.get "payload").bind fun p => p.get key)).bind Json.asStr

def handleLyricsResolve (value : Json) (token : String) : Handler Unit := do
  let jobId := value.strOr "jobId" "lyrics"
  let trackName := (fieldOrPayload value "trackName").getD ""
  let artistName := fieldOrPayload value "artistName"
  let videoId := value.strOr "videoId" "unknown"
  let allowed ← lyricsNetworkAllowed
  if !allowed then
    sendError (.str token) "lyrics-network-disabled"
      "Enable lyrics network (LRCLIB only) in settings, or import LRC." []
  else
    let url := "https://lrclib.net/api/search?track_name=" ++ urlencodingEncode trackName ++
      (match artistName with
        | some a => "&artist_name=" ++ urlencodingEncode a
        | none => "")
    let tracks ← get url
    let synced := ((tracks.bind Json.asArray).bind List.head?).bind fun t => t.getStr "syncedLyrics"
    match synced with
    | some body =>
      let attribution :=
        "Lyrics via LRCLIB (https://lrclib.net/). Attribution retained locally; " ++
        "clearable in settings."
      cacheLyrics videoId "lrclib" body attribution
      let t ← nowMs
      reply (.obj [("type", .str "lyrics.timeline"), ("sessionToken", .str token),
        ("jobId", .str jobId), ("lrc", .str body),
        ("attribution", .obj [("source", .str "lyrics-open-api"), ("provider", .str "LRCLIB"),
          ("url", .str "https://lrclib.net/"), ("fetchedAtMs", .nat t),
          ("licenseNote", .str attribution)])])
    | none =>
      sendError (.str token) "lyrics-not-found" "LRCLIB returned no synced lyrics" []

/-- `lyrics.clear-cache`, with `clear_lyrics_cache`. -/
def handleLyricsClearCache (value : Json) (token : String) : Handler Unit := do
  let start := match value.getStr "videoId" with
    | some v => "lyrics|" ++ v ++ "|"
    | none => "lyrics|"
  let n ← lockMemory fun m => m.clearPrefix start
  let cleared ← withSqlite fun _ _ db =>
    (some (db.clearLyricsPrefix start).1, (db.clearLyricsPrefix start).2)
  reply (.obj [("type", .str "lyrics.cache.cleared"), ("sessionToken", .str token),
    ("cleared", .nat (cleared.getD n))])

/-- `settings.lyrics.network`. -/
def handleLyricsNetwork (value : Json) (token : String) : Handler Unit := do
  let allowed := ((value.get "allowed").bind Json.asBool).getD false
  setLyricsNetworkAllowed allowed
  reply (.obj [("type", .str "settings.lyrics.network"), ("sessionToken", .str token),
    ("allowed", .bool allowed)])

/-! ## Timelines and settings -/

/-- `timeline.source`. -/
def handleTimelineSource (env : External) (value : Json) : Handler Unit := do
  match value.get "timeline" with
  | none => return ()
  | some timeline =>
    match timeline.getStr "videoId", timeline.getStr "sourceHash" with
    | some vid, some hash =>
      let _ ← withSqlite fun t _ db =>
        (some (), db.putTranscript vid hash (env.toString timeline) t)
    | _, _ => return ()

def handleTimelineHydrate (env : External) (value : Json) (token : String) : Handler Unit := do
  let videoId := value.strOr "videoId" ""
  let sourceHash := value.getStr "sourceHash"
  let body ← match sourceHash with
    | some hash => withSqlite fun _ _ db => (some ((db.getTranscript videoId hash).getD ""), db)
    | none =>
      withSqlite fun _ a db => (some ((db.getLatestTranscript videoId a.tie).getD ""), db)
  let timeline : Option Json := body.bind fun b => if b = "" then none else env.fromStr b
  let found ← withSqlite fun _ a db => (some (db.getTranslation videoId sourceHash a.tie), db)
  let translation : Option Json := found.join.bind fun tr =>
    (env.fromStr tr.2.cuesJson).map fun cues =>
      .obj [("videoId", .str videoId), ("cues", cues), ("revisionId", .str tr.2.revisionId),
        ("sourceHash", .str tr.1.sourceHash), ("targetLang", .str tr.1.targetLang)]
  reply (.obj [("type", .str "timeline.hydrated"), ("sessionToken", .str token),
    ("videoId", .str videoId), ("timeline", timeline.getD .null),
    ("translation", translation.getD .null)])

def handlePrivacyWipe (value : Json) (token : String) : Handler Unit := do
  let scope := (PrivacyWipeScope.parse (value.strOr "scope" "all")).getD .all
  let cleared ← withSqlite fun _ _ db => (some (db.privacyWipe scope).1, (db.privacyWipe scope).2)
  reply (.obj [("type", .str "privacy.wipe.result"), ("sessionToken", .str token),
    ("cleared", .obj ((cleared.getD []).map fun c => (c.1, .nat c.2)))])

/-- `retention.status`. -/
def sendRetentionStatus (token : String) (preset : RetentionPreset) : Handler Unit :=
  reply (.obj [("type", .str "retention.status"), ("sessionToken", .str token),
    ("preset", .str preset.asStr)])

def handleRetentionSet (value : Json) (token : String) : Handler Unit := do
  let preset := (RetentionPreset.parse (value.strOr "preset" "days7")).getD .days7
  let _ ← withSqlite fun _ _ db => (some (), db.setRetentionPreset preset)
  sendRetentionStatus token preset

def handleRetentionGet (token : String) : Handler Unit := do
  let preset ← withSqlite fun _ _ db => (some db.getRetentionPreset, db)
  sendRetentionStatus token (preset.getD .days7)

/-- `page.translate.cache.clear`. -/
def handlePageCacheClear (value : Json) (token : String) : Handler Unit := do
  let canonicalUrl := value.getStr "canonicalUrl"
  let cleared ← withSqlite fun _ _ db =>
    (some (db.clearPageCache canonicalUrl).1, (db.clearPageCache canonicalUrl).2)
  reply (.obj [("type", .str "page.translate.cache.clear"), ("sessionToken", .str token),
    ("cleared", .nat (cleared.getD 0))])

/-! ## Study data and dictionaries -/

/-- A study record in a reply. -/
def studyItem (env : External) (id : String) (r : StudyRow) : List (String × Json) :=
  [("id", .str id), ("kind", .str r.kind),
    ("payload", (env.fromStr r.payloadJson).getD (.obj []))]

/-- The result of `handle_study_sync`. -/
def studyResult (env : External) (value : Json) : Handler Json := do
  let id := value.strOr "id" ""
  let kind := value.strOr "kind" "card"
  match value.strOr "op" "get" with
  | "put" =>
    let payload := env.toString (value.getOr "payload" (.obj []))
    let ok ← withSqlite fun t _ db => (some (), db.putStudy id kind payload t)
    return .obj [("ok", .bool ok.isSome), ("id", .str id)]
  | "get" =>
    let found ← withSqlite fun _ _ db => (some (db.getStudy id), db)
    match found.join with
    | some r => return .obj (("ok", .bool true) :: studyItem env id r)
    | none => return .obj [("ok", .bool false), ("id", .str id)]
  | "list" =>
    let records ← withSqlite fun _ _ db => (some (db.listStudyByKind kind), db)
    return .obj [("ok", .bool true),
      ("items", .arr ((records.getD []).map fun r => .obj (studyItem env r.1 r.2)))]
  | "delete" =>
    let ok ← withSqlite fun _ _ db => (some (db.deleteStudy id).1, (db.deleteStudy id).2)
    return .obj [("ok", .bool (ok.getD false)), ("id", .str id)]
  | _ => return .obj [("ok", .bool false), ("error", .str "unknown op")]

def handleStudySync (env : External) (value : Json) (token : String) : Handler Unit := do
  let result ← studyResult env value
  reply (.obj [("type", .str "study.sync.result"), ("sessionToken", .str token),
    ("result", result)])

/-- An entry of `dictionary.import`; one without identifier or surface is dropped. -/
def dictionaryEntry (e : Json) : Option (String × String × Option String × Option String) := do
  let id ← e.getStr "id"
  let surface ← e.getStr "surface"
  return (id, surface, e.getStr "reading", e.getStr "glossaryJson")

def handleDictionaryImport (value : Json) (token : String) : Handler Unit := do
  let id := value.strOr "id" ""
  let entries := (((value.get "entries").bind Json.asArray).getD []).filterMap dictionaryEntry
  let t ← nowMs
  let row : DictionaryRow :=
    { name := value.strOr "name" ""
      language := value.strOr "language" ""
      license := value.strOr "license" ""
      entryCount := entries.length
      payloadPath := value.strOr "payloadPath" ""
      importedAtMs := t }
  let imported ← withSqlite fun _ _ db =>
    (db.putDictionaryMeta id row).putDictionaryEntries id entries
  reply (.obj [("type", .str "dictionary.import"), ("sessionToken", .str token), ("id", .str id),
    ("imported", .nat (imported.getD 0))])

def handleDictionaryLookup (value : Json) (token : String) : Handler Unit := do
  let surface := value.strOr "surface" ""
  let hits ← withSqlite fun _ _ db => (some (db.lookupDictionary surface), db)
  reply (.obj [("type", .str "dictionary.lookup"), ("sessionToken", .str token),
    ("surface", .str surface),
    ("entries", .arr ((hits.getD []).map fun h =>
      .obj [("id", .str h.1), ("dictionaryId", .str h.2.dictionaryId),
        ("surface", .str h.2.surface), ("reading", jsonOption h.2.reading),
        ("glossaryJson", jsonOption h.2.glossaryJson)]))])

def handleDictionaryStats (token : String) : Handler Unit := do
  let stats ← withSqlite fun _ _ db => (some db.dictionaryStats, db)
  let (dicts, entries) := stats.getD (0, 0)
  reply (.obj [("type", .str "dictionary.stats"), ("sessionToken", .str token),
    ("dictionaries", .nat dicts), ("entries", .nat entries)])

end LanguageLlm.Desktop
