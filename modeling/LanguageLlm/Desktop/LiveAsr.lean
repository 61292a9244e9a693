import LanguageLlm.Desktop.Execution

/-!
# Live transcription

When `handle_audio_chunk` transcribes. The trigger compares the segment that was transcribed last
with the samples in the ring, which never hold more than 30 seconds: `keeps_up_iff` says how long
transcription keeps up with the capture.
-/

namespace LanguageLlm.Desktop

open Lib Handler

/-! ## A capture and its chunks -/

/-- The capture of a job goes on with the same ring and the same last segment. It may have been
paused, resumed or completed. -/
def KeepsRing (jobId : String) (s s' : Stores) : Prop :=
  ∀ job, s.capture.get jobId = some job → ∃ job', s'.capture.get jobId = some job' ∧
    job'.ring = job.ring ∧ job'.lastAsrSegment = job.lastAsrSegment

/-- The chunk of an `audio.chunk` message. -/
def audioChunk (env : External) (value : Json) : AudioChunkIngest where
  jobId := value.strOr "jobId" ""
  sampleRateHz := ((value.get "sampleRateHz").bind Json.asU64).getD 48000 % 2 ^ 32
  pcmI16Le := (env.decodeBase64 (value.strOr "pcmI16LeBase64" "")).getD []
  seq := ((value.get "seq").bind Json.asU64).getD 0

/-- The queue accepts a chunk. -/
def AcceptedChunk (q : CaptureJobQueue) (chunk : AudioChunkIngest) : Prop :=
  ∃ accepted, (q.ingestI16Le chunk).1 = .ok accepted

/-- The critical section in which `handle_audio_chunk` ingests a chunk. -/
def ingestSection (chunk : AudioChunkIngest) (q : CaptureJobQueue) :
    Option (Option (Option MediaError)) × CaptureJobQueue :=
  if (q.get chunk.jobId).isNone then (some none, q)
  else
    match (q.ingestI16Le chunk).1 with
    | .ok _ => (some (some none), (q.ingestI16Le chunk).2)
    | .error (.error e) => (some (some (some e)), (q.ingestI16Le chunk).2)
    | .error .panic => (none, (q.ingestI16Le chunk).2)

theorem handleAudioChunk_eq (env : External) (value : Json) (token : String) :
    handleAudioChunk env value token = (do
      let ingested ← lockCapture fun _ q => ingestSection (audioChunk env value) q
      match ingested with
      | none => return ()
      | some (some e) => sendError (.str token) "audio-ingest" e.toString []
      | some none => transcribeCapture (audioChunk env value).jobId token) :=
  rfl

/-- The samples of a chunk at 16 kHz. -/
def resampledLength (chunk : AudioChunkIngest) : Nat :=
  let pcm : PcmMono :=
    { sampleRateHz := chunk.sampleRateHz, samples := pcmI16LeToF32 chunk.pcmI16Le }
  match if pcm.sampleRateHz = targetSampleRateHz then .ok pcm
      else resampleLinear pcm targetSampleRateHz with
  | .ok resampled => resampled.samples.length
  | .error _ => 0

/-- What a chunk adds to the ring; a paused capture drops it. -/
def addedSamples (q : CaptureJobQueue) (chunk : AudioChunkIngest) : Nat :=
  match q.get chunk.jobId with
  | some job => if job.state = .paused then 0 else resampledLength chunk
  | none => 0

/-- The stores after a run of accepted chunks of one job, whose resampled total is `n`. The rest of
the companion may do between the chunks, and between two actions of a handler, whatever leaves the
ring of this job alone. -/
inductive Captured (env : External) (jobId : String) : Nat → Stores → Prop
  | started {s : Stores} (q : CaptureJobQueue) (videoId : String)
      (hs : s.capture = q.startWithId jobId videoId) : Captured env jobId 0 s
  | others {n : Nat} {s s' : Stores} (hc : Captured env jobId n s) (ho : KeepsRing jobId s s') :
      Captured env jobId n s'
  | chunk {n : Nat} {s s' : Stores} {value : Json} {token : String} {sent : List Json}
      (hc : Captured env jobId n s) (hjob : (audioChunk env value).jobId = jobId)
      (hok : AcceptedChunk s.capture (audioChunk env value))
      (he : Exec (KeepsRing jobId) (handleAudioChunk env value token) s sent () s') :
      Captured env jobId (n + addedSamples s.capture (audioChunk env value)) s'

/-! ## One chunk -/

instance (jobId : String) : Std.Refl (KeepsRing jobId) :=
  ⟨fun _ job hjob => ⟨job, hjob, rfl, rfl⟩⟩

instance (jobId : String) : IsTrans Stores (KeepsRing jobId) where
  trans _ _ _ h₁ h₂ job hjob := by
    obtain ⟨job₁, hjob₁, hring₁, hlast₁⟩ := h₁ job hjob
    obtain ⟨job₂, hjob₂, hring₂, hlast₂⟩ := h₂ job₁ hjob₁
    exact ⟨job₂, hjob₂, hring₂.trans hring₁, hlast₂.trans hlast₁⟩

/-- A job has a capture with `filled` samples in its ring of 30 seconds, and `last` is the segment
that was transcribed last. -/
def Capturing (jobId : String) (filled last : Nat) (s : Stores) : Prop :=
  ∃ job, s.capture.get jobId = some job ∧ job.ring.capacity = 480000 ∧
    job.ring.lenSamples = filled ∧ job.lastAsrSegment = last

variable {env : External} {jobId : String} {s s' : Stores} {filled last : Nat}

theorem Capturing.others (hc : Capturing jobId filled last s) (ho : KeepsRing jobId s s') :
    Capturing jobId filled last s' := by
  obtain ⟨job, hjob, hcapacity, hfilled, hlast⟩ := hc
  obtain ⟨job', hjob', hring, hlast'⟩ := ho job hjob
  exact ⟨job', hjob', hring ▸ hcapacity, hring ▸ hfilled, hlast' ▸ hlast⟩

/-- An accepted chunk of a job that captures goes into its ring. -/
theorem Capturing.ingest {chunk : AudioChunkIngest} (hc : Capturing chunk.jobId filled last s)
    (hok : AcceptedChunk s.capture chunk) :
    Capturing chunk.jobId (min (filled + addedSamples s.capture chunk) 480000) last
      { s with capture := (s.capture.ingestI16Le chunk).2 } := by
  obtain ⟨job, hjob, hcapacity, hfilled, hlast⟩ := hc
  obtain ⟨accepted, hok⟩ := hok
  have hle : filled ≤ 480000 := by
    rw [← hfilled, ← hcapacity]
    exact job.ring.filled_le
  have hadded : addedSamples s.capture chunk =
      if job.state = .paused then 0 else resampledLength chunk := by
    simp only [addedSamples, hjob]
  unfold CaptureJobQueue.ingestI16Le at hok ⊢
  simp only [hjob] at hok ⊢
  cases hstate : job.state with
  | cancelled => simp [hstate] at hok
  | paused =>
    rw [hadded, if_pos hstate, Nat.add_zero, Nat.min_eq_left hle]
    exact ⟨job, hjob, hcapacity, hfilled, hlast⟩
  | running | completed =>
    rw [hadded, if_neg (by simp [hstate])]
    simp only [hstate] at hok ⊢
    unfold resampledLength
    dsimp only
    split at hok
    · cases hok
    · next pcm hpcm =>
      rw [hpcm]
      refine ⟨_, CaptureJobQueue.get_put_self .., ?_, ?_, hlast⟩
      · simpa using hcapacity
      · simp [RingBuffer.pushSlice_lenSamples, hfilled, hcapacity]

theorem lockless_runAsrOnPcm {pcm : PcmMono} {modelId : String} {mode : InferenceMode} :
    Lockless (runAsrOnPcm pcm modelId mode) := by
  unfold runAsrOnPcm
  cases mode with
  | offlineMock => exact lockless_return
  | weights =>
    refine lockless_answer.bind fun result => ?_
    cases result with
    | error e => exact lockless_return
    | ok text =>
      dsimp only
      split <;> exact lockless_return

/-- What `handle_audio_chunk` does once it has marked the segment. -/
def sendTranscript (jobId token videoId : String) (captureRunning : Bool) (pcm : PcmMono)
    (asrModelId : String) (asrMode : InferenceMode) : Handler Unit := do
  let segment := max (pcm.samples.length / 16000) 1
  let durationMs := pcm.samples.length * 1000 / targetSampleRateHz
  let (transcript, usedStub, asrFailed) ← runAsrOnPcm pcm asrModelId asrMode
  if asrFailed then
    sendError (.str token) "asr-inference" transcript [("jobId", .str jobId)]
  else
    reply (.obj [("type", .str "timeline.source"), ("sessionToken", .str token),
      ("timeline", asrTimeline videoId segment durationMs transcript usedStub)])
    if captureRunning then
      let message := if usedStub then
          "OfflineMock ASR stub from ring buffer (weights not installed)"
        else "whisper.cpp ASR from ring buffer"
      sendProgress token jobId "asr" "running" (1 / 2) (some (.str message)) []

/-- What `handle_audio_chunk` does once a segment is due and its model is chosen. -/
def transcribeSegment (jobId token videoId : String) (captureRunning : Bool) (asrModelId : String)
    (asrMode : InferenceMode) : Handler Unit := do
  let snapshot ← lockCapture fun _ q => (some (q.snapshotPcm jobId), q)
  match snapshot with
  | .error _ => return ()
  | .ok pcm =>
    let segment := max (pcm.samples.length / 16000) 1
    let _ ← lockCapture fun _ q =>
      (some (q.markAsrSegment jobId segment).1, (q.markAsrSegment jobId segment).2)
    sendTranscript jobId token videoId captureRunning pcm asrModelId asrMode

theorem transcribeCapture_eq (jobId token : String) :
    transcribeCapture jobId token = (do
      let decision ← lockCapture fun a q =>
        (some ((q.get jobId).map fun job => (asrDecision job, a.asrModel)), q)
      match decision with
      | none => return ()
      | some ((shouldAsr, videoId, captureRunning), (asrModelId, asrMode)) =>
        if !shouldAsr then return ()
        else transcribeSegment jobId token videoId captureRunning asrModelId asrMode) :=
  rfl

theorem lockless_sendTranscript {jobId token videoId : String} {captureRunning : Bool}
    {pcm : PcmMono} {asrModelId : String} {asrMode : InferenceMode} :
    Lockless (sendTranscript jobId token videoId captureRunning pcm asrModelId asrMode) := by
  refine lockless_runAsrOnPcm.bind ?_
  rintro ⟨transcript, usedStub, asrFailed⟩
  dsimp only
  split
  · exact lockless_sendError
  · refine lockless_reply.bind fun _ => ?_
    split
    · exact lockless_sendProgress
    · exact lockless_return

/-- What follows the ingestion of a chunk transcribes a segment when there is a new one. -/
theorem Capturing.transcribe {token : String} {sent : List Json}
    (hc : Capturing jobId filled last s)
    (he : Exec (KeepsRing jobId) (transcribeCapture jobId token) s sent () s') :
    Capturing jobId filled (if 16000 < filled ∧ last < filled / 16000 then filled / 16000 else last)
      s' := by
  rw [transcribeCapture_eq] at he
  simp only [exec_bind_iff] at he
  obtain ⟨decision, _, s₁, _, hdecision, he, _⟩ := he
  rw [exec_lockCapture_iff] at hdecision
  obtain ⟨_, an, hdecision, _, ho⟩ := hdecision
  have h₁ := hc.others ho
  obtain ⟨job, hjob, _, hfilled, hlast⟩ := hc
  rw [hjob] at hdecision
  obtain rfl := Option.some.inj hdecision
  simp only [Option.map_some, asrDecision, hfilled, hlast] at he
  have hsegment (h : 16000 < filled) : max (filled / 16000) 1 = filled / 16000 := by omega
  split at he
  · next hnot =>
    simp only [exec_return_iff] at he
    obtain ⟨_, _, rfl⟩ := he
    rwa [if_neg]
    rintro ⟨hmany, hnew⟩
    simp [hmany, hnew] at hnot
  · next hshould =>
    have hmany : 16000 < filled ∧ last < filled / 16000 := by
      simp only [Bool.not_eq_eq_eq_not, Bool.not_true, decide_eq_false_iff_not, not_not] at hshould
      exact ⟨hshould.1, hsegment hshould.1 ▸ hshould.2⟩
    rw [if_pos hmany]
    simp only [transcribeSegment, exec_bind_iff] at he
    obtain ⟨snapshot, _, s₂, _, hsnapshot, he, _⟩ := he
    rw [exec_lockCapture_iff] at hsnapshot
    obtain ⟨_, _, hsnapshot, _, ho₂⟩ := hsnapshot
    have h₂ := h₁.others ho₂
    obtain ⟨job₁, hjob₁, _, hfilled₁, _⟩ := h₁
    have hpcm : s₁.capture.snapshotPcm jobId =
        .ok { sampleRateHz := targetSampleRateHz, samples := job₁.ring.snapshot } :=
      CaptureJobQueue.snapshotPcm_eq hjob₁ (by omega)
    obtain rfl := Option.some.inj hsnapshot
    rw [hpcm] at he
    simp only [RingBuffer.snapshot_length, hfilled₁, hsegment hmany.1, exec_bind_iff] at he
    obtain ⟨_, _, s₃, _, hmark, he, _⟩ := he
    rw [exec_lockCapture_iff] at hmark
    obtain ⟨_, _, _, _, ho₃⟩ := hmark
    have h₃ : Capturing jobId filled (filled / 16000) s₃ := by
      obtain ⟨job₂, hjob₂, hcapacity₂, hfilled₂, _⟩ := h₂
      refine Capturing.others ⟨{ job₂ with lastAsrSegment := filled / 16000 }, ?_, hcapacity₂,
        hfilled₂, rfl⟩ ho₃
      simp only [CaptureJobQueue.markAsrSegment, hjob₂, CaptureJobQueue.get_put_self]
    exact h₃.others (lockless_sendTranscript.guarantees.exec (fun _ _ => id) he)

/-- A chunk that is accepted, from the state before it to the state after its handler. -/
theorem Capturing.chunk {value : Json} {token : String} {sent : List Json}
    (hc : Capturing jobId filled last s) (hjob : (audioChunk env value).jobId = jobId)
    (hok : AcceptedChunk s.capture (audioChunk env value))
    (he : Exec (KeepsRing jobId) (handleAudioChunk env value token) s sent () s') :
    let filled' := min (filled + addedSamples s.capture (audioChunk env value)) 480000
    Capturing jobId filled' (if 16000 < filled' ∧ last < filled' / 16000 then filled' / 16000
      else last)
      s' := by
  intro filled'
  subst hjob
  have hingest := hc.ingest hok
  obtain ⟨job, hjob, _⟩ := hc
  obtain ⟨accepted, hok⟩ := hok
  rw [handleAudioChunk_eq, exec_bind_iff] at he
  obtain ⟨ingested, _, s₁, _, hlock, he, _⟩ := he
  rw [exec_lockCapture_iff] at hlock
  obtain ⟨_, _, hingested, _, ho⟩ := hlock
  have hsection : ingestSection (audioChunk env value) s.capture =
      (some (some none), (s.capture.ingestI16Le (audioChunk env value)).2) := by
    simp [ingestSection, hjob, hok]
  rw [hsection] at hingested ho
  obtain rfl := Option.some.inj hingested
  exact (hingest.others ho).transcribe he

/-! ## Runs of chunks -/

/-- The samples in the ring and the last segment after `n` samples. -/
theorem Captured.capturing {n : Nat} (hc : Captured env jobId n s) :
    Capturing jobId (min n 480000) (if 16000 < n then min n 480000 / 16000 else 0) s := by
  induction hc with
  | started q videoId hs =>
    have hget := CaptureJobQueue.get_startWithId q jobId videoId
    rw [← hs] at hget
    rw [if_neg (by omega)]
    exact ⟨_, hget, rfl, rfl, rfl⟩
  | others _ ho ih => exact ih.others ho
  | @chunk n s s' value token sent _ hjob hok he ih =>
    subst hjob
    have hnext := ih.chunk rfl hok he
    generalize addedSamples s.capture (audioChunk env value) = added at hnext ⊢
    have hfilled : min (min n 480000 + added) 480000 = min (n + added) 480000 := by omega
    simp only [hfilled] at hnext
    convert hnext using 1
    split_ifs <;> omega

/-- The capture of a job runs, and no thread has panicked with the queue. -/
def Live (jobId : String) (s : Stores) : Prop :=
  s.capturePoisoned = false ∧ ∃ job, s.capture.get jobId = some job ∧ job.state = .running

/-- A running capture accepts a chunk that is recorded at 16 kHz. -/
theorem ingest_live {chunk : AudioChunkIngest} (hrate : chunk.sampleRateHz = targetSampleRateHz)
    {job : CaptureJob} (hjob : s.capture.get chunk.jobId = some job)
    (hstate : job.state = .running) :
    ∃ accepted job', s.capture.ingestI16Le chunk =
      (.ok accepted, s.capture.put chunk.jobId job') ∧ job'.state = .running := by
  simp only [CaptureJobQueue.ingestI16Le, hjob, hstate, hrate, if_pos]
  exact ⟨_, _, rfl, rfl⟩

theorem returns_transcribeCapture (jobId token : String) :
    Returns (Live jobId) (transcribeCapture jobId token) := by
  rw [transcribeCapture_eq]
  refine Returns.bind (.lockCapture (fun _ => And.left) ?_) fun decision => ?_
  · exact fun _ s hs => ⟨rfl, hs⟩
  split
  · trivial
  split
  · trivial
  refine Returns.bind (.lockCapture (fun _ => And.left) ?_) fun snapshot => ?_
  · exact fun _ s hs => ⟨rfl, hs⟩
  split
  · trivial
  refine Returns.bind (.lockCapture (fun _ => And.left) ?_)
    fun _ => lockless_sendTranscript.returns
  rintro _ s ⟨hp, job, hjob, hstate⟩
  simp only [CaptureJobQueue.markAsrSegment, hjob]
  exact ⟨rfl, hp, _, CaptureJobQueue.get_put_self .., hstate⟩

/-- The handler of a chunk that is recorded at 16 kHz returns. -/
theorem returns_handleAudioChunk {value : Json} (token : String)
    (hrate : (audioChunk env value).sampleRateHz = targetSampleRateHz) :
    Returns (Live (audioChunk env value).jobId) (handleAudioChunk env value token) := by
  rw [handleAudioChunk_eq]
  refine Returns.bind (.lockCapture (fun _ => And.left) ?_) fun ingested => ?_
  · rintro _ s ⟨hp, job, hjob, hstate⟩
    obtain ⟨accepted, job', hingest, hstate'⟩ := ingest_live hrate hjob hstate
    simp only [ingestSection, hjob, hingest]
    exact ⟨rfl, hp, job', CaptureJobQueue.get_put_self .., hstate'⟩
  split
  · trivial
  · exact lockless_sendError.returns
  · apply returns_transcribeCapture

/-- After every chunk of a capture of more than a second, the last transcribed segment is that of
the newest second if and only if the capture is shorter than 31 seconds. -/
theorem keeps_up_iff {n : Nat} (hc : Captured env jobId n s) (hn : 16000 < n) :
    ∃ job, s.capture.get jobId = some job ∧ (job.lastAsrSegment = n / 16000 ↔ n < 496000) := by
  obtain ⟨job, hjob, _, _, hlast⟩ := hc.capturing
  refine ⟨job, hjob, ?_⟩
  rw [hlast, if_pos hn]
  omega

/-! Seconds of silence, a chunk each. -/

/-- The Base64 text of a second of silence at 16 kHz. -/
def silenceText : String := String.ofList (List.replicate 42667 'A' ++ ['='])

/-- The samples of this second. -/
def silence : List UInt8 := List.replicate 32000 0

/-- The decoder, on this text. -/
def silenceDecoder : External where
  toString _ := ""
  fromStr _ := none
  decodeBase64 text := if text = silenceText then some silence else none

def silenceMessage : Json :=
  .obj [("type", .str "audio.chunk"), ("jobId", .str "a"), ("sampleRateHz", .int 16000),
    ("seq", .int 0), ("pcmI16LeBase64", .str silenceText)]

theorem audioChunk_silence : audioChunk silenceDecoder silenceMessage =
    { jobId := "a", sampleRateHz := 16000, pcmI16Le := silence, seq := 0 } := by
  have hbytes : silenceMessage.strOr "pcmI16LeBase64" "" = silenceText := rfl
  simp only [audioChunk, hbytes, silenceDecoder, if_pos]
  rfl

theorem silence_length : silence.length = 32000 := List.length_replicate

theorem captured_silence (k : Nat) : ∃ s, Captured silenceDecoder "a" (16000 * k) s ∧
    Live "a" s := by
  induction k with
  | zero =>
    let s : Stores := { Stores.new none with capture := CaptureJobQueue.empty.startWithId "a" "v" }
    exact ⟨s, .started .empty "v" rfl, rfl, _, CaptureJobQueue.get_startWithId .., rfl⟩
  | succ k ih =>
    obtain ⟨s, hc, hlive⟩ := ih
    have hrate : (audioChunk silenceDecoder silenceMessage).sampleRateHz = targetSampleRateHz := by
      rw [audioChunk_silence]
      rfl
    have hid : (audioChunk silenceDecoder silenceMessage).jobId = "a" := by rw [audioChunk_silence]
    obtain ⟨job, hjob, hstate⟩ := hlive.2
    have hreturns := returns_handleAudioChunk "" hrate
    rw [hid] at hreturns
    obtain ⟨sent, _, s', he, hlive'⟩ : ∃ sent u s', Exec (KeepsRing "a")
        (handleAudioChunk silenceDecoder silenceMessage "") s sent u s' ∧ Live "a" s' :=
      hreturns.exec hlive
    have hadded : addedSamples s.capture (audioChunk silenceDecoder silenceMessage) = 16000 := by
      simp [addedSamples, resampledLength, audioChunk_silence, hjob, hstate, targetSampleRateHz,
        pcmI16LeToF32_length, silence_length]
    have hok : AcceptedChunk s.capture (audioChunk silenceDecoder silenceMessage) := by
      obtain ⟨accepted, _, hingest, _⟩ := ingest_live hrate (hid ▸ hjob) hstate
      exact ⟨accepted, by rw [hingest]⟩
    have hnext := hc.chunk hid hok he
    rw [hadded] at hnext
    exact ⟨s', hnext, hlive'⟩

/-- After two seconds the second segment is transcribed. -/
theorem keeps_up_silence : ∃ s, Captured silenceDecoder "a" 32000 s ∧ 16000 < 32000 ∧
    ∃ job, s.capture.get "a" = some job ∧
      (job.lastAsrSegment = 32000 / 16000 ↔ 32000 < 496000) := by
  obtain ⟨s, hc, _⟩ := captured_silence 2
  exact ⟨s, hc, by decide, keeps_up_iff hc (by decide)⟩

/-- After 31 seconds the last segment is still the thirtieth. -/
theorem not_keeps_up : ¬ ∀ (env : External) (jobId : String) (n : Nat) (s : Stores),
    Captured env jobId n s → 16000 < n →
      ∃ job, s.capture.get jobId = some job ∧ job.lastAsrSegment = n / 16000 := by
  intro h
  obtain ⟨s, hc, _⟩ := captured_silence 31
  obtain ⟨job, hjob, hlast⟩ := h _ _ _ s hc (by decide)
  obtain ⟨job', hjob', _, _, hlast'⟩ := hc.capturing
  rw [hjob, Option.some.injEq] at hjob'
  subst hjob'
  rw [hlast] at hlast'
  exact absurd hlast' (by decide)

end LanguageLlm.Desktop
