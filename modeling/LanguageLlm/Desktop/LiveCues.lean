import Mathlib.Tactic.NormNum
import LanguageLlm.Desktop.AsrPlan

/-!
# The times of live cues

A transcript of `handle_audio_chunk` has one cue, which starts at 0 and is as long as the snapshot
of the ring that it was made from. `carries_interval_iff` says when this lies within the time of the
audio in the snapshot: while the ring has dropped nothing, and the snapshot is not shorter than the
shortest cue.
-/

namespace LanguageLlm.Desktop

open Lib Handler

/-! ## What was ingested -/

/-- A step starts the capture of a job. -/
def StartsCapture (f : Fired Companion CompanionEvent) (jobId : String) : Prop :=
  ∃ c an value token videoId asrMeta, f.label = .server (.act c an) ∧
    f.pre.Handling c value (startCapture token jobId videoId asrMeta) ∧
    f.pre.stores.capturePoisoned = false

/-- A step ingests a chunk of a job, which adds `added` samples. -/
def IngestsChunk (env : External) (f : Fired Companion CompanionEvent) (jobId : String)
    (added : Nat) :
    Prop :=
  ∃ c an value token, f.label = .server (.act c an) ∧
    f.pre.Handling c value (handleAudioChunk env value token) ∧
    f.pre.stores.capturePoisoned = false ∧ (audioChunk env value).jobId = jobId ∧
    AcceptedChunk f.pre.stores.capture (audioChunk env value) ∧
    addedSamples f.pre.stores.capture (audioChunk env value) = added

/-- The samples of a job that were ingested since its capture started. -/
inductive Ingested (env : External) (jobId : String) :
    List (Fired Companion CompanionEvent) → Nat → Prop
  | nil : Ingested env jobId [] 0
  | starts {h : List (Fired Companion CompanionEvent)} {f : Fired Companion CompanionEvent}
      (hf : StartsCapture f jobId) : Ingested env jobId (f :: h) 0
  | chunk {h : List (Fired Companion CompanionEvent)} {f : Fired Companion CompanionEvent}
      {n added : Nat}
      (hi : Ingested env jobId h n) (hf : IngestsChunk env f jobId added) :
      Ingested env jobId (f :: h) (n + added)
  | other {h : List (Fired Companion CompanionEvent)} {f : Fired Companion CompanionEvent} {n : Nat}
      (hi : Ingested env jobId h n) (hstarts : ¬ StartsCapture f jobId)
      (hchunk : ∀ added, ¬ IngestsChunk env f jobId added) : Ingested env jobId (f :: h) n

/-- In this step the handler of a connection takes a snapshot of `length` samples of a job. -/
def TakesSnapshot (f : Fired Companion CompanionEvent) (c : Nat) (jobId : String) (length : Nat) :
    Prop :=
  ∃ an value token videoId captureRunning modelId mode pcm, f.label = .server (.act c an) ∧
    f.pre.Handling c value (transcribeSegment jobId token videoId captureRunning modelId mode) ∧
    f.pre.stores.capturePoisoned = false ∧ f.pre.stores.capture.snapshotPcm jobId = .ok pcm ∧
    pcm.samples.length = length

/-- The handler of a connection has taken its last snapshot, of `length` samples, after the steps
`past`. -/
inductive LastSnapshot (c : Nat) (jobId : String) (length : Nat)
    (past : List (Fired Companion CompanionEvent)) : List (Fired Companion CompanionEvent) → Prop
  | takes {f : Fired Companion CompanionEvent} (hf : TakesSnapshot f c jobId length) :
      LastSnapshot c jobId length past (f :: past)
  | later {h : List (Fired Companion CompanionEvent)} {f : Fired Companion CompanionEvent}
      (hl : LastSnapshot c jobId length past h) (hf : ∃ value body, f.post.Handling c value body)
      (hnot : ∀ n, ¬ TakesSnapshot f c jobId n) : LastSnapshot c jobId length past (f :: h)

/-! ## The claim -/

/-- The cues of a transcript. -/
def transcriptCues (message : Json) : List Json :=
  (((message.getOr "timeline" .null).get "cues").bind Json.asArray).getD []

/-- The cues of a transcript lie within an interval, in milliseconds. -/
def CuesWithin (message : Json) (start stop : Rat) : Prop :=
  ∀ cue ∈ transcriptCues message, ∃ startMs endMs : Nat, cue.get "startMs" = some (.nat startMs) ∧
    cue.get "endMs" = some (.nat endMs) ∧ start ≤ startMs ∧ (endMs : Rat) ≤ stop

/-- The cues of a transcript that a step sends lie within the time of the audio they were made from.
-/
structure CarriesInterval (env : External) (h : List (Fired Companion CompanionEvent))
    (f : Fired Companion CompanionEvent) : Prop where
  source : ∀ c an value message next, f.label = .server (.act c an) →
    f.pre.Handling c value (.send message next) → IsTranscript message →
    ∃ length past n, LastSnapshot c (value.strOr "jobId" "") length past h ∧
      Ingested env (value.strOr "jobId" "") past n
  within : ∀ c an value message next, f.label = .server (.act c an) →
    f.pre.Handling c value (.send message next) → IsTranscript message →
    ∀ length past n, LastSnapshot c (value.strOr "jobId" "") length past h →
      Ingested env (value.strOr "jobId" "") past n →
      CuesWithin message (((n : Rat) - length) / 16) (n / 16)

/-- When the snapshot of a transcript was taken, the capture had lasted for half a second, and for
no more than the 30 seconds of the ring. -/
def FitsRing (env : External) (h : List (Fired Companion CompanionEvent))
    (f : Fired Companion CompanionEvent) : Prop :=
  ∀ c an value message next, f.label = .server (.act c an) →
    f.pre.Handling c value (.send message next) → IsTranscript message →
    ∀ length past n, LastSnapshot c (value.strOr "jobId" "") length past h →
      Ingested env (value.strOr "jobId" "") past n → 8000 ≤ n ∧ n ≤ 480000

/-! ## The relations are functions -/

section Functional

variable {env : External} {c : Nat} {jobId : String}
  {h past past' : List (Fired Companion CompanionEvent)}
  {f : Fired Companion CompanionEvent} {length length' : Nat}

theorem exists_ingested (env : External) (jobId : String)
    (h : List (Fired Companion CompanionEvent)) :
    ∃ n, Ingested env jobId h n := by
  induction h with
  | nil => exact ⟨0, .nil⟩
  | cons f h ih =>
    obtain ⟨n, hn⟩ := ih
    by_cases hstarts : StartsCapture f jobId
    · exact ⟨0, .starts hstarts⟩
    by_cases hchunk : ∃ added, IngestsChunk env f jobId added
    · obtain ⟨added, hadded⟩ := hchunk
      exact ⟨n + added, hn.chunk hadded⟩
    · exact ⟨n, hn.other hstarts fun added hf => hchunk ⟨added, hf⟩⟩

theorem TakesSnapshot.unique (hf : TakesSnapshot f c jobId length)
    (hf' : TakesSnapshot f c jobId length') :
    length' = length := by
  obtain ⟨_, _, _, _, _, _, _, pcm, _, _, _, hpcm, rfl⟩ := hf
  obtain ⟨_, _, _, _, _, _, _, pcm', _, _, _, hpcm', rfl⟩ := hf'
  rw [hpcm, Except.ok.injEq] at hpcm'
  rw [hpcm']

theorem LastSnapshot.unique (hl : LastSnapshot c jobId length past h)
    (hl' : LastSnapshot c jobId length' past' h) : length' = length ∧ past' = past := by
  induction hl with
  | takes hf =>
    cases hl' with
    | takes hf' => exact ⟨hf.unique hf', rfl⟩
    | later _ _ hnot => exact absurd hf (hnot _)
  | later _ _ hnot ih =>
    cases hl' with
    | takes hf' => exact absurd hf' (hnot _)
    | later hl' _ _ => exact ih hl'

end Functional

/-! ## The rings -/

/-- The captures keep their rings. -/
def SameRings (q q' : CaptureJobQueue) : Prop :=
  ∀ jobId, (q'.get jobId).map CaptureJob.ring = (q.get jobId).map CaptureJob.ring

def KeepsRings (s s' : Stores) : Prop := SameRings s.capture s'.capture

theorem sameRings_put {q : CaptureJobQueue} {jobId : String} {job job' : CaptureJob}
    (hjob : q.get jobId = some job) (hring : job'.ring = job.ring) :
    SameRings q (q.put jobId job') := by
  intro id
  by_cases hid : id = jobId
  · rw [hid, CaptureJobQueue.get_put_self, hjob, Option.map_some, Option.map_some, hring]
  · rw [CaptureJobQueue.get_put_ne _ _ hid]

theorem sameRings_cancel (q : CaptureJobQueue) (jobId : String) :
    SameRings q (q.cancel jobId).2 := by
  unfold CaptureJobQueue.cancel
  split
  · next job hjob => exact sameRings_put hjob rfl
  · exact fun _ => rfl

theorem sameRings_pause (q : CaptureJobQueue) (jobId : String) : SameRings q (q.pause jobId).2 := by
  unfold CaptureJobQueue.pause
  split
  · next job hjob =>
    split
    · exact fun _ => rfl
    · exact sameRings_put hjob rfl
  · exact fun _ => rfl

theorem sameRings_resume (q : CaptureJobQueue) (jobId : String) :
    SameRings q (q.resume jobId).2 := by
  unfold CaptureJobQueue.resume
  split
  · next job hjob =>
    split
    · exact sameRings_put hjob rfl
    all_goals exact fun _ => rfl
  · exact fun _ => rfl

theorem sameRings_mark (q : CaptureJobQueue) (jobId : String) (segment : Nat) :
    SameRings q (q.markAsrSegment jobId segment).2 := by
  unfold CaptureJobQueue.markAsrSegment
  split
  · next job hjob => exact sameRings_put hjob rfl
  · exact fun _ => rfl

/-- The next section of a handler keeps the rings, or starts a capture or ingests a chunk. -/
inductive Rings (env : External) (value : Json) : Handler Unit → Prop
  | keeps {body : Handler Unit}
      (h : ∀ update next, body = .lock update next → ∀ t an s, KeepsRings s (update t an s)) :
      Rings env value body
  | start (token videoId : String) (asrMeta : Json) :
      Rings env value (startCapture token (value.strOr "jobId" "") videoId asrMeta)
  | chunk (token : String) : Rings env value (handleAudioChunk env value token)

section Guarantee

variable {α : Type} {env : External} {value : Json}

theorem keepsRings_next {t : Nat} {an : Answers} {s s' : Stores} {body body' : Handler Unit}
    (hk : ∀ update next, body = .lock update next → ∀ t an s, KeepsRings s (update t an s))
    (hn : Next t an body s body' s') : KeepsRings s s' := by
  cases hn with
  | lock => exact hk _ _ rfl t an s
  | send | now | ask | fetch => exact fun _ => rfl

theorem keepsRings_lockJobs {f : Nat → JobRegistry → α × JobRegistry} :
    Guarantees KeepsRings (lockJobs f) :=
  fun _ _ _ => ⟨fun _ => rfl, trivial⟩

theorem keepsRings_lockCapture {f : Answers → CaptureJobQueue → Option α × CaptureJobQueue}
    (hf : ∀ an q, SameRings q (f an q).2) : Guarantees KeepsRings (lockCapture f) := by
  intro t an s
  refine ⟨?_, ?_⟩ <;> dsimp only
  · split
    · exact fun _ => rfl
    · exact hf an s.capture
  · split
    · trivial
    · split <;> trivial

theorem Apart.keepsRings {h : Handler α} (hh : Apart h) : Guarantees KeepsRings h :=
  hh.keeps.mono fun _ _ hsame _ => by rw [hsame.capture]

theorem keepsRings_transcribeCapture (jobId token : String) :
    Guarantees KeepsRings (transcribeCapture jobId token) := by
  rw [transcribeCapture_eq]
  refine Guarantees.bind (keepsRings_lockCapture fun _ _ _ => rfl) fun decision => ?_
  split
  · trivial
  split
  · trivial
  refine Guarantees.bind (keepsRings_lockCapture fun _ _ _ => rfl) fun snapshot => ?_
  split
  · trivial
  refine Guarantees.bind (keepsRings_lockCapture fun _ q => sameRings_mark q _ _) fun _ => ?_
  exact lockless_sendTranscript.guarantees

/-- A job that is not transcribed keeps the rings. -/
theorem keepsRings_runTranslateJob (token jobId videoId : String) :
    Guarantees KeepsRings (runTranslateJob env token jobId videoId) := by
  refine Guarantees.bind lockless_answer.guarantees ?_
  rintro ⟨mode, backend⟩
  refine keepsRings_lockJobs.bind fun run => ?_
  cases run with
  | error e => trivial
  | ok p =>
    refine keepsRings_lockJobs.bind fun found => ?_
    refine Guarantees.bind lockless_sendProgress.guarantees fun _ => ?_
    refine Guarantees.bind lockless_reply.guarantees fun _ => ?_
    refine Guarantees.bind ?_ fun _ => lockless_reply.guarantees
    exact (apart_withSqlite.bind fun _ => apart_return _).keepsRings

theorem keepsRings_runPageTranslateJob (token jobId : String) :
    Guarantees KeepsRings (runPageTranslateJob token jobId) := by
  refine Guarantees.bind lockless_answer.guarantees ?_
  rintro ⟨mode, backend⟩
  refine keepsRings_lockJobs.bind fun run => ?_
  cases run with
  | none => trivial
  | some result =>
    exact Guarantees.bind lockless_sendProgress.guarantees fun _ => lockless_reply.guarantees

theorem keepsRings_failUnsupportedJob (token jobId kindStr : String) :
    Guarantees KeepsRings (failUnsupportedJob token jobId kindStr) := by
  refine keepsRings_lockJobs.bind fun _ => ?_
  exact Guarantees.bind lockless_sendProgress.guarantees fun _ => lockless_reply.guarantees

theorem rings_of_keeps {h : Handler Unit} (hh : Guarantees KeepsRings h) :
    Throughout (Rings env value) h :=
  hh.throughout fun _ => .keeps

theorem rings_startCapture (token videoId : String) (asrMeta : Json) :
    Throughout (Rings env value) (startCapture token (value.strOr "jobId" "") videoId asrMeta) := by
  refine ⟨.start .., fun t an s => ?_⟩
  dsimp only
  split
  · exact .keeps nofun
  · exact rings_of_keeps lockless_sendProgress.guarantees

theorem rings_handleJobSubmit : Throughout (Rings env value) (handleJobSubmit env value) := by
  unfold handleJobSubmit
  dsimp only
  split
  · exact rings_of_keeps lockless_sendError.guarantees
  refine keepsRings_lockJobs.throughout_bind (fun _ => .keeps) fun _ => ?_
  refine Guarantees.throughout_bind (fun _ => .keeps) lockless_sendProgress.guarantees fun _ => ?_
  split
  · exact rings_of_keeps (keepsRings_runTranslateJob _ _ _)
  · exact rings_of_keeps (keepsRings_runPageTranslateJob _ _)
  · rw [runAsrJob_eq]
    refine Guarantees.throughout_bind (fun _ => .keeps) lockless_answer.guarantees fun plan => ?_
    rcases plan with _ | ⟨⟨id, err⟩ | planned⟩
    · apply rings_startCapture
    · refine rings_of_keeps (Guarantees.bind lockless_sendError.guarantees fun _ => ?_)
      exact lockless_sendProgress.guarantees
    · apply rings_startCapture
  · exact rings_of_keeps (keepsRings_failUnsupportedJob _ _ _)

theorem rings_handleAudioChunk (token : String) :
    Throughout (Rings env value) (handleAudioChunk env value token) := by
  refine ⟨.chunk token, fun t an s => ?_⟩
  dsimp only
  split
  · exact .keeps nofun
  split
  · next ingested _ =>
    rcases ingested with _ | _ | e
    · exact .keeps nofun
    · exact rings_of_keeps (keepsRings_transcribeCapture _ token)
    · exact rings_of_keeps lockless_sendError.guarantees
  · exact .keeps nofun

/-- Every handler works on the rings like this throughout. -/
theorem rings_starts {body : Handler Unit} (hs : Starts env value body) :
    Throughout (Rings env value) body := by
  rcases hs with hjob | hapart
  · cases hjob with
    | submit => exact rings_handleJobSubmit
    | cancel token =>
      refine rings_of_keeps (keepsRings_lockJobs.bind fun ok => ?_)
      refine Guarantees.bind (keepsRings_lockCapture fun _ q => sameRings_cancel q _) fun _ => ?_
      exact lockless_sendProgress.guarantees
    | pause token =>
      refine rings_of_keeps
        (Guarantees.bind (keepsRings_lockCapture fun _ q => sameRings_pause q _) ?_)
      exact fun _ => keepsRings_lockJobs.bind fun ok => lockless_sendProgress.guarantees
    | resume token =>
      refine rings_of_keeps
        (Guarantees.bind (keepsRings_lockCapture fun _ q => sameRings_resume q _) ?_)
      exact fun _ => keepsRings_lockJobs.bind fun ok => lockless_sendProgress.guarantees
    | chunk token => exact rings_handleAudioChunk token
  · exact rings_of_keeps hapart.keepsRings

end Guarantee

/-! ## The ring of a capture -/

/-- The ring of 30 seconds after `n` samples. -/
structure RingAfter (n : Nat) (ring : RingBuffer) : Prop where
  capacity : ring.capacity = 480000
  lenSamples : ring.lenSamples = min n 480000
  write : ring.write = n % 480000

theorem ringAfter_new : RingAfter 0 (.new (targetSampleRateHz * 30)) := ⟨rfl, rfl, rfl⟩

theorem RingAfter.pushSlice {n : Nat} {ring : RingBuffer} (hr : RingAfter n ring)
    (samples : List Rat) :
    RingAfter (n + samples.length) (ring.pushSlice samples) where
  capacity := by rw [RingBuffer.pushSlice_capacity, hr.capacity]
  lenSamples := by
    rw [RingBuffer.pushSlice_lenSamples, hr.capacity, hr.lenSamples]
    omega
  write := by rw [RingBuffer.pushSlice_write, hr.capacity, hr.write, Nat.mod_add_mod]

/-- The ring of a job, if it captures. -/
def HasRing (q : CaptureJobQueue) (jobId : String) (n : Nat) : Prop :=
  ∀ job, q.get jobId = some job → RingAfter n job.ring

section Sections

variable {q q' : CaptureJobQueue} {jobId : String} {n : Nat} {chunk : AudioChunkIngest}

theorem HasRing.same (hr : HasRing q jobId n) (hsame : SameRings q q') : HasRing q' jobId n := by
  intro job' hjob'
  have hring := hsame jobId
  rw [hjob', Option.map_some] at hring
  obtain ⟨job, hjob, hring⟩ := Option.map_eq_some_iff.1 hring.symm
  exact hring ▸ hr job hjob

theorem hasRing_startWithId (q : CaptureJobQueue) (jobId videoId : String) :
    HasRing (q.startWithId jobId videoId) jobId 0 := by
  intro job hjob
  rw [CaptureJobQueue.get_startWithId, Option.some.injEq] at hjob
  subst hjob
  exact ringAfter_new

/-- A chunk that is not accepted changes nothing. -/
theorem ingest_rejected (hnot : ¬ AcceptedChunk q chunk) : (q.ingestI16Le chunk).2 = q := by
  cases hresult : (q.ingestI16Le chunk).1 with
  | ok accepted => exact absurd ⟨accepted, hresult⟩ hnot
  | error e =>
    unfold CaptureJobQueue.ingestI16Le at hresult ⊢
    split
    · rfl
    · next job hjob =>
      simp only [hjob] at hresult
      cases hstate : job.state with
      | cancelled | paused => rfl
      | running | completed =>
        simp only [hstate] at hresult
        dsimp only
        split
        · rfl
        · next resampled =>
          rw [resampled] at hresult
          cases hresult

/-- An accepted chunk of a job goes into its ring. -/
theorem HasRing.ingest (hr : HasRing q chunk.jobId n) (hok : AcceptedChunk q chunk) :
    HasRing (q.ingestI16Le chunk).2 chunk.jobId (n + addedSamples q chunk) := by
  obtain ⟨accepted, hok⟩ := hok
  intro job' hjob'
  unfold CaptureJobQueue.ingestI16Le at hok hjob'
  split at hok
  · cases hok
  next job hjob =>
  simp only [hjob] at hjob'
  have hadded : addedSamples q chunk = if job.state = .paused then 0 else resampledLength
      chunk := by
    simp only [addedSamples, hjob]
  cases hstate : job.state with
  | cancelled =>
    simp only [hstate] at hok
    cases hok
  | paused =>
    simp only [hstate] at hjob'
    rw [hadded, if_pos hstate, Nat.add_zero]
    exact hr job' hjob'
  | running | completed =>
    rw [hadded, if_neg (by simp [hstate])]
    simp only [hstate] at hok hjob'
    unfold resampledLength
    dsimp only
    split at hok
    · cases hok
    next pcm hpcm =>
    simp only [hpcm, CaptureJobQueue.get_put_self, Option.some.injEq] at hjob' ⊢
    subst hjob'
    exact (hr job hjob).pushSlice _

/-- A chunk of another job leaves the ring alone. -/
theorem HasRing.ingest_other (hr : HasRing q jobId n) (hne : jobId ≠ chunk.jobId) :
    HasRing (q.ingestI16Le chunk).2 jobId n := by
  have hget : (q.ingestI16Le chunk).2.get jobId = q.get jobId := by
    unfold CaptureJobQueue.ingestI16Le
    split
    · rfl
    · split
      · rfl
      · rfl
      all_goals
        dsimp only
        split
        · rfl
        · exact CaptureJobQueue.get_put_ne _ _ hne
  intro job hjob
  exact hr job (hget ▸ hjob)

theorem ingestSection_queue (chunk : AudioChunkIngest) (q : CaptureJobQueue) :
    (ingestSection chunk q).2 = (q.ingestI16Le chunk).2 := by
  unfold ingestSection
  split
  · next hnone =>
    rw [ingest_rejected]
    rintro ⟨accepted, hok⟩
    rw [Option.isNone_iff_eq_none] at hnone
    simp only [CaptureJobQueue.ingestI16Le, hnone] at hok
    cases hok
  · split <;> rfl

end Sections

/-! ## The rings in a run -/

section Invariant

variable {env : External} {s s' : Companion} {l : CompanionEvent} {jobId : String} {n : Nat}
  {h : List (Fired Companion CompanionEvent)}

/-- A handler that is at a section runs it. -/
theorem Companion.Moves.section_next (hm : s.Moves env s' l) {c : Nat} {an : Answers} {value : Json}
    {update : Nat → Answers → Stores → Stores} {next : Nat → Answers → Stores → Handler Unit}
    (hl : l = .server (.act c an)) (hbody : s.Handling c value (.lock update next)) :
    ∃ t an, s'.stores = update t an s.stores := by
  cases hm with
  | acts hbody' _ hnext _ =>
    obtain ⟨rfl, rfl⟩ := ServerEvent.act.inj (CompanionEvent.server.inj hl)
    obtain ⟨rfl, rfl⟩ := hbody.unique hbody'
    exact ⟨_, _, hnext.of_lock.2⟩
  | ends hbody' hlast _ _ _ =>
    obtain ⟨rfl, rfl⟩ := ServerEvent.act.inj (CompanionEvent.server.inj hl)
    obtain ⟨rfl, rfl⟩ := hbody.unique hbody'
    rcases hlast with h | h <;> cases h
  | cancels => cases hl
  | quiet _ hkept _ => exact absurd hl ((hkept _ _ _ hbody).1 an)

theorem hasRing_starts (hm : s.Moves env s' l) (hf : StartsCapture ⟨s, l, s'⟩ jobId) :
    HasRing s'.stores.capture jobId 0 := by
  obtain ⟨c, an, value, token, videoId, asrMeta, hl, hbody, hs⟩ := hf
  obtain ⟨_, _, hstores⟩ := hm.section_next hl hbody
  dsimp only at hs
  simp only [hs, Bool.false_eq_true, if_false] at hstores
  rw [hstores]
  exact hasRing_startWithId _ _ _

theorem hasRing_chunk (hm : s.Moves env s' l) {added : Nat}
    (hf : IngestsChunk env ⟨s, l, s'⟩ jobId added)
    (hr : HasRing s.stores.capture jobId n) : HasRing s'.stores.capture jobId (n + added) := by
  obtain ⟨c, an, value, token, hl, hbody, hs, rfl, hok, rfl⟩ := hf
  obtain ⟨_, _, hstores⟩ := hm.section_next hl hbody
  dsimp only at hs hok
  simp only [hs, Bool.false_eq_true, if_false] at hstores
  rw [hstores]
  change HasRing (ingestSection (audioChunk env value) s.stores.capture).2 _ _
  rw [ingestSection_queue]
  exact hr.ingest hok

/-- A step that starts no capture of a job and ingests no chunk of it keeps its ring. -/
theorem hasRing_other
    (hrings : ∀ c value body, s.Handling c value body → Throughout (Rings env value) body)
    (hm : s.Moves env s' l) (hstarts : ¬ StartsCapture ⟨s, l, s'⟩ jobId)
    (hchunk : ∀ added, ¬ IngestsChunk env ⟨s, l, s'⟩ jobId added)
    (hr : HasRing s.stores.capture jobId n) : HasRing s'.stores.capture jobId n := by
  cases hm with
  | @acts c an value body body' hbody _ hnext _ =>
    cases (hrings c value body hbody).self with
    | keeps hkeeps =>
      exact hr.same (keepsRings_next hkeeps hnext)
    | start token videoId asrMeta =>
      obtain ⟨_, hstores⟩ := hnext.of_lock
      rw [hstores]
      dsimp only
      split
      · exact hr
      next hs =>
      have hne : jobId ≠ value.strOr "jobId" "" := by
        rintro rfl
        exact hstarts ⟨c, an, value, token, videoId, asrMeta, rfl, hbody, by simpa using hs⟩
      intro job hjob
      exact hr job (CaptureJobQueue.get_put_ne _ _ hne ▸ hjob)
    | chunk token =>
      rw [handleAudioChunk_eq] at hnext
      obtain ⟨_, hstores⟩ := hnext.of_lock
      rw [hstores]
      dsimp only
      split
      · exact hr
      next hs =>
      dsimp only
      rw [ingestSection_queue]
      by_cases hjob : jobId = (audioChunk env value).jobId
      · rw [ingest_rejected]
        · exact hr
        · intro hok
          exact hchunk _ ⟨c, an, value, token, rfl, hbody, by simpa using hs, hjob.symm, hok, rfl⟩
      · exact hr.ingest_other hjob
  | ends _ _ hstores _ _ => exact hstores ▸ hr
  | cancels hstores _ => exact hstores ▸ hr
  | quiet hsame _ _ => exact hsame.capture ▸ hr

/-- After every step the ring of a job holds what was ingested. -/
theorem hasRing_step
    (hrings : ∀ c value body, s.Handling c value body → Throughout (Rings env value) body)
    (hr : ∀ n, Ingested env jobId h n → HasRing s.stores.capture jobId n) (hm : s.Moves env s' l)
    (hi : Ingested env jobId (⟨s, l, s'⟩ :: h) n) : HasRing s'.stores.capture jobId n := by
  cases hi with
  | starts hf => exact hasRing_starts hm hf
  | chunk hi hf => exact hasRing_chunk hm hf (hr _ hi)
  | other hi hstarts hchunk => exact hasRing_other hrings hm hstarts hchunk (hr _ hi)

/-- The sections of a handler after a step. -/
theorem rings_step
    (hrings : ∀ c value body, s.Handling c value body → Throughout (Rings env value) body)
    (hm : s.Moves env s' l) {c : Nat} {value : Json} {body : Handler Unit}
    (hbody : s'.Handling c value body) : Throughout (Rings env value) body := by
  refine hm.handlers (Q := fun _ value body => Throughout (Rings env value) body) ?_ ?_ ?_ hbody
  · exact fun c an value body body' _ hbody hnext => (hrings c value body hbody).next hnext
  · exact fun c value body _ hbody => hrings c value body hbody
  · exact fun c value body hs => rings_starts hs

end Invariant

/-! ## The cue of a transcript -/

/-- The transcript has the cue of a snapshot of `length` samples. -/
def HasCue (message : Json) (length : Nat) : Prop :=
  ∃ cue, transcriptCues message = [cue] ∧ cue.get "startMs" = some (.nat 0) ∧
    cue.get "endMs" = some (.nat (max (length * 1000 / 16000) 500))

theorem hasCue_sendTranscript (jobId token videoId : String) (captureRunning : Bool) (pcm : PcmMono)
    (modelId : String) (mode : InferenceMode) :
    Sends (fun message => IsTranscript message → HasCue message pcm.samples.length)
      (sendTranscript jobId token videoId captureRunning pcm modelId mode) := by
  refine sends_runAsrOnPcm_bind (fun text => ?_) fun e => ?_
  · refine ⟨fun _ => ?_, ?_⟩
    · cases decide (mode = .offlineMock) with
      | true | false => exact ⟨_, rfl, rfl, rfl⟩
    · split
      · exact fun _ => ⟨fun ht => absurd ht (by simp [IsTranscript, strOr_type]), trivial⟩
      · trivial
  · exact ⟨fun ht => absurd ht (by simp [IsTranscript, strOr_type]), trivial⟩

theorem nat_injective {m n : Nat} (h : Json.nat m = Json.nat n) : m = n :=
  Int.ofNat.inj (Json.int.inj h)

theorem HasCue.within_iff {message : Json} {length : Nat} (hcue : HasCue message length)
    (start stop : Rat) :
    CuesWithin message start stop ↔
      start ≤ 0 ∧ ((max (length * 1000 / 16000) 500 : Nat) : Rat) ≤ stop := by
  obtain ⟨cue, hcues, hstart, hend⟩ := hcue
  unfold CuesWithin
  rw [hcues]
  constructor
  · intro hall
    obtain ⟨startMs, endMs, hstart', hend', hle, hle'⟩ := hall cue List.mem_cons_self
    rw [hstart, Option.some.injEq] at hstart'
    rw [hend, Option.some.injEq] at hend'
    rw [← nat_injective hstart'] at hle
    rw [nat_injective hend']
    exact ⟨by exact_mod_cast hle, hle'⟩
  · rintro ⟨hle, hle'⟩ cue' hcue'
    rw [List.mem_singleton.1 hcue']
    exact ⟨0, _, hstart, hend, by exact_mod_cast hle, hle'⟩

/-- The cue of a snapshot lies within its time when nothing was dropped and half a second was heard.
-/
theorem HasCue.fits_iff {message : Json} {length n : Nat} (hcue : HasCue message length)
    (hlength : length = min n 480000) :
    CuesWithin message (((n : Rat) - length) / 16) (n / 16) ↔ 8000 ≤ n ∧ n ≤ 480000 := by
  have hstart : ((n : Rat) - length) / 16 ≤ 0 ↔ n ≤ length := by
    rw [div_le_iff₀ (by norm_num), zero_mul, sub_nonpos]
    exact Nat.cast_le
  have hstop : ((max (length * 1000 / 16000) 500 : Nat) : Rat) ≤ n / 16 ↔
      max (length * 1000 / 16000) 500 * 16 ≤ n := by
    rw [le_div_iff₀ (by norm_num)]
    exact_mod_cast Iff.rfl
  rw [hcue.within_iff, hstart, hstop]
  omega

/-- Where the handler of a connection is, after the steps `h`. -/
inductive Cued (env : External) (h : List (Fired Companion CompanionEvent)) (c : Nat)
    (value : Json) :
    Handler Unit → Prop
  /-- It sends no transcript. -/
  | silent {body : Handler Unit} (hb : Sends (fun message => ¬ IsTranscript message) body) :
      Cued env h c value body
  | chunk (token : String) : Cued env h c value (handleAudioChunk env value token)
  | capture (token : String) : Cued env h c value (transcribeCapture (value.strOr "jobId" "") token)
  | segment (token videoId : String) (captureRunning : Bool) (modelId : String)
      (mode : InferenceMode) :
      Cued env h c value
        (transcribeSegment (value.strOr "jobId" "") token videoId captureRunning modelId mode)
  /-- Its transcript has the cue of the snapshot that it has taken. -/
  | taken {body : Handler Unit} {length : Nat} {past : List (Fired Companion CompanionEvent)}
      (hl : LastSnapshot c (value.strOr "jobId" "") length past h)
      (hlength : ∀ n, Ingested env (value.strOr "jobId" "") past n → length = min n 480000)
      (hb : Sends (fun message => IsTranscript message → HasCue message length) body) :
      Cued env h c value body

section Invariant

variable {env : External} {h : List (Fired Companion CompanionEvent)} {s s' : Companion}
  {l : CompanionEvent}

theorem cued_starts {c : Nat} {value : Json} {body : Handler Unit} (hs : Starts env value body) :
    Cued env h c value body := by
  rcases undecided_starts hs with ⟨token, _, rfl⟩ | hsilent
  · exact .chunk token
  · exact .silent hsilent

/-- A handler keeps its snapshot while others act. -/
theorem Cued.others {f : Fired Companion CompanionEvent} {c : Nat} {value : Json}
    {body : Handler Unit} (hC : Cued env h c value body) (hf : f.post.Handling c value body)
    (hl : ∀ an, f.label ≠ .server (.act c an)) : Cued env (f :: h) c value body := by
  cases hC with
  | silent hb => exact .silent hb
  | chunk token => exact .chunk token
  | capture token => exact .capture token
  | segment => exact .segment _ _ _ _ _
  | taken hlast hlength hb =>
    refine .taken (hlast.later ⟨_, _, hf⟩ ?_) hlength hb
    rintro n ⟨an, _, _, _, _, _, _, _, hact, _⟩
    exact hl an hact

/-- A snapshot that is taken has what the ring holds, and the transcript is made from it. -/
theorem cued_takes {jobId token videoId : String} {captureRunning : Bool} {modelId : String}
    {mode : InferenceMode} {t : Nat} {an : Answers} {st st' : Stores} {body' : Handler Unit}
    {pcm : PcmMono}
    (hs : st.capturePoisoned = false) (hpcm : st.capture.snapshotPcm jobId = .ok pcm)
    (hn : Next t an (transcribeSegment jobId token videoId captureRunning modelId mode) st
      body' st') :
    Sends (fun message => IsTranscript message → HasCue message pcm.samples.length) body' := by
  obtain ⟨rfl, _⟩ := hn.of_lock
  simp only [hs, Bool.false_eq_true, if_false, hpcm, Handler.bind]
  exact sends_lockCapture.bind fun _ => hasCue_sendTranscript _ _ _ _ _ _ _

theorem length_snapshotPcm {q : CaptureJobQueue} {jobId : String} {n : Nat} {pcm : PcmMono}
    (hr : HasRing q jobId n) (hpcm : q.snapshotPcm jobId = .ok pcm) :
    pcm.samples.length = min n 480000 := by
  unfold CaptureJobQueue.snapshotPcm at hpcm
  split at hpcm
  · next job hjob =>
    dsimp only at hpcm
    split at hpcm
    · cases hpcm
    · obtain rfl := Except.ok.inj hpcm
      rw [RingBuffer.snapshot_length, (hr job hjob).lenSamples]
  · cases hpcm

/-- A segment whose snapshot fails is not transcribed. -/
theorem silent_transcribeSegment {jobId token videoId : String} {captureRunning : Bool}
    {modelId : String}
    {mode : InferenceMode} {t : Nat} {an : Answers} {st st' : Stores} {body' : Handler Unit}
    (hnot : ∀ pcm, st.capturePoisoned = false → st.capture.snapshotPcm jobId ≠ .ok pcm)
    (hn : Next t an (transcribeSegment jobId token videoId captureRunning modelId mode) st
      body' st') :
    Sends (fun message => ¬ IsTranscript message) body' := by
  obtain ⟨rfl, _⟩ := hn.of_lock
  cases hs : st.capturePoisoned with
  | true =>
    simp only [hs, if_true]
    trivial
  | false =>
    cases hpcm : st.capture.snapshotPcm jobId with
    | ok pcm => exact absurd hpcm (hnot pcm hs)
    | error e =>
      simp only [hs, Bool.false_eq_true, if_false, hpcm]
      trivial

/-- A handler keeps its snapshot, or takes one, when it acts. -/
theorem Cued.act {c : Nat} {an : Answers} {value : Json} {body body' : Handler Unit}
    (hr : ∀ jobId n, Ingested env jobId h n → HasRing s.stores.capture jobId n)
    (hC : Cued env h c value body) (hbody : s.Handling c value body)
    (hbody' : s'.Handling c value body')
    (hnext : Next s.server.now (an.under s.models) body s.stores body' s'.stores) :
    Cued env (⟨s, .server (.act c an), s'⟩ :: h) c value body' := by
  by_cases htakes : ∃ length,
      TakesSnapshot ⟨s, .server (.act c an), s'⟩ c (value.strOr "jobId" "") length
  · obtain ⟨length, htakes⟩ := htakes
    have htaken := htakes
    obtain ⟨_, value', _, _, _, _, _, pcm, _, hsegment, hs, hpcm, rfl⟩ := htakes
    obtain ⟨-, rfl⟩ := hbody.unique hsegment
    exact .taken (.takes htaken) (fun n hn => length_snapshotPcm (hr _ n hn) hpcm)
      (cued_takes hs hpcm hnext)
  cases hC with
  | silent hb => exact .silent (hb.next hnext)
  | chunk token =>
    rcases next_handleAudioChunk_capture hnext with hsilent | rfl
    · exact .silent hsilent
    · exact .capture token
  | capture token =>
    rcases next_transcribeCapture hnext with hsilent | ⟨_, job, _, _, rfl⟩
    · exact .silent hsilent
    · exact .segment _ _ _ _ _
  | segment token videoId captureRunning modelId mode =>
    refine .silent (silent_transcribeSegment (fun pcm hs hpcm => ?_) hnext)
    exact htakes ⟨_, an, value, token, videoId, captureRunning, modelId, mode, pcm, rfl, hbody,
      hs, hpcm, rfl⟩
  | taken hlast hlength hb =>
    exact .taken (hlast.later ⟨_, _, hbody'⟩ fun n hn => htakes ⟨n, hn⟩) hlength (hb.next hnext)

theorem cued_step (hr : ∀ jobId n, Ingested env jobId h n → HasRing s.stores.capture jobId n)
    (hC : ∀ c value body, s.Handling c value body → Cued env h c value body)
    (hm : s.Moves env s' l) {c : Nat} {value : Json} {body : Handler Unit}
    (hbody : s'.Handling c value body) : Cued env (⟨s, l, s'⟩ :: h) c value body := by
  have hlater := hm.handlers (Q := fun c value body => s'.Handling c value body →
    Cued env (⟨s, l, s'⟩ :: h) c value body) ?_ ?_ ?_ hbody
  · exact hlater hbody
  · rintro c an value body body' rfl hbody hnext hbody'
    exact (hC c value body hbody).act hr hbody hbody' hnext
  · exact fun c value body hl hbody hbody' => (hC c value body hbody).others hbody' hl
  · exact fun c value body hs _ => cued_starts hs

end Invariant

/-- What holds of the rings and the handlers after the steps `h`. -/
structure InTime (env : External) (h : List (Fired Companion CompanionEvent)) (s : Companion) :
    Prop where
  rings : ∀ c value body, s.Handling c value body → Throughout (Rings env value) body
  hasRing : ∀ jobId n, Ingested env jobId h n → HasRing s.stores.capture jobId n
  cued : ∀ c value body, s.Handling c value body → Cued env h c value body

section Run

variable {env : External} {debug : Bool} {bootstrapToken : String} {pinned : Option String}
  {sqlite : Option SqliteStore} {now : Nat} {models : Option ModelManager}
  {h : List (Fired Companion CompanionEvent)} {s : Companion}

theorem inTime_start :
    InTime env [] (.start bootstrapToken pinned sqlite now models) := by
  have hidle (c : Nat) (value : Json) (body : Handler Unit) :
      ¬ (Companion.start bootstrapToken pinned sqlite now models).Handling c value body := by
    rintro ⟨conn, hconn, _⟩
    simp [Companion.start, Server.start] at hconn
  refine ⟨fun c value body hbody => absurd hbody (hidle c value body), ?_,
    fun c value body hbody => absurd hbody (hidle c value body)⟩
  intro jobId n _ job hjob
  cases hjob

theorem InTime.step {s' : Companion} {l : CompanionEvent} (hI : InTime env h s)
    (hm : s.Moves env s' l) :
    InTime env (⟨s, l, s'⟩ :: h) s' where
  rings _ _ _ := rings_step hI.rings hm
  hasRing jobId _ := hasRing_step hI.rings (hI.hasRing jobId) hm
  cued _ _ _ := cued_step hI.hasRing hI.cued hm

/-- The rings and the handlers are in time after every run, and before each of its steps. -/
theorem run_inTime
    (hr : Run (Companion.step env debug) (.start bootstrapToken pinned sqlite now models) h s) :
    InTime env h s ∧ Meets (fun h f => InTime env h f.pre) h := by
  refine Run.invHist (fun h s => InTime env h s ∧ Meets (fun h f => InTime env h f.pre) h)
    ⟨inTime_start, trivial⟩ ?_ hr
  rintro h s l s' hr ⟨hI, hbefore⟩ hs
  exact ⟨hI.step (Companion.run_moves hr hs), hI, hbefore⟩

/-- A transcript that is about to be sent has the cue of the last snapshot. -/
theorem InTime.hasCue (hI : InTime env h s) {c : Nat} {value message : Json} {next : Handler Unit}
    (hsend : s.Handling c value (.send message next)) (hm : IsTranscript message) :
    ∃ length past, LastSnapshot c (value.strOr "jobId" "") length past h ∧
      (∀ n, Ingested env (value.strOr "jobId" "") past n → length = min n 480000) ∧
      HasCue message length := by
  have hC := hI.cued c value _ hsend
  cases hC with
  | silent hb => exact absurd hm hb.1
  | taken hl hlength hb => exact ⟨_, _, hl, hlength, hb.1 hm⟩

/-- The cues of the transcripts carry the time of their audio in a run if and only if every capture
was long enough for the shortest cue and no longer than the ring when its snapshot was taken. -/
theorem carries_interval_iff
    (hr : Run (Companion.step env debug) (.start bootstrapToken pinned sqlite now models) h s) :
    Meets (CarriesInterval env) h ↔ Meets (FitsRing env) h := by
  refine Meets.congr ?_ (run_inTime hr).2
  intro h f hI
  have hfits {c : Nat} {value message : Json} {next : Handler Unit}
      (hsend : f.pre.Handling c value (.send message next)) (hm : IsTranscript message)
        {length n : Nat}
      {past : List (Fired Companion CompanionEvent)}
      (hl : LastSnapshot c (value.strOr "jobId" "") length past h)
      (hn : Ingested env (value.strOr "jobId" "") past n) :
      CuesWithin message (((n : Rat) - length) / 16) (n / 16) ↔ 8000 ≤ n ∧ n ≤ 480000 := by
    obtain ⟨length', past', hl', hlength, hcue⟩ := hI.hasCue hsend hm
    obtain ⟨rfl, rfl⟩ := hl.unique hl'
    exact hcue.fits_iff (hlength n hn)
  constructor
  · rintro ⟨_, hwithin⟩ c an value message next hl hsend hm length past n hlast hn
    exact (hfits hsend hm hlast hn).1
      (hwithin c an value message next hl hsend hm length past n hlast hn)
  · intro hall
    refine ⟨fun c an value message next _ hsend hm => ?_, ?_⟩
    · obtain ⟨length, past, hlast, _, _⟩ := hI.hasCue hsend hm
      obtain ⟨n, hn⟩ := exists_ingested env (value.strOr "jobId" "") past
      exact ⟨length, past, n, hlast, hn⟩
    · intro c an value message next hl hsend hm length past n hlast hn
      exact (hfits hsend hm hlast hn).2
        (hall c an value message next hl hsend hm length past n hlast hn)

end Run

/-! ## Runs with a transcript -/

theorem ringAfter_heard (quads : Nat) (videoId : String) :
    RingAfter (3 * quads / 2) (heard quads videoId).ring := by
  have hpush := ringAfter_new.pushSlice (pcmI16LeToF32 (audioBytes quads))
  rw [pcmI16LeToF32_length, audioBytes, List.length_replicate, Nat.zero_add] at hpush
  exact hpush

/-- A step sends no transcript. -/
def SendsNone (f : Fired Companion CompanionEvent) : Prop :=
  ∀ c an value message next, f.label = .server (.act c an) →
    f.pre.Handling c value (.send message next) → ¬ IsTranscript message

theorem Unasked.sendsNone {c : Nat} {f : Fired Companion CompanionEvent} (hf : Unasked c f) :
    SendsNone f := by
  intro d an value message next hl hsend
  obtain rfl := hf.acting d an hl
  exact (hf.handling _ _ hsend).transcript _ _ rfl

theorem Untouched.sendsNone {f : Fired Companion CompanionEvent} (hf : Untouched f) : SendsNone f :=
  fun c _ value _ _ _ hsend => absurd hsend (hf.2 c value _)

/-- A step of a handler that does not send a transcript next. -/
theorem sendsNone_of_handling {s s' : Companion} {c : Nat} {an : Answers} {value : Json}
    {body : Handler Unit} (hbody : s.Handling c value body)
    (hne : ∀ message next, body = .send message next → ¬ IsTranscript message) :
    SendsNone ⟨s, .server (.act c an), s'⟩ := by
  intro d an' value' message next hl hsend
  obtain ⟨rfl, rfl⟩ := ServerEvent.act.inj (CompanionEvent.server.inj hl)
  exact hne message next (hbody.unique hsend).2.symm

theorem meets_of_sendsNone {env : External} {h : List (Fired Companion CompanionEvent)}
    (hh : ∀ f ∈ h, SendsNone f) : Meets (FitsRing env) h := by
  induction h with
  | nil => trivial
  | cons f h ih =>
    refine ⟨?_, ih fun g hg => hh g (List.mem_cons_of_mem _ hg)⟩
    intro c an value message next hl hsend hm
    exact absurd hm (hh f List.mem_cons_self c an value message next hl hsend)

/-- Silence of more than a second is captured: a transcript is sent, and its snapshot was taken
after this silence. -/
theorem SessionAt.transcribesHeard {quads : Nat} (hmany : 16000 < 3 * quads / 2)
    {h : List (Fired Companion CompanionEvent)} {s : Companion} {stores : Stores}
    (hr : Run (Companion.step (hears quads "") false) (startedWith none) h s)
    (hat : SessionAt none 1000 0 (randomToken 1 2) s .listening stores)
    (hs : stores.capturePoisoned = false) :
    ∃ h' f s' value message next length past,
      Run (Companion.step (hears quads "") false) (startedWith none) (f :: h') s' ∧
      f.label = .server (.act 0 default) ∧ f.pre.Handling 0 value (.send message next) ∧
      IsTranscript message ∧ value.strOr "jobId" "" = "a" ∧ LastSnapshot 0 "a" length past h' ∧
      (∀ n, Ingested (hears quads "") "a" past n → RingAfter n (heard quads "v").ring) ∧
      ∀ f' ∈ h', f' ∈ h ∨ SendsNone f' := by
  -- The job is submitted, and the silence comes to its capture.
  obtain ⟨h₁, s₁, stores₁, hr₁, hsteps₁, hat₁, hs₁⟩ := hat.submits false quads ""
  obtain ⟨plan, hstart⟩ : ∃ plan, Next 1000 (Answers.under none default)
      (runAsrJob (randomToken 1 2) "a" "v" (.obj [("modelId", .str "")])) stores₁
      (startCapture (randomToken 1 2) "a" "v" plan) stores₁ :=
    next_runAsrJob _ _ _ fun e he => by cases he
  obtain ⟨s₂, hs₂, hat₂⟩ := hat₁.act (hears quads "") false default hstart
  obtain ⟨h₃, s₃, stores₃, hr₃, hsteps₃, hat₃, hs₃, hjob⟩ :=
    hat₂.captures false quads (hs₁.trans hs)
  have hfilled : (heard quads "v").ring.lenSamples ≠ 0 := by
    rw [heard_lenSamples]
    omega
  obtain ⟨s₄, s₅, s₆, s₇, videoId, running, marking, message, next, hs₄, hat₄, hs₅, hat₅,
    hmarking, hs₆,
    hsend, hm, hs₇⟩ := hat₃.transcribes (hears quads "") false rfl hs₃ hjob
      (asrDecision_heard hmany "v")
      hfilled
  have hrun₄ := (((hr.append hr₁).cons hs₂).append hr₃).cons hs₄
  -- The ring holds the silence before the snapshot and after it.
  have hring {h : List (Fired Companion CompanionEvent)} {s : Companion}
      (hr : Run (Companion.step (hears quads "") false) (startedWith none) h s)
        (hstores : s.stores = stores₃)
      {n : Nat} (hn : Ingested (hears quads "") "a" h n) : RingAfter n (heard quads "v").ring :=
    (run_inTime hr).1.hasRing "a" n hn _ (hstores ▸ hjob)
  obtain ⟨pcm, hpcm⟩ : ∃ pcm, stores₃.capture.snapshotPcm "a" = .ok pcm :=
    ⟨_, CaptureJobQueue.snapshotPcm_eq hjob hfilled⟩
  have htakes : TakesSnapshot ⟨s₄, .server (.act 0 default), s₅⟩ 0 "a" pcm.samples.length :=
    ⟨_, _, _, _, _, _, _, pcm, rfl, hat₄.handling, hat₄.stores ▸ hs₃, hat₄.stores ▸ hpcm, rfl⟩
  have hlast : ∃ length past, LastSnapshot 0 "a" length past (⟨s₅, .server (.act 0 default), s₆⟩ ::
        ⟨s₄, .server (.act 0 default), s₅⟩ :: ⟨s₃, .server (.act 0 default), s₄⟩ ::
          (h₃ ++ ⟨s₁, .server (.act 0 default), s₂⟩ :: (h₁ ++ h))) ∧
      ∀ n, Ingested (hears quads "") "a" past n → RingAfter n (heard quads "v").ring := by
    by_cases hmarks : ∃ n, TakesSnapshot ⟨s₅, .server (.act 0 default), s₆⟩ 0 "a" n
    · obtain ⟨n, hmarks⟩ := hmarks
      exact ⟨n, _, .takes hmarks, fun n hn => hring (hrun₄.cons hs₅) hat₅.stores hn⟩
    · exact ⟨_, _, (LastSnapshot.takes htakes).later ⟨_, _, hsend⟩ fun n hn => hmarks ⟨n, hn⟩,
        fun n hn => hring hrun₄ hat₄.stores hn⟩
  obtain ⟨length, past, hlast, hpast⟩ := hlast
  refine ⟨_, _, s₇, _, message, next, length, past, ((hrun₄.cons hs₅).cons hs₆).cons hs₇, rfl,
    hsend, hm, rfl, hlast, hpast, ?_⟩
  simp only [List.mem_cons, List.mem_append]
  rintro f (rfl | rfl | rfl | hf | rfl | hf | hf)
  · exact Or.inr (sendsNone_of_handling hat₅.handling hmarking.transcript)
  · exact Or.inr (sendsNone_of_handling hat₄.handling nofun)
  · exact Or.inr (sendsNone_of_handling hat₃.handling nofun)
  · exact Or.inr (hsteps₃ f hf).sendsNone
  · exact Or.inr (sendsNone_of_handling hat₁.handling nofun)
  · exact Or.inr (hsteps₁ f hf).sendsNone
  · exact Or.inl hf

/-- A ring that is not full tells how many samples it has heard. -/
theorem RingAfter.eq_of_lt {m n : Nat} {ring : RingBuffer} (hm : RingAfter m ring)
    (hn : RingAfter n ring) (hlt : m < 480000) : n = m := by
  have hlen := hm.lenSamples.symm.trans hn.lenSamples
  omega

/-- A capture of 480018 samples is longer than the ring: its cue starts at 0, and the oldest 18
samples are gone. -/
theorem not_carries_interval : ¬ ∀ (env : External) (debug : Bool) (bootstrapToken : String)
    (pinned : Option String) (sqlite : Option SqliteStore) (now : Nat)
    (models : Option ModelManager) (h : List (Fired Companion CompanionEvent)) (s : Companion),
    Run (Companion.step env debug) (.start bootstrapToken pinned sqlite now models) h s →
      Meets (CarriesInterval env) h := by
  intro hall
  obtain ⟨h, s, hr, hat, hs, _⟩ := connected (hears 320012 "") none (by decide +kernel)
  obtain ⟨h', f, s', value, message, next, length, past, hr', hl, hsend, hm, hjob, hlast,
    hpast, _⟩ :=
    hat.transcribesHeard (by decide) hr hs
  obtain ⟨n, hn⟩ := exists_ingested (hears 320012 "") "a" past
  have hwithin :=
    (hall _ _ _ _ _ _ _ _ _ hr').1.within 0 default value message next hl hsend hm length
    past n (hjob ▸ hlast) (hjob ▸ hn)
  obtain ⟨length', past', hlast', hlength, hcue⟩ := (run_inTime hr').2.1.hasCue hsend hm
  rw [hjob] at hlast' hlength
  obtain ⟨rfl, rfl⟩ := hlast.unique hlast'
  have hfits := (hcue.fits_iff (hlength n hn)).1 hwithin
  have hwrite := (hpast n hn).write.symm.trans (ringAfter_heard 320012 "v").write
  have hlen := (hpast n hn).lenSamples.symm.trans (ringAfter_heard 320012 "v").lenSamples
  omega

/-- A capture of 16002 samples has its cue in time. -/
theorem carries_interval_second : ∃ h s,
    Run (Companion.step (hears 10668 "") false)
    (.start "bootstrap" (some "abcdefgh") none 1000 none) h s ∧
    (∃ f ∈ h, ∃ c an value message next, f.label = .server (.act c an) ∧
      f.pre.Handling c value (.send message next) ∧ IsTranscript message) ∧
    Meets (CarriesInterval (hears 10668 "")) h := by
  obtain ⟨h, s, hr, hat, hs, huntouched⟩ := connected (hears 10668 "") none (by decide +kernel)
  obtain ⟨h', f, s', value, message, next, length, past, hr', hl, hsend, hm, hjob, hlast, hpast,
    hsteps⟩ :=
    hat.transcribesHeard (by decide) hr hs
  have hquiet : ∀ f' ∈ h', SendsNone f' := fun f' hf' =>
    (hsteps f' hf').elim (fun hf => (huntouched f' hf).sendsNone) id
  refine ⟨f :: h', s', hr', ⟨f, List.mem_cons_self, 0, default, value, message, next, hl, hsend,
    hm⟩, ?_⟩
  refine (carries_interval_iff hr').2 ⟨?_, meets_of_sendsNone hquiet⟩
  intro c an value' message' next' hl' hsend' hm' length' past' n hlast' hn
  rw [hl] at hl'
  obtain ⟨rfl, rfl⟩ := ServerEvent.act.inj (CompanionEvent.server.inj hl')
  obtain ⟨rfl, _⟩ := hsend.unique hsend'
  rw [hjob] at hlast' hn
  obtain ⟨rfl, rfl⟩ := hlast.unique hlast'
  have hcount := (ringAfter_heard 10668 "v").eq_of_lt (hpast n hn) (by decide)
  omega

end LanguageLlm.Desktop
