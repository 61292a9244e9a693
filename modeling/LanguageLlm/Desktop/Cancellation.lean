import LanguageLlm.Desktop.Companion

/-!
# Cancellation

A job is cancelled in the registry and in the capture queue, each under its own mutex.
`cancellation_effective` says which steps keep the two in step, so that a cancelled ASR job captures
nothing more. The command `cancel_job` is not among them: it cancels in the registry alone.
-/

namespace LanguageLlm.Desktop

open Lib Handler

/-! ## Cancelled jobs -/

/-- The registry holds an ASR job as cancelled. -/
def CancelledAsr (s : Stores) (jobId : String) : Prop :=
  ∃ job, s.jobs.get jobId = some job ∧ job.kind = .asr ∧ job.status = .cancelled

/-- The capture of a job is cancelled, or there is none. -/
def CaptureStopped (q : CaptureJobQueue) (jobId : String) : Prop :=
  ∀ job, q.get jobId = some job → job.state = .cancelled

/-- The answer to a chunk that is rejected. -/
def chunkRejected (token : String) : Json :=
  .obj [("type", .str "error"), ("sessionToken", .str token), ("code", .str "audio-ingest"),
    ("message", .str MediaError.cancelled.toString), ("fatal", .bool false)]

/-- `job.cancel` is between its two sections. -/
def Cancelling (s : Companion) (jobId : String) : Prop :=
  ∃ c value token ok, s.Handling c value (cancelCapture token jobId ok)

/-! ## The claim -/

/-- The cancellation of the ASR jobs is effective, but for jobs that a `job.cancel` is cancelling:
their captures are stopped, and every chunk for them is rejected. -/
structure CancellationEffective (env : External) (s : Companion) : Prop where
  stopped : ∀ jobId, CancelledAsr s.stores jobId → ¬ Cancelling s jobId →
    CaptureStopped s.stores.capture jobId
  rejected : ∀ jobId, CancelledAsr s.stores jobId → ¬ Cancelling s jobId →
    ∀ (others : Stores → Stores → Prop) (value : Json) (token : String) (sent : List Json)
      (stores : Stores), (audioChunk env value).jobId = jobId →
      Exec others (handleAudioChunk env value token) s.stores sent () stores →
      sent = [] ∨ sent = [chunkRejected token]

/-- A step sends no transcript for a cancelled ASR job. -/
def SilentWhenCancelled (f : Fired Companion CompanionEvent) : Prop :=
  ∀ c an value message next, f.label = .server (.act c an) →
    f.pre.Handling c value (.send message next) → IsTranscript message →
    ¬ CancelledAsr f.pre.stores (value.strOr "jobId" "")

/-! ## The condition -/

/-- A handler has not ingested its chunk yet, or has no transcript to send. -/
def Undecided (env : External) (value : Json) (body : Handler Unit) : Prop :=
  (∃ token, value.strOr "type" "" = "audio.chunk" ∧ body = handleAudioChunk env value token) ∨
    Sends (fun message => ¬ IsTranscript message) body

/-- A step cancels an ASR job in the registry. -/
def CancelsAsr (f : Fired Companion CompanionEvent) (jobId : String) : Prop :=
  (∃ job, f.pre.stores.jobs.get jobId = some job ∧ job.kind = .asr) ∧
    (f.label = .cancelJob jobId ∨
      ∃ c an value token, f.label = .server (.act c an) ∧
        value.strOr "type" "" = "job.cancel" ∧ value.strOr "jobId" "" = jobId ∧
        f.pre.Handling c value (handleJobCancel value token))

/-- The steps that keep the registry and the capture queue in step. -/
structure KeepsInStep (env : External) (f : Fired Companion CompanionEvent) : Prop where
  /-- `cancel_job` is used only for jobs that capture nothing. -/
  command : ∀ jobId, f.label = .cancelJob jobId → CancelsAsr f jobId →
    CaptureStopped f.pre.stores.capture jobId
  /-- A capture is not started for an ASR job that was cancelled meanwhile. -/
  started : ∀ c an value token jobId videoId asrMeta, f.label = .server (.act c an) →
    f.pre.Handling c value (startCapture token jobId videoId asrMeta) →
    ∀ job, f.pre.stores.jobs.get jobId = some job → job.kind = .asr → job.cancelled = false
  /-- No thread has panicked with the capture queue when `job.cancel` comes to it. -/
  unpoisoned : ∀ c an value token jobId ok, f.label = .server (.act c an) →
    f.pre.Handling c value (cancelCapture token jobId ok) → f.pre.stores.capturePoisoned = false
  /-- No chunk of the job that was ingested before still waits for its transcript. -/
  drained : ∀ jobId, CancelsAsr f jobId → ∀ c value body, f.pre.Handling c value body →
    value.strOr "jobId" "" = jobId → Undecided env value body
  /-- No chunk of the job is ingested between the two sections of `job.cancel`. -/
  apart : ∀ c an value token, f.label = .server (.act c an) →
    value.strOr "type" "" = "audio.chunk" →
      f.pre.Handling c value (handleAudioChunk env value token) →
    ¬ Cancelling f.pre (value.strOr "jobId" "")

/-! ## What the sections keep -/

/-- The registry has set the flag of a cancelled ASR job. -/
def AsrFlagged (s : Stores) (jobId : String) : Prop :=
  ∃ job, s.jobs.get jobId = some job ∧ job.kind = .asr ∧ job.cancelled = true

/-- Jobs with the status `Cancelled` have their flag. -/
def Flagged (r : JobRegistry) : Prop :=
  ∀ jobId job, r.get jobId = some job → job.status = .cancelled → job.cancelled = true

/-- A section cancels no job in the registry and starts no capture. -/
structure Tame (s s' : Stores) : Prop where
  asrFlagged : ∀ jobId, AsrFlagged s' jobId → AsrFlagged s jobId
  flagged : Flagged s.jobs → Flagged s'.jobs
  stopped : ∀ jobId, CaptureStopped s.capture jobId → CaptureStopped s'.capture jobId

theorem SameJobs.tame {s s' : Stores} (h : SameJobs s s') : Tame s s' := by
  constructor
  · rintro jobId ⟨job, hjob, hasr⟩
    exact ⟨job, h.jobs ▸ hjob, hasr⟩
  · intro hf
    rw [h.jobs]
    exact hf
  · intro jobId hs job hjob
    exact hs job (h.capture ▸ hjob)

theorem tame_self (s : Stores) : Tame s s := SameJobs.tame ⟨rfl, rfl, rfl⟩

/-- A job is written to the registry with the flag that it had. -/
theorem tame_put {s : Stores} {jobId : String} {job' : TrackedJob}
    (hflag : job'.cancelled = true → ∃ job, s.jobs.get jobId = some job ∧ job.kind = job'.kind ∧
      job.cancelled = true)
    (hstatus : job'.status = .cancelled → job'.cancelled = true) :
    Tame s { s with jobs := s.jobs.put jobId job' } := by
  constructor
  · rintro id ⟨job, hjob, hasr, hcancelled⟩
    by_cases hid : id = jobId
    · subst hid
      rw [JobRegistry.get_put_self, Option.some.injEq] at hjob
      subst hjob
      obtain ⟨job, hjob, hkind, hcancelled⟩ := hflag hcancelled
      exact ⟨job, hjob, hkind.trans hasr, hcancelled⟩
    · rw [JobRegistry.get_put_ne _ _ hid] at hjob
      exact ⟨job, hjob, hasr, hcancelled⟩
  · intro hf id job hjob
    by_cases hid : id = jobId
    · subst hid
      rw [JobRegistry.get_put_self, Option.some.injEq] at hjob
      exact hjob ▸ hstatus
    · rw [JobRegistry.get_put_ne _ _ hid] at hjob
      exact hf id job hjob
  · exact fun _ hs => hs

section Sections

variable (s : Stores) (jobId : String)

theorem tame_submit (kind : JobKind) (videoId : String) (payload : Json) :
    Tame s { s with jobs := s.jobs.submit jobId kind videoId payload } :=
  tame_put (by simp) (by simp)

theorem tame_pause : Tame s { s with jobs := (s.jobs.pause jobId).2 } := by
  unfold JobRegistry.pause
  split
  · next job hjob =>
    split
    · exact tame_self s
    · exact tame_put (fun h => ⟨job, hjob, rfl, h⟩) (by simp)
  · exact tame_self s

theorem tame_resume : Tame s { s with jobs := (s.jobs.resume jobId).2 } := by
  unfold JobRegistry.resume
  split
  · next job hjob =>
    split
    · exact tame_self s
    · exact tame_put (fun h => ⟨job, hjob, rfl, h⟩) (by simp)
  · exact tame_self s

theorem tame_runTranslate (mode : InferenceMode) (backend : Option Backend) (nowMs : Nat) :
    Tame s { s with jobs := (s.jobs.runTranslate jobId mode backend nowMs).2 } := by
  cases hjob : s.jobs.get jobId with
  | none =>
    simp only [JobRegistry.runTranslate, hjob]
    exact tame_self s
  | some job =>
    cases hcancelled : job.cancelled with
    | true =>
      simp only [JobRegistry.runTranslate, hjob, hcancelled, if_pos]
      exact tame_self s
    | false =>
      cases hpaused : job.paused with
      | true =>
        simp only [JobRegistry.runTranslate, hjob, hcancelled, hpaused]
        exact tame_self s
      | false =>
        rcases JobRegistry.runTranslate_cases hjob hcancelled hpaused mode backend nowMs with
          ⟨translated, message, heq⟩ | ⟨e, heq⟩ <;> rw [heq] <;>
          exact tame_put (fun h => ⟨job, hjob, rfl, h⟩) (by simp)

theorem tame_runPageTranslate (mode : InferenceMode) (backend : Option Backend) :
    Tame s { s with jobs := (s.jobs.runPageTranslate jobId mode backend).2 } := by
  unfold JobRegistry.runPageTranslate
  split
  · exact tame_self s
  · next job hjob =>
    split
    · next hcancelled => exact tame_put (fun h => ⟨job, hjob, rfl, h⟩) fun _ => hcancelled
    · exact tame_put (fun h => ⟨job, hjob, rfl, h⟩) (by simp)

theorem tame_unsupported (kindStr : String) :
    Tame s { s with jobs := s.jobs.unsupported jobId kindStr } := by
  unfold JobRegistry.unsupported
  split
  · next job hjob => exact tame_put (fun h => ⟨job, hjob, rfl, h⟩) (by simp)
  · exact tame_self s

end Sections

/-- A section of the capture queue that starts no capture. -/
def StaysStopped (q q' : CaptureJobQueue) : Prop :=
  ∀ jobId, CaptureStopped q jobId → CaptureStopped q' jobId

theorem staysStopped_put {q : CaptureJobQueue} {jobId : String} {job job' : CaptureJob}
    (hjob : q.get jobId = some job) (hstate : job.state = .cancelled → job'.state = .cancelled) :
    StaysStopped q (q.put jobId job') := by
  intro id hs job₁ hjob₁
  by_cases hid : id = jobId
  · subst hid
    rw [CaptureJobQueue.get_put_self, Option.some.injEq] at hjob₁
    exact hjob₁ ▸ hstate (hs job hjob)
  · rw [CaptureJobQueue.get_put_ne _ _ hid] at hjob₁
    exact hs job₁ hjob₁

theorem staysStopped_cancel (q : CaptureJobQueue) (jobId : String) :
    StaysStopped q (q.cancel jobId).2 := by
  unfold CaptureJobQueue.cancel
  split
  · next job hjob => exact staysStopped_put hjob fun _ => rfl
  · exact fun _ hs => hs

theorem staysStopped_pause (q : CaptureJobQueue) (jobId : String) :
    StaysStopped q (q.pause jobId).2 := by
  unfold CaptureJobQueue.pause
  split
  · next job hjob =>
    split
    · exact fun _ hs => hs
    · next hstate => exact staysStopped_put hjob fun h => absurd h hstate
  · exact fun _ hs => hs

theorem staysStopped_resume (q : CaptureJobQueue) (jobId : String) :
    StaysStopped q (q.resume jobId).2 := by
  unfold CaptureJobQueue.resume
  split
  · next job hjob =>
    split
    · next hstate => exact staysStopped_put hjob fun h => by rw [hstate] at h; cases h
    all_goals exact fun _ hs => hs
  · exact fun _ hs => hs

theorem staysStopped_ingest (q : CaptureJobQueue) (chunk : AudioChunkIngest) :
    StaysStopped q (q.ingestI16Le chunk).2 := by
  unfold CaptureJobQueue.ingestI16Le
  split
  · exact fun _ hs => hs
  · next job hjob =>
    cases hstate : job.state with
    | cancelled | paused => exact fun _ hs => hs
    | running | completed =>
      dsimp only
      split
      · exact fun _ hs => hs
      · exact staysStopped_put hjob fun h => by rw [hstate] at h; cases h

theorem staysStopped_mark (q : CaptureJobQueue) (jobId : String) (segment : Nat) :
    StaysStopped q (q.markAsrSegment jobId segment).2 := by
  unfold CaptureJobQueue.markAsrSegment
  split
  · next job hjob => exact staysStopped_put hjob id
  · exact fun _ hs => hs

/-! ## The handlers -/

theorem tame_lockJobs {α : Type} {f : Nat → JobRegistry → α × JobRegistry}
    (hf : ∀ t s, Tame s { s with jobs := (f t s.jobs).2 }) : Guarantees Tame (lockJobs f) :=
  fun t _ s => ⟨hf t s, trivial⟩

theorem tame_lockCapture {α : Type} {f : Answers → CaptureJobQueue → Option α × CaptureJobQueue}
    (hf : ∀ an q, StaysStopped q (f an q).2) : Guarantees Tame (lockCapture f) := by
  intro t an s
  refine ⟨?_, ?_⟩ <;> dsimp only
  · split
    · exact tame_self s
    · exact ⟨fun _ h => h, id, hf an s.capture⟩
  · split
    · trivial
    · split <;> trivial

theorem tame_transcribeCapture (jobId token : String) :
    Guarantees Tame (transcribeCapture jobId token) := by
  rw [transcribeCapture_eq]
  refine Guarantees.bind (tame_lockCapture fun _ _ _ hs => hs) fun decision => ?_
  split
  · trivial
  split
  · trivial
  refine Guarantees.bind (tame_lockCapture fun _ _ _ hs => hs) fun snapshot => ?_
  split
  · trivial
  refine Guarantees.bind (tame_lockCapture fun _ q => staysStopped_mark q _ _) fun _ => ?_
  exact lockless_sendTranscript.guarantees

theorem tame_handleAudioChunk (env : External) (value : Json) (token : String) :
    Guarantees Tame (handleAudioChunk env value token) := by
  rw [handleAudioChunk_eq]
  refine Guarantees.bind (tame_lockCapture fun _ q => ?_) fun ingested => ?_
  · unfold ingestSection
    split
    · exact fun _ hs => hs
    · split <;> exact staysStopped_ingest q _
  split
  · trivial
  · exact lockless_sendError.guarantees
  · exact tame_transcribeCapture _ _

/-- A handler is tame and sends no transcript. -/
structure Plain {α : Type} (h : Handler α) : Prop where
  tame : Guarantees Tame h
  silent : Sends (fun message => ¬ IsTranscript message) h

section Plain

variable {α β : Type}

theorem Plain.bind {h : Handler α} {f : α → Handler β} (hh : Plain h) (hf : ∀ a, Plain (f a)) :
    Plain (h >>= f) :=
  ⟨hh.tame.bind fun a => (hf a).tame, hh.silent.bind fun a => (hf a).silent⟩

theorem Apart.plain {h : Handler α} (hh : Apart h) : Plain h :=
  ⟨hh.keeps.mono fun _ _ => SameJobs.tame, hh.silent.mono fun message hm ht => hm (by
    rw [IsTranscript] at ht
    simp [ReportsJob, ht])⟩

theorem plain_lockJobs {f : Nat → JobRegistry → α × JobRegistry}
    (hf : ∀ t s, Tame s { s with jobs := (f t s.jobs).2 }) : Plain (lockJobs f) :=
  ⟨tame_lockJobs hf, fun _ _ _ => trivial⟩

theorem plain_lockCapture {f : Answers → CaptureJobQueue → Option α × CaptureJobQueue}
    (hf : ∀ an q, StaysStopped q (f an q).2) : Plain (lockCapture f) :=
  ⟨tame_lockCapture hf, sends_lockCapture⟩

theorem plain_answer {f : Answers → α} : Plain (answer f) := ⟨fun _ => trivial, fun _ => trivial⟩

theorem plain_reply {message : Json} (hm : ¬ IsTranscript message) : Plain (reply message) :=
  ⟨trivial, hm, trivial⟩

theorem plain_sendProgress {token jobId kind status : String} {fraction : Rat}
    {message : Option Json} {more : List (String × Json)} :
    Plain (sendProgress token jobId kind status fraction message more) :=
  apart_nowMs.plain.bind fun _ => plain_reply (by simp [IsTranscript, strOr_type])

theorem plain_handleJobPause (value : Json) (token : String) :
    Plain (handleJobPause value token) := by
  refine (plain_lockCapture fun _ q => staysStopped_pause q _).bind fun _ => ?_
  exact (plain_lockJobs fun _ s => tame_pause s _).bind fun ok => plain_sendProgress

theorem plain_handleJobResume (value : Json) (token : String) :
    Plain (handleJobResume value token) := by
  refine (plain_lockCapture fun _ q => staysStopped_resume q _).bind fun _ => ?_
  exact (plain_lockJobs fun _ s => tame_resume s _).bind fun ok => plain_sendProgress

theorem plain_runTranslateJob (env : External) (token jobId videoId : String) :
    Plain (runTranslateJob env token jobId videoId) := by
  refine plain_answer.bind ?_
  rintro ⟨mode, backend⟩
  refine (plain_lockJobs fun t s => tame_runTranslate s _ _ _ _).bind fun run => ?_
  cases run with
  | error e => exact (apart_return _).plain
  | ok p =>
    refine (plain_lockJobs fun _ s => tame_self s).bind fun found => ?_
    refine plain_sendProgress.bind fun _ => ?_
    refine (plain_reply (by simp [IsTranscript, strOr_type])).bind fun _ => ?_
    refine (apart_withSqlite.bind fun _ => apart_return _).plain.bind fun _ => ?_
    exact plain_reply (by simp [IsTranscript, strOr_type])

theorem plain_runPageTranslateJob (token jobId : String) :
    Plain (runPageTranslateJob token jobId) := by
  refine plain_answer.bind ?_
  rintro ⟨mode, backend⟩
  refine (plain_lockJobs fun _ s => tame_runPageTranslate s _ _ _).bind fun run => ?_
  cases run with
  | none => exact (apart_return _).plain
  | some result =>
    refine plain_sendProgress.bind fun _ => ?_
    exact plain_reply (by simp [IsTranscript, strOr_type])

theorem plain_failUnsupportedJob (token jobId kindStr : String) :
    Plain (failUnsupportedJob token jobId kindStr) := by
  refine (plain_lockJobs fun _ s => tame_unsupported s _ _).bind fun _ => ?_
  refine plain_sendProgress.bind fun _ => ?_
  exact plain_reply (by simp [IsTranscript, strOr_type])

end Plain

/-- The next section of a handler is tame, or one of the two that are not. -/
inductive Steers (value : Json) : Handler Unit → Prop
  | tame {body : Handler Unit}
      (h : ∀ update next, body = .lock update next → ∀ t an s, Tame s (update t an s)) :
      Steers value body
  | cancel (token : String) (htype : value.strOr "type" "" = "job.cancel") :
      Steers value (handleJobCancel value token)
  | start (token videoId : String) (asrMeta : Json) :
      Steers value (startCapture token (value.strOr "jobId" "") videoId asrMeta)

theorem steers_bind {α : Type} {value : Json} {h : Handler α} {f : α → Handler Unit}
    (hh : Guarantees Tame h) (hf : ∀ a, Throughout (Steers value) (f a)) :
    Throughout (Steers value) (h >>= f) :=
  hh.throughout_bind (fun _ => .tame) hf

theorem steers_of_tame {value : Json} {h : Handler Unit} (hh : Guarantees Tame h) :
    Throughout (Steers value) h :=
  hh.throughout fun _ => .tame

theorem plain_cancelCapture (token jobId : String) (ok : Bool) :
    Plain (cancelCapture token jobId ok) :=
  (plain_lockCapture fun _ q => staysStopped_cancel q _).bind fun _ => plain_sendProgress

theorem steers_startCapture (value : Json) (token videoId : String) (asrMeta : Json) :
    Throughout (Steers value) (startCapture token (value.strOr "jobId" "") videoId asrMeta) := by
  refine ⟨.start .., fun t an s => ?_⟩
  dsimp only
  split
  · exact .tame nofun
  · exact steers_of_tame plain_sendProgress.tame

theorem steers_handleJobSubmit (env : External) (value : Json) :
    Throughout (Steers value) (handleJobSubmit env value) := by
  unfold handleJobSubmit
  dsimp only
  split
  · exact steers_of_tame lockless_sendError.guarantees
  · refine steers_bind (tame_lockJobs fun _ s => tame_submit s _ _ _ _) fun _ => ?_
    refine steers_bind lockless_sendProgress.guarantees fun _ => ?_
    split
    · exact steers_of_tame (plain_runTranslateJob ..).tame
    · exact steers_of_tame (plain_runPageTranslateJob ..).tame
    · rw [runAsrJob_eq]
      refine steers_bind lockless_answer.guarantees fun plan => ?_
      rcases plan with _ | ⟨⟨id, err⟩ | planned⟩
      · apply steers_startCapture
      · refine steers_of_tame (Guarantees.bind lockless_sendError.guarantees fun _ => ?_)
        exact lockless_sendProgress.guarantees
      · apply steers_startCapture
    · exact steers_of_tame (plain_failUnsupportedJob ..).tame

/-- Every handler steers the cancellations like this throughout. -/
theorem steers_starts {env : External} {value : Json} {body : Handler Unit}
    (hs : Starts env value body) : Throughout (Steers value) body := by
  rcases hs with hjob | hapart
  · cases hjob with
    | submit => apply steers_handleJobSubmit
    | cancel token htype =>
      exact ⟨.cancel token htype, fun _ _ _ => steers_of_tame (plain_cancelCapture ..).tame⟩
    | pause token => exact steers_of_tame (plain_handleJobPause ..).tame
    | resume token => exact steers_of_tame (plain_handleJobResume ..).tame
    | chunk token => exact steers_of_tame (tame_handleAudioChunk _ _ _)
  · exact steers_of_tame hapart.plain.tame

theorem silent_handleJobSubmit (env : External) (value : Json) :
    Sends (fun message => ¬ IsTranscript message) (handleJobSubmit env value) := by
  have hstart (token jobId videoId : String) (asrMeta : Json) :
      Sends (fun message => ¬ IsTranscript message) (startCapture token jobId videoId asrMeta) :=
    sends_lockCapture.bind fun _ => plain_sendProgress.silent
  unfold handleJobSubmit
  dsimp only
  split
  · exact apart_sendError.plain.silent
  · refine Sends.bind (fun _ _ _ => trivial) fun _ => ?_
    refine plain_sendProgress.silent.bind fun _ => ?_
    split
    · exact (plain_runTranslateJob ..).silent
    · exact (plain_runPageTranslateJob ..).silent
    · rw [runAsrJob_eq]
      refine Sends.bind (fun _ => trivial) fun plan => ?_
      rcases plan with _ | ⟨⟨id, err⟩ | planned⟩
      · apply hstart
      · exact apart_sendError.plain.silent.bind fun _ => plain_sendProgress.silent
      · apply hstart
    · exact (plain_failUnsupportedJob ..).silent

/-- A handler that starts has not ingested its chunk, or has none. -/
theorem undecided_starts {env : External} {value : Json} {body : Handler Unit}
    (hs : Starts env value body) : Undecided env value body := by
  rcases hs with hjob | hapart
  · cases hjob with
    | submit => exact Or.inr (silent_handleJobSubmit ..)
    | cancel token =>
      exact Or.inr (Sends.bind (fun _ _ _ => trivial) fun ok => (plain_cancelCapture ..).silent)
    | pause token => exact Or.inr (plain_handleJobPause ..).silent
    | resume token => exact Or.inr (plain_handleJobResume ..).silent
    | chunk token htype => exact Or.inl ⟨token, htype, rfl⟩
  · exact Or.inr hapart.plain.silent

/-! ## The sections, step by step -/

section Sections

variable {env : External} {value : Json} {token jobId videoId : String} {t : Nat} {an : Answers}
  {s s' : Stores} {body' : Handler Unit}

theorem captureStopped_cancel (q : CaptureJobQueue) (jobId : String) :
    CaptureStopped (q.cancel jobId).2 jobId := by
  unfold CaptureJobQueue.cancel
  split
  · intro job hjob
    rw [CaptureJobQueue.get_put_self, Option.some.injEq] at hjob
    rw [← hjob]
  · next hnone =>
    intro job hjob
    rw [hnone] at hjob
    cases hjob

theorem next_cancelCapture {ok : Bool} (hn : Next t an (cancelCapture token jobId ok) s body' s')
    (hp : s.capturePoisoned = false) : CaptureStopped s'.capture jobId := by
  obtain ⟨-, rfl⟩ := hn.of_lock
  simp only [hp, Bool.false_eq_true, if_false]
  exact captureStopped_cancel _ _

theorem next_handleJobCancel (hn : Next t an (handleJobCancel value token) s body' s') :
    s' = { s with jobs := (s.jobs.cancel (value.strOr "jobId" "")).2 } ∧
      ∃ ok, body' = cancelCapture token (value.strOr "jobId" "") ok := by
  obtain ⟨rfl, rfl⟩ := hn.of_lock
  exact ⟨rfl, _, rfl⟩

theorem next_startCapture {asrMeta : Json}
    (hn : Next t an (startCapture token jobId videoId asrMeta) s body' s') :
    s'.jobs = s.jobs ∧ ∀ id ≠ jobId, s'.capture.get id = s.capture.get id := by
  obtain ⟨-, rfl⟩ := hn.of_lock
  dsimp only
  split
  · exact ⟨rfl, fun _ _ => rfl⟩
  · exact ⟨rfl, fun id hne => CaptureJobQueue.get_put_ne _ _ hne⟩

/-- A chunk whose capture is stopped is not accepted. -/
theorem ingestSection_stopped {chunk : AudioChunkIngest} {q : CaptureJobQueue}
    (hs : CaptureStopped q chunk.jobId) :
    (ingestSection chunk q).1 = some none ∨
      (ingestSection chunk q).1 = some (some (some .cancelled)) := by
  unfold ingestSection
  split
  · exact Or.inl rfl
  · next hsome =>
    obtain ⟨job, hjob⟩ := Option.ne_none_iff_exists'.1 (Option.isNone_iff_eq_none.not.1 hsome)
    right
    simp only [CaptureJobQueue.ingestI16Le, hjob, hs job hjob]

/-- A chunk is ingested: it is not transcribed, or its capture is not stopped. -/
theorem next_handleAudioChunk (hn : Next t an (handleAudioChunk env value token) s body' s') :
    s'.jobs = s.jobs ∧ (Sends (fun message => ¬ IsTranscript message) body' ∨
      ¬ CaptureStopped s.capture (value.strOr "jobId" "")) := by
  rw [handleAudioChunk_eq] at hn
  obtain ⟨rfl, rfl⟩ := hn.of_lock
  refine ⟨by dsimp only; split <;> rfl, ?_⟩
  by_cases hstopped : CaptureStopped s.capture (value.strOr "jobId" "")
  · left
    dsimp only
    split
    · trivial
    rcases @ingestSection_stopped (audioChunk env value) s.capture hstopped with h | h <;> rw [h]
    · trivial
    · exact apart_sendError.plain.silent
  · exact Or.inr hstopped

/-- What the registry holds as cancelled after it has cancelled a job. -/
theorem asrFlagged_cancel {id : String}
    (hf : AsrFlagged { s with jobs := (s.jobs.cancel jobId).2 } id) :
    AsrFlagged s id ∨ id = jobId ∧ ∃ job, s.jobs.get jobId = some job ∧ job.kind = .asr := by
  unfold JobRegistry.cancel at hf
  split at hf
  · next job hjob =>
    obtain ⟨job', hjob', hasr, hcancelled⟩ := hf
    by_cases hid : id = jobId
    · subst hid
      rw [JobRegistry.get_put_self, Option.some.injEq] at hjob'
      subst hjob'
      exact Or.inr ⟨rfl, job, hjob, hasr⟩
    · rw [JobRegistry.get_put_ne _ _ hid] at hjob'
      exact Or.inl ⟨job', hjob', hasr, hcancelled⟩
  · exact Or.inl hf

theorem flagged_cancel {r : JobRegistry} (hf : Flagged r) (jobId : String) :
    Flagged (r.cancel jobId).2 := by
  unfold JobRegistry.cancel
  split
  · intro id job hjob
    by_cases hid : id = jobId
    · subst hid
      rw [JobRegistry.get_put_self, Option.some.injEq] at hjob
      exact fun _ => hjob ▸ rfl
    · rw [JobRegistry.get_put_ne _ _ hid] at hjob
      exact hf id job hjob
  · exact hf

end Sections

/-! ## The invariant -/

/-- The registry and the capture queue are in step, and so are the handlers with them. -/
structure InStep (env : External) (s : Companion) : Prop where
  flagged : Flagged s.stores.jobs
  steers : ∀ c value body, s.Handling c value body → Throughout (Steers value) body
  stopped : ∀ jobId, AsrFlagged s.stores jobId → ¬ Cancelling s jobId →
    CaptureStopped s.stores.capture jobId
  undecided : ∀ c value body, s.Handling c value body →
    Undecided env value body ∨ ¬ AsrFlagged s.stores (value.strOr "jobId" "")

section Invariant

variable {env : External} {s s' : Companion} {l : CompanionEvent}

/-- The next section of a handler is tame, cancels a job in the registry or starts a capture. -/
theorem Steers.next {value : Json} {body body' : Handler Unit} {t : Nat} {an : Answers}
    {st st' : Stores} (hs : Steers value body) (hn : Next t an body st body' st') :
    Tame st st' ∨
    (∃ token, value.strOr "type" "" = "job.cancel" ∧ body = handleJobCancel value token) ∨
    ∃ token videoId asrMeta,
      body = startCapture token (value.strOr "jobId" "") videoId asrMeta := by
  cases hs with
  | tame h =>
    left
    cases hn with
    | lock => exact h _ _ rfl t an st
    | send | now | ask | fetch => exact tame_self st
  | cancel token htype => exact Or.inr (Or.inl ⟨token, htype, rfl⟩)
  | start token videoId asrMeta => exact Or.inr (Or.inr ⟨token, videoId, asrMeta, rfl⟩)

/-- A job is newly cancelled only by a step that cancels it. -/
theorem InStep.asrFlagged (hI : InStep env s) (hm : s.Moves env s' l) {jobId : String}
    (hf : AsrFlagged s'.stores jobId) :
    AsrFlagged s.stores jobId ∨ CancelsAsr ⟨s, l, s'⟩ jobId := by
  cases hm with
  | acts hbody _ hnext _ =>
    rcases (hI.steers _ _ _ hbody).self.next hnext with htame | ⟨token, htype, rfl⟩ |
      ⟨token, videoId, asrMeta, rfl⟩
    · exact Or.inl (htame.asrFlagged jobId hf)
    · rw [(next_handleJobCancel hnext).1] at hf
      rcases asrFlagged_cancel hf with hold | ⟨rfl, hjob⟩
      · exact Or.inl hold
      · exact Or.inr ⟨hjob, Or.inr ⟨_, _, _, token, rfl, htype, rfl, hbody⟩⟩
    · obtain ⟨job, hjob, hasr⟩ := hf
      rw [(next_startCapture hnext).1] at hjob
      exact Or.inl ⟨job, hjob, hasr⟩
  | ends _ _ hstores _ _ => exact Or.inl (hstores ▸ hf)
  | cancels hstores _ =>
    rw [hstores] at hf
    rcases asrFlagged_cancel hf with hold | ⟨rfl, hjob⟩
    · exact Or.inl hold
    · exact Or.inr ⟨hjob, Or.inl rfl⟩
  | quiet hsame _ _ => exact Or.inl (hsame.tame.asrFlagged jobId hf)

/-- The flags agree with the statuses after a step. -/
theorem InStep.keeps_flagged (hI : InStep env s) (hm : s.Moves env s' l) :
    Flagged s'.stores.jobs := by
  cases hm with
  | acts hbody _ hnext _ =>
    rcases (hI.steers _ _ _ hbody).self.next hnext with htame | ⟨token, _, rfl⟩ |
      ⟨token, videoId, asrMeta, rfl⟩
    · exact htame.flagged hI.flagged
    · rw [(next_handleJobCancel hnext).1]
      exact flagged_cancel hI.flagged _
    · rw [(next_startCapture hnext).1]
      exact hI.flagged
  | ends _ _ hstores _ _ => exact hstores ▸ hI.flagged
  | cancels hstores _ =>
    rw [hstores]
    exact flagged_cancel hI.flagged _
  | quiet hsame _ _ => exact hsame.tame.flagged hI.flagged

/-- A handler that is cancelling a job goes on doing so, or stops the capture. -/
theorem InStep.cancelling (hm : s.Moves env s' l) (hC : KeepsInStep env ⟨s, l, s'⟩) {jobId : String}
    (hc : Cancelling s jobId) : Cancelling s' jobId ∨ CaptureStopped s'.stores.capture jobId := by
  obtain ⟨d, value', token, ok, hd⟩ := hc
  cases hm with
  | @acts c _ _ _ _ hbody _ hnext hothers =>
    by_cases hdc : d = c
    · subst hdc
      obtain ⟨rfl, rfl⟩ := hd.unique hbody
      exact Or.inr (next_cancelCapture hnext (hC.unpoisoned _ _ _ _ _ _ rfl hd))
    · exact Or.inl ⟨d, value', token, ok, (hothers _ _ _ hdc).2 hd⟩
  | @ends c _ _ _ hbody hlast _ _ hothers =>
    have hdc : d ≠ c := by
      rintro rfl
      obtain ⟨rfl, rfl⟩ := hd.unique hbody
      rcases hlast with h | h <;> cases h
    exact Or.inl ⟨d, value', token, ok, (hothers _ _ _ hdc).2 hd⟩
  | cancels _ hsame => exact Or.inl ⟨d, value', token, ok, (hsame _ _ _).2 hd⟩
  | quiet _ hkept _ => exact Or.inl ⟨d, value', token, ok, (hkept _ _ _ hd).2⟩

/-- The captures of cancelled jobs are stopped after a step. -/
theorem InStep.keeps_stopped (hI : InStep env s) (hm : s.Moves env s' l)
    (hC : KeepsInStep env ⟨s, l, s'⟩) {jobId : String} (hf : AsrFlagged s'.stores jobId)
    (hnot : ¬ Cancelling s' jobId) : CaptureStopped s'.stores.capture jobId := by
  by_cases hcancelling : Cancelling s jobId
  · exact (InStep.cancelling hm hC hcancelling).resolve_left hnot
  have hold (h : AsrFlagged s.stores jobId) : CaptureStopped s.stores.capture jobId :=
    hI.stopped jobId h hcancelling
  have hflags := hI.asrFlagged hm hf
  cases hm with
  | @acts c _ value _ _ hbody hbody' hnext _ =>
    rcases (hI.steers _ _ _ hbody).self.next hnext with htame | ⟨token, _, rfl⟩ |
      ⟨token, videoId, asrMeta, rfl⟩
    · exact htame.stopped jobId (hold (htame.asrFlagged jobId hf))
    · obtain ⟨hstores, ok, rfl⟩ := next_handleJobCancel hnext
      rw [hstores] at hf ⊢
      rcases asrFlagged_cancel hf with h | ⟨rfl, _⟩
      · exact hold h
      · exact absurd ⟨c, _, token, ok, hbody'⟩ hnot
    · obtain ⟨hjobs, hcapture⟩ := next_startCapture hnext
      obtain ⟨job, hjob, hasr, hcancelled⟩ := hf
      rw [hjobs] at hjob
      intro capture hget
      by_cases hid : jobId = value.strOr "jobId" ""
      · subst hid
        have hlive := hC.started _ _ _ _ _ _ _ rfl hbody job hjob hasr
        rw [hcancelled] at hlive
        cases hlive
      · rw [hcapture _ hid] at hget
        exact hold ⟨job, hjob, hasr, hcancelled⟩ capture hget
  | ends _ _ hstores _ _ =>
    rw [hstores] at hf ⊢
    exact hold hf
  | cancels hstores _ =>
    rw [hstores]
    rcases hflags with h | h
    · exact hold h
    · obtain rfl | ⟨_, _, _, _, hact, _⟩ := h.2.imp_left CompanionEvent.cancelJob.inj
      · exact hC.command _ rfl h
      · cases hact
  | quiet hsame _ _ => exact hsame.tame.stopped jobId (hold (hsame.tame.asrFlagged jobId hf))

/-- A handler that has a transcript to send is not at a cancelled job after a step. -/
theorem InStep.keeps_undecided (hI : InStep env s) (hm : s.Moves env s' l)
    (hC : KeepsInStep env ⟨s, l, s'⟩) {c : Nat} {value : Json} {body : Handler Unit}
    (hbody : s'.Handling c value body) :
    Undecided env value body ∨ ¬ AsrFlagged s'.stores (value.strOr "jobId" "") := by
  have hbefore {d : Nat} {value : Json} {body : Handler Unit} (hd : s.Handling d value body) :
      Undecided env value body ∨ ¬ AsrFlagged s'.stores (value.strOr "jobId" "") := by
    by_cases hf : AsrFlagged s'.stores (value.strOr "jobId" "")
    · rcases hI.asrFlagged hm hf with hold | hcancels
      · exact Or.inl ((hI.undecided d value body hd).resolve_right (not_not.2 hold))
      · exact Or.inl (hC.drained _ hcancels d value body hd rfl)
    · exact Or.inr hf
  refine hm.handlers
    (Q := fun _ value body => Undecided env value body ∨
      ¬ AsrFlagged s'.stores (value.strOr "jobId" ""))
    ?_ (fun _ _ _ _ => hbefore) (fun _ _ _ hs => Or.inl (undecided_starts hs)) hbody
  rintro c an value body body' rfl hbody hnext
  rcases hbefore hbody with (⟨token, htype, rfl⟩ | hsilent) | hnot
  · obtain ⟨hjobs, hsilent | hrunning⟩ := next_handleAudioChunk hnext
    · exact Or.inl (Or.inr hsilent)
    · refine Or.inr fun hf => hrunning (hI.stopped _ ?_ (hC.apart _ _ _ _ rfl htype hbody))
      obtain ⟨job, hjob, hasr⟩ := hf
      exact ⟨job, hjobs ▸ hjob, hasr⟩
  · exact Or.inl (Or.inr (hsilent.next hnext))
  · exact Or.inr hnot

/-- The handlers steer the cancellations as before. -/
theorem InStep.keeps_steers (hI : InStep env s) (hm : s.Moves env s' l) {c : Nat} {value : Json}
    {body : Handler Unit} (hbody : s'.Handling c value body) : Throughout (Steers value) body :=
  hm.handlers (Q := fun _ value body => Throughout (Steers value) body)
    (fun _ _ _ _ _ _ hbody hnext => (hI.steers _ _ _ hbody).next hnext)
    (fun c value body _ hbody => hI.steers c value body hbody) (fun _ _ _ => steers_starts) hbody

theorem InStep.step (hI : InStep env s) (hm : s.Moves env s' l) (hC : KeepsInStep env ⟨s, l, s'⟩) :
    InStep env s' :=
  ⟨hI.keeps_flagged hm, fun _ _ _ => hI.keeps_steers hm, fun _ => hI.keeps_stopped hm hC,
    fun _ _ _ => hI.keeps_undecided hm hC⟩

theorem CancelledAsr.flagged (hI : InStep env s) {jobId : String}
    (hc : CancelledAsr s.stores jobId) :
    AsrFlagged s.stores jobId := by
  obtain ⟨job, hjob, hasr, hstatus⟩ := hc
  exact ⟨job, hjob, hasr, hI.flagged jobId job hjob hstatus⟩

/-- A chunk whose capture is stopped is rejected. -/
theorem exec_handleAudioChunk_stopped {others : Stores → Stores → Prop} {value : Json}
    {token : String}
    {sent : List Json} {st st' : Stores}
    (hs : CaptureStopped st.capture (audioChunk env value).jobId)
    (he : Exec others (handleAudioChunk env value token) st sent () st') :
    sent = [] ∨ sent = [chunkRejected token] := by
  rw [handleAudioChunk_eq, exec_bind_iff] at he
  obtain ⟨ingested, _, s₁, _, hlock, he, rfl⟩ := he
  rw [exec_lockCapture_iff] at hlock
  obtain ⟨_, _, hingested, rfl, _⟩ := hlock
  rcases ingestSection_stopped hs with h | h
  · rw [h] at hingested
    obtain rfl := Option.some.inj hingested
    simp only [exec_return_iff] at he
    exact Or.inl (by simp [he.2.1])
  · rw [h] at hingested
    obtain rfl := Option.some.inj hingested
    simp only [sendError, exec_reply_iff] at he
    exact Or.inr (by simp [he.1, chunkRejected])

theorem InStep.effective (hI : InStep env s) : CancellationEffective env s where
  stopped jobId hc hnot := hI.stopped jobId (hc.flagged hI) hnot
  rejected jobId hc hnot others value token sent stores hid he := by
    have hs := hI.stopped jobId (hc.flagged hI) hnot
    exact exec_handleAudioChunk_stopped (hid ▸ hs) he

theorem InStep.silent (hI : InStep env s) : SilentWhenCancelled ⟨s, l, s'⟩ := by
  intro c an value message next _ hbody hm hc
  rcases hI.undecided c value _ hbody with (⟨token, _, heq⟩ | hsilent) | hnot
  · cases heq
  · exact hsilent.1 hm
  · exact hnot (hc.flagged hI)

end Invariant

/-! ## Cancellation over runs -/

/-- In every run whose steps keep the registry and the capture queue in step, the cancellations are
effective in every state, and no transcript is sent for a cancelled ASR job. -/
theorem cancellation_effective {env : External} {debug : Bool} {bootstrapToken : String}
    {pinned : Option String} {sqlite : Option SqliteStore} {now : Nat}
    {models : Option ModelManager} {h : List (Fired Companion CompanionEvent)} {s : Companion}
    (hr : Run (Companion.step env debug) (.start bootstrapToken pinned sqlite now models) h s)
    (hC : ∀ f ∈ h, KeepsInStep env f) :
    CancellationEffective env s ∧ ∀ f ∈ h, SilentWhenCancelled f := by
  have hinv : InStep env s ∧ ∀ f ∈ h, SilentWhenCancelled f := by
    refine Run.invWhen (KeepsInStep env)
      (fun h s => InStep env s ∧ ∀ f ∈ h, SilentWhenCancelled f) ?_ ?_ hr hC
    · refine ⟨⟨?_, ?_, ?_, ?_⟩, by simp⟩
      · rintro jobId job ⟨⟩
      · rintro c value body ⟨conn, hconn, _⟩
        simp [Companion.start, Server.start] at hconn
      · rintro jobId ⟨job, ⟨⟩, _⟩
      · rintro c value body ⟨conn, hconn, _⟩
        simp [Companion.start, Server.start] at hconn
    · rintro h s l s' hr ⟨hI, hsilent⟩ hC hs
      refine ⟨hI.step (Companion.run_moves hr hs) hC, fun f hf => ?_⟩
      rcases List.mem_cons.1 hf with rfl | hf
      · exact hI.silent
      · exact hsilent f hf
  exact ⟨hinv.1.effective, hinv.2⟩

/-! ## Runs with a cancelled ASR job -/

def submitAsrText : String :=
  sessionText "\"type\":\"job.submit\",\"jobId\":\"a\",\"videoId\":\"v\",\"kind\":\"asr\""

def submitsAsr : External :=
  extensionSends [(submitAsrText, sessionMessage [("type", .str "job.submit"), ("jobId", .str "a"),
    ("videoId", .str "v"), ("kind", .str "asr")])]

/-- A model manager with an empty catalog. -/
def noModels : ModelManager where
  catalog := ⟨[]⟩
  isInstalled _ := false
  discoverWeights _ := none
  modelDir id := "models/" ++ id

/-- The GUI cancels a job while it captures: the registry holds it as cancelled and the capture runs
on. -/
theorem not_cancellation_effective : ¬ ∀ (env : External) (debug : Bool) (bootstrapToken : String)
    (pinned : Option String) (sqlite : Option SqliteStore) (now : Nat)
    (models : Option ModelManager) (h : List (Fired Companion CompanionEvent)) (s : Companion),
    Run (Companion.step env debug) (.start bootstrapToken pinned sqlite now models) h s →
      CancellationEffective env s ∧ ∀ f ∈ h, SilentWhenCancelled f := by
  intro hall
  have hend : (exec (Companion.step submitsAsr false) (startedWith none)
      (connectEvents ++ messageEvents submitAsrText 11 ++ [.cancelJob "a"])).map
      (fun x => ((x.2.stores.jobs.get "a").map fun job => (job.kind, job.status),
        (x.2.stores.capture.get "a").map CaptureJob.state, decide x.2.Idle)) =
      some (some (.asr, .cancelled), some .running, true) := by
    decide +kernel
  obtain ⟨⟨h, s⟩, hx, hfacts⟩ := Option.map_eq_some_iff.1 hend
  simp only [Prod.mk.injEq, Option.map_eq_some_iff, decide_eq_true_eq] at hfacts
  obtain ⟨⟨job, hjob, hasr, hcancelled⟩, ⟨capture, hcapture, hrunning⟩, hidle⟩ := hfacts
  have hstopped :=
    (hall _ _ _ _ _ _ _ h s (exec_run hx)).1.stopped "a" ⟨job, hjob, hasr, hcancelled⟩
    (fun ⟨_, _, _, _, hc⟩ => hidle.not_handling hc) capture hcapture
  rw [hrunning] at hstopped
  cases hstopped

/-- A task that neither cancels a job nor handles a chunk. -/
def Task.isApart : Task → Bool
  | .handling value _ =>
    value.strOr "type" "" ≠ "job.cancel" && value.strOr "type" "" ≠ "audio.chunk"
  | _ => true

def CompanionEvent.isCancelJob : CompanionEvent → Bool
  | .cancelJob _ => true
  | _ => false

/-- A step of a companion in which nothing was captured or cancelled before. -/
structure Calm (f : Fired Companion CompanionEvent) : Prop where
  captures : f.pre.stores.capture.jobs.entries.isEmpty = true
  unpoisoned : f.pre.stores.capturePoisoned = false
  live : ∀ e ∈ f.pre.stores.jobs.jobs.entries, e.2.cancelled = false
  tasks : ∀ conn ∈ f.pre.server.connections, conn.task.isApart = true
  idle : f.label.isCancelJob = true → f.pre.Idle

instance (f : Fired Companion CompanionEvent) : Decidable (Calm f) :=
  decidable_of_iff (f.pre.stores.capture.jobs.entries.isEmpty = true ∧
      f.pre.stores.capturePoisoned = false ∧
      (∀ e ∈ f.pre.stores.jobs.jobs.entries, e.2.cancelled = false) ∧
      (∀ conn ∈ f.pre.server.connections, conn.task.isApart = true) ∧
      (f.label.isCancelJob = true → f.pre.Idle))
    ⟨fun ⟨h₁, h₂, h₃, h₄, h₅⟩ => ⟨h₁, h₂, h₃, h₄, h₅⟩, fun ⟨h₁, h₂, h₃, h₄, h₅⟩ =>
      ⟨h₁, h₂, h₃, h₄, h₅⟩⟩

theorem Calm.keepsInStep {env : External} {f : Fired Companion CompanionEvent} (hf : Calm f) :
    KeepsInStep env f := by
  have htypes {c : Nat} {value : Json} {body : Handler Unit} (hbody : f.pre.Handling c value body) :
      value.strOr "type" "" ≠ "job.cancel" ∧ value.strOr "type" "" ≠ "audio.chunk" := by
    obtain ⟨conn, hconn, htask⟩ := hbody
    have hapart := hf.tasks conn (List.mem_of_getElem? hconn)
    rw [htask] at hapart
    simpa [Task.isApart] using hapart
  constructor
  · intro jobId _ _ capture hcapture
    have hnone := List.isEmpty_iff.1 hf.captures
    simp [CaptureJobQueue.get, OrderedMap.get?, hnone] at hcapture
  · intro c an value token jobId videoId asrMeta _ _ job hjob _
    exact hf.live _ ((OrderedMap.get?_eq_some_iff _).1 hjob)
  · exact fun _ _ _ _ _ _ _ _ => hf.unpoisoned
  · rintro jobId ⟨_, hl | ⟨c, an, value, token, _, htype, _, hbody⟩⟩ d value' body hd _
    · exact absurd hd (hf.idle (by rw [hl]; rfl)).not_handling
    · exact absurd htype (htypes hbody).1
  · exact fun c an value token _ htype hbody => absurd htype (htypes hbody).2

/-- The GUI cancels a job whose plan has failed. -/
theorem cancellation_effective_unplanned : ∃ h s,
    Run (Companion.step submitsAsr false)
      (.start "bootstrap" (some "abcdefgh") none 1000 (some noModels)) h s ∧
    CancelledAsr s.stores "a" ∧
    CancellationEffective submitsAsr s ∧ ∀ f ∈ h, SilentWhenCancelled f := by
  have hend : (exec (Companion.step submitsAsr false) (startedWith (some noModels))
      (connectEvents ++ messageEvents submitAsrText 11 ++ [.cancelJob "a"])).map
      (fun x => ((x.2.stores.jobs.get "a").map fun job => (job.kind, job.status),
        decide (∀ f ∈ x.1, Calm f))) = some (some (.asr, .cancelled), true) := by
    decide +kernel
  obtain ⟨⟨h, s⟩, hx, hfacts⟩ := Option.map_eq_some_iff.1 hend
  simp only [Prod.mk.injEq, Option.map_eq_some_iff, decide_eq_true_eq] at hfacts
  obtain ⟨⟨job, hjob, hasr, hcancelled⟩, hcalm⟩ := hfacts
  have hr := exec_run hx
  exact ⟨h, s, hr, ⟨job, hjob, hasr, hcancelled⟩,
    cancellation_effective hr fun f hf => (hcalm f hf).keepsInStep⟩

end LanguageLlm.Desktop
