import LanguageLlm.Desktop.Companion

/-!
# Reported statuses

`job.progress` reports a status that is written at the place where it is sent, while the registry
moves on its own. `reports_agree` says in which runs the two agree. A report is due from the section
that decides on it to its message: meanwhile nobody else may change the status of the job.
-/

namespace LanguageLlm.Desktop

open Lib Handler

/-! ## Reports -/

/-- The terminal statuses, as `job.progress` writes them. -/
def terminalStatus : String → Option JobStatus
  | "succeeded" => some .succeeded
  | "failed" => some .failed
  | "cancelled" => some .cancelled
  | _ => none

/-- The job and the terminal status that a message reports. -/
def terminalReport (message : Json) : Option (String × JobStatus) :=
  if message.strOr "type" "" = "job.progress" then
    let progress := message.getOr "progress" .null
    (terminalStatus (progress.strOr "status" "")).map fun status =>
      (progress.strOr "jobId" "", status)
  else none

/-- The status that the registry holds for a job. -/
def JobRegistry.statusOf (r : JobRegistry) (jobId : String) : Option JobStatus :=
  (r.get jobId).map TrackedJob.status

/-- The registry agrees with a report of a job; a job that it does not track fails. -/
def Agrees (r : JobRegistry) (jobId : String) (status : JobStatus) : Prop :=
  r.statusOf jobId = some status ∨ r.statusOf jobId = none ∧ status = .failed

/-- A handler may report the job with this status before it asks anything or works on the registry.
-/
def Due (jobId : String) (status : JobStatus) : Handler Unit → Prop
  | .pure _ | .panic | .ask _ => False
  | .send message next => terminalReport message = some (jobId, status) ∨ Due jobId status next
  | .now next => ∃ t, Due jobId status (next t)
  | .lock update next =>
    (∀ t an s, (update t an s).jobs = s.jobs) ∧ ∃ t an s, Due jobId status (next t an s)
  | .fetch _ next => ∃ response, Due jobId status (next response)

/-! ## Where the handlers decide on a report -/

/-- What a translate job does with the result that it has read from the registry, once it is
reported. -/
def deliverTranslation (env : External) (token jobId videoId : String) (result : Json) :
    Handler Unit := do
  persistTranslation env videoId result
  reply (.obj [("type", .str "job.result"), ("sessionToken", .str token), ("jobId", .str jobId),
    ("kind", .str "translate"), ("result", result)])

/-- A translate job that was run is reported and delivered. -/
def reportTranslated (env : External) (token jobId videoId : String) (p : JobProgress) :
    Handler Unit := do
  let found ← lockJobs fun _ r => (r.get jobId, r)
  let result := (found.bind TrackedJob.result).getD (.obj [])
  sendProgress token p.jobId "translate" "succeeded" 1 (some (jsonOption p.message)) []
  reply (.obj [("type", .str "timeline.translation"), ("sessionToken", .str token),
    ("videoId", .str videoId), ("cues", result.getOr "cues" (.arr [])),
    ("revisionId", result.getOr "revisionId" (.str "rev-mock"))])
  deliverTranslation env token jobId videoId result

/-- A translate job is run. -/
def translateSection (env : External) (token jobId videoId : String) (mode : InferenceMode)
    (backend : Option Backend) : Handler Unit := do
  let run ← lockJobs fun t r => r.runTranslate jobId mode backend t
  match run with
  | .error _ => return ()
  | .ok p => reportTranslated env token jobId videoId p

theorem runTranslateJob_eq (env : External) (token jobId videoId : String) :
    runTranslateJob env token jobId videoId = (do
      let (mode, backend) ← answer Answers.translator
      translateSection env token jobId videoId mode backend) :=
  rfl

/-- A page-translate job is run. -/
def pageTranslateSection (token jobId : String) (mode : InferenceMode) (backend : Option Backend) :
    Handler Unit := do
  let run ← lockJobs fun _ r => r.runPageTranslate jobId mode backend
  match run with
  | none => return ()
  | some result =>
    let message := if mode = .offlineMock then "page-translate complete (offline mock)"
      else "page-translate complete (llama.cpp)"
    sendProgress token jobId "page-translate" "succeeded" 1 (some (.str message)) []
    reply (.obj [("type", .str "page.translate.result"), ("sessionToken", .str token),
      ("jobId", .str jobId), ("results", result.getOr "results" (.arr [])),
      ("cacheHit", .bool false), ("mode", result.getOr "mode" (.str "OfflineMock"))])

theorem runPageTranslateJob_eq (token jobId : String) :
    runPageTranslateJob token jobId = (do
      let (mode, backend) ← answer Answers.translator
      pageTranslateSection token jobId mode backend) :=
  rfl

/-- A job that was submitted is run by its kind. -/
def runJob (env : External) (token jobId videoId kindStr : String) (payload : Json) :
    JobKind → Handler Unit
  | .translate => runTranslateJob env token jobId videoId
  | .pageTranslate => runPageTranslateJob token jobId
  | .asr => runAsrJob token jobId videoId payload
  | _ => failUnsupportedJob token jobId kindStr

theorem handleJobSubmit_eq (env : External) (value : Json) :
    handleJobSubmit env value =
      match JobKind.parse (value.strOr "kind" "translate") with
      | none =>
        sendError (.str (value.strOr "sessionToken" "")) "unsupported-job-kind"
          ("unknown job kind: " ++ value.strOr "kind" "translate")
          [("jobId", .str (value.strOr "jobId" ""))]
      | some kind => (do
        lockJobs fun _ r => ((), r.submit (value.strOr "jobId" "") kind (value.strOr "videoId" "")
          (value.getOr "payload" (.obj [])))
        sendProgress (value.strOr "sessionToken" "") (value.strOr "jobId" "")
          (value.strOr "kind" "translate") "running" (1 / 10) none []
        runJob env (value.strOr "sessionToken" "") (value.strOr "jobId" "")
          (value.strOr "videoId" "")
          (value.strOr "kind" "translate") (value.getOr "payload" (.obj [])) kind) := by
  unfold handleJobSubmit
  dsimp only
  cases JobKind.parse (value.strOr "kind" "translate") with
  | none => rfl
  | some kind => cases kind <;> rfl

/-- `job.pause` once the capture is paused. -/
def pauseSection (token jobId : String) : Handler Unit := do
  let ok ← lockJobs fun _ r => r.pause jobId
  sendProgress token jobId "asr" (if ok then "paused" else "failed") 0 none []

theorem handleJobPause_eq (value : Json) (token : String) :
    handleJobPause value token = (do
      let _ ← lockCapture fun _ q =>
        (some (q.pause (value.strOr "jobId" "")).1, (q.pause (value.strOr "jobId" "")).2)
      pauseSection token (value.strOr "jobId" "")) :=
  rfl

/-- `job.resume` once the capture is resumed. -/
def resumeSection (token jobId : String) : Handler Unit := do
  let ok ← lockJobs fun _ r => r.resume jobId
  sendProgress token jobId "asr" (if ok then "running" else "failed") 0 none []

theorem handleJobResume_eq (value : Json) (token : String) :
    handleJobResume value token = (do
      let _ ← lockCapture fun _ q =>
        (some (q.resume (value.strOr "jobId" "")).1, (q.resume (value.strOr "jobId" "")).2)
      resumeSection token (value.strOr "jobId" "")) :=
  rfl

/-! ## The claim -/

/-- A terminal status that a step reports for a job of the registry is the one that the registry
holds, and a step persists only the result of a translation that was run. -/
structure ReportsAgree (f : Fired Companion CompanionEvent) : Prop where
  status : ∀ c an value message next jobId status job, f.label = .server (.act c an) →
    f.pre.Handling c value (.send message next) → terminalReport message = some (jobId, status) →
    f.pre.stores.jobs.get jobId = some job → job.status = status
  persisted : ∀ c an value env token jobId videoId result, f.label = .server (.act c an) →
    f.pre.Handling c value (deliverTranslation env token jobId videoId result) →
    result ≠ .obj []

/-! ## The condition -/

/-- The steps after which the reports agree with the registry. -/
structure KeepsReports (f : Fired Companion CompanionEvent) : Prop where
  /-- A translate job is run only while it is neither cancelled nor paused. -/
  translated : ∀ c an value env token jobId videoId mode backend, f.label = .server (.act c an) →
    f.pre.Handling c value (translateSection env token jobId videoId mode backend) →
    ∀ job, f.pre.stores.jobs.get jobId = some job → job.cancelled = false ∧ job.paused = false
  /-- The plan of an ASR job does not fail, unless the job has failed already. -/
  planned : ∀ c an value token jobId videoId payload e, f.label = .server (.act c an) →
    f.pre.Handling c value (runAsrJob token jobId videoId payload) →
    planAnswer f.pre.models (payload.getStr "modelId") = some (.error e) →
    Agrees f.pre.stores.jobs jobId .failed
  /-- No cancelled job is paused, unless it has failed already. -/
  paused : ∀ c an value token jobId, f.label = .server (.act c an) →
    f.pre.Handling c value (pauseSection token jobId) →
    ∀ job, f.pre.stores.jobs.get jobId = some job → job.cancelled = true → job.status = .failed
  /-- No cancelled job is resumed, unless it has failed already. -/
  resumed : ∀ c an value token jobId, f.label = .server (.act c an) →
    f.pre.Handling c value (resumeSection token jobId) →
    ∀ job, f.pre.stores.jobs.get jobId = some job → job.cancelled = true → job.status = .failed
  /-- While a report of a job is due, nobody else changes its status. -/
  undisturbed : ∀ c value body jobId status, f.pre.Handling c value body →
    (∀ an, f.label ≠ .server (.act c an)) → Due jobId status body →
    f.post.stores.jobs.statusOf jobId = f.pre.stores.jobs.statusOf jobId

/-! ## The registry -/

/-- A job is registered under its identifier, and has a result when it has succeeded. -/
structure TrackedJob.Sound (jobId : String) (job : TrackedJob) : Prop where
  id : job.id = jobId
  result : job.status = .succeeded → ∃ out, job.result = some out ∧ out ≠ .obj []

/-- The jobs of a registry are sound. -/
def Sound (r : JobRegistry) : Prop := ∀ jobId job, r.get jobId = some job → job.Sound jobId

/-- A section keeps the jobs sound. -/
def KeepsSound (s s' : Stores) : Prop := Sound s.jobs → Sound s'.jobs

theorem Sound.put {r : JobRegistry} (hr : Sound r) {jobId : String} {job : TrackedJob}
    (hjob : job.Sound jobId) : Sound (r.put jobId job) := by
  intro id job' hget
  by_cases hid : id = jobId
  · subst hid
    rw [JobRegistry.get_put_self, Option.some.injEq] at hget
    exact hget ▸ hjob
  · rw [JobRegistry.get_put_ne _ _ hid] at hget
    exact hr id job' hget

section Registry

variable {r : JobRegistry}

theorem Sound.submit (hr : Sound r) (jobId : String) (kind : JobKind) (videoId : String)
    (payload : Json) :
    Sound (r.submit jobId kind videoId payload) :=
  hr.put ⟨rfl, nofun⟩

theorem Sound.cancel (hr : Sound r) (jobId : String) : Sound (r.cancel jobId).2 := by
  unfold JobRegistry.cancel
  split
  · next job hjob => exact hr.put ⟨(hr jobId job hjob).id, nofun⟩
  · exact hr

theorem Sound.pause (hr : Sound r) (jobId : String) : Sound (r.pause jobId).2 := by
  unfold JobRegistry.pause
  split
  · next job hjob =>
    split
    · exact hr
    · exact hr.put ⟨(hr jobId job hjob).id, nofun⟩
  · exact hr

theorem Sound.resume (hr : Sound r) (jobId : String) : Sound (r.resume jobId).2 := by
  unfold JobRegistry.resume
  split
  · next job hjob =>
    split
    · exact hr
    · exact hr.put ⟨(hr jobId job hjob).id, nofun⟩
  · exact hr

theorem Sound.unsupported (hr : Sound r) (jobId kindStr : String) :
    Sound (r.unsupported jobId kindStr) := by
  unfold JobRegistry.unsupported
  split
  · next job hjob => exact hr.put ⟨(hr jobId job hjob).id, nofun⟩
  · exact hr

theorem Sound.runPageTranslate (hr : Sound r) (jobId : String) (mode : InferenceMode)
    (backend : Option Backend) :
    Sound (r.runPageTranslate jobId mode backend).2 := by
  unfold JobRegistry.runPageTranslate
  split
  · exact hr
  · next job hjob =>
    split
    · exact hr.put ⟨(hr jobId job hjob).id, nofun⟩
    · exact hr.put ⟨(hr jobId job hjob).id, fun _ => ⟨_, rfl, by simp⟩⟩

/-- A run of a translate job either reports what the registry then holds, or fails, or finds the job
cancelled or paused. -/
theorem Sound.runTranslate (hr : Sound r) (jobId : String) (mode : InferenceMode)
    (backend : Option Backend) (nowMs : Nat) :
    Sound (r.runTranslate jobId mode backend nowMs).2 ∧
    ∀ p, (r.runTranslate jobId mode backend nowMs).1 = .ok p →
      (∃ job, r.get jobId = some job ∧ (job.cancelled = true ∨ job.paused = true)) ∨
      p.jobId = jobId ∧
        (r.runTranslate jobId mode backend nowMs).2.statusOf jobId = some .succeeded := by
  cases hjob : r.get jobId with
  | none => simp [JobRegistry.runTranslate, hjob, hr]
  | some job =>
    by_cases hlive : job.cancelled = false ∧ job.paused = false
    · rcases JobRegistry.runTranslate_cases hjob hlive.1 hlive.2 mode backend nowMs with
        ⟨translated, message, heq⟩ | ⟨e, heq⟩ <;> rw [heq]
      · refine ⟨hr.put
          ⟨(hr jobId job hjob).id, fun _ => ⟨_, rfl, by simp [JobRegistry.translateOutput]⟩⟩, ?_⟩
        rintro p ⟨⟩
        exact Or.inr ⟨(hr jobId job hjob).id, by simp [JobRegistry.statusOf]⟩
      · constructor
        · exact hr.put ⟨(hr jobId job hjob).id, fun hsucceeded => by cases hsucceeded⟩
        · intro p hp
          cases hp
    · have hstopped : job.cancelled = true ∨ job.paused = true := by
        simpa [← Bool.not_eq_false, ← not_and_or] using hlive
      refine ⟨?_, fun p _ => Or.inl ⟨job, rfl, hstopped⟩⟩
      cases hcancelled : job.cancelled with
      | true => simpa [JobRegistry.runTranslate, hjob, hcancelled] using hr
      | false =>
        have hpaused := hstopped.resolve_left (by simp [hcancelled])
        simpa [JobRegistry.runTranslate, hjob, hcancelled, hpaused] using hr

end Registry

/-! ## Handlers keep the jobs sound -/

section Guarantee

variable {α : Type}

theorem keepsSound_lockJobs {f : Nat → JobRegistry → α × JobRegistry}
    (hf : ∀ t r, Sound r → Sound (f t r).2) : Guarantees KeepsSound (lockJobs f) :=
  fun t _ s => ⟨hf t s.jobs, trivial⟩

theorem keepsSound_lockCapture {f : Answers → CaptureJobQueue → Option α × CaptureJobQueue} :
    Guarantees KeepsSound (lockCapture f) := by
  intro t an s
  dsimp only
  split
  · exact ⟨id, trivial⟩
  · exact ⟨id, by split <;> trivial⟩

theorem Apart.keepsSound {h : Handler α} (hh : Apart h) : Guarantees KeepsSound h :=
  hh.keeps.mono fun _ _ hsame => by
    unfold KeepsSound
    rw [hsame.jobs]
    exact id

theorem keepsSound_startCapture {token jobId videoId : String} {asrMeta : Json} :
    Guarantees KeepsSound (startCapture token jobId videoId asrMeta) :=
  keepsSound_lockCapture.bind fun _ => lockless_sendProgress.guarantees

theorem keepsSound_handleJobSubmit (env : External) (value : Json) :
    Guarantees KeepsSound (handleJobSubmit env value) := by
  unfold handleJobSubmit
  dsimp only
  split
  · exact lockless_sendError.guarantees
  refine Guarantees.bind (keepsSound_lockJobs fun _ _ hr => hr.submit _ _ _ _) fun _ => ?_
  refine Guarantees.bind lockless_sendProgress.guarantees fun _ => ?_
  split
  · refine Guarantees.bind lockless_answer.guarantees ?_
    rintro ⟨mode, backend⟩
    refine Guarantees.bind (keepsSound_lockJobs fun t _ hr => (hr.runTranslate ..).1) fun run => ?_
    cases run with
    | error e => trivial
    | ok p =>
      refine Guarantees.bind (keepsSound_lockJobs fun _ _ hr => hr) fun found => ?_
      refine Guarantees.bind lockless_sendProgress.guarantees fun _ => ?_
      refine Guarantees.bind lockless_reply.guarantees fun _ => ?_
      refine Guarantees.bind ?_ fun _ => lockless_reply.guarantees
      exact (apart_withSqlite.bind fun _ => apart_return _).keepsSound
  · refine Guarantees.bind lockless_answer.guarantees ?_
    rintro ⟨mode, backend⟩
    refine Guarantees.bind (keepsSound_lockJobs fun _ _ hr => hr.runPageTranslate _ _ _)
      fun run => ?_
    cases run with
    | none => trivial
    | some result =>
      exact Guarantees.bind lockless_sendProgress.guarantees fun _ => lockless_reply.guarantees
  · rw [runAsrJob_eq]
    refine Guarantees.bind lockless_answer.guarantees fun plan => ?_
    rcases plan with _ | ⟨⟨id, err⟩ | planned⟩
    · exact keepsSound_startCapture
    · exact Guarantees.bind lockless_sendError.guarantees fun _ => lockless_sendProgress.guarantees
    · exact keepsSound_startCapture
  · refine Guarantees.bind (keepsSound_lockJobs fun _ _ hr => hr.unsupported _ _) fun _ => ?_
    exact Guarantees.bind lockless_sendProgress.guarantees fun _ => lockless_reply.guarantees

theorem keepsSound_handleAudioChunk (env : External) (value : Json) (token : String) :
    Guarantees KeepsSound (handleAudioChunk env value token) := by
  rw [handleAudioChunk_eq]
  refine keepsSound_lockCapture.bind fun ingested => ?_
  split
  · trivial
  · exact lockless_sendError.guarantees
  rw [transcribeCapture_eq]
  refine keepsSound_lockCapture.bind fun decision => ?_
  split
  · trivial
  split
  · trivial
  refine keepsSound_lockCapture.bind fun snapshot => ?_
  split
  · trivial
  exact keepsSound_lockCapture.bind fun _ => lockless_sendTranscript.guarantees

theorem keepsSound_starts {env : External} {value : Json} {body : Handler Unit}
    (hs : Starts env value body) : Guarantees KeepsSound body := by
  rcases hs with hjob | hapart
  · cases hjob with
    | submit => exact keepsSound_handleJobSubmit env value
    | cancel token =>
      refine Guarantees.bind (keepsSound_lockJobs fun _ _ hr => hr.cancel _) fun ok => ?_
      exact keepsSound_lockCapture.bind fun _ => lockless_sendProgress.guarantees
    | pause token =>
      refine keepsSound_lockCapture.bind fun _ => ?_
      exact Guarantees.bind (keepsSound_lockJobs fun _ _ hr => hr.pause _) fun ok =>
        lockless_sendProgress.guarantees
    | resume token =>
      refine keepsSound_lockCapture.bind fun _ => ?_
      exact Guarantees.bind (keepsSound_lockJobs fun _ _ hr => hr.resume _) fun ok =>
        lockless_sendProgress.guarantees
    | chunk token => exact keepsSound_handleAudioChunk env value token
  · exact hapart.keepsSound

end Guarantee

/-! ## When a report is due -/

theorem terminalReport_progress (token jobId kind status : String) (fraction : Rat)
    (message : Option Json) (more : List (String × Json)) (t : Nat) :
    terminalReport (progressMessage token jobId kind status fraction message more t) =
      (terminalStatus status).map fun st => (jobId, st) :=
  rfl

theorem not_due_of_sends {h : Handler Unit}
    (hs : Sends (fun message => terminalReport message = none) h)
    (jobId : String) (status : JobStatus) : ¬ Due jobId status h := by
  intro hd
  induction h with
  | pure | panic | ask => exact hd
  | send message next ih =>
    rcases hd with hd | hd
    · rw [hs.1] at hd
      cases hd
    · exact ih hs.2 hd
  | now next ih =>
    obtain ⟨t, hd⟩ := hd
    exact ih t (hs t) hd
  | lock update next ih =>
    obtain ⟨_, t, an, s, hd⟩ := hd
    exact ih t an s (hs t an s) hd
  | fetch url next ih =>
    obtain ⟨response, hd⟩ := hd
    exact ih response (hs response) hd

/-- The message does not deliver an empty translation. -/
def Full (message : Json) : Prop :=
  ¬ (message.strOr "type" "" = "job.result" ∧ message.strOr "kind" "" = "translate" ∧
    message.get "result" = some (.obj []))

/-- The message reports no terminal status and delivers no empty translation. -/
def Quiet (message : Json) : Prop := terminalReport message = none ∧ Full message

theorem full_of_type {message : Json} (ht : message.strOr "type" "" ≠ "job.result") :
    Full message :=
  fun h => ht h.1

theorem full_of_not_reportsJob {message : Json} (hm : ¬ ReportsJob message) : Full message :=
  full_of_type fun ht => hm (by simp [ReportsJob, ht])

theorem Apart.quiet {α : Type} {h : Handler α} (hh : Apart h) : Sends Quiet h :=
  hh.silent.mono fun _ hm =>
    ⟨if_neg fun htype => hm (by simp [ReportsJob, htype]), full_of_not_reportsJob hm⟩

theorem Sends.undue {h : Handler Unit} (hh : Sends Quiet h) (jobId : String) (status : JobStatus) :
    ¬ Due jobId status h :=
  not_due_of_sends (hh.mono fun _ => And.left) jobId status

theorem sends_runAsrOnPcm {P : Json → Prop} {pcm : PcmMono} {modelId : String}
    {mode : InferenceMode} :
    Sends P (runAsrOnPcm pcm modelId mode) := by
  unfold runAsrOnPcm
  cases mode with
  | offlineMock => trivial
  | weights =>
    intro an
    dsimp only [Handler.bind]
    split
    · split <;> trivial
    · trivial

/-- A chunk is reported as running at most. -/
theorem quiet_handleAudioChunk (env : External) (value : Json) (token : String) :
    Sends Quiet (handleAudioChunk env value token) := by
  rw [handleAudioChunk_eq]
  refine sends_lockCapture.bind fun ingested => ?_
  split
  · trivial
  · exact apart_sendError.quiet
  rw [transcribeCapture_eq]
  refine sends_lockCapture.bind fun decision => ?_
  split
  · trivial
  split
  · trivial
  refine sends_lockCapture.bind fun snapshot => ?_
  split
  · trivial
  refine sends_lockCapture.bind fun _ => ?_
  refine sends_runAsrOnPcm.bind ?_
  rintro ⟨transcript, usedStub, asrFailed⟩
  dsimp only
  split
  · exact apart_sendError.quiet
  · refine ⟨⟨rfl, full_of_type (by simp [strOr_type])⟩, ?_⟩
    split
    · exact fun t => ⟨⟨rfl, full_of_type (by simp [strOr_type])⟩, trivial⟩
    · trivial

/-- A report is due once a `job.progress` is, or after it. -/
theorem due_sendProgress_bind {token jobId kind status : String} {fraction : Rat}
    {message : Option Json}
    {more : List (String × Json)} {g : Unit → Handler Unit} {id : String} {st : JobStatus} :
    Due id st (sendProgress token jobId kind status fraction message more >>= g) ↔
      (terminalStatus status = some st ∧ jobId = id) ∨ Due id st (g ()) := by
  have hreport (t : Nat) :
    terminalReport (progressMessage token jobId kind status fraction message more t)
      = some (id, st) ↔ terminalStatus status = some st ∧ jobId = id := by
    rw [terminalReport_progress]
    simp [and_comm]
  constructor
  · rintro ⟨t, hd | hd⟩
    · exact Or.inl ((hreport t).1 hd)
    · exact Or.inr hd
  · rintro (hd | hd)
    · exact ⟨0, Or.inl ((hreport 0).2 hd)⟩
    · exact ⟨0, Or.inr hd⟩

theorem due_sendProgress {token jobId kind status : String} {fraction : Rat} {message : Option Json}
    {more : List (String × Json)} {id : String} {st : JobStatus} :
    Due id st (sendProgress token jobId kind status fraction message more) ↔
      terminalStatus status = some st ∧ jobId = id := by
  rw [← Handler.bind_return (sendProgress ..), due_sendProgress_bind]
  exact or_iff_left (fun hd => hd)

/-- A section writes to the registry: a job that is neither cancelled nor paused does not stay
queued. -/
def Writes {α : Type} (jobId : String) (f : Nat → JobRegistry → α × JobRegistry) : Prop :=
  ∀ t r job, r.get jobId = some job → job.cancelled = false → job.paused = false →
    (f t r).2.statusOf jobId ≠ some .queued

/-- No report is due before a section that writes to the registry. -/
theorem not_due_lockJobs {α : Type} {f : Nat → JobRegistry → α × JobRegistry} {g : α → Handler Unit}
    {jobId id : String} {status : JobStatus} (hw : Writes jobId f) :
    ¬ Due id status (lockJobs f >>= g) := by
  rintro ⟨hsame, _⟩
  let r := JobRegistry.empty.submit jobId .asr "" .null
  have hqueued : r.statusOf jobId = some .queued := by
    simp [r, JobRegistry.statusOf, JobRegistry.submit]
  have hsame : (f 0 r).2 = r := hsame 0 default { Stores.new none with jobs := r }
  refine hw 0 r _ (JobRegistry.get_put_self ..) rfl rfl ?_
  rw [hsame, hqueued]

theorem writes_cancel (jobId : String) : Writes jobId fun _ r => r.cancel jobId := by
  intro t r job hjob _ _
  simp [JobRegistry.cancel, hjob, JobRegistry.statusOf]

theorem writes_pause (jobId : String) : Writes jobId fun _ r => r.pause jobId := by
  intro t r job hjob hcancelled _
  simp [JobRegistry.pause, hjob, hcancelled, JobRegistry.statusOf]

theorem writes_resume (jobId : String) : Writes jobId fun _ r => r.resume jobId := by
  intro t r job hjob hcancelled _
  simp [JobRegistry.resume, hjob, hcancelled, JobRegistry.statusOf]

theorem writes_runTranslate (jobId : String) (mode : InferenceMode) (backend : Option Backend) :
    Writes jobId fun t r => r.runTranslate jobId mode backend t := by
  intro t r job hjob hcancelled hpaused
  rcases JobRegistry.runTranslate_cases hjob hcancelled hpaused mode backend t with
    ⟨translated, message, heq⟩ | ⟨e, heq⟩ <;> simp [heq, JobRegistry.statusOf]

theorem writes_runPageTranslate (jobId : String) (mode : InferenceMode) (backend : Option Backend) :
    Writes jobId fun _ r => r.runPageTranslate jobId mode backend := by
  intro t r job hjob hcancelled _
  simp [JobRegistry.runPageTranslate, hjob, hcancelled, JobRegistry.statusOf]

theorem writes_unsupported (jobId kindStr : String) :
    Writes jobId fun _ r => ((), r.unsupported jobId kindStr) := by
  intro t r job hjob _ _
  simp [JobRegistry.unsupported, hjob, JobRegistry.statusOf]

/-- A report that is due behind a section of the capture queue. -/
theorem due_lockCapture_bind {α : Type} {f : Answers → CaptureJobQueue → Option α × CaptureJobQueue}
    {rest : Handler Unit} {jobId : String} {status : JobStatus}
    (hd : Due jobId status (lockCapture f >>= fun _ => rest)) : Due jobId status rest := by
  obtain ⟨_, t, an, s, hd⟩ := hd
  dsimp only at hd
  split at hd
  · exact hd.elim
  · split at hd
    · exact hd
    · exact hd.elim

/-- No report is due when a handler starts. -/
theorem not_due_starts {env : External} {value : Json} {body : Handler Unit}
    (hs : Starts env value body) (jobId : String) (status : JobStatus) :
    ¬ Due jobId status body := by
  rcases hs with hjob | hapart
  · cases hjob with
    | submit =>
      unfold handleJobSubmit
      dsimp only
      split
      · exact Sends.undue apart_sendError.quiet jobId status
      · rintro ⟨hsame, _⟩
        have hempty := congrArg (fun r => r.get (value.strOr "jobId" ""))
          (hsame 0 default (Stores.new none))
        dsimp only at hempty
        rw [JobRegistry.submit, JobRegistry.get_put_self] at hempty
        cases hempty
    | cancel token => exact not_due_lockJobs (writes_cancel _)
    | pause token =>
      rw [handleJobPause_eq]
      exact fun hd => not_due_lockJobs (writes_pause _) (due_lockCapture_bind hd)
    | resume token =>
      rw [handleJobResume_eq]
      exact fun hd => not_due_lockJobs (writes_resume _) (due_lockCapture_bind hd)
    | chunk token => exact Sends.undue (quiet_handleAudioChunk _ _ _) jobId status
  · exact Sends.undue hapart.quiet jobId status

/-! ## Handlers decide on reports at known places -/

/-- What the next action of a handler does to the reports that are due. -/
inductive Decides : Handler Unit → Prop
  /-- A report that is due then was due before, in the same registry. -/
  | carries {body : Handler Unit}
      (h : ∀ t an s body' s', Next t an body s body' s' → ∀ jobId status, Due jobId status body' →
        Due jobId status body ∧ s'.jobs = s.jobs) : Decides body
  /-- A report that is due then agrees with the registry. -/
  | settles {body : Handler Unit}
      (h : ∀ t an s body' s', Next t an body s body' s' → ∀ jobId status, Due jobId status body' →
        Agrees s'.jobs jobId status) : Decides body
  | translate (env : External) (token jobId videoId : String) (mode : InferenceMode)
      (backend : Option Backend) : Decides (translateSection env token jobId videoId mode backend)
  | plan (token jobId videoId : String) (payload : Json) :
      Decides (runAsrJob token jobId videoId payload)
  | pause (token jobId : String) : Decides (pauseSection token jobId)
  | resume (token jobId : String) : Decides (resumeSection token jobId)

/-- A handler neither asks anything nor works on the registry. -/
def Settled {α : Type} : Handler α → Prop
  | .pure _ | .panic => True
  | .ask _ => False
  | .send _ next => Settled next
  | .now next => ∀ t, Settled (next t)
  | .lock update next =>
    (∀ t an s, (update t an s).jobs = s.jobs) ∧ ∀ t an s, Settled (next t an s)
  | .fetch _ next => ∀ response, Settled (next response)

section Settled

variable {α β : Type}

theorem Settled.bind {h : Handler α} {f : α → Handler β} (hh : Settled h)
    (hf : ∀ a, Settled (f a)) :
    Settled (h >>= f) := by
  induction h with
  | pure a => exact hf a
  | panic => trivial
  | ask => exact hh.elim
  | send message next ih => exact ih hh
  | now next ih => exact fun t => ih t (hh t)
  | lock update next ih => exact ⟨hh.1, fun t an s => ih t an s (hh.2 t an s)⟩
  | fetch url next ih => exact fun response => ih response (hh response)

theorem settled_sendProgress {token jobId kind status : String} {fraction : Rat}
    {message : Option Json} {more : List (String × Json)} :
    Settled (sendProgress token jobId kind status fraction message more) :=
  fun _ => trivial

theorem settled_lockCapture {f : Answers → CaptureJobQueue → Option α × CaptureJobQueue} :
    Settled (lockCapture f) := by
  constructor
  · intro t an s
    dsimp only
    split <;> rfl
  · intro t an s
    dsimp only
    split
    · trivial
    · split <;> trivial

theorem settled_deliverTranslation (env : External) (token jobId videoId : String) (result : Json) :
    Settled (deliverTranslation env token jobId videoId result) :=
  ⟨fun _ _ _ => rfl, fun _ _ _ => trivial⟩

theorem settled_reportTranslated (env : External) (token jobId videoId : String) (p : JobProgress) :
    Settled (reportTranslated env token jobId videoId p) := by
  have hget : Settled (lockJobs fun _ r => (r.get jobId, r)) :=
    ⟨fun _ _ _ => rfl, fun _ _ _ => trivial⟩
  have hreply (message : Json) : Settled (reply message) := trivial
  refine hget.bind fun found => ?_
  dsimp only
  refine Settled.bind settled_sendProgress fun _ => ?_
  refine Settled.bind (hreply _) fun _ => ?_
  apply settled_deliverTranslation

theorem settled_startCapture (token jobId videoId : String) (asrMeta : Json) :
    Settled (startCapture token jobId videoId asrMeta) :=
  settled_lockCapture.bind fun _ => settled_sendProgress

/-- A settled handler makes no report due. -/
theorem decides_of_settled {h : Handler Unit} (hh : Settled h) : Throughout Decides h := by
  induction h with
  | pure | panic =>
    refine .carries ?_
    rintro _ _ _ _ _ ⟨⟩
  | ask => exact hh.elim
  | send message next ih =>
    refine ⟨.carries ?_, ih hh⟩
    rintro _ _ _ _ _ ⟨⟩ _ _ hd
    exact ⟨Or.inr hd, rfl⟩
  | now next ih =>
    refine ⟨.carries ?_, fun t => ih t (hh t)⟩
    rintro t _ _ _ _ ⟨⟩ _ _ hd
    exact ⟨⟨t, hd⟩, rfl⟩
  | lock update next ih =>
    refine ⟨.carries ?_, fun t an s => ih t an s (hh.2 t an s)⟩
    rintro t an s _ _ ⟨⟩ _ _ hd
    exact ⟨⟨hh.1, t, an, s, hd⟩, hh.1 t an s⟩
  | fetch url next ih =>
    refine ⟨.carries ?_, fun response => ih response (hh response)⟩
    rintro _ an _ _ _ ⟨⟩ _ _ hd
    exact ⟨⟨_, hd⟩, rfl⟩

/-- A handler without terminal reports makes none due. -/
theorem decides_of_quiet {h : Handler Unit} (hh : Sends Quiet h) : Throughout Decides h := by
  have hcarries {h : Handler Unit} (hh : Sends Quiet h) : Decides h :=
    .carries fun _ _ _ _ _ hn jobId status hd => absurd hd (Sends.undue (hh.next hn) jobId status)
  induction h with
  | pure | panic => exact hcarries hh
  | send message next ih => exact ⟨hcarries hh, ih hh.2⟩
  | now next ih => exact ⟨hcarries hh, fun t => ih t (hh t)⟩
  | ask next ih => exact ⟨hcarries hh, fun an => ih an (hh an)⟩
  | lock update next ih => exact ⟨hcarries hh, fun t an s => ih t an s (hh t an s)⟩
  | fetch url next ih => exact ⟨hcarries hh, fun response => ih response (hh response)⟩

end Settled

section Places

variable {token jobId videoId : String} {id : String} {st : JobStatus}

/-- No report is due behind the next action. -/
theorem decides_of_undue {body : Handler Unit}
    (h : ∀ t an s body' s', Next t an body s body' s' → ∀ jobId status, ¬ Due jobId status body') :
    Decides body :=
  .carries fun t an s body' s' hn jobId status hd => absurd hd (h t an s body' s' hn jobId status)

theorem runPageTranslate_succeeded {r : JobRegistry} {mode : InferenceMode}
    {backend : Option Backend}
    {out : Json} (hrun : (r.runPageTranslate jobId mode backend).1 = some out) :
    (r.runPageTranslate jobId mode backend).2.statusOf jobId = some .succeeded := by
  unfold JobRegistry.runPageTranslate at hrun ⊢
  split
  · next hnone =>
    simp only [hnone] at hrun
    cases hrun
  · next job hjob =>
    simp only [hjob] at hrun
    split
    · next hcancelled =>
      rw [if_pos hcancelled] at hrun
      cases hrun
    · simp [JobRegistry.statusOf]

theorem agrees_unsupported (r : JobRegistry) (jobId kindStr : String) :
    Agrees (r.unsupported jobId kindStr) jobId .failed := by
  unfold JobRegistry.unsupported
  split
  · exact Or.inl (by simp [JobRegistry.statusOf])
  · next hnone => exact Or.inr ⟨by simp [JobRegistry.statusOf, hnone], rfl⟩

theorem agrees_cancel (r : JobRegistry) (jobId : String) {status : JobStatus}
    (hs : terminalStatus (if (r.cancel jobId).1 then "cancelled" else "failed") = some status) :
    Agrees (r.cancel jobId).2 jobId status := by
  unfold JobRegistry.cancel at hs ⊢
  split
  · next job hjob =>
    simp only [hjob] at hs
    obtain rfl := Option.some.inj hs
    exact Or.inl (by simp [JobRegistry.statusOf])
  · next hnone =>
    simp only [hnone] at hs
    obtain rfl := Option.some.inj hs
    exact Or.inr ⟨by simp [JobRegistry.statusOf, hnone], rfl⟩

/-- A refused call reports a failure: there is no job, or a cancelled one. -/
theorem agrees_refused {r : JobRegistry} {jobId : String}
    (hr : ∀ job, r.get jobId = some job → job.cancelled = true → job.status = .failed)
    (hcancelled : ∀ job, r.get jobId = some job → job.cancelled = true) :
    Agrees r jobId .failed := by
  cases hjob : r.get jobId with
  | none => exact Or.inr ⟨by simp [JobRegistry.statusOf, hjob], rfl⟩
  | some job =>
    exact Or.inl (by simp [JobRegistry.statusOf, hjob, hr job hjob (hcancelled job hjob)])

theorem agrees_pause {r : JobRegistry} {jobId : String}
    (hr : ∀ job, r.get jobId = some job → job.cancelled = true → job.status = .failed)
    {status : JobStatus}
    (hs : terminalStatus (if (r.pause jobId).1 then "paused" else "failed") = some status) :
    Agrees (r.pause jobId).2 jobId status := by
  unfold JobRegistry.pause at hs ⊢
  cases hjob : r.get jobId with
  | none =>
    simp only [hjob] at hs
    obtain rfl := Option.some.inj hs
    exact agrees_refused hr fun job h => nomatch hjob.symm.trans h
  | some job =>
    cases hcancelled : job.cancelled with
    | true =>
      simp only [hjob, hcancelled, if_true] at hs ⊢
      obtain rfl := Option.some.inj hs
      exact agrees_refused hr fun job' h => Option.some.inj (hjob.symm.trans h) ▸ hcancelled
    | false =>
      simp only [hjob, hcancelled] at hs
      cases hs

theorem agrees_resume {r : JobRegistry} {jobId : String}
    (hr : ∀ job, r.get jobId = some job → job.cancelled = true → job.status = .failed)
    {status : JobStatus}
    (hs : terminalStatus (if (r.resume jobId).1 then "running" else "failed") = some status) :
    Agrees (r.resume jobId).2 jobId status := by
  unfold JobRegistry.resume at hs ⊢
  cases hjob : r.get jobId with
  | none =>
    simp only [hjob] at hs
    obtain rfl := Option.some.inj hs
    exact agrees_refused hr fun job h => nomatch hjob.symm.trans h
  | some job =>
    cases hcancelled : job.cancelled with
    | true =>
      simp only [hjob, hcancelled, if_true] at hs ⊢
      obtain rfl := Option.some.inj hs
      exact agrees_refused hr fun job' h => Option.some.inj (hjob.symm.trans h) ▸ hcancelled
    | false =>
      simp only [hjob, hcancelled] at hs
      cases hs

theorem next_lockJobs {α : Type} {f : Nat → JobRegistry → α × JobRegistry} {g : α → Handler Unit}
    {t : Nat} {an : Answers} {s s' : Stores} {body : Handler Unit}
    (hn : Next t an (lockJobs f >>= g) s body s') :
    body = g (f t s.jobs).1 ∧ s'.jobs = (f t s.jobs).2 := by
  obtain ⟨rfl, rfl⟩ := hn.of_lock
  exact ⟨rfl, rfl⟩

theorem decides_lockJobs {α : Type} {f : Nat → JobRegistry → α × JobRegistry}
    {g : α → Handler Unit} (hself : Decides (lockJobs f >>= g))
    (hg : ∀ a, Throughout Decides (g a)) :
    Throughout Decides (lockJobs f >>= g) :=
  ⟨hself, fun _ _ _ => hg _⟩

theorem decides_return : Throughout Decides (Pure.pure ()) := decides_of_settled trivial

theorem decides_translateSection (env : External) (mode : InferenceMode)
    (backend : Option Backend) :
    Throughout Decides (translateSection env token jobId videoId mode backend) := by
  refine decides_lockJobs (.translate ..) fun run => ?_
  cases run with
  | error e => exact decides_return
  | ok p => exact decides_of_settled (settled_reportTranslated ..)

theorem decides_runTranslateJob (env : External) :
    Throughout Decides (runTranslateJob env token jobId videoId) := by
  rw [runTranslateJob_eq]
  refine ⟨decides_of_undue ?_, fun an => ?_⟩
  · rintro _ an _ _ _ ⟨⟩
    exact fun _ _ => not_due_lockJobs (writes_runTranslate _ _ _)
  · exact decides_translateSection env an.translator.1 an.translator.2

theorem decides_pageTranslateSection (mode : InferenceMode) (backend : Option Backend) :
    Throughout Decides (pageTranslateSection token jobId mode backend) := by
  refine decides_lockJobs (.settles ?_) fun run => ?_
  · intro t an s body' s' hn id st hd
    obtain ⟨rfl, hjobs⟩ := next_lockJobs hn
    rw [hjobs]
    split at hd
    · exact False.elim hd
    · next result hrun =>
      rw [due_sendProgress_bind] at hd
      obtain ⟨hst, rfl⟩ := hd.resolve_right (not_due_of_sends (h := reply _) ⟨rfl, trivial⟩ id st)
      obtain rfl := Option.some.inj hst
      exact Or.inl (runPageTranslate_succeeded hrun)
  · cases run with
    | none => exact decides_return
    | some result => exact decides_of_settled (settled_sendProgress.bind fun _ => trivial)

theorem decides_runPageTranslateJob : Throughout Decides (runPageTranslateJob token jobId) := by
  rw [runPageTranslateJob_eq]
  refine ⟨decides_of_undue ?_, fun an => ?_⟩
  · rintro _ an _ _ _ ⟨⟩
    exact fun _ _ => not_due_lockJobs (writes_runPageTranslate _ _ _)
  · exact decides_pageTranslateSection an.translator.1 an.translator.2

theorem decides_failUnsupportedJob (kindStr : String) :
    Throughout Decides (failUnsupportedJob token jobId kindStr) := by
  refine decides_lockJobs (.settles ?_) fun _ =>
    decides_of_settled (settled_sendProgress.bind fun _ => trivial)
  intro t an s body' s' hn id st hd
  obtain ⟨rfl, hjobs⟩ := next_lockJobs hn
  rw [due_sendProgress_bind] at hd
  obtain ⟨hst, rfl⟩ := hd.resolve_right (not_due_of_sends (h := reply _) ⟨rfl, trivial⟩ id st)
  obtain rfl := Option.some.inj hst
  rw [hjobs]
  exact agrees_unsupported ..

theorem decides_runAsrJob (payload : Json) :
    Throughout Decides (runAsrJob token jobId videoId payload) := by
  have hself := Decides.plan token jobId videoId payload
  rw [runAsrJob_eq] at hself ⊢
  refine ⟨hself, fun an => ?_⟩
  have hplan (plan : Option (Except (String × String) Json)) :
      Throughout Decides (startPlanned token jobId videoId plan) := by
    rcases plan with _ | ⟨⟨id, err⟩ | planned⟩
    · exact decides_of_settled (settled_startCapture ..)
    · exact decides_of_settled (Settled.bind (h := reply _) trivial fun _ => settled_sendProgress)
    · exact decides_of_settled (settled_startCapture ..)
  exact hplan _

/-- The report that a job is running makes nothing due. -/
theorem decides_sendProgress {kind status : String} {fraction : Rat} {message : Option Json}
    {more : List (String × Json)} {rest : Handler Unit} (hstatus : terminalStatus status = none)
    (hundue : ∀ jobId status, ¬ Due jobId status rest) (hrest : Throughout Decides rest) :
    Throughout Decides (sendProgress token jobId kind status fraction message more >>= fun _ =>
      rest) := by
  refine ⟨decides_of_undue ?_, fun t => ⟨decides_of_undue ?_, hrest⟩⟩
  · rintro t _ _ _ _ ⟨⟩ id st hd
    have hreport := terminalReport_progress token jobId kind status fraction message more t
    rw [hstatus] at hreport
    rcases hd with hd | hd
    · cases hreport.symm.trans hd
    · exact hundue id st hd
  · rintro _ _ _ _ _ ⟨⟩
    exact hundue

theorem not_due_runJob (env : External) (kindStr : String) (payload : Json) (kind : JobKind)
    (id : String) (st : JobStatus) :
    ¬ Due id st (runJob env token jobId videoId kindStr payload kind) := by
  have hother : ¬ Due id st (failUnsupportedJob token jobId kindStr) :=
    not_due_lockJobs (writes_unsupported _ _)
  cases kind with
  | translate | pageTranslate | asr => exact fun hd => hd
  | align | vlmReview | lookup | export_ | lyricsResolve => exact hother

theorem decides_runJob (env : External) (kindStr : String) (payload : Json) (kind : JobKind) :
    Throughout Decides (runJob env token jobId videoId kindStr payload kind) := by
  cases kind with
  | translate => exact decides_runTranslateJob env
  | pageTranslate => exact decides_runPageTranslateJob
  | asr => exact decides_runAsrJob payload
  | align | vlmReview | lookup | export_ | lyricsResolve => exact decides_failUnsupportedJob kindStr

theorem decides_handleJobSubmit (env : External) (value : Json) :
    Throughout Decides (handleJobSubmit env value) := by
  rw [handleJobSubmit_eq]
  split
  · exact decides_of_quiet apart_sendError.quiet
  · next kind _ =>
    refine decides_lockJobs (decides_of_undue ?_) fun _ => ?_
    · intro t an s body' s' hn id st hd
      obtain ⟨rfl, _⟩ := next_lockJobs hn
      rw [due_sendProgress_bind] at hd
      rcases hd with ⟨⟨⟩, _⟩ | hd
      exact not_due_runJob _ _ _ _ id st hd
    · exact decides_sendProgress rfl (not_due_runJob _ _ _ _) (decides_runJob ..)

/-- Before `job.pause` and `job.resume` come to the registry. -/
theorem decides_lockCapture {α : Type} {f : Answers → CaptureJobQueue → Option α × CaptureJobQueue}
    {rest : Handler Unit} (hundue : ∀ jobId status, ¬ Due jobId status rest)
    (hrest : Throughout Decides rest) :
    Throughout Decides (lockCapture f >>= fun _ => rest) := by
  refine ⟨decides_of_undue ?_, fun t an s => ?_⟩
  · intro t an s body' s' hn id st hd
    obtain ⟨rfl, _⟩ := hn.of_lock
    exact hundue id st (due_lockCapture_bind ⟨settled_lockCapture.1, t, an, s, hd⟩)
  · dsimp only
    split
    · exact decides_of_settled (h := .panic) trivial
    · split
      · exact hrest
      · exact decides_of_settled (h := .panic) trivial

/-- Every handler decides on its reports like this throughout. -/
theorem decides_starts {env : External} {value : Json} {body : Handler Unit}
    (hs : Starts env value body) : Throughout Decides body := by
  rcases hs with hjob | hapart
  · cases hjob with
    | submit => exact decides_handleJobSubmit env value
    | cancel token =>
      rw [handleJobCancel_eq]
      refine decides_lockJobs (.settles ?_) fun ok =>
        decides_of_settled (settled_lockCapture.bind fun _ => settled_sendProgress)
      intro t an s body' s' hn id st hd
      obtain ⟨rfl, hjobs⟩ := next_lockJobs hn
      obtain ⟨hst, rfl⟩ := due_sendProgress.1 (due_lockCapture_bind hd)
      rw [hjobs]
      exact agrees_cancel _ _ hst
    | pause token =>
      rw [handleJobPause_eq]
      refine decides_lockCapture (fun _ _ => not_due_lockJobs (writes_pause _)) ?_
      exact decides_lockJobs (.pause ..) fun ok => decides_of_settled settled_sendProgress
    | resume token =>
      rw [handleJobResume_eq]
      refine decides_lockCapture (fun _ _ => not_due_lockJobs (writes_resume _)) ?_
      exact decides_lockJobs (.resume ..) fun ok => decides_of_settled settled_sendProgress
    | chunk token => exact decides_of_quiet (quiet_handleAudioChunk _ _ _)
  · exact decides_of_quiet hapart.quiet

end Places

/-! ## What a translate job delivers -/

/-- A handler sends only messages that meet `M` until it is at a handler that meets `Q`. -/
def Until {α : Type} (M : Json → Prop) (Q : Handler α → Prop) : Handler α → Prop
  | .pure _ | .panic => True
  | .send message next => Q (.send message next) ∨ M message ∧ Until M Q next
  | .now next => Q (.now next) ∨ ∀ t, Until M Q (next t)
  | .ask next => Q (.ask next) ∨ ∀ an, Until M Q (next an)
  | .lock update next => Q (.lock update next) ∨ ∀ t an s, Until M Q (next t an s)
  | .fetch url next => Q (.fetch url next) ∨ ∀ response, Until M Q (next response)

section Until

variable {α : Type} {M : Json → Prop} {Q : Handler Unit → Prop}

theorem until_of_sends {h : Handler Unit} (hh : Sends M h) : Until M Q h := by
  induction h with
  | pure | panic => trivial
  | send message next ih => exact Or.inr ⟨hh.1, ih hh.2⟩
  | now next ih => exact Or.inr fun t => ih t (hh t)
  | ask next ih => exact Or.inr fun an => ih an (hh an)
  | lock update next ih => exact Or.inr fun t an s => ih t an s (hh t an s)
  | fetch url next ih => exact Or.inr fun response => ih response (hh response)

theorem until_self {h : Handler Unit} (hq : Q h) : Until M Q h := by
  cases h with
  | pure | panic => trivial
  | send | now | ask | lock | fetch => exact Or.inl hq

theorem Until.bind {h : Handler α} {f : α → Handler Unit} (hh : Sends M h)
    (hf : ∀ a, Until M Q (f a)) : Until M Q (h >>= f) := by
  induction h with
  | pure a => exact hf a
  | panic => trivial
  | send message next ih => exact Or.inr ⟨hh.1, ih hh.2⟩
  | now next ih => exact Or.inr fun t => ih t (hh t)
  | ask next ih => exact Or.inr fun an => ih an (hh an)
  | lock update next ih => exact Or.inr fun t an s => ih t an s (hh t an s)
  | fetch url next ih => exact Or.inr fun response => ih response (hh response)

theorem Until.next {h h' : Handler Unit} {t : Nat} {an : Answers} {s s' : Stores}
    (hh : Until M Q h) (hn : Next t an h s h' s') : Q h ∨ Until M Q h' := by
  cases hn with
  | send => exact hh.imp_right And.right
  | now | ask | fetch => exact hh.imp_right fun hall => hall _
  | lock => exact hh.imp_right fun hall => hall _ _ _

end Until

/-- A translate job is about to be run. -/
def AtTranslation (body : Handler Unit) : Prop :=
  ∃ env token jobId videoId mode backend, body = translateSection env token jobId videoId
    mode backend

/-- A handler delivers no empty translation, unless a translation that it is about to run turns out
to be one; or it is about to read the result of a translation that has succeeded. -/
def Delivers (r : JobRegistry) (body : Handler Unit) : Prop :=
  Until Full AtTranslation body ∨
  ∃ env token jobId videoId p, body = reportTranslated env token jobId videoId p ∧ p.jobId = jobId ∧
    r.statusOf jobId = some .succeeded

theorem sends_full_progress {token jobId kind status : String} {fraction : Rat}
    {message : Option Json} {more : List (String × Json)} :
    Sends Full (sendProgress token jobId kind status fraction message more) :=
  fun _ => ⟨full_of_type (by simp [strOr_type]), trivial⟩

theorem sends_full_deliver (env : External) (token jobId videoId : String) {result : Json}
    (hresult : result ≠ .obj []) :
    Sends Full (deliverTranslation env token jobId videoId result) := by
  intro t an s
  refine ⟨?_, trivial⟩
  rintro ⟨_, _, hempty⟩
  exact hresult (Option.some.inj hempty)

theorem until_runJob (env : External) (token jobId videoId kindStr : String) (payload : Json)
    (kind : JobKind) :
    Until Full AtTranslation (runJob env token jobId videoId kindStr payload kind) := by
  have hother : Sends Full (failUnsupportedJob token jobId kindStr) := by
    refine Sends.bind (h := lockJobs _) (fun _ _ _ => trivial) fun _ => ?_
    refine sends_full_progress.bind fun _ => ⟨?_, trivial⟩
    rintro ⟨_, _, hempty⟩
    cases Option.some.inj hempty
  cases kind with
  | translate => exact Or.inr fun an => until_self ⟨env, token, jobId, videoId, _, _, rfl⟩
  | pageTranslate =>
    refine until_of_sends ?_
    rw [runJob, runPageTranslateJob_eq]
    refine Sends.bind (h := answer _) (fun _ => trivial) ?_
    rintro ⟨mode, backend⟩
    refine Sends.bind (h := lockJobs _) (fun _ _ _ => trivial) fun run => ?_
    cases run with
    | none => trivial
    | some result =>
      exact sends_full_progress.bind fun _ => ⟨full_of_type (by simp [strOr_type]), trivial⟩
  | asr =>
    have hstart (asrMeta : Json) : Sends Full (startCapture token jobId videoId asrMeta) :=
      sends_lockCapture.bind fun _ => sends_full_progress
    refine until_of_sends ?_
    rw [runJob, runAsrJob_eq]
    refine Sends.bind (h := answer _) (fun _ => trivial) fun plan => ?_
    rcases plan with _ | ⟨⟨id, err⟩ | planned⟩
    · exact hstart .null
    · exact (apart_sendError.quiet.mono fun _ => And.right).bind fun _ => sends_full_progress
    · exact hstart planned
  | align | vlmReview | lookup | export_ | lyricsResolve => exact until_of_sends hother

/-- A handler that starts delivers nothing before a translation is run. -/
theorem delivers_starts {env : External} {value : Json} {body : Handler Unit}
    (hs : Starts env value body) (r : JobRegistry) : Delivers r body := by
  refine Or.inl ?_
  have hlock {α : Type} {f : Nat → JobRegistry → α × JobRegistry} : Sends Full (lockJobs f) :=
    fun _ _ _ => trivial
  rcases hs with hjob | hapart
  · cases hjob with
    | submit =>
      rw [handleJobSubmit_eq]
      split
      · exact until_of_sends (apart_sendError.quiet.mono fun _ => And.right)
      · next kind _ =>
        exact Until.bind hlock fun _ => Until.bind sends_full_progress fun _ => until_runJob ..
    | cancel token =>
      refine until_of_sends (hlock.bind fun ok => ?_)
      exact sends_lockCapture.bind fun _ => sends_full_progress
    | pause token =>
      refine until_of_sends (sends_lockCapture.bind fun _ => ?_)
      exact hlock.bind fun ok => sends_full_progress
    | resume token =>
      refine until_of_sends (sends_lockCapture.bind fun _ => ?_)
      exact hlock.bind fun ok => sends_full_progress
    | chunk token =>
      exact until_of_sends ((quiet_handleAudioChunk env value token).mono fun _ => And.right)
  · exact until_of_sends (hapart.quiet.mono fun _ => And.right)

/-- The report of a translation is due from the section that runs it. -/
theorem due_reportTranslated {env : External} {token jobId videoId : String} {p : JobProgress}
    {id : String} {st : JobStatus} :
    Due id st (reportTranslated env token jobId videoId p) ↔ st = .succeeded ∧ id = p.jobId := by
  have hrest (found : Option TrackedJob) : ¬ Due id st (do
      reply (.obj [("type", .str "timeline.translation"), ("sessionToken", .str token),
        ("videoId", .str videoId),
        ("cues", ((found.bind TrackedJob.result).getD (.obj [])).getOr "cues" (.arr [])),
        ("revisionId",
          ((found.bind TrackedJob.result).getD (.obj [])).getOr "revisionId" (.str "rev-mock"))])
      deliverTranslation env token jobId videoId
        ((found.bind TrackedJob.result).getD (.obj []))) := by
    refine not_due_of_sends ?_ id st
    exact ⟨rfl, fun _ _ _ => ⟨rfl, trivial⟩⟩
  constructor
  · rintro ⟨_, t, an, s, hd⟩
    obtain ⟨hst, rfl⟩ := (due_sendProgress_bind.1 hd).resolve_right (hrest _)
    exact ⟨(Option.some.inj hst).symm, rfl⟩
  · rintro ⟨rfl, rfl⟩
    refine ⟨fun _ _ _ => rfl, 0, default, Stores.new none, ?_⟩
    exact due_sendProgress_bind.2 (Or.inl ⟨rfl, rfl⟩)

/-- Nothing empty is delivered where a handler delivers a translation. -/
theorem Delivers.result_ne {r : JobRegistry} {env : External} {token jobId videoId : String}
    {result : Json} (hd : Delivers r (deliverTranslation env token jobId videoId result)) :
    result ≠ .obj [] := by
  rcases hd with huntil | ⟨env', token', jobId', videoId', p, heq, _⟩
  · rcases huntil with ⟨env', token', jobId', videoId', mode, backend, heq⟩ | huntil
    · have hnext :=
        congrFun (congrFun (congrFun (Handler.lock.inj heq).2 0) default) (Stores.new none)
      cases hnext
    · rcases huntil 0 default (Stores.new none) with ⟨_, _, _, _, _, _, heq⟩ | ⟨hfull, _⟩
      · cases heq
      · rintro rfl
        exact hfull ⟨rfl, rfl, rfl⟩
  · have hnext :=
      congrFun (congrFun (congrFun (Handler.lock.inj heq).2 0) default) (Stores.new none)
    cases hnext

/-! ## The invariant -/

open Companion in
/-- The reports that are due agree with the registry. -/
structure Reporting (s : Companion) : Prop where
  sound : Sound s.stores.jobs
  keeps : ∀ c value body, s.Handling c value body → Guarantees KeepsSound body
  decides : ∀ c value body, s.Handling c value body → Throughout Decides body
  agrees : ∀ c value body, s.Handling c value body →
    ∀ jobId status, Due jobId status body → Agrees s.stores.jobs jobId status
  delivers : ∀ c value body, s.Handling c value body → Delivers s.stores.jobs body

section Invariant

variable {env : External} {s s' : Companion} {l : CompanionEvent}

theorem Reporting.keeps_sound (hI : Reporting s) (hm : s.Moves env s' l) :
    Sound s'.stores.jobs := by
  cases hm with
  | acts hbody _ hnext _ =>
    rcases ((hI.keeps _ _ _ hbody).next hnext).1 with hstores | hkeeps
    · rw [hstores]
      exact hI.sound
    · exact hkeeps hI.sound
  | ends _ _ hstores _ _ => exact hstores ▸ hI.sound
  | cancels hstores _ =>
    rw [hstores]
    exact hI.sound.cancel _
  | quiet hsame _ _ =>
    rw [hsame.jobs]
    exact hI.sound

/-- A translation that was run has succeeded: its job was neither cancelled nor paused. -/
theorem Reporting.translated (hI : Reporting s) {c : Nat} {an : Answers} {value : Json}
    (hC : KeepsReports ⟨s, .server (.act c an), s'⟩) {token id videoId : String}
    {mode : InferenceMode} {backend : Option Backend} {nowMs : Nat} {p : JobProgress}
    (hbody : s.Handling c value (translateSection env token id videoId mode backend))
    (hrun : (s.stores.jobs.runTranslate id mode backend nowMs).1 = .ok p) :
    p.jobId = id ∧ (s.stores.jobs.runTranslate id mode backend nowMs).2.statusOf id =
      some .succeeded := by
  rcases (hI.sound.runTranslate id mode backend nowMs).2 p hrun with
    ⟨job, hjob, hstopped⟩ | hsucceeded
  · obtain ⟨hcancelled, hpaused⟩ := hC.translated _ _ _ _ _ _ _ _ _ rfl hbody job hjob
    rw [hcancelled, hpaused] at hstopped
    simp at hstopped
  · exact hsucceeded

/-- What a handler decides to report agrees with the registry. -/
theorem Reporting.agrees_act (hI : Reporting s) {c : Nat} {an : Answers} {value : Json}
    {body body' : Handler Unit} (hC : KeepsReports ⟨s, .server (.act c an), s'⟩)
    (hbody : s.Handling c value body)
    (hnext : Next s.server.now (an.under s.models) body s.stores body' s'.stores) {jobId : String}
    {status : JobStatus} (hd : Due jobId status body') : Agrees s'.stores.jobs jobId status := by
  cases (hI.decides c value body hbody).self with
  | carries h =>
    obtain ⟨hdue, hjobs⟩ := h _ _ _ _ _ hnext _ _ hd
    rw [hjobs]
    exact hI.agrees c value body hbody jobId status hdue
  | settles h => exact h _ _ _ _ _ hnext _ _ hd
  | translate env' token id videoId mode backend =>
    obtain ⟨rfl, hjobs⟩ := next_lockJobs hnext
    rw [hjobs]
    split at hd
    · exact hd.elim
    · next p hrun =>
      obtain ⟨rfl, rfl⟩ := due_reportTranslated.1 hd
      obtain ⟨hid, hsucceeded⟩ := hI.translated hC hbody hrun
      rw [hid]
      exact Or.inl hsucceeded
  | plan token id videoId payload =>
    have hplanned := hC.planned c an value token id videoId payload
    rw [runAsrJob_eq] at hnext
    obtain ⟨rfl, hstores⟩ := hnext.of_ask
    rw [hstores]
    change Due jobId status
      (startPlanned token id videoId (planAnswer s.models (payload.getStr "modelId"))) at hd
    have hstart (asrMeta : Json) : ¬ Due jobId status (startCapture token id videoId asrMeta) := by
      intro hd
      obtain ⟨⟨⟩, _⟩ := due_sendProgress.1 (due_lockCapture_bind hd)
    rcases hplan : planAnswer s.models (payload.getStr "modelId") with _ | ⟨⟨model, err⟩ | planned⟩
    · rw [hplan] at hd
      exact absurd hd (hstart .null)
    · rw [hplan] at hd
      rcases hd with ⟨⟨⟩⟩ | hd
      obtain ⟨hst, rfl⟩ := due_sendProgress.1 hd
      obtain rfl := Option.some.inj hst
      exact hplanned _ rfl hbody hplan
    · rw [hplan] at hd
      exact absurd hd (hstart planned)
  | pause token id =>
    obtain ⟨rfl, hjobs⟩ := next_lockJobs hnext
    obtain ⟨hst, rfl⟩ := due_sendProgress.1 hd
    rw [hjobs]
    exact agrees_pause (hC.paused _ _ _ _ _ rfl hbody) hst
  | resume token id =>
    obtain ⟨rfl, hjobs⟩ := next_lockJobs hnext
    obtain ⟨hst, rfl⟩ := due_sendProgress.1 hd
    rw [hjobs]
    exact agrees_resume (hC.resumed _ _ _ _ _ rfl hbody) hst

/-- While a report is due, it agrees with the registry. -/
theorem Reporting.keeps_agrees (hI : Reporting s) (hm : s.Moves env s' l)
    (hC : KeepsReports ⟨s, l, s'⟩) {c : Nat} {value : Json} {body : Handler Unit}
    (hbody : s'.Handling c value body) :
    ∀ jobId status, Due jobId status body → Agrees s'.stores.jobs jobId status := by
  refine hm.handlers (Q := fun _ _ body =>
    ∀ jobId status, Due jobId status body → Agrees s'.stores.jobs jobId status) ?_ ?_ ?_ hbody
  · rintro c an value body body' rfl hbody hnext jobId status hd
    exact hI.agrees_act hC hbody hnext hd
  · intro c value body hl hbody jobId status hd
    have hstatus := hC.undisturbed c value body jobId status hbody hl hd
    unfold Agrees
    rw [hstatus]
    exact hI.agrees c value body hbody jobId status hd
  · exact fun _ value body hs jobId status hd => absurd hd (not_due_starts hs jobId status)

/-- A translation that was run is delivered with its result. -/
theorem Reporting.delivers_act (hI : Reporting s) {c : Nat} {an : Answers} {value : Json}
    {body body' : Handler Unit} (hC : KeepsReports ⟨s, .server (.act c an), s'⟩)
    (hbody : s.Handling c value body)
    (hnext : Next s.server.now (an.under s.models) body s.stores body' s'.stores) :
    Delivers s'.stores.jobs body' := by
  rcases hI.delivers c value body hbody with huntil | ⟨env', token, id, videoId, p, rfl, _,
    hsucceeded⟩
  · rcases huntil.next hnext with ⟨env', token, id, videoId, mode, backend, rfl⟩ | huntil
    · obtain ⟨rfl, hjobs⟩ := next_lockJobs hnext
      split
      · exact Or.inl trivial
      · next p hrun =>
        obtain ⟨hid, hsucceeded⟩ := hI.translated hC hbody hrun
        exact Or.inr ⟨env', token, id, videoId, p, rfl, hid, hjobs ▸ hsucceeded⟩
    · exact Or.inl huntil
  · obtain ⟨rfl, _⟩ := next_lockJobs hnext
    obtain ⟨job, hjob, hstatus⟩ := Option.map_eq_some_iff.1 hsucceeded
    obtain ⟨out, hout, hne⟩ := (hI.sound id job hjob).result hstatus
    have hresult : ((s.stores.jobs.get id).bind TrackedJob.result).getD (.obj []) = out := by
      rw [hjob, Option.bind_some, hout, Option.getD_some]
    dsimp only
    rw [hresult]
    refine Or.inl (until_of_sends (sends_full_progress.bind fun _ => ?_))
    exact ⟨full_of_type (by simp [strOr_type]), sends_full_deliver env' token id videoId hne⟩

theorem Reporting.keeps_delivers (hI : Reporting s) (hm : s.Moves env s' l)
    (hC : KeepsReports ⟨s, l, s'⟩) {c : Nat} {value : Json} {body : Handler Unit}
    (hbody : s'.Handling c value body) : Delivers s'.stores.jobs body := by
  refine hm.handlers (Q := fun _ _ body => Delivers s'.stores.jobs body) ?_ ?_ ?_ hbody
  · rintro c an value body body' rfl hbody hnext
    exact hI.delivers_act hC hbody hnext
  · intro c value body hl hbody
    rcases hI.delivers c value body hbody with huntil |
      ⟨env', token, id, videoId, p, rfl, rfl, hsucceeded⟩
    · exact Or.inl huntil
    · have hstatus := hC.undisturbed c value _ _ _ hbody hl (due_reportTranslated.2 ⟨rfl, rfl⟩)
      exact Or.inr ⟨env', token, p.jobId, videoId, p, rfl, rfl, hstatus.trans hsucceeded⟩
  · exact fun _ value body hs => delivers_starts hs _

theorem Reporting.step (hI : Reporting s) (hm : s.Moves env s' l) (hC : KeepsReports ⟨s, l, s'⟩) :
    Reporting s' where
  sound := hI.keeps_sound hm
  keeps _ _ _ hbody := by
    refine hm.handlers (Q := fun _ _ body => Guarantees KeepsSound body) ?_ ?_ ?_ hbody
    · exact fun c _ value body _ _ hbody hnext => ((hI.keeps c value body hbody).next hnext).2
    · exact fun c value body _ hbody => hI.keeps c value body hbody
    · exact fun _ _ _ hs => keepsSound_starts hs
  decides _ _ _ hbody := by
    refine hm.handlers (Q := fun _ _ body => Throughout Decides body) ?_ ?_ ?_ hbody
    · exact fun c _ value body _ _ hbody hnext => (hI.decides c value body hbody).next hnext
    · exact fun c value body _ hbody => hI.decides c value body hbody
    · exact fun _ _ _ hs => decides_starts hs
  agrees _ _ _ := hI.keeps_agrees hm hC
  delivers _ _ _ := hI.keeps_delivers hm hC

theorem Reporting.reports (hI : Reporting s) : ReportsAgree ⟨s, l, s'⟩ where
  status := by
    intro c an value message next jobId status job _ hbody hreport hjob
    rcases hI.agrees c value _ hbody jobId status (Or.inl hreport) with hstatus | ⟨hnone, _⟩
    · rw [JobRegistry.statusOf, hjob] at hstatus
      exact Option.some.inj hstatus
    · rw [JobRegistry.statusOf, hjob] at hnone
      cases hnone
  persisted c an value env token jobId videoId result _ hbody :=
    (hI.delivers c value _ hbody).result_ne

end Invariant

/-! ## Reports over runs -/

/-- In every run whose steps keep the reports in agreement with the registry, every step reports the
status that the registry holds, and no empty translation is persisted. -/
theorem reports_agree {env : External} {debug : Bool} {bootstrapToken : String}
    {pinned : Option String} {sqlite : Option SqliteStore} {now : Nat}
    {models : Option ModelManager} {h : List (Fired Companion CompanionEvent)} {s : Companion}
    (hr : Run (Companion.step env debug) (.start bootstrapToken pinned sqlite now models) h s)
    (hC : ∀ f ∈ h, KeepsReports f) : ∀ f ∈ h, ReportsAgree f := by
  have hinv : Reporting s ∧ ∀ f ∈ h, ReportsAgree f := by
    refine Run.invWhen KeepsReports (fun h s => Reporting s ∧ ∀ f ∈ h, ReportsAgree f) ?_ ?_ hr hC
    · have hnot (c : Nat) (value : Json) (body : Handler Unit) :
          ¬ (Companion.start bootstrapToken pinned sqlite now models).Handling c value body := by
        rintro ⟨conn, hconn, _⟩
        simp [Companion.start, Server.start] at hconn
      refine ⟨⟨?_, ?_, ?_, ?_, ?_⟩, by simp⟩
      · rintro jobId job ⟨⟩
      all_goals exact fun c value body hbody => absurd hbody (hnot c value body)
    · rintro h s l s' hr ⟨hI, hreports⟩ hC hs
      refine ⟨hI.step (Companion.run_moves hr hs) hC, fun f hf => ?_⟩
      rcases List.mem_cons.1 hf with rfl | hf
      · exact hI.reports
      · exact hreports f hf
  exact hinv.2

/-! ## Runs with a translate job -/

def submitTranslateText : String :=
  sessionText "\"type\":\"job.submit\",\"jobId\":\"j\",\"videoId\":\"v\",\"kind\":\"translate\""

def submitsTranslate : External :=
  extensionSends [(submitTranslateText, sessionMessage [("type", .str "job.submit"),
    ("jobId", .str "j"), ("videoId", .str "v"), ("kind", .str "translate")])]

/-- The message that the handler of a connection sends next. -/
def Companion.sending (s : Companion) (c : Nat) : Option Json := do
  let conn ← s.server.connections[c]?
  match conn.task with
  | .handling _ (.handle (.send message _)) => some message
  | _ => none

theorem Companion.sending_eq_some {s : Companion} {c : Nat} {message : Json}
    (hs : s.sending c = some message) : ∃ value next, s.Handling c value (.send message next) := by
  unfold sending at hs
  obtain ⟨conn, hconn, hs⟩ := Option.bind_eq_some_iff.1 hs
  split at hs
  · next value message' next htask =>
    obtain rfl := Option.some.inj hs
    exact ⟨value, next, conn, hconn, htask⟩
  · cases hs

/-- The GUI cancels a translate job before it is run: it is reported as succeeded while the registry
holds it as cancelled. -/
theorem not_reports_agree : ¬ ∀ (env : External) (debug : Bool) (bootstrapToken : String)
    (pinned : Option String) (sqlite : Option SqliteStore) (now : Nat)
    (models : Option ModelManager) (h : List (Fired Companion CompanionEvent)) (s : Companion),
    Run (Companion.step env debug) (.start bootstrapToken pinned sqlite now models) h s →
      ∀ f ∈ h, ReportsAgree f := by
  intro hall
  have hend : (exec (Companion.step submitsTranslate false) (startedWith none)
      (connectEvents ++ messageEvents submitTranslateText 7 ++ [.cancelJob "j"] ++
        List.replicate 4 (.server (.act 0 (answersOf 0 0))))).bind
      (fun x => x.1.head?.map fun f => (f.label.acting, (f.pre.sending 0).bind terminalReport,
        (f.pre.stores.jobs.get "j").map TrackedJob.status)) =
      some (some 0, some ("j", .succeeded), some .cancelled) := by
    decide +kernel
  obtain ⟨⟨h, s⟩, hx, hfacts⟩ := Option.bind_eq_some_iff.1 hend
  obtain ⟨f, hf, hfacts⟩ := Option.map_eq_some_iff.1 hfacts
  simp only [Prod.mk.injEq, Option.map_eq_some_iff] at hfacts
  obtain ⟨hacting, hsent, job, hjob, hcancelled⟩ := hfacts
  obtain ⟨an, hlabel⟩ := CompanionEvent.acting_eq_some hacting
  obtain ⟨message, hsending, hreport⟩ := Option.bind_eq_some_iff.1 hsent
  obtain ⟨value, next, hbody⟩ := Companion.sending_eq_some hsending
  have hagree := hall _ _ _ _ _ _ _ h s (exec_run hx) f (List.mem_of_mem_head? hf)
  have hstatus := hagree.status 0 an value message next "j" .succeeded job hlabel hbody hreport hjob
  rw [hcancelled] at hstatus
  cases hstatus

/-- A step of a companion with one connection in which no job was cancelled or paused before. -/
structure Orderly (f : Fired Companion CompanionEvent) : Prop where
  live : ∀ e ∈ f.pre.stores.jobs.jobs.entries, e.2.cancelled = false ∧ e.2.paused = false
  models : f.pre.models.isNone = true
  alone : f.pre.Idle ∨ f.label.acting = some 0 ∧ f.pre.server.connections.length ≤ 1

instance (f : Fired Companion CompanionEvent) : Decidable (Orderly f) :=
  decidable_of_iff ((∀ e ∈ f.pre.stores.jobs.jobs.entries, e.2.cancelled = false ∧
    e.2.paused = false) ∧
      f.pre.models.isNone = true ∧
      (f.pre.Idle ∨ f.label.acting = some 0 ∧ f.pre.server.connections.length ≤ 1))
    ⟨fun ⟨h₁, h₂, h₃⟩ => ⟨h₁, h₂, h₃⟩, fun ⟨h₁, h₂, h₃⟩ => ⟨h₁, h₂, h₃⟩⟩

theorem Orderly.keepsReports {f : Fired Companion CompanionEvent} (hf : Orderly f) :
    KeepsReports f := by
  have hlive {jobId : String} {job : TrackedJob} (hjob : f.pre.stores.jobs.get jobId = some job) :
      job.cancelled = false ∧ job.paused = false :=
    hf.live _ ((OrderedMap.get?_eq_some_iff _).1 hjob)
  constructor
  · exact fun _ _ _ _ _ _ _ _ _ _ _ job hjob => hlive hjob
  · intro c an value token jobId videoId payload e _ _ hplan
    rw [Option.isNone_iff_eq_none.1 hf.models] at hplan
    cases hplan
  · intro c an value token jobId _ _ job hjob hcancelled
    rw [(hlive hjob).1] at hcancelled
    cases hcancelled
  · intro c an value token jobId _ _ job hjob hcancelled
    rw [(hlive hjob).1] at hcancelled
    cases hcancelled
  · intro c value body jobId status hbody hl _
    rcases hf.alone with hidle | ⟨hacting, hone⟩
    · exact absurd hbody hidle.not_handling
    · obtain ⟨an, hlabel⟩ := CompanionEvent.acting_eq_some hacting
      obtain ⟨conn, hconn, _⟩ := hbody
      have hc : c = 0 := by
        have hlt := (List.getElem?_eq_some_iff.1 hconn).1
        omega
      exact absurd (hc ▸ hlabel) (hl an)

/-- A translate job is reported as succeeded once it has. -/
theorem reports_agree_translated : ∃ h s,
    Run (Companion.step submitsTranslate false)
      (.start "bootstrap" (some "abcdefgh") none 1000 none) h s ∧
    s.stores.jobs.statusOf "j" = some .succeeded ∧ ∀ f ∈ h, ReportsAgree f := by
  have hend : (exec (Companion.step submitsTranslate false) (startedWith none)
      (connectEvents ++ messageEvents submitTranslateText 15)).map
      (fun x => (x.2.stores.jobs.statusOf "j", decide (∀ f ∈ x.1, Orderly f))) =
      some (some .succeeded, true) := by
    decide +kernel
  obtain ⟨⟨h, s⟩, hx, hfacts⟩ := Option.map_eq_some_iff.1 hend
  simp only [Prod.mk.injEq, decide_eq_true_eq] at hfacts
  have hr := exec_run hx
  exact ⟨h, s, hr, hfacts.1, reports_agree hr fun f hf => (hfacts.2 f hf).keepsReports⟩

end LanguageLlm.Desktop
