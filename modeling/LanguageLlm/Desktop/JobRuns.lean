import LanguageLlm.Desktop.JobStates
import LanguageLlm.Desktop.Reports

/-!
# Runs of jobs

What a run of a job leaves in the registry and what it makes of the lines that the model did not
answer. `fails_cleanly_iff` says when a run that fails is contained and answered, and
`unprocessed_marked_iff` when a result marks the lines that no model has processed.
-/

namespace LanguageLlm.Desktop

open Lib JobRegistry Handler

/-! ## Failing runs -/

/-- A job is registered under its identifier. -/
def JobRegistry.Registers (r : JobRegistry) (jobId : String) : Prop :=
  ∃ job, r.get jobId = some job ∧ job.id = jobId

/-- What the other connections do to the stores: the jobs stay registered. -/
def Tracks (s s' : Stores) : Prop := ∀ jobId, s.jobs.Registers jobId → s'.jobs.Registers jobId

instance : Std.Refl Tracks := ⟨fun _ _ h => h⟩

/-- `job.submit` of a translate job up to its run: the mode and the backend. -/
def submitTranslate (value : Json) : Handler (InferenceMode × Option Backend) := do
  lockJobs fun _ r => ((), r.submit (value.strOr "jobId" "") .translate (value.strOr "videoId" "")
    (value.getOr "payload" (.obj [])))
  sendProgress (value.strOr "sessionToken" "") (value.strOr "jobId" "")
    (value.strOr "kind" "translate")
    "running" (1 / 10) none []
  answer Answers.translator

/-- And from its run. -/
def runSubmitted (env : External) (value : Json) (mode : InferenceMode) (backend : Option Backend) :
    Handler Unit :=
  translateSection env (value.strOr "sessionToken" "") (value.strOr "jobId" "")
    (value.strOr "videoId" "") mode backend

theorem handleJobSubmit_translate (env : External) {value : Json}
    (hkind : JobKind.parse (value.strOr "kind" "translate") = some .translate) :
    handleJobSubmit env value = (do
      let (mode, backend) ← submitTranslate value
      runSubmitted env value mode backend) := by
  rw [handleJobSubmit_eq, hkind]
  rfl

/-- The message is the last word on a job: its terminal status, or an error. -/
def Concludes (jobId : String) (message : Json) : Prop :=
  (∃ status, terminalReport message = some (jobId, status)) ∨
    message.strOr "type" "" = "error" ∧ message.strOr "jobId" "" = jobId

/-- A run that returns an error leaves the record of the job, or marks it as failed. -/
def Contained (r : JobRegistry) (jobId : String) (mode : InferenceMode) (backend : Option Backend) :
    Prop :=
  ∀ nowMs e, (r.runTranslate jobId mode backend nowMs).1 = .error e →
    (r.runTranslate jobId mode backend nowMs).2.get jobId = r.get jobId ∨
      (r.runTranslate jobId mode backend nowMs).2.statusOf jobId = some .failed

/-- A translate job is neither cancelled nor paused, and there is no backend for its model. -/
def Stuck (r : JobRegistry) (jobId : String) (mode : InferenceMode) (backend : Option Backend) :
    Prop :=
  ∃ job, r.get jobId = some job ∧ job.cancelled = false ∧ job.paused = false ∧ mode = .weights ∧
    backend.isNone = true

section Run

variable {r : JobRegistry} {jobId : String} {job : TrackedJob} {mode : InferenceMode}
  {backend : Option Backend}

/-- A run of a job returns what it reports, except when it is stuck. -/
theorem runTranslate_ok (hjob : r.get jobId = some job) (hstuck : ¬ Stuck r jobId mode backend)
    (nowMs : Nat) :
    ∃ p, (r.runTranslate jobId mode backend nowMs).1 = .ok p ∧ p.jobId = job.id := by
  cases hcancelled : job.cancelled with
  | true =>
    refine ⟨progress job .cancelled 1 (some "cancelled") nowMs, ?_, rfl⟩
    simp [JobRegistry.runTranslate, hjob, hcancelled]
  | false =>
    cases hpaused : job.paused with
    | true =>
      refine ⟨progress job .paused job.fraction (some "paused") nowMs, ?_, rfl⟩
      simp [JobRegistry.runTranslate, hjob, hcancelled, hpaused]
    | false =>
      simp only [JobRegistry.runTranslate, hjob, hcancelled, hpaused]
      cases mode with
      | offlineMock => exact ⟨_, rfl, rfl⟩
      | weights =>
        cases backend with
        | none => exact absurd ⟨job, hjob, hcancelled, hpaused, rfl, rfl⟩ hstuck
        | some complete => exact ⟨_, rfl, rfl⟩

theorem runTranslate_stuck (hjob : r.get jobId = some job) (hcancelled : job.cancelled = false)
    (hpaused : job.paused = false) (nowMs : Nat) :
    r.runTranslate jobId .weights none nowMs =
      (.error (.modelNotInstalled "llama.cpp backend unavailable"),
        r.put jobId { job with status := .running }) := by
  simp [JobRegistry.runTranslate, hjob, hcancelled, hpaused]

theorem contained_iff (r : JobRegistry) (jobId : String) (mode : InferenceMode)
    (backend : Option Backend) :
    Contained r jobId mode backend ↔
      (Stuck r jobId mode backend → r.statusOf jobId = some .running) := by
  constructor
  · rintro hcontained ⟨job, hjob, hcancelled, hpaused, rfl, hnone⟩
    obtain rfl := Option.isNone_iff_eq_none.1 hnone
    have hrun := runTranslate_stuck hjob hcancelled hpaused 0
    have hafter := hcontained 0 _ (congrArg Prod.fst hrun)
    rw [hrun, JobRegistry.statusOf, get_put_self, hjob] at hafter
    rcases hafter with hsame | hfailed
    · rw [JobRegistry.statusOf, hjob, ← Option.some.inj hsame]
      rfl
    · cases hfailed
  · intro hrunning nowMs e he
    cases hjob : r.get jobId with
    | none =>
      left
      rw [JobRegistry.runTranslate, hjob]
      exact hjob
    | some job =>
      by_cases hstuck : Stuck r jobId mode backend
      · have hstatus := hrunning hstuck
        obtain ⟨old, hold, hcancelled, hpaused, rfl, hnone⟩ := hstuck
        obtain rfl := Option.isNone_iff_eq_none.1 hnone
        rw [hjob] at hold
        cases hold
        rw [JobRegistry.statusOf, hjob] at hstatus
        have hkept : { job with status := .running } = job := by
          rw [← (Option.some.inj hstatus : job.status = .running)]
        left
        rw [runTranslate_stuck hjob hcancelled hpaused, hkept, get_put_self]
      · obtain ⟨p, hp, -⟩ := runTranslate_ok hjob hstuck nowMs
        rw [hp] at he
        cases he

end Run

section Answer

variable {env : External} {value : Json} {s₀ s : Stores} {out₁ : List Json} {mode : InferenceMode}
  {backend : Option Backend}

/-- The client is told how the job ended, whatever the others do meanwhile. -/
def Answered (env : External) (value : Json) (sent : List Json) (s : Stores) (mode : InferenceMode)
    (backend : Option Backend) : Prop :=
  ∀ out s', Exec Tracks (runSubmitted env value mode backend) s out () s' →
    ∃ message ∈ sent ++ out, Concludes (value.strOr "jobId" "") message

/-- Before its run a job is registered, and is reported as running. -/
theorem exec_submitTranslate (hsubmit : Exec Tracks (submitTranslate value) s₀ out₁
      (mode, backend) s) :
    s.jobs.Registers (value.strOr "jobId" "") ∧
      ∃ t, out₁ = [progressMessage (value.strOr "sessionToken" "") (value.strOr "jobId" "")
        (value.strOr "kind" "translate") "running" (1 / 10) none [] t] := by
  simp only [submitTranslate, exec_bind_iff, exec_lockJobs_iff, exec_sendProgress_iff,
    exec_answer_iff] at hsubmit
  obtain ⟨_, _, s₁, _, ⟨_, _, rfl, hs₁⟩, ⟨_, _, s₂, _, ⟨t, s₃, hs₃, hs₂, rfl⟩, ⟨_, rfl, hs⟩, rfl⟩,
    rfl⟩ := hsubmit
  refine ⟨hs _ (hs₂ _ (hs₃ _ (hs₁ _ ?_))), t, rfl⟩
  exact ⟨_, get_put_self .., rfl⟩

theorem not_concludes_running (token jobId kind : String) (t : Nat) (id : String) :
    ¬ Concludes id (progressMessage token jobId kind "running" (1 / 10) none [] t) := by
  rintro (⟨status, hreport⟩ | ⟨htype, -⟩)
  · rw [terminalReport_progress] at hreport
    cases hreport
  · have hprogress : (progressMessage token jobId kind "running" (1 / 10) none [] t).strOr
      "type" "" =
        "job.progress" := rfl
    rw [hprogress] at htype
    exact absurd htype (by decide)

/-- A run that does not get stuck is reported. -/
theorem answered_of_not_stuck (hregisters : s.jobs.Registers (value.strOr "jobId" ""))
    (hstuck : ¬ Stuck s.jobs (value.strOr "jobId" "") mode backend) (sent : List Json) :
    Answered env value sent s mode backend := by
  intro out s' hexec
  obtain ⟨job, hjob, hid⟩ := hregisters
  simp only [runSubmitted, translateSection, exec_bind_iff, exec_lockJobs_iff] at hexec
  obtain ⟨run, _, s₁, out₂, ⟨t, hrun, rfl, -⟩, hreport, rfl⟩ := hexec
  obtain ⟨p, hp, hpid⟩ := runTranslate_ok hjob hstuck t
  rw [hp] at hrun
  subst hrun
  simp only [reportTranslated, exec_bind_iff, exec_lockJobs_iff, exec_sendProgress_iff] at hreport
  obtain ⟨_, _, s₂, _, ⟨_, _, rfl, -⟩, ⟨_, _, s₃, out₃, ⟨t', _, _, _, rfl⟩, _, rfl⟩, rfl⟩ := hreport
  refine ⟨_, List.mem_append_right _
    (List.mem_append_right _ (List.mem_append_left _ List.mem_cons_self)), ?_⟩
  refine Or.inl ⟨.succeeded, ?_⟩
  rw [terminalReport_progress, hpid, hid]
  rfl

/-- A run that is stuck is not. -/
theorem exec_stuck (env : External) (value : Json)
    (hstuck : Stuck s.jobs (value.strOr "jobId" "") mode backend) :
    ∃ s', Exec Tracks (runSubmitted env value mode backend) s [] () s' := by
  obtain ⟨job, hjob, hcancelled, hpaused, rfl, hnone⟩ := hstuck
  obtain rfl := Option.isNone_iff_eq_none.1 hnone
  have hrun := runTranslate_stuck hjob hcancelled hpaused 0
  refine ⟨{ s with jobs := (s.jobs.runTranslate (value.strOr "jobId" "") .weights none 0).2 }, ?_⟩
  simp only [runSubmitted, translateSection, exec_bind_iff, exec_lockJobs_iff]
  refine ⟨_, [], _, [], ⟨0, rfl, rfl, Std.Refl.refl _⟩, ?_, rfl⟩
  rw [hrun]
  exact .pure _ _

end Answer

/-- A run that fails is contained exactly when it is not stuck or the job was running before; and
the client that submits a job is told how it ended exactly when its run is not stuck. -/
theorem fails_cleanly_iff (mode : InferenceMode) (backend : Option Backend) :
    (∀ r jobId, Contained r jobId mode backend ↔
      (Stuck r jobId mode backend → r.statusOf jobId = some .running)) ∧
    ∀ env value s₀ sent s, Exec Tracks (submitTranslate value) s₀ sent (mode, backend) s →
      (Answered env value sent s mode backend ↔
        ¬ Stuck s.jobs (value.strOr "jobId" "") mode backend) := by
  refine ⟨fun r jobId => contained_iff r jobId mode backend, fun env value s₀ sent s hsubmit => ?_⟩
  obtain ⟨hregisters, t, hsent⟩ := exec_submitTranslate hsubmit
  constructor
  · intro hanswered hstuck
    obtain ⟨s', hexec⟩ := exec_stuck env value hstuck
    obtain ⟨message, hmem, hconcludes⟩ := hanswered _ _ hexec
    rw [List.append_nil, hsent, List.mem_singleton] at hmem
    subst hmem
    exact not_concludes_running _ _ _ _ _ hconcludes
  · exact fun hstuck => answered_of_not_stuck hregisters hstuck sent

/-- `job.submit` of a translate job with one line. -/
def submittedLine : Json :=
  .obj [("jobId", .str "j"), ("payload", .obj [("texts", .arr [.str "a"])])]

/-- The model is there, but its runtime cannot be loaded. -/
def unloadable : Answers := { (default : Answers) with translator := (.weights, none) }

/-- What the job is before its run. -/
def beforeRun : List Json × Stores :=
  match perform 0 unloadable (submitTranslate submittedLine) (.new none) with
  | some (sent, _, s) => (sent, s)
  | none => ([], .new none)

theorem exec_beforeRun :
    Exec Tracks (submitTranslate submittedLine)
    (.new none) beforeRun.1 (.weights, none) beforeRun.2 :=
  have hperform : perform 0 unloadable (submitTranslate submittedLine) (.new none) =
      some (beforeRun.1, (.weights, none), beforeRun.2) := rfl
  exec_of_perform hperform

theorem fails_cleanly_iff_unloadable :
    Answered submitsTranslate submittedLine beforeRun.1 beforeRun.2 .weights none ↔
      ¬ Stuck beforeRun.2.jobs "j" .weights none :=
  (fails_cleanly_iff .weights none).2 submitsTranslate submittedLine _ _ _ exec_beforeRun

/-- The job stays running, and the client hears nothing of it again. -/
theorem not_fails_cleanly :
    (¬ ∀ r jobId mode backend, Contained r jobId mode backend) ∧
      ¬ ∀ env value s₀ sent mode backend s,
        Exec Tracks (submitTranslate value) s₀ sent (mode, backend) s →
        Answered env value sent s mode backend := by
  have hstuck : Stuck beforeRun.2.jobs "j" .weights none := ⟨_, rfl, rfl, rfl, rfl, rfl⟩
  constructor
  · intro hall
    have hrunning := (contained_iff _ _ _ _).1 (hall beforeRun.2.jobs "j" .weights none) hstuck
    exact absurd hrunning (by decide)
  · intro hall
    obtain ⟨s', hexec⟩ := exec_stuck submitsTranslate submittedLine hstuck
    obtain ⟨message, hmem, hconcludes⟩ := hall submitsTranslate _ _ _ _ _ _ exec_beforeRun _ _ hexec
    obtain ⟨-, t, hsent⟩ := exec_submitTranslate exec_beforeRun
    rw [List.append_nil, hsent, List.mem_singleton] at hmem
    subst hmem
    exact not_concludes_running _ _ _ _ _ hconcludes

/-! ## Lines that no model has processed -/

/-- A completion of the `i`-th line succeeded. -/
def Processed (mode : InferenceMode) (backend : Option Backend) (target : String) (i : Nat)
    (line : String) : Prop :=
  mode = .weights ∧ ∃ complete answer, backend = some complete ∧
    complete i (buildMtPrompt line target) = some answer

/-- The cue is provisional, and its confidence is not that of a processed line. -/
def Marked (cue : Json) : Prop :=
  cue.get "provisional" = some (.bool true) ∧ cue.get "confidence" ≠ some (.float (85 / 100))

/-- The elements of the array in a field. -/
def itemsAt (v : Json) (key : String) : List Json := ((v.get key).bind Json.asArray).getD []

/-- Every cue of a line that was not processed is marked. -/
def MarksUnprocessed (mode : InferenceMode) (backend : Option Backend) (target : String)
    (lines : List String) (cues : List Json) : Prop :=
  ∀ (i : Nat) line cue, lines[i]? = some line → cues[i]? = some cue →
    ¬ Processed mode backend target i line → Marked cue

/-- The original texts of the segments of a page. -/
def originals (payload : Json) : List String :=
  (itemsAt payload "segments").map fun seg => seg.strOr "originalText" ""

/-- A run of a translate job that succeeds marks what was not processed. -/
def MarksTranslate (r : JobRegistry) (jobId : String) (mode : InferenceMode)
    (backend : Option Backend) : Prop :=
  ∀ job nowMs p output, r.get jobId = some job →
    (r.runTranslate jobId mode backend nowMs).1 = .ok p →
    p.status = .succeeded →
    ((r.runTranslate jobId mode backend nowMs).2.get jobId).bind TrackedJob.result = some output →
    MarksUnprocessed mode backend (targetLang job.payload) (texts job.payload)
      (itemsAt output "cues")

/-- And so does a run of a page-translate job. -/
def MarksPage (r : JobRegistry) (jobId : String) (mode : InferenceMode) (backend : Option Backend) :
    Prop :=
  ∀ job output, r.get jobId = some job → (r.runPageTranslate jobId mode backend).1 = some output →
    MarksUnprocessed mode backend (targetLang job.payload) (originals job.payload)
      (itemsAt output "results")

/-- The completions of all lines succeeded. -/
def AllProcessed (mode : InferenceMode) (backend : Option Backend) (target : String)
    (lines : List String) : Prop :=
  ∀ (i : Nat) line, lines[i]? = some line → Processed mode backend target i line

section Marks

variable {r : JobRegistry} {jobId : String} {job : TrackedJob} {mode : InferenceMode}
  {backend : Option Backend}

theorem float_confidence_ne {q : Rat} (hq : q ≠ 85 / 100) :
    some (Json.float q) ≠ some (.float (85 / 100)) := by
  intro h
  injection h with h
  injection h with h
  exact hq h

/-- Cues that are marked in the offline mode alone. -/
theorem marksUnprocessed_iff {target : String} {lines : List String} {cues : List Json}
    (hlength : cues.length = lines.length)
    (hmarked : ∀ cue ∈ cues, Marked cue ↔ mode = .offlineMock) :
    MarksUnprocessed mode backend target lines cues ↔
      mode = .offlineMock ∨ AllProcessed mode backend target lines := by
  constructor
  · intro hmarks
    by_cases hmode : mode = .offlineMock
    · exact Or.inl hmode
    · refine Or.inr fun i line hline => ?_
      by_contra hprocessed
      obtain ⟨hi, -⟩ := List.getElem?_eq_some_iff.1 hline
      rw [← hlength] at hi
      have hcue := List.getElem?_eq_getElem hi
      exact hmode ((hmarked _ (List.getElem_mem hi)).1 (hmarks i line _ hline hcue hprocessed))
  · intro h i line cue hline hcue hprocessed
    rcases h with hmode | hall
    · exact (hmarked cue (List.mem_of_getElem? hcue)).2 hmode
    · exact absurd (hall i line hline) hprocessed

theorem marked_translateOutput (mode : InferenceMode) (lines : List String) (nowMs : Nat) :
    ∀ cue ∈ itemsAt (translateOutput mode lines nowMs) "cues", Marked cue ↔
      mode = .offlineMock := by
  intro cue hcue
  obtain ⟨⟨text, i⟩, -, rfl⟩ := List.mem_map.1 (show cue ∈ lines.zipIdx.map _ from hcue)
  cases mode with
  | offlineMock => exact iff_of_true ⟨rfl, float_confidence_ne (by norm_num)⟩ rfl
  | weights => exact iff_of_false (fun h => nomatch h.1) nofun

theorem marked_translateSegment (mode : InferenceMode) (backend : Option Backend) (target : String)
    (i : Nat)
    (seg : Json) : Marked (translateSegment mode backend target i seg) ↔ mode = .offlineMock := by
  cases mode with
  | offlineMock => exact iff_of_true ⟨rfl, float_confidence_ne (by norm_num)⟩ rfl
  | weights => exact iff_of_false (fun h => nomatch h.1) nofun

/-- The lines of a translate job that succeeds are as many as its texts. -/
theorem length_translatedLines {payload : Json} {lines : List String}
    (hlines : translatedLines mode backend payload = some lines) :
    lines.length = (texts payload).length := by
  cases mode with
  | offlineMock =>
    cases hlines
    exact List.length_map ..
  | weights =>
    cases backend with
    | none => cases hlines
    | some complete =>
      cases hlines
      rw [List.length_map, List.length_zipIdx]

/-- What a translate job leaves when it succeeds. -/
theorem runTranslate_output (hjob : r.get jobId = some job) (hcancelled : job.cancelled = false)
    (hpaused : job.paused = false) {lines : List String}
    (hlines : translatedLines mode backend job.payload = some lines) (nowMs : Nat) :
    ((r.runTranslate jobId mode backend nowMs).2.get jobId).bind TrackedJob.result =
      some (translateOutput mode lines nowMs) := by
  rw [runTranslate_live hjob hcancelled hpaused, get_put_self, hlines]
  rfl

theorem runTranslate_succeeds (hjob : r.get jobId = some job) (hcancelled : job.cancelled = false)
    (hpaused : job.paused = false) {lines : List String}
    (hlines : translatedLines mode backend job.payload = some lines) (nowMs : Nat) :
    ∃ p, (r.runTranslate jobId mode backend nowMs).1 = .ok p ∧ p.status = .succeeded := by
  simp only [JobRegistry.runTranslate, hjob, hcancelled, hpaused]
  cases mode with
  | offlineMock => exact ⟨_, rfl, rfl⟩
  | weights =>
    cases backend with
    | none => cases hlines
    | some complete => exact ⟨_, rfl, rfl⟩

/-- A run that succeeds is of a job that is neither cancelled nor paused, and has its lines. -/
theorem live_of_succeeded (hjob : r.get jobId = some job) {nowMs : Nat} {p : JobProgress}
    (hok : (r.runTranslate jobId mode backend nowMs).1 = .ok p) (hstatus : p.status = .succeeded) :
    job.cancelled = false ∧ job.paused = false ∧
      ∃ lines, translatedLines mode backend job.payload = some lines := by
  simp only [JobRegistry.runTranslate, hjob] at hok
  cases hcancelled : job.cancelled with
  | true =>
    rw [if_pos hcancelled] at hok
    cases hok
    cases hstatus
  | false =>
    cases hpaused : job.paused with
    | true =>
      simp only [hcancelled, hpaused] at hok
      cases hok
      cases hstatus
    | false =>
      simp only [hcancelled, hpaused] at hok
      refine ⟨rfl, rfl, ?_⟩
      cases mode with
      | offlineMock => exact ⟨_, rfl⟩
      | weights =>
        cases backend with
        | none => cases hok
        | some complete => exact ⟨_, rfl⟩

theorem originals_length (payload : Json) (f : Nat → Json → Json) :
    ((itemsAt payload "segments").zipIdx.map fun (seg, i) => f i seg).length =
      (originals payload).length := by
  rw [List.length_map, List.length_zipIdx, originals, List.length_map]

end Marks

/-- The lines of a translate job that would be run are mock text, or there is no run without a
backend, or each is processed. -/
def TranslateProcessed (r : JobRegistry) (jobId : String) (mode : InferenceMode)
    (backend : Option Backend) : Prop :=
  ∀ job, r.get jobId = some job → job.cancelled = false → job.paused = false →
    mode = .offlineMock ∨ backend.isNone = true ∨
      AllProcessed mode backend (targetLang job.payload) (texts job.payload)

/-- The segments of a page-translate job that would be run are mock text, or each is processed. -/
def PageProcessed (r : JobRegistry) (jobId : String) (mode : InferenceMode)
    (backend : Option Backend) : Prop :=
  ∀ job, r.get jobId = some job → job.cancelled = false →
    mode = .offlineMock ∨ AllProcessed mode backend (targetLang job.payload) (originals job.payload)

theorem marksTranslate_iff (r : JobRegistry) (jobId : String) (mode : InferenceMode)
    (backend : Option Backend) :
    MarksTranslate r jobId mode backend ↔ TranslateProcessed r jobId mode backend := by
  have hiff : ∀ (job : TrackedJob) lines nowMs, translatedLines mode backend job.payload =
    some lines →
      (MarksUnprocessed mode backend (targetLang job.payload) (texts job.payload)
          (itemsAt (translateOutput mode lines nowMs) "cues") ↔
        mode = .offlineMock ∨
          AllProcessed mode backend (targetLang job.payload) (texts job.payload)) := by
    intro job lines nowMs hlines
    refine marksUnprocessed_iff ?_ (marked_translateOutput mode lines nowMs)
    rw [← length_translatedLines hlines]
    exact (List.length_map ..).trans List.length_zipIdx
  constructor
  · intro hmarks job hjob hcancelled hpaused
    cases hlines : translatedLines mode backend job.payload with
    | some lines =>
      obtain ⟨p, hok, hstatus⟩ := runTranslate_succeeds hjob hcancelled hpaused hlines 0
      have hafter :=
        hmarks job 0 p _ hjob hok hstatus (runTranslate_output hjob hcancelled hpaused hlines 0)
      rcases (hiff job lines 0 hlines).1 hafter with hmock | hall
      · exact Or.inl hmock
      · exact Or.inr (Or.inr hall)
    | none =>
      cases mode with
      | offlineMock => cases hlines
      | weights =>
        cases backend with
        | none => exact Or.inr (Or.inl rfl)
        | some complete => cases hlines
  · intro hprocessed job nowMs p output hjob hok hstatus houtput
    obtain ⟨hcancelled, hpaused, lines, hlines⟩ := live_of_succeeded hjob hok hstatus
    rw [runTranslate_output hjob hcancelled hpaused hlines] at houtput
    cases houtput
    refine (hiff job lines nowMs hlines).2 ?_
    rcases hprocessed job hjob hcancelled hpaused with hmock | hnone | hall
    · exact Or.inl hmock
    · obtain rfl := Option.isNone_iff_eq_none.1 hnone
      cases mode with
      | offlineMock => exact Or.inl rfl
      | weights => cases hlines
    · exact Or.inr hall

theorem marksPage_iff (r : JobRegistry) (jobId : String) (mode : InferenceMode)
    (backend : Option Backend) :
    MarksPage r jobId mode backend ↔ PageProcessed r jobId mode backend := by
  have hiff : ∀ payload, MarksUnprocessed mode backend (targetLang payload) (originals payload)
        (itemsAt (pageOutput mode backend payload) "results") ↔
      mode = .offlineMock ∨ AllProcessed mode backend (targetLang payload) (originals payload) := by
    intro payload
    refine marksUnprocessed_iff (originals_length payload _) fun cue hcue => ?_
    obtain ⟨⟨seg, i⟩, -, rfl⟩ := List.mem_map.1 hcue
    exact marked_translateSegment ..
  constructor
  · intro hmarks job hjob hcancelled
    refine (hiff job.payload).1 (hmarks job _ hjob ?_)
    simp only [JobRegistry.runPageTranslate, hjob, hcancelled]
    rfl
  · intro hprocessed job output hjob houtput
    simp only [JobRegistry.runPageTranslate, hjob] at houtput
    cases hcancelled : job.cancelled with
    | true =>
      rw [if_pos hcancelled] at houtput
      cases houtput
    | false =>
      simp only [hcancelled] at houtput
      cases houtput
      exact (hiff job.payload).2 (hprocessed job hjob hcancelled)

/-- Both runs mark what no model has processed exactly when they run in the offline mode, have no
output, or process every line. -/
theorem unprocessed_marked_iff (r : JobRegistry) (jobId : String) (mode : InferenceMode)
    (backend : Option Backend) :
    (MarksTranslate r jobId mode backend ↔ TranslateProcessed r jobId mode backend) ∧
      (MarksPage r jobId mode backend ↔ PageProcessed r jobId mode backend) :=
  ⟨marksTranslate_iff r jobId mode backend, marksPage_iff r jobId mode backend⟩

/-- A line whose completion fails is passed off as translated, and so is a page without a backend.
-/
theorem not_unprocessed_marked :
    (¬ ∀ r jobId mode backend, MarksTranslate r jobId mode backend) ∧
      ¬ ∀ r jobId mode backend, MarksPage r jobId mode backend := by
  constructor
  · intro hall
    let payload : Json := .obj [("texts", .arr [.str "a"])]
    have hmarks :=
      hall (JobRegistry.empty.submit "j" .translate "v" payload) "j" .weights (some fun _ _ => none)
    rcases (marksTranslate_iff _ _ _ _).1 hmarks _ rfl rfl rfl with hmock | hnone | hprocessed
    · cases hmock
    · cases hnone
    · obtain ⟨-, complete, answer, ⟨⟩, hanswer⟩ := hprocessed 0 "a" rfl
      cases hanswer
  · intro hall
    let payload : Json := .obj [("segments", .arr [.obj [("originalText", .str "a")]])]
    have hmarks := hall (JobRegistry.empty.submit "j" .pageTranslate "v" payload) "j" .weights none
    rcases (marksPage_iff _ _ _ _).1 hmarks _ rfl rfl with hmock | hprocessed
    · cases hmock
    · obtain ⟨-, complete, answer, hbackend, -⟩ := hprocessed 0 "a" rfl
      cases hbackend

end LanguageLlm.Desktop
