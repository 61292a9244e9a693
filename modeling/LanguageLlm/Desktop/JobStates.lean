import Mathlib.Data.List.Induction
import LanguageLlm.Lib.Run
import LanguageLlm.Desktop.Jobs

/-!
# The states of a job

What sequences of calls make of a job. `terminal_absorbs_iff` says which terminal states stay, and
`pause_honoured_iff` in which runs the flags of a job agree with its status.
-/

namespace LanguageLlm.Desktop

open Lib JobRegistry

/-! ## The calls -/

/-- A call on the registry; `unsupported` is what `job.submit` writes to a job of a kind that it
does not run. -/
inductive JobOp where
  | submit (jobId : String) (kind : JobKind) (videoId : String) (payload : Json)
  | cancel (jobId : String)
  | pause (jobId : String)
  | resume (jobId : String)
  | runTranslate (jobId : String) (mode : InferenceMode) (backend : Option Backend) (nowMs : Nat)
  | runPageTranslate (jobId : String) (mode : InferenceMode) (backend : Option Backend)
  | unsupported (jobId kindStr : String)

namespace JobOp

def jobId : JobOp → String
  | submit jobId .. | cancel jobId | pause jobId | resume jobId | runTranslate jobId ..
  | runPageTranslate jobId .. | unsupported jobId _ => jobId

def isSubmit : JobOp → Bool
  | submit .. => true
  | cancel _ | pause _ | resume _ | runTranslate .. | runPageTranslate .. | unsupported .. => false

/-- The registry after the call. -/
def apply (r : JobRegistry) : JobOp → JobRegistry
  | submit jobId kind videoId payload => r.submit jobId kind videoId payload
  | cancel jobId => (r.cancel jobId).2
  | pause jobId => (r.pause jobId).2
  | resume jobId => (r.resume jobId).2
  | runTranslate jobId mode backend nowMs => (r.runTranslate jobId mode backend nowMs).2
  | runPageTranslate jobId mode backend => (r.runPageTranslate jobId mode backend).2
  | unsupported jobId kindStr => r.unsupported jobId kindStr

end JobOp

def JobRegistry.step (r : JobRegistry) (op : JobOp) : Option JobRegistry := some (op.apply r)

/-! ## What a call makes of its job -/

/-- The lines of a translate job; `none` without the backend that they need. -/
def translatedLines (mode : InferenceMode) (backend : Option Backend) (payload : Json) :
    Option (List String) :=
  match mode, backend with
  | .offlineMock, _ => some ((texts payload).map fun t => mockTranslateLine t (targetLang payload))
  | .weights, some complete =>
    some ((texts payload).zipIdx.map fun (t, i) =>
      (complete i (buildMtPrompt t (targetLang payload))).getD t)
  | .weights, none => none

/-- The job that was run with these lines. -/
def TrackedJob.translated (job : TrackedJob) (mode : InferenceMode) (nowMs : Nat) :
    Option (List String) → TrackedJob
  | some lines =>
    { job with fraction := 1, status := .succeeded, result := some (translateOutput mode lines
      nowMs) }
  | none => { job with status := .running }

/-- The results of a page-translate job. -/
def pageOutput (mode : InferenceMode) (backend : Option Backend) (payload : Json) : Json :=
  .obj [("results",
    .arr ((((payload.get "segments").bind Json.asArray).getD []).zipIdx.map fun (seg, i) =>
      translateSegment mode backend (targetLang payload) i seg)),
    ("cacheHit", .bool false), ("mode", .str mode.name)]

/-- The job after a call, that of `submit` apart. -/
def JobOp.effect (job : TrackedJob) : JobOp → TrackedJob
  | submit .. => job
  | cancel _ => { job with cancelled := true, status := .cancelled }
  | pause _ => if job.cancelled then job else { job with paused := true, status := .paused }
  | resume _ => if job.cancelled then job else { job with paused := false, status := .running }
  | runTranslate _ mode backend nowMs =>
    if job.cancelled ∨ job.paused then job
    else job.translated mode nowMs (translatedLines mode backend job.payload)
  | runPageTranslate _ mode backend =>
    if job.cancelled then { job with status := .cancelled }
    else { job with status := .succeeded, fraction := 1, result := some (pageOutput mode backend
      job.payload) }
  | unsupported _ kindStr =>
    { job with
      status := .failed
      fraction := 1
      result := some <| .obj
        [("ok", .bool false), ("error", .str "unsupported-job-kind"), ("kind", .str kindStr)] }

section Effect

variable {r : JobRegistry} {jobId : String} {job : TrackedJob}

theorem put_eq_self (hjob : r.get jobId = some job) : r.put jobId job = r :=
  congrArg JobRegistry.mk (OrderedMap.set_eq_self hjob)

/-- A run of a job that is neither cancelled nor paused. -/
theorem runTranslate_live (hjob : r.get jobId = some job) (hcancelled : job.cancelled = false)
    (hpaused : job.paused = false) (mode : InferenceMode) (backend : Option Backend) (nowMs : Nat) :
    (r.runTranslate jobId mode backend nowMs).2 =
      r.put jobId (job.translated mode nowMs (translatedLines mode backend job.payload)) := by
  obtain ⟨id, kind, videoId, status, fraction, cancelled, paused, payload, result⟩ := job
  obtain rfl : cancelled = false := hcancelled
  obtain rfl : paused = false := hpaused
  simp only [JobRegistry.runTranslate, hjob]
  cases mode with
  | offlineMock => rfl
  | weights =>
    cases backend with
    | none => rfl
    | some complete => rfl

/-- A run of a job that is cancelled or paused. -/
theorem runTranslate_idle (hjob : r.get jobId = some job)
    (hidle : job.cancelled = true ∨ job.paused = true)
    (nowMs : Nat) : ∃ p, ∀ mode backend, r.runTranslate jobId mode backend nowMs = (.ok p, r) := by
  by_cases hcancelled : job.cancelled = true
  · refine ⟨progress job .cancelled 1 (some "cancelled") nowMs, fun mode backend => ?_⟩
    rw [JobRegistry.runTranslate, hjob]
    exact if_pos hcancelled
  · refine ⟨progress job .paused job.fraction (some "paused") nowMs, fun mode backend => ?_⟩
    rw [JobRegistry.runTranslate, hjob]
    exact (if_neg hcancelled).trans (if_pos (hidle.resolve_left hcancelled))

theorem runPageTranslate_cancelled (hjob : r.get jobId = some job)
    (hcancelled : job.cancelled = true)
    (hstatus : job.status = .cancelled) (mode : InferenceMode) (backend : Option Backend) :
    r.runPageTranslate jobId mode backend = (none, r) := by
  have hkept : { job with status := .cancelled } = job := by rw [← hstatus]
  rw [JobRegistry.runPageTranslate, hjob]
  simp only [if_pos hcancelled, hkept, put_eq_self hjob]

/-- A call changes its job as `effect` says, and nothing when there is no such job. -/
theorem apply_eq {op : JobOp} (hop : op.isSubmit = false) :
    op.apply r = match r.get op.jobId with
      | some job => r.put op.jobId (op.effect job)
      | none => r := by
  cases op with
  | submit => cases hop
  | cancel jobId =>
    rw [JobOp.apply, JobRegistry.cancel, JobOp.jobId]
    cases r.get jobId <;> rfl
  | pause jobId =>
    rw [JobOp.apply, JobRegistry.pause, JobOp.jobId]
    cases hjob : r.get jobId with
    | none => rfl
    | some job =>
      cases hcancelled : job.cancelled with
      | true => simp [JobOp.effect, hcancelled, put_eq_self hjob]
      | false => simp [JobOp.effect, hcancelled]
  | resume jobId =>
    rw [JobOp.apply, JobRegistry.resume, JobOp.jobId]
    cases hjob : r.get jobId with
    | none => rfl
    | some job =>
      cases hcancelled : job.cancelled with
      | true => simp [JobOp.effect, hcancelled, put_eq_self hjob]
      | false => simp [JobOp.effect, hcancelled]
  | runTranslate jobId mode backend nowMs =>
    rw [JobOp.apply, JobOp.jobId]
    cases hjob : r.get jobId with
    | none => simp [JobRegistry.runTranslate, hjob]
    | some job =>
      cases hcancelled : job.cancelled with
      | true => simp [JobRegistry.runTranslate, hjob, JobOp.effect, hcancelled, put_eq_self hjob]
      | false =>
        cases hpaused : job.paused with
        | true =>
          simp [JobRegistry.runTranslate, hjob, JobOp.effect, hcancelled, hpaused, put_eq_self hjob]
        | false =>
          rw [runTranslate_live hjob hcancelled hpaused]
          simp [JobOp.effect, hcancelled, hpaused]
  | runPageTranslate jobId mode backend =>
    rw [JobOp.apply, JobRegistry.runPageTranslate, JobOp.jobId]
    cases r.get jobId with
    | none => rfl
    | some job =>
      cases hcancelled : job.cancelled with
      | true => simp [JobOp.effect, hcancelled]
      | false =>
        simp only [JobOp.effect, hcancelled]
        rfl
  | unsupported jobId kindStr =>
    rw [JobOp.apply, JobRegistry.unsupported, JobOp.jobId]
    cases r.get jobId <;> rfl

/-- A call leaves the other jobs. -/
theorem get_apply_of_ne (op : JobOp) (hne : jobId ≠ op.jobId) :
    (op.apply r).get jobId = r.get jobId := by
  cases hop : op.isSubmit with
  | false =>
    rw [apply_eq hop]
    split
    · exact get_put_ne _ _ hne
    · rfl
  | true =>
    cases op with
    | submit => exact get_put_ne _ _ hne
    | _ => cases hop

/-- And makes of its own what `effect` says. -/
theorem get_apply_self {op : JobOp} (hop : op.isSubmit = false) (hjob : r.get op.jobId = some job) :
    (op.apply r).get op.jobId = some (op.effect job) := by
  rw [apply_eq hop, hjob]
  exact get_put_self ..

/-- A job after a call is as `submit` makes it, the same as before, or what the call made of it. -/
theorem get_apply_cases (op : JobOp) (hjob : (op.apply r).get jobId = some job) :
    (job.status = .queued ∧ job.cancelled = false ∧ job.paused = false) ∨ r.get jobId = some job ∨
      ∃ old, jobId = op.jobId ∧ op.isSubmit = false ∧ r.get jobId = some old ∧
        job = op.effect old := by
  by_cases hid : jobId = op.jobId
  · subst hid
    cases hop : op.isSubmit with
    | false =>
      cases hold : r.get op.jobId with
      | none =>
        rw [apply_eq hop, hold, hold] at hjob
        cases hjob
      | some old =>
        rw [get_apply_self hop hold] at hjob
        cases hjob
        exact Or.inr (Or.inr ⟨old, rfl, rfl, rfl, rfl⟩)
    | true =>
      cases op with
      | submit jobId kind videoId payload =>
        have hnew : ((JobOp.submit jobId kind videoId payload).apply r).get jobId = some _ :=
          get_put_self ..
        rw [JobOp.jobId, hnew] at hjob
        cases hjob
        exact Or.inl ⟨rfl, rfl, rfl⟩
      | _ => cases hop
  · rw [get_apply_of_ne op hid] at hjob
    exact Or.inr (Or.inl hjob)

end Effect

/-! ## Terminal states -/

def JobStatus.terminal : JobStatus → Bool
  | .succeeded | .failed | .cancelled => true
  | .queued | .running | .paused => false

/-- The call does not submit the job again. -/
def JobOp.Spares (jobId : String) : JobOp → Prop
  | submit id .. | unsupported id _ => id ≠ jobId
  | cancel _ | pause _ | resume _ | runTranslate .. | runPageTranslate .. => True

/-- No sequence of calls changes the status or the result of the job. -/
def Absorbs (r : JobRegistry) (jobId : String) : Prop :=
  ∀ ops : List JobOp, (∀ op ∈ ops, op.Spares jobId) →
    ((ops.foldl JobOp.apply r).get jobId).map (fun job => (job.status, job.result)) =
      (r.get jobId).map fun job => (job.status, job.result)

/-- A job with the status `Cancelled` has the flag. -/
def CancelledFlagged (r : JobRegistry) : Prop :=
  ∀ jobId job, r.get jobId = some job → job.status = .cancelled → job.cancelled = true

theorem cancelledFlagged_effect {job : TrackedJob} (op : JobOp)
    (hold : job.status = .cancelled → job.cancelled = true)
    (hnew : (op.effect job).status = .cancelled) :
    (op.effect job).cancelled = true := by
  cases op with
  | submit => exact hold hnew
  | cancel => rfl
  | unsupported => cases hnew
  | pause | resume =>
    simp only [JobOp.effect] at hnew ⊢
    split at hnew
    · next hcancelled => rw [if_pos hcancelled]; exact hcancelled
    · cases hnew
  | runTranslate jobId mode backend nowMs =>
    simp only [JobOp.effect] at hnew ⊢
    split at hnew
    · next hidle => rw [if_pos hidle]; exact hold hnew
    · cases hlines : translatedLines mode backend job.payload with
      | some lines =>
        rw [hlines] at hnew
        cases hnew
      | none =>
        rw [hlines] at hnew
        cases hnew
  | runPageTranslate =>
    simp only [JobOp.effect] at hnew ⊢
    split at hnew
    · next hcancelled => rw [if_pos hcancelled]; exact hcancelled
    · cases hnew

theorem cancelledFlagged_apply {r : JobRegistry} (hr : CancelledFlagged r) (op : JobOp) :
    CancelledFlagged (op.apply r) := by
  intro jobId job hjob hstatus
  rcases get_apply_cases op hjob with ⟨hqueued, -⟩ | hsame | ⟨old, -, -, hold, rfl⟩
  · rw [hqueued] at hstatus
    cases hstatus
  · exact hr jobId job hsame hstatus
  · exact cancelledFlagged_effect op (hr jobId old hold) hstatus

theorem cancelledFlagged_run {h : List (Fired JobRegistry JobOp)} {r : JobRegistry}
    (hr : Run JobRegistry.step .empty h r) : CancelledFlagged r := by
  refine hr.inv CancelledFlagged ?_ fun s op s' hs hstep => ?_
  · intro jobId job hjob
    cases hjob
  · cases hstep
    exact cancelledFlagged_apply hs op

/-- A call that spares a cancelled job leaves it as it is. -/
theorem get_apply_cancelled {r : JobRegistry} {jobId : String} {job : TrackedJob} {op : JobOp}
    (hop : op.Spares jobId) (hjob : r.get jobId = some job) (hstatus : job.status = .cancelled)
    (hcancelled : job.cancelled = true) : (op.apply r).get jobId = some job := by
  by_cases hid : jobId = op.jobId
  · subst hid
    have hkept : { job with status := .cancelled } = job := by rw [← hstatus]
    have hboth : { job with cancelled := true, status := .cancelled } = job := by
      rw [← hstatus, ← hcancelled]
    cases op with
    | submit id => exact absurd rfl hop
    | unsupported id => exact absurd rfl hop
    | cancel id => rw [get_apply_self rfl hjob, JobOp.effect, hboth]
    | pause id => rw [get_apply_self rfl hjob, JobOp.effect, if_pos hcancelled]
    | resume id => rw [get_apply_self rfl hjob, JobOp.effect, if_pos hcancelled]
    | runTranslate id => rw [get_apply_self rfl hjob, JobOp.effect, if_pos (Or.inl hcancelled)]
    | runPageTranslate id => rw [get_apply_self rfl hjob, JobOp.effect, if_pos hcancelled, hkept]
  · rw [get_apply_of_ne op hid, hjob]

/-- And so does every sequence of such calls. -/
theorem get_foldl_cancelled {jobId : String} {job : TrackedJob} (hstatus : job.status = .cancelled)
    (hcancelled : job.cancelled = true) (ops : List JobOp) :
    ∀ r : JobRegistry, r.get jobId = some job → (∀ op ∈ ops, op.Spares jobId) →
      (ops.foldl JobOp.apply r).get jobId = some job := by
  induction ops with
  | nil => exact fun _ hjob _ => hjob
  | cons op ops ih =>
    intro r hjob hops
    rw [List.forall_mem_cons] at hops
    exact ih _ (get_apply_cancelled hops.1 hjob hstatus hcancelled) hops.2

/-- In a registry reached by calls, a job stays as it is exactly when it is cancelled. -/
theorem terminal_absorbs_iff {h : List (Fired JobRegistry JobOp)} {r : JobRegistry}
    (hr : Run JobRegistry.step .empty h r) {jobId : String} {job : TrackedJob}
    (hjob : r.get jobId = some job) : Absorbs r jobId ↔ job.status = .cancelled := by
  constructor
  · intro habsorbs
    have hcancel := habsorbs [.cancel jobId] (by simp [JobOp.Spares])
    have hget : ((JobOp.cancel jobId).apply r).get jobId = some ((JobOp.cancel jobId).effect job) :=
      get_apply_self rfl hjob
    rw [List.foldl_cons, List.foldl_nil, hget, hjob] at hcancel
    simp only [Option.map_some, Option.some.injEq, Prod.mk.injEq] at hcancel
    exact hcancel.1.symm
  · intro hstatus ops hops
    have hcancelled := cancelledFlagged_run hr jobId job hjob hstatus
    rw [get_foldl_cancelled hstatus hcancelled ops r hjob hops, hjob]

/-- The registry after the calls. -/
def JobRegistry.after (ops : List JobOp) : JobRegistry := ops.foldl JobOp.apply .empty

theorem run_after (ops : List JobOp) :
    ∃ h, h.map Fired.label = ops.reverse ∧
      Run JobRegistry.step .empty h (JobRegistry.after ops) := by
  induction ops using List.reverseRecOn with
  | nil => exact ⟨[], rfl, .nil⟩
  | append_singleton ops op ih =>
    obtain ⟨h, hlabels, hr⟩ := ih
    rw [JobRegistry.after, List.foldl_append]
    refine ⟨_, ?_, hr.cons rfl⟩
    rw [List.map_cons, hlabels, List.reverse_append]
    rfl

/-- A job that was cancelled while it was queued. -/
def cancelledOps : List JobOp := [.submit "j" .translate "v" (.obj []), .cancel "j"]

theorem terminal_absorbs_iff_cancelled :
    Absorbs (.after cancelledOps) "j" ↔ JobStatus.cancelled = .cancelled := by
  obtain ⟨h, -, hr⟩ := run_after cancelledOps
  exact terminal_absorbs_iff hr (show (JobRegistry.after cancelledOps).get "j" = some _ from rfl)

/-- A job that was translated is cancelled. -/
theorem not_terminal_absorbs : ¬ ∀ (h : List (Fired JobRegistry JobOp)) (r : JobRegistry),
    Run JobRegistry.step .empty h r → ∀ jobId job, r.get jobId = some job →
      job.status.terminal = true →
      Absorbs r jobId := by
  intro hall
  obtain ⟨h, -, hr⟩ :=
    run_after [.submit "j" .translate "v" (.obj []), .runTranslate "j" .offlineMock none 0]
  have hcancel := hall h _ hr "j" _ rfl rfl [.cancel "j"] (by simp [JobOp.Spares])
  exact absurd (congrArg (Option.map Prod.fst) hcancel) (by decide)

/-! ## Flags and status -/

/-- The flags of the job agree with its status. -/
structure TrackedJob.FlagsAgree (job : TrackedJob) : Prop where
  paused : job.paused = true ↔ job.status = .paused
  cancelled : job.cancelled = true ↔ job.status = .cancelled

def FlagsAgree (r : JobRegistry) : Prop := ∀ jobId job, r.get jobId = some job → job.FlagsAgree

/-- A run of a job that is paused or cancelled changes nothing, has no result and asks no model: it
is the same in every mode and with every model. -/
def JobOp.LeavesIdle (r : JobRegistry) (op : JobOp) : Prop :=
  ∀ job, r.get op.jobId = some job → job.paused = true ∨ job.cancelled = true →
    match op with
    | runTranslate jobId _ _ nowMs =>
      ∃ p, ∀ mode backend, r.runTranslate jobId mode backend nowMs = (.ok p, r)
    | runPageTranslate jobId _ _ =>
      ∀ mode backend, r.runPageTranslate jobId mode backend = (none, r)
    | submit .. | cancel _ | pause _ | resume _ | unsupported .. => True

structure PauseHonoured (f : Fired JobRegistry JobOp) : Prop where
  flags : FlagsAgree f.post
  idle : f.label.LeavesIdle f.pre

/-- What a call asks of its job to keep the flags. -/
def JobOp.Keeps (job : TrackedJob) : JobOp → Prop
  | cancel _ | runPageTranslate .. => job.paused = false
  | unsupported .. => job.paused = false ∧ job.cancelled = false
  | submit .. | pause _ | resume _ | runTranslate .. => True

/-- The job of the call is not paused when it is cancelled or its page translated, and neither
paused nor cancelled when its kind is found not to be supported. -/
def JobOp.KeepsFlags (r : JobRegistry) (op : JobOp) : Prop :=
  ∀ job, r.get op.jobId = some job → op.Keeps job

theorem effect_flagsAgree_iff {job : TrackedJob} (hjob : job.FlagsAgree) (op : JobOp) :
    (op.effect job).FlagsAgree ↔ op.Keeps job := by
  obtain ⟨hpaused, hcancelled⟩ := hjob
  cases op with
  | submit => exact ⟨fun _ => trivial, fun _ => ⟨hpaused, hcancelled⟩⟩
  | cancel =>
    constructor
    · intro h
      exact Bool.eq_false_iff.2 fun hp => nomatch h.paused.1 hp
    · intro h
      exact ⟨iff_of_false (Bool.eq_false_iff.1 h) nofun, iff_of_true rfl rfl⟩
  | pause =>
    refine ⟨fun _ => trivial, fun _ => ?_⟩
    rw [JobOp.effect]
    split
    · exact ⟨hpaused, hcancelled⟩
    · next hlive => exact ⟨iff_of_true rfl rfl, iff_of_false hlive nofun⟩
  | resume =>
    refine ⟨fun _ => trivial, fun _ => ?_⟩
    rw [JobOp.effect]
    split
    · exact ⟨hpaused, hcancelled⟩
    · next hlive => exact ⟨iff_of_false nofun nofun, iff_of_false hlive nofun⟩
  | runTranslate jobId mode backend nowMs =>
    refine ⟨fun _ => trivial, fun _ => ?_⟩
    rw [JobOp.effect]
    split
    · exact ⟨hpaused, hcancelled⟩
    · next hlive =>
      rw [not_or] at hlive
      cases translatedLines mode backend job.payload <;>
        exact ⟨iff_of_false hlive.2 nofun, iff_of_false hlive.1 nofun⟩
  | runPageTranslate jobId mode backend =>
    rw [JobOp.effect, JobOp.Keeps]
    split
    · next hc =>
      have hnot : ¬ job.paused = true :=
        fun hp => nomatch (hpaused.1 hp).symm.trans (hcancelled.1 hc)
      exact ⟨fun _ => Bool.eq_false_iff.2 hnot,
        fun _ => ⟨iff_of_false hnot nofun, iff_of_true hc rfl⟩⟩
    · next hlive =>
      constructor
      · intro h
        exact Bool.eq_false_iff.2 fun hp => nomatch h.paused.1 hp
      · intro h
        exact ⟨iff_of_false (Bool.eq_false_iff.1 h) nofun, iff_of_false hlive nofun⟩
  | unsupported =>
    constructor
    · intro h
      constructor
      · exact Bool.eq_false_iff.2 fun hp => nomatch h.paused.1 hp
      · exact Bool.eq_false_iff.2 fun hc => nomatch h.cancelled.1 hc
    · intro h
      exact ⟨iff_of_false (Bool.eq_false_iff.1 h.1) nofun,
        iff_of_false (Bool.eq_false_iff.1 h.2) nofun⟩

theorem flagsAgree_apply_iff {r : JobRegistry} (hr : FlagsAgree r) (op : JobOp) :
    FlagsAgree (op.apply r) ↔ op.KeepsFlags r := by
  constructor
  · intro h job hjob
    cases hop : op.isSubmit with
    | false => exact (effect_flagsAgree_iff (hr _ _ hjob) op).1 (h _ _ (get_apply_self hop hjob))
    | true =>
      cases op with
      | submit => trivial
      | _ => cases hop
  · intro h jobId job hjob
    rcases get_apply_cases op hjob with ⟨hqueued, hcancelled, hpaused⟩ | hsame | ⟨old, hid, -,
      hold, rfl⟩
    · constructor <;> simp [hqueued, hpaused, hcancelled]
    · exact hr _ _ hsame
    · exact (effect_flagsAgree_iff (hr _ _ hold) op).2 (h old (hid ▸ hold))

/-- A call that keeps the flags leaves an idle job. -/
theorem leavesIdle {r : JobRegistry} (hr : FlagsAgree r) {op : JobOp} (hop : op.KeepsFlags r) :
    op.LeavesIdle r := by
  intro job hjob hidle
  cases op with
  | submit | cancel | pause | resume | unsupported => trivial
  | runTranslate jobId mode backend nowMs => exact runTranslate_idle hjob hidle.symm nowMs
  | runPageTranslate jobId mode backend =>
    have hcancelled : job.cancelled = true :=
      hidle.resolve_left (Bool.eq_false_iff.1 (hop job hjob))
    exact runPageTranslate_cancelled hjob hcancelled ((hr _ _ hjob).cancelled.1 hcancelled)

/-- The flags agree after every step of a run, and its idle jobs are left, exactly when every step
meets the condition. -/
theorem pause_honoured_iff {h : List (Fired JobRegistry JobOp)} {r : JobRegistry}
    (hr : Run JobRegistry.step .empty h r) :
    (∀ f ∈ h, PauseHonoured f) ↔ ∀ f ∈ h, f.label.KeepsFlags f.pre := by
  refine hr.forall_iff (I := FlagsAgree) ?_ (fun _ hf => hf.flags) fun _ s op s' _ hs hstep => ?_
  · intro jobId job hjob
    cases hjob
  · cases hstep
    constructor
    · exact fun hf => (flagsAgree_apply_iff hs op).1 hf.flags
    · exact fun hkeeps => ⟨(flagsAgree_apply_iff hs op).2 hkeeps, leavesIdle hs hkeeps⟩

/-- A job is paused, and its page translated all the same. -/
def pausedOps : List JobOp :=
  [.submit "j" .pageTranslate "" (.obj []), .pause "j", .runPageTranslate "j" .offlineMock none]

theorem pause_honoured_iff_paused :
    ∃ h : List (Fired JobRegistry JobOp), h.map Fired.label = pausedOps.reverse ∧
    ((∀ f ∈ h, PauseHonoured f) ↔ ∀ f ∈ h, f.label.KeepsFlags f.pre) := by
  obtain ⟨h, hlabels, hr⟩ := run_after pausedOps
  exact ⟨h, hlabels, pause_honoured_iff hr⟩

theorem not_pause_honoured : ¬ ∀ (h : List (Fired JobRegistry JobOp)) (r : JobRegistry),
    Run JobRegistry.step .empty h r → ∀ f ∈ h, PauseHonoured f := by
  intro hall
  obtain ⟨h, hlabels, hr⟩ := run_after pausedOps
  cases h with
  | nil => cases hlabels
  | cons f h =>
    obtain ⟨-, -, hpost⟩ := hr.uncons
    have hflags := (hall _ _ hr f List.mem_cons_self).flags
    rw [hpost] at hflags
    exact absurd ((hflags "j" _ rfl).paused.1 rfl) (by decide)

end LanguageLlm.Desktop
