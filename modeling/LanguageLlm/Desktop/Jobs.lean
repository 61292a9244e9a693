import LanguageLlm.Lib.OrderedMap
import LanguageLlm.Desktop.Protocol

/-!
# The job registry

`jobs.rs`: the jobs that were submitted, by their identifiers. What the model answers to a prompt is
a parameter; the prompts of one run are numbered, so that equal prompts may be answered
differently.
-/

namespace LanguageLlm.Desktop

open Lib

/-- `LlamaCppBackend::complete`: the answer to the `i`-th prompt of a run, `none` for an error. -/
abbrev Backend := Nat → String → Option String

/-- The errors of `RouterError` that the plan or the run of a job returns. -/
inductive RouterError where
  | noCompatibleModel (task : String) (profile : HardwareProfile)
  | scheduler (message : String)
  | catalog (message : String)
  | modelNotInstalled (message : String)

def buildMtPrompt (source targetLang : String) : String :=
  "Translate the following text to " ++ targetLang ++
    ". Output only the translation, no explanation.\n\n" ++ source

def mockTranslateLine (text targetLang : String) : String := "[" ++ targetLang ++ "] " ++ text

structure TrackedJob where
  id : String
  kind : JobKind
  videoId : String
  status : JobStatus
  fraction : Rat
  cancelled : Bool
  paused : Bool
  payload : Json
  result : Option Json

structure JobRegistry where
  jobs : OrderedMap String TrackedJob

def progress (job : TrackedJob) (status : JobStatus) (fraction : Rat) (message : Option String)
    (nowMs : Nat) : JobProgress where
  jobId := job.id
  kind := job.kind
  status
  fraction
  message
  updatedAtMs := nowMs

namespace JobRegistry

/-- `JobRegistry::default`. -/
def empty : JobRegistry := ⟨.empty⟩

def get (r : JobRegistry) (jobId : String) : Option TrackedJob := r.jobs.get? jobId

/-- The job is written back under its identifier. -/
def put (r : JobRegistry) (jobId : String) (job : TrackedJob) : JobRegistry :=
  ⟨r.jobs.set jobId job⟩

def submit (r : JobRegistry) (jobId : String) (kind : JobKind) (videoId : String) (payload : Json) :
    JobRegistry :=
  r.put jobId
    { id := jobId
      kind
      videoId
      status := .queued
      fraction := 0
      cancelled := false
      paused := false
      payload
      result := none }

def cancel (r : JobRegistry) (jobId : String) : Bool × JobRegistry :=
  match r.get jobId with
  | some j => (true, r.put jobId { j with cancelled := true, status := .cancelled })
  | none => (false, r)

def pause (r : JobRegistry) (jobId : String) : Bool × JobRegistry :=
  match r.get jobId with
  | some j =>
    if j.cancelled then (false, r)
      else (true, r.put jobId { j with paused := true, status := .paused })
  | none => (false, r)

def resume (r : JobRegistry) (jobId : String) : Bool × JobRegistry :=
  match r.get jobId with
  | some j =>
    if j.cancelled then (false, r)
    else (true, r.put jobId { j with paused := false, status := .running })
  | none => (false, r)

/-- The `targetLang` of a payload. -/
def targetLang (payload : Json) : String := payload.strOr "targetLang" "en"

/-- The `texts` of a payload that are strings. -/
def texts (payload : Json) : List String :=
  (((payload.get "texts").bind Json.asArray).getD []).filterMap Json.asStr

/-- The cues of a translate job. -/
def translatedCues (translated : List String) (provisional : Bool) (revision : String) : Json :=
  .arr <| translated.zipIdx.map fun (text, i) =>
    .obj [("id", .str ("t-" ++ i.repr)), ("sourceCueIds", .arr [.str ("c-" ++ i.repr)]),
      ("text", .str text), ("confidence", .float (if provisional then 55 / 100 else 85 / 100)),
      ("provisional", .bool provisional), ("revisionId", .str revision)]

def runTranslate (r : JobRegistry) (jobId : String) (mode : InferenceMode)
    (backend : Option Backend) (nowMs : Nat) : Except RouterError JobProgress × JobRegistry :=
  match r.get jobId with
  | none => (.error (.scheduler ("unknown job " ++ jobId)), r)
  | some job =>
    if job.cancelled then (.ok (progress job .cancelled 1 (some "cancelled") nowMs), r)
    else if job.paused then (.ok (progress job .paused job.fraction (some "paused") nowMs), r)
    else
      let job := { job with status := .running }
      let target := targetLang job.payload
      let finish (translated : List String) : Except RouterError JobProgress × JobRegistry :=
        let revision := "rev-" ++ nowMs.repr
        let provisional := mode = .offlineMock
        let job :=
          { job with
            fraction := 1
            status := .succeeded
            result := some <| .obj
              [("cues", translatedCues translated provisional revision),
                ("revisionId", .str revision), ("mode", .str mode.name)] }
        (.ok (progress job .succeeded 1 (some (if provisional then
            "translate complete (offline mock)" else "translate complete (llama.cpp)")) nowMs),
          r.put jobId job)
      match mode, backend with
      | .offlineMock, _ => finish ((texts job.payload).map fun t => mockTranslateLine t target)
      | .weights, some complete =>
        finish <| (texts job.payload).zipIdx.map fun (t, i) =>
          (complete i (buildMtPrompt t target)).getD t
      | .weights, none =>
        (.error (.modelNotInstalled "llama.cpp backend unavailable"), r.put jobId job)

/-- The translation of a segment of a page. -/
def translateSegment (mode : InferenceMode) (backend : Option Backend) (target : String) (i : Nat)
    (seg : Json) : Json :=
  let id := seg.strOr "id" "seg"
  let original := seg.strOr "originalText" ""
  let translated := match mode with
    | .offlineMock => mockTranslateLine original target
    | .weights =>
      (backend.bind fun complete => complete i (buildMtPrompt original target)).getD original
  let provisional := mode = .offlineMock
  .obj [("id", .str id), ("translatedText", .str translated),
    ("confidence", .float (if provisional then 7 / 10 else 85 / 100)),
    ("provisional", .bool provisional)]

def runPageTranslate (r : JobRegistry) (jobId : String) (mode : InferenceMode)
    (backend : Option Backend) : Option Json × JobRegistry :=
  match r.get jobId with
  | none => (none, r)
  | some job =>
    if job.cancelled then (none, r.put jobId { job with status := .cancelled })
    else
      let segments := ((job.payload.get "segments").bind Json.asArray).getD []
      let target := targetLang job.payload
      let results := segments.zipIdx.map fun (seg, i) => translateSegment mode backend target i seg
      let out : Json :=
        .obj [("results", .arr results), ("cacheHit", .bool false), ("mode", .str mode.name)]
      (some out, r.put jobId { job with status := .succeeded, fraction := 1, result := some out })

/-- What `job.submit` writes to a job of a kind that it does not run. -/
def unsupported (r : JobRegistry) (jobId kindStr : String) : JobRegistry :=
  match r.get jobId with
  | some j =>
    r.put jobId
      { j with
        status := .failed
        fraction := 1
        result := some <| .obj
          [("ok", .bool false), ("error", .str "unsupported-job-kind"), ("kind", .str kindStr)] }
  | none => r

/-! What a job is after these functions. -/

@[simp]
theorem get_put_self (r : JobRegistry) (jobId : String) (job : TrackedJob) :
    (r.put jobId job).get jobId = some job :=
  OrderedMap.get?_set_self ..

theorem get_put_ne (r : JobRegistry) {jobId id : String} (job : TrackedJob) (hne : id ≠ jobId) :
    (r.put jobId job).get id = r.get id :=
  OrderedMap.get?_set_ne _ _ hne

/-- The result of a translate job. -/
def translateOutput (mode : InferenceMode) (translated : List String) (nowMs : Nat) : Json :=
  .obj [("cues", translatedCues translated (mode = .offlineMock) ("rev-" ++ nowMs.repr)),
    ("revisionId", .str ("rev-" ++ nowMs.repr)), ("mode", .str mode.name)]

/-- A translate job that is neither cancelled nor paused succeeds with a result, or is left running
when there is no backend. -/
theorem runTranslate_cases {r : JobRegistry} {jobId : String} {job : TrackedJob}
    (hjob : r.get jobId = some job) (hcancelled : job.cancelled = false)
    (hpaused : job.paused = false) (mode : InferenceMode) (backend : Option Backend) (nowMs : Nat) :
    (∃ translated message, r.runTranslate jobId mode backend nowMs =
      (.ok (progress { job with
            fraction := 1
            status := .succeeded
            result := some (translateOutput mode translated nowMs) } .succeeded 1
              (some message) nowMs),
        r.put jobId
          { job with
            fraction := 1
            status := .succeeded
            result := some (translateOutput mode translated nowMs) })) ∨
    ∃ e, r.runTranslate jobId mode backend nowMs =
      (.error e, r.put jobId { job with status := .running }) := by
  simp only [runTranslate, hjob, hcancelled, hpaused]
  cases mode with
  | offlineMock => exact Or.inl ⟨_, _, rfl⟩
  | weights =>
    cases backend with
    | none => exact Or.inr ⟨_, rfl⟩
    | some complete => exact Or.inl ⟨_, _, rfl⟩

end JobRegistry

end LanguageLlm.Desktop
