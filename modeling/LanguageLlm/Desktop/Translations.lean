import Mathlib.Data.List.Find
import LanguageLlm.Desktop.Execution

/-!
# The translations that are stored

`persist_translation` reads the key of a row from the result of the job, which has neither source
hash nor model nor language. `stored_translations` says which row every submitted job leaves, and
`stored_as_submitted_iff` when that is the row that its request names.
-/

namespace LanguageLlm.Desktop

open Lib Handler

/-! ## Jobs that succeeded -/

/-- A translate job that succeeded: the message that submitted it and its result. -/
structure TranslateJob where
  value : Json
  result : Json

namespace TranslateJob

def videoId (j : TranslateJob) : String := j.value.strOr "videoId" ""

def payload (j : TranslateJob) : Json := j.value.getOr "payload" (.obj [])

def targetLang (j : TranslateJob) : String := JobRegistry.targetLang j.payload

/-- The hash of the source that was submitted. -/
def sourceHash (j : TranslateJob) : String := j.payload.strOr "sourceHash" "unknown"

/-- The model that was asked for, or else the one that translated. -/
def modelId (j : TranslateJob) : String :=
  j.payload.strOr "modelId" (if j.result.strOr "mode" "" = "Weights" then "hy-mt2-1.8b" else "mock")

def cues (j : TranslateJob) : Json := j.result.getOr "cues" (.arr [])

end TranslateJob

/-- The message that ends a translate job. -/
def translateResult (token jobId : String) (result : Json) : Json :=
  .obj [("type", .str "job.result"), ("sessionToken", .str token), ("jobId", .str jobId),
    ("kind", .str "translate"), ("result", result)]

/-- The rest of the companion leaves the translations alone. -/
def KeepsTranslations (s s' : Stores) : Prop :=
  s'.sqlite.map SqliteStore.translations = s.sqlite.map SqliteStore.translations

/-- The rest of the companion leaves a job and the translations alone. -/
def KeepsJob (jobId : String) (s s' : Stores) : Prop :=
  s'.jobs.get jobId = s.jobs.get jobId ∧ KeepsTranslations s s'

instance (jobId : String) : Std.Refl (KeepsJob jobId) := ⟨fun _ => ⟨rfl, rfl⟩⟩

/-- The stores after translate jobs were submitted to a database without translations, one after the
other, and succeeded; the last one is the first of the list. -/
inductive Translated (env : External) : List TranslateJob → Stores → Prop
  | start {s : Stores} {db : SqliteStore} (hdb : s.sqlite = some db)
      (hempty : db.translations = .empty) : Translated env [] s
  | others {jobs : List TranslateJob} {s s' : Stores} (ht : Translated env jobs s)
      (ho : KeepsTranslations s s') : Translated env jobs s'
  | job {jobs : List TranslateJob} {s s' : Stores} {value result : Json} {sent : List Json}
      (ht : Translated env jobs s) (hkind : value.strOr "kind" "translate" = "translate")
      (he : Exec (KeepsJob (value.strOr "jobId" "")) (handleJobSubmit env value) s sent () s')
      (hresult : translateResult (value.strOr "sessionToken" "") (value.strOr "jobId" "")
        result ∈ sent) :
      Translated env (⟨value, result⟩ :: jobs) s'

/-! ## One job -/

variable {env : External} {s s' : Stores} {value result : Json} {sent : List Json}

/-- The row that every job of a video is stored under. -/
def storedKey (videoId : String) : TranslationKey where
  videoId
  sourceHash := "unknown"
  modelId := "mock"
  modelRevision := "1"
  targetLang := "ja"

/-- A translate job that is as it was submitted ends with a result whose cues are stored under its
video alone, or ends without one. -/
theorem exec_runTranslateJob {token jobId videoId : String} {job : TrackedJob}
    {rows : OrderedMap TranslationKey TranslationRow}
    (hjob : s.jobs.get jobId = some job) (hcancelled : job.cancelled = false)
    (hpaused : job.paused = false) (hrows : s.sqlite.map SqliteStore.translations = some rows)
    (he : Exec (KeepsJob jobId) (runTranslateJob env token jobId videoId) s sent () s') :
    (∀ result, translateResult token jobId result ∉ sent) ∨
    ∃ output revisionId t, (∀ result, translateResult token jobId result ∈ sent → result = output) ∧
      s'.sqlite.map SqliteStore.translations =
        some (rows.set (storedKey videoId)
          { cuesJson := env.toString (output.getOr "cues" (.arr [])), revisionId
            updatedAtMs := t }) := by
  simp only [runTranslateJob, exec_bind_iff, exec_lockJobs_iff, exec_answer_iff] at he
  obtain ⟨⟨mode, backend⟩, _, s₁, _, ⟨_, rfl, ho₁⟩, ⟨run, _, s₂, _, ⟨t, hrun, rfl, ho₂⟩, he, rfl⟩,
    rfl⟩ := he
  rw [← ho₁.1] at hjob
  rw [← ho₁.2] at hrows
  rcases JobRegistry.runTranslate_cases hjob hcancelled hpaused mode backend t with
    ⟨translated, message, heq⟩ | ⟨e, heq⟩
  · rw [heq] at hrun ho₂
    subst hrun
    simp only [exec_bind_iff, exec_lockJobs_iff, exec_sendProgress_iff, exec_reply_iff,
      persistTranslation, exec_withSqlite_iff, exec_return_iff] at he
    obtain ⟨found, _, s₃, _, ⟨_, hfound, rfl, ho₃⟩, ⟨_, _, s₄, _, ⟨_, s₅, ho₅, ho₄, rfl⟩,
      ⟨_, _, s₆, _, ⟨rfl, ho₆⟩,
        ⟨_, _, s₇, _, ⟨_, _, s₈, _, ⟨t', _, _, rfl, ho₈⟩, ⟨_, rfl, rfl⟩, rfl⟩,
        ⟨rfl, ho'⟩, rfl⟩, rfl⟩, rfl⟩, rfl⟩ := he
    rw [ho₂.1, JobRegistry.get_put_self] at hfound
    subst hfound
    refine Or.inr ⟨JobRegistry.translateOutput mode translated t, "rev-" ++ t.repr, t',
      fun result hresult => ?_, ?_⟩
    · simpa [translateResult, progressMessage] using hresult
    · have hrows' : s₆.sqlite.map SqliteStore.translations = some rows := by
        rw [ho₆.2, ho₄.2, ho₅.2, ho₃.2, ho₂.2, hrows]
      obtain ⟨db, hdb, rfl⟩ := Option.map_eq_some_iff.1 hrows'
      rw [ho'.2, ho₈.2, hdb]
      rfl
  · rw [heq] at hrun
    subst hrun
    simp only [exec_return_iff] at he
    obtain ⟨_, rfl, _⟩ := he
    simp

/-- A translate job that succeeds stores its cues under its video alone. -/
theorem translated_job {rows : OrderedMap TranslationKey TranslationRow}
    (hrows : s.sqlite.map SqliteStore.translations = some rows)
    (hkind : value.strOr "kind" "translate" = "translate")
    (he : Exec (KeepsJob (value.strOr "jobId" "")) (handleJobSubmit env value) s sent () s')
    (hresult : translateResult (value.strOr "sessionToken" "") (value.strOr "jobId" "")
      result ∈ sent) :
    ∃ revisionId t, s'.sqlite.map SqliteStore.translations =
      some (rows.set (storedKey (value.strOr "videoId" ""))
        { cuesJson := env.toString (result.getOr "cues"
          (.arr [])), revisionId, updatedAtMs := t }) := by
  have hparse : JobKind.parse "translate" = some .translate := rfl
  unfold handleJobSubmit at he
  simp only [hkind, hparse, exec_bind_iff, exec_lockJobs_iff, exec_sendProgress_iff] at he
  obtain ⟨_, _, s₁, _, ⟨_, _, rfl, ho₁⟩, ⟨_, _, s₂, _, ⟨_, s₃, ho₃, ho₂, rfl⟩, he, rfl⟩, rfl⟩ := he
  have hjobs : s₂.jobs.get (value.strOr "jobId" "") = (s.jobs.submit (value.strOr "jobId" "")
      .translate (value.strOr "videoId" "") (value.getOr "payload" (.obj []))).get
        (value.strOr "jobId" "") := by
    rw [ho₂.1, ho₃.1, ho₁.1]
  have hrows₂ : s₂.sqlite.map SqliteStore.translations = some rows := by
    rw [ho₂.2, ho₃.2, ho₁.2, hrows]
  have hjob := JobRegistry.get_put_self s.jobs (value.strOr "jobId" "")
    { id := value.strOr "jobId" ""
      kind := .translate
      videoId := value.strOr "videoId" ""
      status := .queued
      fraction := 0
      cancelled := false
      paused := false
      payload := value.getOr "payload" (.obj [])
      result := none }
  have hin := hresult
  simp only [List.nil_append, List.singleton_append, List.mem_cons] at hin
  rcases hin with hprogress | hin
  · simp [translateResult, progressMessage] at hprogress
  rcases exec_runTranslateJob (hjobs.trans hjob) rfl rfl hrows₂ he with hnone | ⟨output, revisionId,
    t, hout, hrows'⟩
  · exact absurd hin (hnone result)
  · rw [hout result hin]
    exact ⟨revisionId, t, hrows'⟩

/-! ## All jobs -/

/-- After the jobs, the translations are those of the last job of each video. -/
theorem stored_translations {jobs : List TranslateJob} (ht : Translated env jobs s) :
    ∃ rows, s.sqlite.map SqliteStore.translations = some rows ∧ ∀ key,
      (rows.get? key).map TranslationRow.cuesJson =
        (jobs.find? fun j => storedKey j.videoId = key).map fun j => env.toString j.cues := by
  induction ht with
  | start hdb hempty =>
    refine ⟨.empty, ?_, fun key => rfl⟩
    rw [hdb, Option.map_some, hempty]
  | others _ ho ih =>
    obtain ⟨rows, hrows, hkeys⟩ := ih
    exact ⟨rows, ho.trans hrows, hkeys⟩
  | @job jobs s s' value result sent _ hkind he hresult ih =>
    obtain ⟨rows, hrows, hkeys⟩ := ih
    obtain ⟨revisionId, t, hrows'⟩ := translated_job hrows hkind he hresult
    refine ⟨_, hrows', fun key => ?_⟩
    rw [OrderedMap.get?_set, List.find?_cons]
    by_cases hkey : key = storedKey (value.strOr "videoId" "")
    · subst hkey
      simp [TranslateJob.videoId, TranslateJob.cues]
    · rw [if_neg hkey, hkeys key]
      have hne : ¬ storedKey (value.strOr "videoId" "") = key := fun h => hkey h.symm
      simp [TranslateJob.videoId, hne]

/-- The last job that was submitted with a video and a target language. -/
def LastJob (jobs : List TranslateJob) (videoId targetLang : String) (j : TranslateJob) : Prop :=
  jobs.find? (fun j => j.videoId = videoId ∧ j.targetLang = targetLang) = some j

/-- The cue list of a job is stored under its video, its source hash, its model and its language. -/
def StoredAsSubmitted (env : External) (s : Stores) (j : TranslateJob) : Prop :=
  ∃ db modelRevision row, s.sqlite = some db ∧
    db.translations.get?
        { videoId := j.videoId
          sourceHash := j.sourceHash
          modelId := j.modelId
          modelRevision
          targetLang := j.targetLang } = some row ∧
    row.cuesJson = env.toString j.cues

theorem exists_lastJob {jobs : List TranslateJob} {j : TranslateJob} (hj : j ∈ jobs) :
    ∃ j', LastJob jobs j.videoId j.targetLang j' := by
  apply Option.isSome_iff_exists.1
  rw [List.find?_isSome]
  exact ⟨j, hj, by simp⟩

/-- What is stored is under the key of its video alone. -/
theorem StoredAsSubmitted.key {jobs : List TranslateJob} {j : TranslateJob}
    (hstored : StoredAsSubmitted env s j) (ht : Translated env jobs s) :
    j.targetLang = "ja" ∧ j.sourceHash = "unknown" ∧ j.modelId = "mock" := by
  obtain ⟨db, modelRevision, row, hdb, hrow, _⟩ := hstored
  obtain ⟨rows, hrows, hkeys⟩ := stored_translations ht
  rw [hdb, Option.map_some, Option.some.injEq] at hrows
  subst hrows
  have hkey := hkeys { videoId := j.videoId, sourceHash := j.sourceHash, modelId := j.modelId,
                       modelRevision, targetLang := j.targetLang }
  rw [hrow, Option.map_some, eq_comm, Option.map_eq_some_iff] at hkey
  obtain ⟨j', hfind, _⟩ := hkey
  have heq := List.find?_some hfind
  simp only [storedKey, decide_eq_true_eq, TranslationKey.mk.injEq] at heq
  obtain ⟨_, hhash, hmodel, _, hlang⟩ := heq
  exact ⟨hlang.symm, hhash.symm, hmodel.symm⟩

/-- For every video and language the cue list of the last job is stored under them, with the source
hash and the model of that job, if and only if all these jobs are into Japanese, of a source whose
hash is unknown and by the model `mock`. -/
theorem stored_as_submitted_iff {jobs : List TranslateJob} (ht : Translated env jobs s) :
    (∀ videoId targetLang j, LastJob jobs videoId targetLang j → StoredAsSubmitted env s j) ↔
      ∀ videoId targetLang j, LastJob jobs videoId targetLang j →
        targetLang = "ja" ∧ j.sourceHash = "unknown" ∧ j.modelId = "mock" := by
  have hlast {videoId targetLang : String} {j : TranslateJob}
      (hj : LastJob jobs videoId targetLang j) : j.videoId = videoId ∧
        j.targetLang = targetLang := by
    simpa using List.find?_some hj
  constructor
  · intro h videoId targetLang j hj
    have hkey := (h videoId targetLang j hj).key ht
    rwa [(hlast hj).2] at hkey
  · intro h videoId targetLang j hj
    obtain ⟨rfl, hhash, hmodel⟩ := h videoId targetLang j hj
    obtain ⟨hvideo, hlang⟩ := hlast hj
    have hja : ∀ j' ∈ jobs, j'.targetLang = "ja" := by
      intro j' hj'
      obtain ⟨j'', hj''⟩ := exists_lastJob hj'
      exact (h _ _ j'' hj'').1
    -- all jobs are into Japanese, so the last job of the video is the last one of the pair
    have hfind : jobs.find? (fun j => storedKey j.videoId = storedKey videoId) = some j := by
      rw [← hj]
      refine List.find?_congr fun j' hj' => ?_
      simp [storedKey, hja j' hj']
    obtain ⟨rows, hrows, hkeys⟩ := stored_translations ht
    obtain ⟨db, hdb, rfl⟩ := Option.map_eq_some_iff.1 hrows
    have hrow := hkeys (storedKey videoId)
    rw [hfind, Option.map_some, Option.map_eq_some_iff] at hrow
    obtain ⟨row, hrow, hcues⟩ := hrow
    refine ⟨db, "1", row, hdb, ?_, hcues⟩
    rw [hvideo, hhash, hmodel, hlang]
    exact hrow

/-! A job without hash and model by the offline mock, into Japanese and into English. -/

/-- `Value::to_string`, on the cue lists of these jobs. -/
def cueText : External where
  toString
    | .arr [cue] => "[" ++ cue.strOr "text" "" ++ "]"
    | _ => "[]"
  fromStr _ := none
  decodeBase64 _ := none

def translateMessage (targetLang : String) : Json :=
  .obj [("type", .str "job.submit"), ("jobId", .str "a"), ("kind", .str "translate"),
    ("videoId", .str "v"), ("sessionToken", .str "s"),
    ("payload", .obj [("texts", .arr [.str "hai"]), ("targetLang", .str targetLang)])]

def mockTranslation (targetLang : String) : Json :=
  JobRegistry.translateOutput .offlineMock [mockTranslateLine "hai" targetLang] 0

theorem translated_mock (targetLang : String) : ∃ s,
    Translated cueText [⟨translateMessage targetLang, mockTranslation targetLang⟩] s := by
  let s : Stores := Stores.new (some .empty)
  have hp : ∃ sent s', perform 0 default (handleJobSubmit cueText (translateMessage targetLang)) s =
      some (sent, (), s') ∧ translateResult "s" "a" (mockTranslation targetLang) ∈ sent :=
    ⟨_, _, rfl, .tail _ (.tail _ (.tail _ (.head _)))⟩
  obtain ⟨sent, s', hp, hresult⟩ := hp
  exact ⟨s', .job (.start rfl rfl) rfl (exec_of_perform hp) hresult⟩

/-- The job into Japanese is stored as it was submitted. -/
theorem stored_as_submitted_ja : ∃ s,
    Translated cueText [⟨translateMessage "ja", mockTranslation "ja"⟩] s ∧
    StoredAsSubmitted cueText s ⟨translateMessage "ja", mockTranslation "ja"⟩ := by
  obtain ⟨s, ht⟩ := translated_mock "ja"
  refine ⟨s, ht, (stored_as_submitted_iff ht).2 ?_ "v" "ja" _ rfl⟩
  intro videoId targetLang j hj
  simp only [LastJob, List.find?_singleton] at hj
  split at hj
  · next h =>
    obtain rfl := Option.some.inj hj
    simp only [decide_eq_true_eq] at h
    exact ⟨h.2.symm, rfl, rfl⟩
  · cases hj

/-- The job into English, which the content script submits, is not. -/
theorem not_stored_as_submitted : ¬ ∀ (env : External) (jobs : List TranslateJob) (s : Stores),
    Translated env jobs s → ∀ videoId targetLang j, LastJob jobs videoId targetLang j →
      StoredAsSubmitted env s j := by
  intro h
  obtain ⟨s, ht⟩ := translated_mock "en"
  have hkey := (h _ _ s ht "v" "en" _ rfl).key ht
  exact absurd hkey.1 (by decide)

end LanguageLlm.Desktop
