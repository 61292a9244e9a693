import Mathlib.Tactic.NormNum
import LanguageLlm.Desktop.Companion
import LanguageLlm.Protocol.Schemas

/-!
# The messages of the companion and their schemas

The companion is written in Rust, and the schemas of its messages in TypeScript.
`companion_conforms` says that they agree, for any number of connections and every interleaving of
their handlers: when what the sessions ask meets the schemas, so does what the companion sends.
-/

namespace LanguageLlm.Desktop

open Lib Protocol

/-! ## Handlers that uphold an invariant -/

namespace Handler

variable {α β : Type} {I : Stores → Prop} {P : Json → Prop} {Q : α → Prop}

/-- A handler whose sections keep `I`, when the others do, sends messages that meet `P` only, and
returns a value that meets `Q`. -/
def Upholds (I : Stores → Prop) (P : Json → Prop) (Q : α → Prop) : Handler α → Prop
  | .pure a => Q a
  | .panic => True
  | .send message next => P message ∧ Upholds I P Q next
  | .now next => ∀ t, Upholds I P Q (next t)
  | .ask next => ∀ an, Upholds I P Q (next an)
  | .lock update next => ∀ t an s, I s → I (update t an s) ∧ Upholds I P Q (next t an s)
  | .fetch _ next => ∀ response, Upholds I P Q (next response)

theorem Upholds.bind {R : β → Prop} {h : Handler α} {f : α → Handler β} (hh : Upholds I P Q h)
    (hf : ∀ a, Q a → Upholds I P R (f a)) : Upholds I P R (h >>= f) := by
  induction h with
  | pure a => exact hf a hh
  | panic => trivial
  | send message next ih => exact ⟨hh.1, ih hh.2⟩
  | now next ih => exact fun t => ih t (hh t)
  | ask next ih => exact fun an => ih an (hh an)
  | lock update next ih => exact fun t an s hs => ⟨(hh t an s hs).1, ih t an s (hh t an s hs).2⟩
  | fetch url next ih => exact fun response => ih response (hh response)

theorem upholds_return {a : α} (ha : Q a) : Upholds I P Q (Pure.pure a : Handler α) := ha

theorem upholds_reply {message : Json} (hmessage : P message) :
    Upholds I P (fun _ => True) (reply message) :=
  ⟨hmessage, trivial⟩

theorem upholds_nowMs : Upholds I P (fun _ => True) nowMs := fun _ => trivial

theorem upholds_answer (f : Answers → α) : Upholds I P (fun _ => True) (answer f) :=
  fun _ => trivial

end Handler

namespace Arm

/-- An arm whose messages meet `P`, and whose handler upholds `I`; the session that it is given has
a token of 32 code units at least and expires after the beginning of time. -/
def Upholds (I : Stores → Prop) (P : Json → Prop) : Arm → Prop
  | next | leave => True
  | send message rest => P message ∧ rest.Upholds I P
  | now rest => ∀ t, (rest t).Upholds I P
  | purge _ rest | rotate rest => rest.Upholds I P
  | valid _ _ rest => ∀ ok, (rest ok).Upholds I P
  | issue _ _ rest => ∀ session, 32 ≤ utf16Length session.token → 0 < session.expiresAtMs →
      (rest session).Upholds I P
  | handle body => body.Upholds I P fun _ => True

end Arm

/-! ## The stores -/

/-- The cues of a result meet the schema of a translated cue. -/
def CuesConform (result : Json) : Prop :=
  ∀ cues, result.get "cues" = some cues → Schema.array translationCueSchema 0 cues = true

/-- A job has an identifier, and the cues of its result meet their schema. -/
def RegistryOk (r : JobRegistry) : Prop :=
  ∀ jobId job, r.get jobId = some job →
    job.id ≠ "" ∧ ∀ result, job.result = some result → CuesConform result

/-- A capture has an identifier and a video. -/
def CaptureOk (q : CaptureJobQueue) : Prop :=
  ∀ jobId job, q.get jobId = some job → jobId ≠ "" ∧ job.videoId ≠ ""

structure StoresOk (s : Stores) : Prop where
  jobs : RegistryOk s.jobs
  capture : CaptureOk s.capture

section Registry

variable {r : JobRegistry} {jobId : String} {job : TrackedJob}

theorem RegistryOk.put (hr : RegistryOk r) (hid : job.id ≠ "")
    (hresult : ∀ result, job.result = some result → CuesConform result) :
    RegistryOk (r.put jobId job) := by
  intro id job' hjob'
  by_cases hne : id = jobId
  · rw [hne, JobRegistry.get_put_self] at hjob'
    obtain rfl := Option.some.inj hjob'
    exact ⟨hid, hresult⟩
  · rw [JobRegistry.get_put_ne r job hne] at hjob'
    exact hr id job' hjob'

/-- A job whose identifier and result stay is written back. -/
theorem RegistryOk.rewrite (hr : RegistryOk r) {job' : TrackedJob} (hjob : r.get jobId = some job)
    (hid : job'.id = job.id) (hresult : job'.result = job.result) :
    RegistryOk (r.put jobId job') := by
  obtain ⟨hne, hcues⟩ := hr jobId job hjob
  refine hr.put (hid ▸ hne) ?_
  rw [hresult]
  exact hcues

theorem RegistryOk.submit (hr : RegistryOk r) (hid : jobId ≠ "") (kind : JobKind)
    (videoId : String) (payload : Json) : RegistryOk (r.submit jobId kind videoId payload) :=
  hr.put hid (by rintro _ ⟨⟩)

theorem RegistryOk.cancel (hr : RegistryOk r) : RegistryOk (r.cancel jobId).2 := by
  unfold JobRegistry.cancel
  split
  · next job hjob => exact hr.rewrite hjob rfl rfl
  · exact hr

theorem RegistryOk.pause (hr : RegistryOk r) : RegistryOk (r.pause jobId).2 := by
  unfold JobRegistry.pause
  split
  · next job hjob =>
    split
    · exact hr
    · exact hr.rewrite hjob rfl rfl
  · exact hr

theorem RegistryOk.resume (hr : RegistryOk r) : RegistryOk (r.resume jobId).2 := by
  unfold JobRegistry.resume
  split
  · next job hjob =>
    split
    · exact hr
    · exact hr.rewrite hjob rfl rfl
  · exact hr

theorem RegistryOk.unsupported (hr : RegistryOk r) (kindStr : String) :
    RegistryOk (r.unsupported jobId kindStr) := by
  unfold JobRegistry.unsupported
  split
  · next job hjob =>
    refine hr.put (hr jobId job hjob).1 ?_
    rintro _ ⟨⟩
    rintro _ ⟨⟩
  · exact hr

/-- The cues of a translate job. -/
theorem translatedCues_conform (translated : List String) (provisional : Bool) (n : Nat) :
    Schema.array translationCueSchema 0
      (JobRegistry.translatedCues translated provisional ("rev-" ++ n.repr)) = true := by
  rw [JobRegistry.translatedCues, Schema.array, decide_eq_true (Nat.zero_le _), Bool.true_and,
    List.all_eq_true]
  intro cue hcue
  obtain ⟨⟨text, i⟩, -, rfl⟩ := List.mem_map.1 hcue
  have hid : "t-" ++ i.repr ≠ "" := by simp
  have hrevision : "rev-" ++ n.repr ≠ "" := by simp
  have hcue : Schema.string 1 (.str ("c-" ++ i.repr)) = true := Schema.string_of_ne (by simp)
  simp only [translationCueSchema, Schema.object_cons, Schema.object_nil, and_true]
  refine ⟨Schema.string_of_ne hid, ?_, Schema.string_zero text, ?_, rfl,
    Schema.string_of_ne hrevision, rfl, rfl⟩
  · change Schema.array (Schema.string 1) 1 (.arr [.str ("c-" ++ i.repr)]) = true
    rw [Schema.array, List.all_cons, hcue]
    rfl
  · have hq : (0 : Rat) ≤ (if provisional = true then 55 / 100 else 85 / 100) ∧
        (if provisional = true then 55 / 100 else 85 / 100 : Rat) ≤ 1 := by
      split <;> constructor <;> norm_num
    exact fraction_float hq.1 hq.2

theorem RegistryOk.runTranslate (hr : RegistryOk r) (mode : InferenceMode)
    (backend : Option Backend) (t : Nat) :
    RegistryOk (r.runTranslate jobId mode backend t).2 ∧
      ∀ p, (r.runTranslate jobId mode backend t).1 = .ok p →
        p.jobId ≠ "" ∧ ∃ message, p.message = some message := by
  cases hjob : r.get jobId with
  | none =>
    simp only [JobRegistry.runTranslate, hjob]
    exact ⟨hr, by rintro _ ⟨⟩⟩
  | some job =>
    have hid := (hr jobId job hjob).1
    by_cases hcancelled : job.cancelled = true
    · simp only [JobRegistry.runTranslate, hjob, if_pos hcancelled]
      exact ⟨hr, by rintro _ ⟨⟩; exact ⟨hid, _, rfl⟩⟩
    by_cases hpaused : job.paused = true
    · simp only [JobRegistry.runTranslate, hjob, if_neg hcancelled, if_pos hpaused]
      exact ⟨hr, by rintro _ ⟨⟩; exact ⟨hid, _, rfl⟩⟩
    rw [Bool.not_eq_true] at hcancelled hpaused
    rcases JobRegistry.runTranslate_cases hjob hcancelled hpaused mode backend t with
      ⟨translated, message, heq⟩ | ⟨e, heq⟩
    · rw [heq]
      refine ⟨hr.put hid ?_, by rintro _ ⟨⟩; exact ⟨hid, _, rfl⟩⟩
      rintro _ ⟨⟩ cues hcues
      obtain rfl := Option.some.inj hcues
      apply translatedCues_conform
    · rw [heq]
      exact ⟨hr.rewrite hjob rfl rfl, by rintro _ ⟨⟩⟩

theorem RegistryOk.runPageTranslate (hr : RegistryOk r) (mode : InferenceMode)
    (backend : Option Backend) : RegistryOk (r.runPageTranslate jobId mode backend).2 := by
  unfold JobRegistry.runPageTranslate
  split
  · exact hr
  · next job hjob =>
    split
    · exact hr.rewrite hjob rfl rfl
    · refine hr.put (hr jobId job hjob).1 ?_
      rintro _ ⟨⟩
      rintro _ ⟨⟩

end Registry

section Capture

variable {q : CaptureJobQueue} {jobId : String} {job : CaptureJob}

theorem CaptureOk.put (hq : CaptureOk q) (hid : jobId ≠ "") (hvideo : job.videoId ≠ "") :
    CaptureOk (q.put jobId job) := by
  intro id job' hjob'
  by_cases hne : id = jobId
  · rw [hne, CaptureJobQueue.get_put_self] at hjob'
    obtain rfl := Option.some.inj hjob'
    exact ⟨hne ▸ hid, hvideo⟩
  · rw [CaptureJobQueue.get_put_ne q job hne] at hjob'
    exact hq id job' hjob'

/-- A capture whose video stays is written back. -/
theorem CaptureOk.rewrite (hq : CaptureOk q) {job' : CaptureJob} (hjob : q.get jobId = some job)
    (hvideo : job'.videoId = job.videoId) : CaptureOk (q.put jobId job') := by
  obtain ⟨hid, hne⟩ := hq jobId job hjob
  exact hq.put hid (hvideo ▸ hne)

theorem CaptureOk.cancel (hq : CaptureOk q) : CaptureOk (q.cancel jobId).2 := by
  unfold CaptureJobQueue.cancel
  split
  · next job hjob => exact hq.rewrite hjob rfl
  · exact hq

theorem CaptureOk.pause (hq : CaptureOk q) : CaptureOk (q.pause jobId).2 := by
  unfold CaptureJobQueue.pause
  split
  · next job hjob =>
    split
    · exact hq
    · exact hq.rewrite hjob rfl
  · exact hq

theorem CaptureOk.resume (hq : CaptureOk q) : CaptureOk (q.resume jobId).2 := by
  unfold CaptureJobQueue.resume
  split
  · next job hjob =>
    split
    · exact hq.rewrite hjob rfl
    all_goals exact hq
  · exact hq

theorem CaptureOk.mark (hq : CaptureOk q) (segment : Nat) :
    CaptureOk (q.markAsrSegment jobId segment).2 := by
  unfold CaptureJobQueue.markAsrSegment
  split
  · next job hjob => exact hq.rewrite hjob rfl
  · exact hq

theorem CaptureOk.ingest (hq : CaptureOk q) (chunk : AudioChunkIngest) :
    CaptureOk (q.ingestI16Le chunk).2 := by
  unfold CaptureJobQueue.ingestI16Le
  split
  · exact hq
  · next job hjob =>
    split
    · exact hq
    · exact hq
    all_goals
      dsimp only
      split
      · exact hq
      · exact hq.rewrite hjob rfl

end Capture

/-! ## The messages -/

/-- The cues of a translation meet the schema of a translated cue. -/
def TranslationConforms (message : Json) : Prop :=
  message.getStr "type" = some "timeline.translation" →
    ∃ cues, message.get "cues" = some cues ∧ Schema.array translationCueSchema 0 cues = true

/-- What the extension may rely on. -/
structure Agreed (message : Json) : Prop where
  conforms : Conforms message
  translation : TranslationConforms message

section Messages

variable {message : Json} {type token jobId : String}

theorem agreed_of_schema {schema : Schema} (htype : message.getStr "type" = some type)
    (hne : type ≠ "timeline.translation") (hsome : criticalMessages.lookup type = some schema)
    (h : schema message = true) : Agreed message where
  conforms := conforms_of_some htype hsome h
  translation htranslation := by
    rw [htype, Option.some.injEq] at htranslation
    exact absurd htranslation hne

/-- A message whose type has no schema. -/
theorem agreed_of_none (htype : message.getStr "type" = some type)
    (hne : type ≠ "timeline.translation") (hnone : criticalMessages.lookup type = none) :
    Agreed message where
  conforms := conforms_of_none htype hnone
  translation htranslation := by
    rw [htype, Option.some.injEq] at htranslation
    exact absurd htranslation hne

theorem agreed_handshakeFailure {code : String} (text : String)
    (hcode : code ∈ ["version-mismatch", "origin-rejected", "rate-limited", "internal"]) :
    Agreed (handshakeFailure code text) := by
  refine agreed_of_schema rfl (by decide) rfl ?_
  simp only [authHandshakeFailureSchema, handshakeFailure, Schema.object_cons, Schema.object_nil,
    and_true]
  exact ⟨rfl, rfl, decide_eq_true hcode, Schema.string_zero text, rfl⟩

theorem agreed_handshakeResponse {expiresAtMs : Nat} (htoken : 32 ≤ utf16Length token)
    (hexpires : 0 < expiresAtMs) (build : String) :
    Agreed (makeHandshakeResponse token expiresAtMs build) := by
  refine agreed_of_schema rfl (by decide) rfl ?_
  simp only [authHandshakeResponseSchema, makeHandshakeResponse, Schema.object_cons,
    Schema.object_nil, and_true]
  refine ⟨rfl, rfl, Schema.string_str htoken, ?_, Schema.string_zero build, rfl⟩
  change decide ((0 : Rat) < ((expiresAtMs : Int) : Rat)) = true
  simpa using hexpires

/-- An error, with or without the token of its session. -/
theorem agreed_error {fields : List (String × Json)} {code text : String}
    (htype : fields.lookup "type" = some (.str "error"))
    (htoken : ∀ v, fields.lookup "sessionToken" = some v → Schema.string 32 v = true)
    (hcode : fields.lookup "code" = some (.str code)) (hne : code ≠ "")
    (htext : fields.lookup "message" = some (.str text))
    (hfatal : fields.lookup "fatal" = some (.bool false)) : Agreed (.obj fields) := by
  have hkind : (Json.obj fields).getStr "type" = some "error" := by
    rw [Json.getStr, Json.get, htype]
    rfl
  refine agreed_of_schema hkind (by decide) rfl ?_
  simp only [errorSchema, Schema.object_cons, Schema.object_nil, and_true, Schema.Field.accepts,
    htype, hcode, htext, hfatal]
  refine ⟨rfl, ?_, Schema.string_of_ne hne, Schema.string_zero text, rfl⟩
  split
  · next v hv => exact htoken v hv
  · rfl

end Messages

/-! ## The handlers -/

section Handlers

open Handler

variable {α : Type} {P : Json → Prop} {Q : α → Prop} {env : External} {value : Json}
  {token jobId videoId : String}

theorem upholds_lockJobs {f : Nat → JobRegistry → α × JobRegistry}
    (hf : ∀ t r, RegistryOk r → RegistryOk (f t r).2 ∧ Q (f t r).1) :
    Upholds StoresOk P Q (lockJobs f) :=
  fun t _ s hs => ⟨⟨(hf t s.jobs hs.jobs).1, hs.capture⟩, (hf t s.jobs hs.jobs).2⟩

theorem upholds_lockCapture {f : Answers → CaptureJobQueue → Option α × CaptureJobQueue}
    (hf : ∀ an q, CaptureOk q → CaptureOk (f an q).2 ∧ ∀ r, (f an q).1 = some r → Q r) :
    Upholds StoresOk P Q (lockCapture f) := by
  intro t an s hs
  obtain ⟨hq, hr⟩ := hf an s.capture hs.capture
  constructor
  · dsimp only
    split
    · exact hs
    · exact ⟨hs.jobs, hq⟩
  · dsimp only
    split
    · trivial
    · split
      · next r hsome => exact hr r hsome
      · trivial

theorem upholds_withSqlite (f : Nat → Answers → SqliteStore → Option α × SqliteStore) :
    Upholds StoresOk P (fun _ => True) (withSqlite f) :=
  fun _ _ _ hs => ⟨⟨hs.jobs, hs.capture⟩, trivial⟩

theorem upholds_lockMemory (f : MemoryStore → α × MemoryStore) :
    Upholds StoresOk P (fun _ => True) (lockMemory f) :=
  fun _ _ _ hs => ⟨⟨hs.jobs, hs.capture⟩, trivial⟩

theorem upholds_sendProgress {I : Stores → Prop} {kind status : String} {fraction : Rat}
    {message : Option Json} {more : List (String × Json)} (htoken : 32 ≤ utf16Length token)
    (hid : jobId ≠ "") (hkind : kind ∈ jobKinds) (hstatus : status ∈ jobStatuses)
    (h₀ : 0 ≤ fraction) (h₁ : fraction ≤ 1)
    (hmessage : ∀ m, message = some m → ∃ text, m = .str text)
    (hmore : ∀ key ∈ ["type", "sessionToken", "progress"], more.lookup key = none) :
    Upholds I Agreed (fun _ => True)
      (sendProgress token jobId kind status fraction message more) := by
  refine upholds_nowMs.bind fun t _ => upholds_reply ?_
  refine agreed_of_schema rfl (by decide) rfl ?_
  change Schema.object [_, _, _] (.obj (_ ++ more)) = true
  rw [Schema.object_append]
  · simp only [Schema.object_cons, Schema.object_nil, and_true]
    refine ⟨rfl, Schema.string_str htoken, ?_⟩
    change jobProgressSchema (.obj _) = true
    cases message with
    | none =>
      simp only [jobProgressSchema, Schema.object_cons, Schema.object_nil, and_true]
      exact ⟨Schema.string_of_ne hid, decide_eq_true hkind, decide_eq_true hstatus,
        fraction_float h₀ h₁, rfl, rfl, nonnegative_nat t⟩
    | some m =>
      obtain ⟨text, rfl⟩ := hmessage m rfl
      simp only [jobProgressSchema, Schema.object_cons, Schema.object_nil, and_true]
      exact ⟨Schema.string_of_ne hid, decide_eq_true hkind, decide_eq_true hstatus,
        fraction_float h₀ h₁, Schema.string_zero text, rfl, nonnegative_nat t⟩
  · simp only [List.mem_cons, List.not_mem_nil, or_false]
    rintro f (rfl | rfl | rfl)
    · exact hmore _ (by decide)
    · exact hmore _ (by decide)
    · exact hmore _ (by decide)

/-- A message whose type has no schema. -/
theorem upholds_replyOther {I : Stores → Prop} {type : String} {fields : List (String × Json)}
    (hne : type ≠ "timeline.translation") (hnone : criticalMessages.lookup type = none) :
    Upholds I Agreed (fun _ => True) (reply (.obj (("type", .str type) :: fields))) :=
  upholds_reply (agreed_of_none rfl hne hnone)

theorem upholds_sendError {I : Stores → Prop} {code text : String} {more : List (String × Json)}
    (htoken : 32 ≤ utf16Length token) (hne : code ≠ "") (hmore : more.lookup "fatal" = none) :
    Upholds I Agreed (fun _ => True) (sendError (.str token) code text more) := by
  refine upholds_reply (agreed_error rfl ?_ rfl hne rfl ?_)
  · intro v hv
    obtain rfl := Option.some.inj hv
    exact Schema.string_str htoken
  · change (more ++ [("fatal", Json.bool false)]).lookup "fatal" = some (.bool false)
    rw [List.lookup_append, hmore]
    rfl

/-! ### Jobs -/

/-- The message of `timeline.translation`. -/
theorem agreed_translation {result : Json} {fields : List (String × Json)}
    (hcues : CuesConform result) :
    Agreed (.obj (("type", .str "timeline.translation") :: ("sessionToken", .str token) ::
      ("videoId", .str videoId) :: ("cues", result.getOr "cues" (.arr [])) :: fields)) where
  conforms := conforms_of_none rfl rfl
  translation _ := by
    refine ⟨_, rfl, ?_⟩
    rw [Json.getOr]
    cases hget : result.get "cues" with
    | none => rfl
    | some cues => exact hcues cues hget

theorem upholds_runTranslateJob (htoken : 32 ≤ utf16Length token) :
    Upholds StoresOk Agreed (fun _ => True) (runTranslateJob env token jobId videoId) := by
  refine (upholds_answer _).bind fun translator _ => ?_
  have hrun : Upholds StoresOk Agreed
      (fun run : Except RouterError JobProgress => ∀ p, run = .ok p →
        p.jobId ≠ "" ∧ ∃ message, p.message = some message)
      (lockJobs fun t r => r.runTranslate jobId translator.1 translator.2 t) :=
    upholds_lockJobs fun t r hr => hr.runTranslate _ _ t
  refine hrun.bind fun run hrun => ?_
  cases run with
  | error e => exact upholds_return trivial
  | ok p =>
    obtain ⟨hid, text, htext⟩ := hrun p rfl
    have hfound : Upholds StoresOk Agreed
        (fun found : Option TrackedJob =>
          CuesConform ((found.bind TrackedJob.result).getD (.obj [])))
        (lockJobs fun _ r => (r.get jobId, r)) := by
      refine upholds_lockJobs fun t r hr => ⟨hr, ?_⟩
      cases hresult : (r.get jobId).bind TrackedJob.result with
      | none => rintro _ ⟨⟩
      | some result =>
        obtain ⟨job, hjob, hresult⟩ := Option.bind_eq_some_iff.1 hresult
        exact (hr jobId job hjob).2 result hresult
    refine hfound.bind fun found hcues => ?_
    have hmessage : ∀ m, some (jsonOption p.message) = some m → ∃ text, m = .str text := by
      rintro m ⟨⟩
      rw [htext]
      exact ⟨text, rfl⟩
    refine (upholds_sendProgress htoken hid (by decide) (by decide) (by decide) (by decide)
      hmessage fun _ _ => rfl).bind fun _ _ => ?_
    refine (upholds_reply (agreed_translation hcues)).bind fun _ _ => ?_
    refine Upholds.bind (Q := fun _ => True) ?_ fun _ _ => upholds_replyOther (by decide) rfl
    exact (upholds_withSqlite _).bind fun _ _ => upholds_return trivial

theorem upholds_runPageTranslateJob (htoken : 32 ≤ utf16Length token) (hid : jobId ≠ "") :
    Upholds StoresOk Agreed (fun _ => True) (runPageTranslateJob token jobId) := by
  refine (upholds_answer _).bind fun translator _ => ?_
  have hrun : Upholds StoresOk Agreed (fun _ => True)
      (lockJobs fun _ r => r.runPageTranslate jobId translator.1 translator.2) :=
    upholds_lockJobs fun t r hr => ⟨hr.runPageTranslate _ _, trivial⟩
  refine hrun.bind fun run _ => ?_
  cases run with
  | none => exact upholds_return trivial
  | some result =>
    refine (upholds_sendProgress htoken hid (by decide) (by decide) (by decide) (by decide)
      ?_ fun _ _ => rfl).bind fun _ _ => upholds_replyOther (by decide) rfl
    rintro _ ⟨⟩
    exact ⟨_, rfl⟩

theorem upholds_runAsrJob (htoken : 32 ≤ utf16Length token) (hid : jobId ≠ "")
    (hvideo : videoId ≠ "") (payload : Json) :
    Upholds StoresOk Agreed (fun _ => True) (runAsrJob token jobId videoId payload) := by
  refine (upholds_answer _).bind fun plan _ => ?_
  split
  · refine (upholds_sendError htoken (by decide) rfl).bind fun _ _ => ?_
    refine upholds_sendProgress htoken hid (by decide) (by decide) (by decide) (by decide)
      ?_ fun _ _ => rfl
    rintro _ ⟨⟩
    exact ⟨_, rfl⟩
  · have hstart : Upholds StoresOk Agreed (fun _ => True)
        (lockCapture fun _ q => (some (), q.startWithId jobId videoId)) :=
      upholds_lockCapture fun an q hq => ⟨hq.put hid hvideo, fun _ _ => trivial⟩
    refine hstart.bind fun _ _ => ?_
    refine upholds_sendProgress htoken hid (by decide) (by decide) (by norm_num) (by norm_num)
      ?_ ?_
    · rintro _ ⟨⟩
      exact ⟨_, rfl⟩
    · exact List.forall_mem_cons.2 ⟨rfl, List.forall_mem_cons.2
        ⟨rfl, List.forall_mem_singleton.2 rfl⟩⟩

/-- A text that a schema requires not to be empty. -/
theorem strOr_ne_of_object {fields : List Schema.Field} {key : String} (d : String)
    (h : Schema.object fields value = true)
    (hf : { key, schema := Schema.string 1 : Schema.Field } ∈ fields) : value.strOr key d ≠ "" := by
  obtain ⟨x, hx, hstring⟩ := Schema.exists_of_object h hf
  obtain ⟨s, rfl, hne⟩ := Schema.exists_of_string hstring
  rwa [Json.strOr, Json.getStr, hx]

/-- A text that a schema requires to be one of some. -/
theorem getStr_of_object {fields : List Schema.Field} {key : String} {values : List String}
    (h : Schema.object fields value = true)
    (hf : { key, schema := Schema.oneOf values : Schema.Field } ∈ fields) :
    ∃ s ∈ values, value.getStr key = some s := by
  obtain ⟨x, hx, hone⟩ := Schema.exists_of_object h hf
  obtain ⟨s, hs, rfl⟩ := Schema.exists_of_oneOf hone
  exact ⟨s, hs, by rw [Json.getStr, hx]; rfl⟩

/-- What the schema of `job.submit` says of a request. -/
theorem submit_fields (h : jobSubmitSchema value = true) :
    value.strOr "jobId" "" ≠ "" ∧ value.strOr "videoId" "" ≠ "" ∧
      value.strOr "kind" "translate" ∈ jobKinds := by
  refine ⟨strOr_ne_of_object _ h (List.mem_of_getElem? (i := 2) rfl),
    strOr_ne_of_object _ h (List.mem_of_getElem? (i := 4) rfl), ?_⟩
  obtain ⟨s, hs, hkind⟩ : ∃ s ∈ jobKinds, value.getStr "kind" = some s :=
    getStr_of_object h (List.mem_of_getElem? (i := 3) rfl)
  rwa [Json.strOr, hkind]

theorem upholds_handleJobSubmit (h : jobSubmitSchema value = true)
    (htoken : 32 ≤ utf16Length (value.strOr "sessionToken" "")) :
    Upholds StoresOk Agreed (fun _ => True) (handleJobSubmit env value) := by
  obtain ⟨hid, hvideo, hkind⟩ := submit_fields h
  unfold handleJobSubmit
  dsimp only
  split
  · exact upholds_sendError htoken (by decide) rfl
  have hsubmit : ∀ kind payload, Upholds StoresOk Agreed (fun _ => True)
      (lockJobs fun _ r =>
        ((), r.submit (value.strOr "jobId" "") kind (value.strOr "videoId" "") payload)) :=
    fun kind payload => upholds_lockJobs fun t r hr => ⟨hr.submit hid _ _ _, trivial⟩
  refine (hsubmit _ _).bind fun _ _ => ?_
  refine (upholds_sendProgress htoken hid hkind (by decide) (by norm_num) (by norm_num)
    (by rintro _ ⟨⟩) fun _ _ => rfl).bind fun _ _ => ?_
  split
  · exact upholds_runTranslateJob htoken
  · exact upholds_runPageTranslateJob htoken hid
  · exact upholds_runAsrJob htoken hid hvideo _
  · have hmark : Upholds StoresOk Agreed (fun _ => True)
        (lockJobs fun _ r =>
          ((), r.unsupported (value.strOr "jobId" "") (value.strOr "kind" "translate"))) :=
      upholds_lockJobs fun t r hr => ⟨hr.unsupported _, trivial⟩
    refine hmark.bind fun _ _ => ?_
    refine (upholds_sendProgress htoken hid hkind (by decide) (by decide) (by decide)
      ?_ fun _ _ => rfl).bind fun _ _ => upholds_replyOther (by decide) rfl
    rintro _ ⟨⟩
    exact ⟨_, rfl⟩

theorem upholds_handleJobCancel (htoken : 32 ≤ utf16Length token)
    (hid : value.strOr "jobId" "" ≠ "") :
    Upholds StoresOk Agreed (fun _ => True) (handleJobCancel value token) := by
  have hcancel : Upholds StoresOk Agreed (fun _ => True)
      (lockJobs fun _ r => r.cancel (value.strOr "jobId" "")) :=
    upholds_lockJobs fun t r hr => ⟨hr.cancel, trivial⟩
  refine hcancel.bind fun ok _ => ?_
  have hcapture : Upholds StoresOk Agreed (fun _ => True)
      (lockCapture fun _ q =>
        (some (q.cancel (value.strOr "jobId" "")).1, (q.cancel (value.strOr "jobId" "")).2)) :=
    upholds_lockCapture fun an q hq => ⟨hq.cancel, fun _ _ => trivial⟩
  refine hcapture.bind fun _ _ => ?_
  refine upholds_sendProgress htoken hid (by decide) ?_ (by decide) (by decide) (by rintro _ ⟨⟩)
    fun _ _ => rfl
  cases ok <;> decide

theorem upholds_handleJobPause (htoken : 32 ≤ utf16Length token)
    (hid : value.strOr "jobId" "" ≠ "") :
    Upholds StoresOk Agreed (fun _ => True) (handleJobPause value token) := by
  have hcapture : Upholds StoresOk Agreed (fun _ => True)
      (lockCapture fun _ q =>
        (some (q.pause (value.strOr "jobId" "")).1, (q.pause (value.strOr "jobId" "")).2)) :=
    upholds_lockCapture fun an q hq => ⟨hq.pause, fun _ _ => trivial⟩
  refine hcapture.bind fun _ _ => ?_
  have hpause : Upholds StoresOk Agreed (fun _ => True)
      (lockJobs fun _ r => r.pause (value.strOr "jobId" "")) :=
    upholds_lockJobs fun t r hr => ⟨hr.pause, trivial⟩
  refine hpause.bind fun ok _ => ?_
  refine upholds_sendProgress htoken hid (by decide) ?_ (by decide) (by decide) (by rintro _ ⟨⟩)
    fun _ _ => rfl
  cases ok <;> decide

theorem upholds_handleJobResume (htoken : 32 ≤ utf16Length token)
    (hid : value.strOr "jobId" "" ≠ "") :
    Upholds StoresOk Agreed (fun _ => True) (handleJobResume value token) := by
  have hcapture : Upholds StoresOk Agreed (fun _ => True)
      (lockCapture fun _ q =>
        (some (q.resume (value.strOr "jobId" "")).1, (q.resume (value.strOr "jobId" "")).2)) :=
    upholds_lockCapture fun an q hq => ⟨hq.resume, fun _ _ => trivial⟩
  refine hcapture.bind fun _ _ => ?_
  have hresume : Upholds StoresOk Agreed (fun _ => True)
      (lockJobs fun _ r => r.resume (value.strOr "jobId" "")) :=
    upholds_lockJobs fun t r hr => ⟨hr.resume, trivial⟩
  refine hresume.bind fun ok _ => ?_
  refine upholds_sendProgress htoken hid (by decide) ?_ (by decide) (by decide) (by rintro _ ⟨⟩)
    fun _ _ => rfl
  cases ok <;> decide

/-! ### Live audio -/

theorem upholds_runAsrOnPcm {I : Stores → Prop} (pcm : PcmMono) (modelId : String)
    (mode : InferenceMode) :
    Upholds I P (fun _ => True) (runAsrOnPcm pcm modelId mode) := by
  cases mode with
  | offlineMock => exact upholds_return trivial
  | weights =>
    refine (upholds_answer _).bind fun result _ => ?_
    cases result with
    | error e => exact upholds_return trivial
    | ok text =>
      dsimp only
      split
      · exact upholds_return trivial
      · exact upholds_return trivial

/-- The one cue of a transcript ends after it starts. -/
theorem asrTimeline_conforms (hvideo : videoId ≠ "") (segment durationMs : Nat)
    (transcript : String) (usedStub : Bool) :
    sourceTimelineSchema (asrTimeline videoId segment durationMs transcript usedStub) = true := by
  have hcue : cueSchema (.obj [("id", .str ("asr-" ++ segment.repr)), ("startMs", .nat 0),
      ("endMs", .nat (max durationMs 500)), ("text", .str transcript),
      ("provenance", .str "asr")]) = true := by
    rw [cueSchema, Schema.refine, Bool.and_eq_true]
    constructor
    · simp only [Schema.object_cons, Schema.object_nil, and_true]
      exact ⟨Schema.string_of_ne (by simp), nonnegative_nat 0, nonnegative_nat _,
        Schema.string_zero transcript, rfl, rfl⟩
    · have hlt : ((0 : Int) : Rat) < ((max durationMs 500 : Nat) : Int) := by
        exact_mod_cast Nat.lt_of_lt_of_le (by decide) (Nat.le_max_right durationMs 500)
      exact decide_eq_true hlt
  have hcues (cue : Json) (h : cueSchema cue = true) :
      Schema.array cueSchema 0 (.arr [cue]) = true := by
    rw [Schema.array, List.all_cons, h]
    rfl
  have hhash : ∀ s : String, "asr-stub-" ++ s ≠ "" ∧ "asr-live-" ++ s ≠ "" := by simp
  cases usedStub with
  | true =>
    simp only [asrTimeline, sourceTimelineSchema, Schema.object_cons, Schema.object_nil, and_true]
    exact ⟨Schema.string_of_ne hvideo, hcues _ hcue, Schema.string_of_ne (hhash _).1, rfl, rfl,
      rfl, rfl⟩
  | false =>
    simp only [asrTimeline, sourceTimelineSchema, Schema.object_cons, Schema.object_nil, and_true]
    exact ⟨Schema.string_of_ne hvideo, hcues _ hcue, Schema.string_of_ne (hhash _).2, rfl, rfl,
      rfl, rfl⟩

theorem upholds_transcribeCapture (htoken : 32 ≤ utf16Length token) :
    Upholds StoresOk Agreed (fun _ => True) (transcribeCapture jobId token) := by
  have hdecision : Upholds StoresOk Agreed
      (fun decision : Option ((Bool × String × Bool) × (String × InferenceMode)) =>
        ∀ d, decision = some d → jobId ≠ "" ∧ d.1.2.1 ≠ "")
      (lockCapture fun a q =>
        (some ((q.get jobId).map fun job => (asrDecision job, a.asrModel)), q)) := by
    refine upholds_lockCapture fun an q hq => ⟨hq, ?_⟩
    rintro _ ⟨⟩ d hd
    obtain ⟨job, hjob, rfl⟩ := Option.map_eq_some_iff.1 hd
    exact hq jobId job hjob
  refine hdecision.bind fun decision hok => ?_
  split
  · exact upholds_return trivial
  next shouldAsr videoId captureRunning asrModelId asrMode =>
  obtain ⟨hid, hvideo⟩ := hok _ rfl
  split
  · exact upholds_return trivial
  have hsnapshot : Upholds StoresOk Agreed (fun _ => True)
      (lockCapture fun _ q => (some (q.snapshotPcm jobId), q)) :=
    upholds_lockCapture fun an q hq => ⟨hq, fun _ _ => trivial⟩
  refine hsnapshot.bind fun snapshot _ => ?_
  split
  · exact upholds_return trivial
  next pcm =>
  have hmark : Upholds StoresOk Agreed (fun _ => True)
      (lockCapture fun _ q =>
        (some (q.markAsrSegment jobId (max (pcm.samples.length / 16000) 1)).1,
          (q.markAsrSegment jobId (max (pcm.samples.length / 16000) 1)).2)) :=
    upholds_lockCapture fun an q hq => ⟨hq.mark _, fun _ _ => trivial⟩
  refine hmark.bind fun _ _ => (upholds_runAsrOnPcm _ _ _).bind fun result _ => ?_
  obtain ⟨transcript, usedStub, asrFailed⟩ := result
  dsimp only
  split
  · exact upholds_sendError htoken (by decide) rfl
  · refine (upholds_reply ?_).bind fun _ _ => ?_
    · refine agreed_of_schema rfl (by decide) rfl ?_
      unfold timelineSourceMessageSchema sessionSchema
      simp only [Schema.object_cons, Schema.object_nil, and_true]
      exact ⟨rfl, Schema.string_str htoken, asrTimeline_conforms hvideo _ _ _ _⟩
    · split
      · refine upholds_sendProgress htoken hid (by decide) (by decide) (by norm_num) (by norm_num)
          ?_ fun _ _ => rfl
        rintro _ ⟨⟩
        exact ⟨_, rfl⟩
      · exact upholds_return trivial

theorem upholds_handleAudioChunk (htoken : 32 ≤ utf16Length token) :
    Upholds StoresOk Agreed (fun _ => True) (handleAudioChunk env value token) := by
  refine Upholds.bind (Q := fun _ => True) (upholds_lockCapture fun an q hq => ?_)
    fun ingested _ => ?_
  · refine ⟨?_, fun _ _ => trivial⟩
    split
    · exact hq
    · dsimp only
      split <;> exact hq.ingest _
  · split
    · exact upholds_return trivial
    · exact upholds_sendError htoken (by decide) rfl
    · exact upholds_transcribeCapture htoken

/-! ### The other messages -/

theorem upholds_handleLyricsResolve (htoken : 32 ≤ utf16Length token) :
    Upholds StoresOk Agreed (fun _ => True) (handleLyricsResolve value token) := by
  have hallowed : Upholds StoresOk Agreed (fun _ => True) lyricsNetworkAllowed :=
    fun _ _ _ hs => ⟨hs, trivial⟩
  refine hallowed.bind fun allowed _ => ?_
  split
  · exact upholds_sendError htoken (by decide) rfl
  · have hget : ∀ url, Upholds StoresOk Agreed (fun _ => True) (Handler.get url) :=
      fun _ _ => trivial
    refine (hget _).bind fun tracks _ => ?_
    dsimp only
    split
    · refine Upholds.bind (Q := fun _ => True) ?_ fun _ _ => ?_
      · exact (upholds_lockMemory _).bind fun _ _ =>
          (upholds_withSqlite _).bind fun _ _ => upholds_return trivial
      · exact upholds_nowMs.bind fun _ _ => upholds_replyOther (by decide) rfl
    · exact upholds_sendError htoken (by decide) rfl

theorem upholds_handleLyricsClearCache :
    Upholds StoresOk Agreed (fun _ => True) (handleLyricsClearCache value token) :=
  (upholds_lockMemory _).bind fun _ _ =>
    (upholds_withSqlite _).bind fun _ _ => upholds_replyOther (by decide) rfl

theorem upholds_handleLyricsNetwork :
    Upholds StoresOk Agreed (fun _ => True) (handleLyricsNetwork value token) := by
  have hset : ∀ allowed,
      Upholds StoresOk Agreed (fun _ => True) (setLyricsNetworkAllowed allowed) :=
    fun _ _ _ _ hs => ⟨⟨hs.jobs, hs.capture⟩, trivial⟩
  exact (hset _).bind fun _ _ => upholds_replyOther (by decide) rfl

theorem upholds_handleTimelineSource :
    Upholds StoresOk Agreed (fun _ => True) (handleTimelineSource env value) := by
  unfold handleTimelineSource
  split
  · exact upholds_return trivial
  · split
    · exact (upholds_withSqlite _).bind fun _ _ => upholds_return trivial
    · exact upholds_return trivial

theorem upholds_handleTimelineHydrate :
    Upholds StoresOk Agreed (fun _ => True) (handleTimelineHydrate env value token) := by
  unfold handleTimelineHydrate
  dsimp only
  split
  all_goals exact (upholds_withSqlite _).bind fun _ _ =>
    (upholds_withSqlite _).bind fun _ _ => upholds_replyOther (by decide) rfl

theorem upholds_handleStudySync :
    Upholds StoresOk Agreed (fun _ => True) (handleStudySync env value token) := by
  refine Upholds.bind (Q := fun _ => True) ?_ fun _ _ => upholds_replyOther (by decide) rfl
  unfold studyResult
  dsimp only
  split
  · exact (upholds_withSqlite _).bind fun _ _ => upholds_return trivial
  · refine (upholds_withSqlite _).bind fun found _ => ?_
    split
    · exact upholds_return trivial
    · exact upholds_return trivial
  · exact (upholds_withSqlite _).bind fun _ _ => upholds_return trivial
  · exact (upholds_withSqlite _).bind fun _ _ => upholds_return trivial
  · exact upholds_return trivial

/-- The reply repeats what was looked up. -/
theorem upholds_handleDictionaryLookup (htoken : 32 ≤ utf16Length token)
    (hsurface : value.strOr "surface" "" ≠ "") :
    Upholds StoresOk Agreed (fun _ => True) (handleDictionaryLookup value token) := by
  refine (upholds_withSqlite _).bind fun hits _ => upholds_reply ?_
  refine agreed_of_schema rfl (by decide) rfl ?_
  unfold sessionSchema
  simp only [Schema.object_cons, Schema.object_nil, and_true]
  exact ⟨rfl, Schema.string_str htoken, Schema.string_of_ne hsurface⟩

end Handlers

/-! ## Requests -/

/-- What a session asks for meets the schema of its type, and a message that steers a job names it.
-/
structure Asked (value : Json) : Prop where
  conforms : Conforms value
  named : value.strOr "type" "" ∈ ["job.cancel", "job.pause", "job.resume"] →
    value.strOr "jobId" "" ≠ ""

section Requests

variable {sessionToken : Option String} {value : Json}

theorem getStr_of_strOr {key d s : String} (h : value.strOr key d = s) (hne : s ≠ d) :
    value.getStr key = some s := by
  rw [Json.strOr] at h
  cases hget : value.getStr key with
  | none =>
    rw [hget] at h
    exact absurd h.symm hne
  | some s' =>
    rw [hget] at h
    rw [← h]
    rfl

/-- The schema that a request meets. -/
theorem Asked.schema {type : String} {schema : Schema} (h : Asked value)
    (htype : value.strOr "type" "" = type) (hne : type ≠ "")
    (hsome : criticalMessages.lookup type = some schema) : schema value = true :=
  (conforms_iff (getStr_of_strOr htype hne)).1 h.conforms schema hsome

theorem upholds_ifAuthed {I : Stores → Prop} {P : Json → Prop} {body : Handler Unit}
    (herror : P authError)
    (hbody : sessionToken = some (value.strOr "sessionToken" "") →
      body.Upholds I P fun _ => True) :
    (ifAuthed sessionToken value body).Upholds I P := by
  unfold ifAuthed authed
  cases sessionToken with
  | none => exact ⟨herror, trivial⟩
  | some expected =>
    dsimp only
    split
    · next hprovided =>
      intro t ok
      cases ok with
      | false => exact ⟨herror, trivial⟩
      | true => exact hbody (congrArg some hprovided.symm)
    · exact ⟨herror, trivial⟩

theorem agreed_authError : Agreed authError :=
  agreed_error rfl (by rintro _ ⟨⟩) rfl (by decide) rfl rfl

theorem upholds_handshake (debug : Bool) (allowedExtensionId : Option String) :
    (handshake debug allowedExtensionId value).Upholds StoresOk Agreed := by
  intro t
  dsimp only
  split
  · exact ⟨agreed_handshakeFailure _ (by decide), trivial⟩
  split
  · exact ⟨agreed_handshakeFailure _ (by decide), trivial⟩
  split
  · exact ⟨agreed_handshakeFailure _ (by decide), trivial⟩
  split
  · exact ⟨agreed_handshakeFailure _ (by decide), trivial⟩
  · exact fun session htoken hexpires => ⟨agreed_handshakeResponse htoken hexpires _, trivial⟩

/-- What a message starts, when its session asks as it should. -/
theorem upholds_dispatch (env : External) (debug : Bool) (allowedExtensionId : Option String)
    (htoken : ∀ token ∈ sessionToken, 32 ≤ utf16Length token)
    (hasked : sessionToken = some (value.strOr "sessionToken" "") → Asked value) :
    (dispatch env debug allowedExtensionId sessionToken value).Upholds StoresOk Agreed := by
  have hauthed {body : Handler Unit}
      (hbody : Asked value → 32 ≤ utf16Length (value.strOr "sessionToken" "") →
        sessionToken.getD "" = value.strOr "sessionToken" "" →
          body.Upholds StoresOk Agreed fun _ => True) :
      (ifAuthed sessionToken value body).Upholds StoresOk Agreed :=
    upholds_ifAuthed agreed_authError fun hsession =>
      hbody (hasked hsession) (htoken _ hsession) (by rw [hsession]; rfl)
  unfold dispatch
  dsimp only
  split
  · exact upholds_handshake debug allowedExtensionId
  · exact hauthed fun _ _ _ => Handler.upholds_nowMs.bind fun _ _ =>
      upholds_replyOther (by decide) rfl
  · next htype =>
    exact hauthed fun h ht _ => upholds_handleJobSubmit (h.schema htype (by decide) rfl) ht
  · next htype =>
    refine hauthed fun h ht heq => upholds_handleJobCancel (heq ▸ ht) (h.named ?_)
    rw [htype]
    decide
  · next htype =>
    refine hauthed fun h ht heq => upholds_handleJobPause (heq ▸ ht) (h.named ?_)
    rw [htype]
    decide
  · next htype =>
    refine hauthed fun h ht heq => upholds_handleJobResume (heq ▸ ht) (h.named ?_)
    rw [htype]
    decide
  · exact hauthed fun _ ht heq => upholds_handleAudioChunk (heq ▸ ht)
  · exact hauthed fun _ ht heq => upholds_handleLyricsResolve (heq ▸ ht)
  · exact hauthed fun _ _ _ => upholds_handleLyricsClearCache
  · exact hauthed fun _ _ _ => upholds_handleLyricsNetwork
  · exact hauthed fun _ _ _ => upholds_handleTimelineSource
  · exact hauthed fun _ _ _ => upholds_handleTimelineHydrate
  · exact hauthed fun _ _ _ =>
      (upholds_withSqlite _).bind fun _ _ => upholds_replyOther (by decide) rfl
  · exact hauthed fun _ _ _ =>
      (upholds_withSqlite _).bind fun _ _ => upholds_replyOther (by decide) rfl
  · exact hauthed fun _ _ _ =>
      (upholds_withSqlite _).bind fun _ _ => upholds_replyOther (by decide) rfl
  · exact hauthed fun _ _ _ => upholds_handleStudySync
  · exact hauthed fun _ _ _ => Handler.upholds_nowMs.bind fun _ _ =>
      (upholds_withSqlite _).bind fun _ _ => upholds_replyOther (by decide) rfl
  · next htype =>
    refine hauthed fun h ht heq => upholds_handleDictionaryLookup (heq ▸ ht) ?_
    exact strOr_ne_of_object _ (h.schema htype (by decide) rfl) (List.mem_of_getElem? (i := 2) rfl)
  · exact hauthed fun _ _ _ =>
      (upholds_withSqlite _).bind fun _ _ => upholds_replyOther (by decide) rfl
  · exact hauthed fun _ _ _ =>
      (upholds_withSqlite _).bind fun _ _ => upholds_replyOther (by decide) rfl
  · exact ⟨agreed_error rfl (by rintro _ ⟨⟩) rfl (by decide) rfl rfl, trivial⟩

end Requests

/-! ## The server -/

/-- A connection: its session has a long token, what was sent is agreed, and so is what its task
will send. -/
structure ConnectionOk (conn : Connection) : Prop where
  token : ∀ token ∈ conn.sessionToken, 32 ≤ utf16Length token
  sent : ∀ message ∈ conn.sent, Agreed message
  task : ∀ value arm, conn.task = .handling value arm → arm.Upholds StoresOk Agreed

structure ServerOk (s : Server) : Prop where
  stores : StoresOk s.companion.stores
  connections : ∀ (c : Nat) (conn : Connection), s.connections[c]? = some conn → ConnectionOk conn

/-- When the step brings a message with the token of its session, it is one that a session should
send. -/
def AsksWell (env : External) (f : Fired Server ServerEvent) : Prop :=
  ∀ c text value conn, f.label = .receive c (.text text) → env.fromStr text = some value →
    f.pre.connections[c]? = some conn →
      conn.sessionToken = some (value.strOr "sessionToken" "") → Asked value

section Server

variable {s s' : Server} {c : Nat} {conn : Connection} {env : External} {debug : Bool}

theorem le_utf16Length_randomToken (u v : BitVec 128) : 32 ≤ utf16Length (randomToken u v) := by
  refine Nat.le_trans ?_ (length_le_utf16Length _)
  have hpad : (List.leftpad 32 '0' (Nat.toDigits 16 u.toNat)).length = max 32 _ :=
    List.length_leftpad
  rw [randomToken, String.length_append, hexEncode, String.length_ofList, hpad]
  omega

/-- A step that keeps the stores or their invariant, and changes one connection. -/
theorem ServerOk.change (hI : ServerOk s) (hstores : StoresOk s'.companion.stores)
    (hconns : ∀ (d : Nat) (conn' : Connection), s'.connections[d]? = some conn' →
      ConnectionOk conn' ∨ s.connections[d]? = some conn') : ServerOk s' :=
  ⟨hstores, fun d conn' hd => (hconns d conn' hd).elim id (hI.connections d conn')⟩

/-- A task goes on. -/
theorem ServerOk.goOn (hI : ServerOk s) {conn' : Connection} {task : Task}
    (hconn : ConnectionOk { conn' with task })
    (hsame : StoresOk s'.companion.stores ∧ s'.connections = s.connections) :
    ServerOk (s'.goOn c conn' task) := by
  refine hI.change hsame.1 fun d conn'' hd => ?_
  rw [Server.goOn, hsame.2] at hd
  rcases Server.set_connection hd with ⟨rfl, rfl⟩ | ⟨-, hold⟩
  · exact Or.inl hconn
  · exact Or.inr hold

/-- An action of a task. -/
theorem ServerOk.act (hI : ServerOk s) {value : Json} {a : Answers} {arm : Arm}
    (hconn : s.connections[c]? = some conn) (htask : conn.task = .handling value arm)
    (hs : s.act c conn value a arm = some s') : ServerOk s' := by
  obtain ⟨htoken, hsent, harm⟩ := hI.connections c conn hconn
  have harm := harm value arm htask
  have hrest (rest : Arm) (h : rest.Upholds StoresOk Agreed) :
      ConnectionOk { conn with task := .handling value rest } :=
    ⟨htoken, hsent, by rintro _ _ ⟨⟩; exact h⟩
  have hsend (message : Json) (hmessage : Agreed message) :
      ∀ m ∈ conn.sent ++ [message], Agreed m := by
    intro m hm
    rcases List.mem_append.1 hm with hm | hm
    · exact hsent m hm
    · exact List.mem_singleton.1 hm ▸ hmessage
  cases arm with
  | next | leave =>
    obtain rfl := Option.some.inj hs
    refine hI.goOn ⟨htoken, hsent, ?_⟩ ⟨hI.stores, rfl⟩
    rintro _ _ ⟨⟩
  | send message rest =>
    obtain rfl := Option.some.inj hs
    refine hI.goOn ⟨htoken, hsend message harm.1, ?_⟩ ⟨hI.stores, rfl⟩
    rintro _ _ ⟨⟩
    exact harm.2
  | now rest =>
    obtain rfl := Option.some.inj hs
    exact hI.goOn (hrest _ (harm _)) ⟨hI.stores, rfl⟩
  | purge nowMs rest =>
    obtain rfl := Option.some.inj hs
    refine hI.goOn (hrest _ harm) ?_
    exact ⟨hI.stores, rfl⟩
  | valid token nowMs rest =>
    obtain rfl := Option.some.inj hs
    exact hI.goOn (hrest _ (harm _)) ⟨hI.stores, rfl⟩
  | issue extensionId nowMs rest =>
    simp only [Server.act] at hs
    split at hs
    · cases hs
    · obtain rfl := Option.some.inj hs
      refine hI.goOn ⟨?_, hsent, ?_⟩ ?_
      · rintro _ ⟨⟩
        exact le_utf16Length_randomToken ..
      · rintro _ _ ⟨⟩
        exact harm _ (le_utf16Length_randomToken ..) (by dsimp only [sessionTtlMs]; omega)
      · exact ⟨hI.stores, rfl⟩
  | rotate rest =>
    simp only [Server.act] at hs
    split at hs
    · cases hs
    · obtain rfl := Option.some.inj hs
      refine hI.goOn (hrest _ harm) ?_
      exact ⟨hI.stores, rfl⟩
  | handle body =>
    obtain rfl := Option.some.inj hs
    cases body with
    | pure _ | panic =>
      refine hI.goOn ⟨htoken, hsent, ?_⟩ ⟨hI.stores, rfl⟩
      rintro _ _ ⟨⟩
    | send message next =>
      refine hI.goOn ⟨htoken, hsend message harm.1, ?_⟩ ⟨hI.stores, rfl⟩
      rintro _ _ ⟨⟩
      exact harm.2
    | now next => exact hI.goOn (hrest (.handle _) (harm _)) ⟨hI.stores, rfl⟩
    | ask next => exact hI.goOn (hrest (.handle _) (harm _)) ⟨hI.stores, rfl⟩
    | lock update next =>
      obtain ⟨hstores, hnext⟩ := harm s.now a _ hI.stores
      refine hI.goOn (hrest (.handle _) hnext) ?_
      exact ⟨hstores, rfl⟩
    | fetch url next => exact hI.goOn (hrest (.handle _) (harm _)) ⟨hI.stores, rfl⟩

/-- A frame arrives. -/
theorem ConnectionOk.receive (hc : ConnectionOk conn) (htask : conn.task = .listening)
    (companion : CompanionState) (frame : Frame)
    (hasked : ∀ text value, frame = .text text → env.fromStr text = some value →
      conn.sessionToken = some (value.strOr "sessionToken" "") → Asked value) :
    ConnectionOk (conn.receive env debug companion frame) := by
  obtain ⟨htoken, hsent, -⟩ := hc
  cases frame with
  | text text =>
    unfold Connection.receive
    dsimp only
    split
    · next value hvalue =>
      refine ⟨htoken, hsent, ?_⟩
      rintro _ _ ⟨⟩
      exact upholds_dispatch env debug _ htoken (hasked text value rfl hvalue)
    · refine ⟨htoken, fun m hm => ?_, by simp [htask]⟩
      rcases List.mem_append.1 hm with hm | hm
      · exact hsent m hm
      · obtain rfl := List.mem_singleton.1 hm
        exact agreed_error rfl (by rintro _ ⟨⟩) rfl (by decide) rfl rfl
  | close | ended => exact ⟨htoken, hsent, by rintro _ _ ⟨⟩⟩
  | ping | pong => exact ⟨htoken, hsent, by simp [Connection.receive, htask]⟩

theorem ServerOk.step (hI : ServerOk s) {l : ServerEvent}
    (hasked : AsksWell env ⟨s, l, s'⟩) (hs : s.step env debug l = some s') : ServerOk s' := by
  rcases Server.step_cases hs with ⟨origin, t, rfl, rfl⟩ |
    ⟨c, frame, conn, rfl, hconn, htask, rfl⟩ |
    ⟨c, a, conn, value, arm, rfl, hconn, htask, hact⟩ | ⟨now, rfl, -⟩
  · unfold Server.upgrade
    split
    · refine hI.change hI.stores fun d conn' hd => ?_
      rcases Server.push_connection hd with ⟨-, rfl⟩ | hold
      · left
        split
        · exact ⟨by rintro _ ⟨⟩, by rintro _ ⟨⟩, by rintro _ _ ⟨⟩⟩
        · refine ⟨by rintro _ ⟨⟩, ?_, by rintro _ _ ⟨⟩⟩
          exact List.forall_mem_singleton.2 (agreed_handshakeFailure _ (by decide))
      · exact Or.inr hold
    · exact hI
  · refine hI.change hI.stores fun d conn' hd => ?_
    rcases Server.set_connection hd with ⟨rfl, rfl⟩ | ⟨-, hold⟩
    · refine Or.inl ((hI.connections d conn hconn).receive htask _ frame ?_)
      rintro text value rfl hvalue hsession
      exact hasked d text value conn rfl hvalue hconn hsession
    · exact Or.inr hold
  · exact hI.act hconn htask hact
  · exact ⟨hI.stores, hI.connections⟩

/-- In every run of a new companion, over any number of connections and with their handlers between
one another's sections: as long as the sessions send messages that meet the schemas of the protocol,
every message that the companion sends meets the schema of its type, and the cues of every
translation that of a translated cue. -/
theorem companion_conforms {bootstrapToken : String} {allowedExtensionId : Option String}
    {sqlite : Option SqliteStore} {now : Nat} {h : List (Fired Server ServerEvent)}
    (hr : Run (Server.step env debug)
      (.start bootstrapToken allowedExtensionId (.new sqlite) now) h s)
    (hasked : ∀ f ∈ h, AsksWell env f) :
    ∀ conn ∈ s.connections, ∀ message ∈ conn.sent,
      Conforms message ∧ TranslationConforms message := by
  have hI : ServerOk s := by
    refine hr.invWhen (AsksWell env) (fun _ s => ServerOk s) ?_
      (fun h s l s' _ hI hC hs => hI.step hC hs) hasked
    exact ⟨⟨by rintro _ _ ⟨⟩, by rintro _ _ ⟨⟩⟩, by rintro _ _ ⟨⟩⟩
  intro conn hconn message hmessage
  obtain ⟨c, hc⟩ := List.mem_iff_getElem?.1 hconn
  obtain ⟨hconforms, htranslation⟩ := (hI.connections c conn hc).sent message hmessage
  exact ⟨hconforms, htranslation⟩

end Server

/-! An extension submits a job. -/

def submitValue : Json :=
  sessionMessage [("type", .str "job.submit"), ("jobId", .str "a"), ("videoId", .str "v"),
    ("kind", .str "asr"), ("payload", .obj [])]

theorem asked_submitValue {text : String} {value : Json}
    (h : (extensionSends [("submit", submitValue)]).fromStr text = some value) : Asked value := by
  have hcases : value = submitValue ∨ extensionMessages.fromStr text = some value := by
    simp only [extensionSends, List.lookup_cons, List.lookup_nil] at h
    split at h
    · exact Or.inl (Option.some.inj h).symm
    · exact Or.inr h
  rcases hcases with rfl | h
  · refine ⟨conforms_of_some rfl rfl ?_, by decide +kernel⟩
    decide +kernel
  · simp only [extensionMessages] at h
    split at h
    · obtain rfl := Option.some.inj h
      refine ⟨conforms_of_some rfl rfl ?_, by decide +kernel⟩
      decide +kernel
    · split at h
      · obtain rfl := Option.some.inj h
        exact ⟨conforms_of_none rfl rfl, by decide +kernel⟩
      · cases h

theorem companion_conforms_submit :
    ∃ h s conn, Run (Server.step (extensionSends [("submit", submitValue)]) false)
        (.start "bootstrap" (some "abcdefgh") (.new none) 1000) h s ∧
      conn ∈ s.connections ∧ conn.sent.length = 3 ∧
        ∀ message ∈ conn.sent, Conforms message ∧ TranslationConforms message := by
  have hend : (exec (Server.step (extensionSends [("submit", submitValue)]) false)
      (.start "bootstrap" (some "abcdefgh") (.new none) 1000)
      (.upgrade none "bootstrap" :: handshakeEvents 0 1 2 ++
        .receive 0 (.text "submit") :: List.replicate 11 (.act 0 (answersOf 0 0)))).map
      (fun x => x.2.connections.head?.map fun conn => conn.sent.length) = some (some 3) := by
    decide +kernel
  obtain ⟨⟨h, s⟩, hx, hlast⟩ := Option.map_eq_some_iff.1 hend
  obtain ⟨conn, hconn, hsent⟩ := Option.map_eq_some_iff.1 hlast
  have hmem : conn ∈ s.connections := List.mem_of_head? hconn
  have hr := exec_run hx
  refine ⟨h, s, conn, hr, hmem, hsent, companion_conforms hr ?_ conn hmem⟩
  intro f _ c text value conn _ hvalue _ _
  exact asked_submitValue hvalue

end LanguageLlm.Desktop
