import LanguageLlm.Desktop.Cancellation
import LanguageLlm.Desktop.Sessions

/-!
# Planned models

`job.submit` plans an ASR job on a model, and `handle_audio_chunk` chooses a model for every segment
anew. `transcribed_as_planned_iff` says in which runs the transcripts come from the models that were
planned: the choice of a segment knows nothing of the plan, only the default of the catalog.
-/

namespace LanguageLlm.Desktop

open Lib Handler

/-! ## Plans -/

/-- A plan of an ASR job on a model, with the models that the companion had. -/
structure AsrPlan where
  models : ModelManager
  modelId : String
  payload : AsrJobPayload
  planned : models.planAsrJob modelId = .ok payload

namespace AsrPlan

/-- The plan is for a specialist, which is never mocked. -/
def IsSpecialist (p : AsrPlan) : Prop :=
  isSpecialistAsr p.payload.modelId p.payload.family p.payload.backend = true

theorem spec (p : AsrPlan) :
    p.payload.modelId = p.modelId ∧ p.payload.mode = p.models.requireOrMock p.modelId ∧
    (p.IsSpecialist → p.models.isInstalled p.modelId = true) := by
  obtain ⟨m, modelId, payload, hplan⟩ := p
  unfold IsSpecialist
  dsimp only
  unfold ModelManager.planAsrJob at hplan
  split at hplan
  · cases hplan
  next model hfind =>
  have hid : model.id = modelId := by simpa using List.find?_some hfind
  split at hplan
  · cases hplan
  dsimp only at hplan
  split at hplan
  · cases hplan
  split at hplan
  · cases hplan
  next hspecialist =>
  obtain rfl := Except.ok.inj hplan
  refine ⟨hid, rfl, fun hs => ?_⟩
  rw [hs, Bool.true_and] at hspecialist
  simpa using hspecialist

/-- A specialist is planned with its weights. -/
theorem weights_of_isSpecialist {p : AsrPlan} (hp : p.IsSpecialist) :
    p.payload.mode = .weights := by
  rw [p.spec.2.1, ModelManager.requireOrMock, if_pos (p.spec.2.2 hp)]

/-- The model of the plan is the default one, and is installed as it was when it was planned. -/
def StillDefault (p : AsrPlan) : Option ModelManager → Prop
  | some m =>
    m.liveAsrModelId = p.modelId ∧ m.isInstalled p.modelId = p.models.isInstalled p.modelId
  | none => p.modelId = "whisper-large-v3-turbo" ∧ p.models.isInstalled p.modelId = false

/-- The choice for a segment agrees with a plan if and only if the model of the plan is the default.
-/
theorem liveAsrModel_eq_iff (p : AsrPlan) (models : Option ModelManager) :
    liveAsrModel models = (p.payload.modelId, p.payload.mode) ↔ p.StillDefault models := by
  rw [p.spec.1, p.spec.2.1]
  unfold liveAsrModel StillDefault ModelManager.requireOrMock
  cases models with
  | none =>
    cases p.models.isInstalled p.modelId <;> simp [eq_comm]
  | some m =>
    simp only [Prod.mk.injEq]
    refine and_congr_right fun hid => ?_
    rw [hid]
    cases m.isInstalled p.modelId <;> cases p.models.isInstalled p.modelId <;> simp

end AsrPlan

/-- A step plans a job with this plan. -/
def Plans (f : Fired Companion CompanionEvent) (jobId : String) (p : AsrPlan) : Prop :=
  ∃ c an value token videoId payload, f.label = .server (.act c an) ∧
    f.pre.Handling c value (runAsrJob token jobId videoId payload) ∧ f.pre.models = some p.models ∧
    p.modelId = (payload.getStr "modelId").getD p.models.liveAsrModelId

/-- A step plans a job anew, or finds that there are no models to plan it with. -/
def Replans (f : Fired Companion CompanionEvent) (jobId : String) : Prop :=
  ∃ c an value token videoId payload, f.label = .server (.act c an) ∧
    f.pre.Handling c value (runAsrJob token jobId videoId payload) ∧
    ∀ e, planAnswer f.pre.models (payload.getStr "modelId") ≠ some (.error e)

/-- The last plan of a job. -/
inductive PlannedBy (jobId : String) (p : AsrPlan) : List (Fired Companion CompanionEvent) → Prop
  | plans {h : List (Fired Companion CompanionEvent)} {f : Fired Companion CompanionEvent}
      (hf : Plans f jobId p) : PlannedBy jobId p (f :: h)
  | later {h : List (Fired Companion CompanionEvent)} {f : Fired Companion CompanionEvent}
      (hp : PlannedBy jobId p h) (hf : ¬ Replans f jobId) : PlannedBy jobId p (f :: h)

/-! ## Where transcripts come from -/

/-- In this step the handler of a connection finds that a segment of a job is due and chooses its
model and mode. -/
def Picks (f : Fired Companion CompanionEvent) (c : Nat) (jobId modelId : String)
    (mode : InferenceMode) : Prop :=
  ∃ an value token job, f.label = .server (.act c an) ∧
    f.pre.Handling c value (transcribeCapture jobId token) ∧ f.pre.stores.capturePoisoned = false ∧
    f.pre.stores.capture.get jobId = some job ∧ (asrDecision job).1 = true ∧
    (an.under f.pre.models).asrModel = (modelId, mode)

/-- The handler of a connection has chosen a model in step `g`, after the steps `past`. -/
inductive Transcribing (c : Nat) (g : Fired Companion CompanionEvent)
    (past : List (Fired Companion CompanionEvent)) : List (Fired Companion CompanionEvent) → Prop
  | picks {jobId modelId : String} {mode : InferenceMode} (hg : Picks g c jobId modelId mode) :
      Transcribing c g past (g :: past)
  | later {h : List (Fired Companion CompanionEvent)} {f : Fired Companion CompanionEvent}
      (ht : Transcribing c g past h) (hf : ∃ value body, f.post.Handling c value body) :
      Transcribing c g past (f :: h)

/-- The transcript is a stub. -/
def IsStub (message : Json) : Prop :=
  (message.getOr "timeline" .null).get "developmentFallback" = some (.bool true)

/-- After the steps `h` a connection has the transcript of a job from a segment whose model and mode
were chosen; it is a stub exactly when the mode is the mock. -/
def HasSource (h : List (Fired Companion CompanionEvent)) (c : Nat) (jobId : String)
    (message : Json) :
    Prop :=
  ∃ g past modelId mode, Transcribing c g past h ∧ Picks g c jobId modelId mode ∧
    (IsStub message ↔ mode = .offlineMock)

/-! ## The claim -/

/-- The transcripts that a step sends for a planned job come from the model of the plan, in its
mode. -/
structure AsPlanned (h : List (Fired Companion CompanionEvent))
    (f : Fired Companion CompanionEvent) :
    Prop where
  source : ∀ c an value message next, f.label = .server (.act c an) →
    f.pre.Handling c value (.send message next) → IsTranscript message →
    HasSource h c (value.strOr "jobId" "") message
  planned : ∀ c an value message next, f.label = .server (.act c an) →
    f.pre.Handling c value (.send message next) → IsTranscript message →
    ∀ g past modelId mode, Transcribing c g past h →
      Picks g c (value.strOr "jobId" "") modelId mode →
      ∀ p, PlannedBy (value.strOr "jobId" "") p past →
        modelId = p.payload.modelId ∧ mode = p.payload.mode ∧ (p.IsSpecialist → mode ≠ .offlineMock)

/-- Where the model of a transcript was chosen, the planned model was the default of the catalog,
and was installed as it was when it was planned. -/
def PickedDefault (h : List (Fired Companion CompanionEvent)) (f : Fired Companion CompanionEvent) :
    Prop :=
  ∀ c an value message next, f.label = .server (.act c an) →
    f.pre.Handling c value (.send message next) → IsTranscript message →
    ∀ g past modelId mode, Transcribing c g past h →
      Picks g c (value.strOr "jobId" "") modelId mode →
      ∀ p, PlannedBy (value.strOr "jobId" "") p past → p.StillDefault g.pre.models

/-! ## Every transcript has a source -/

section Source

variable {env : External} {value : Json} {token jobId : String} {t : Nat} {an : Answers}
  {s s' : Stores}
  {body' : Handler Unit}

theorem isStub_asrTimeline (token videoId : String) (segment durationMs : Nat) (transcript : String)
    (usedStub : Bool) :
    IsStub (.obj [("type", .str "timeline.source"), ("sessionToken", .str token),
      ("timeline", asrTimeline videoId segment durationMs transcript usedStub)]) ↔
        usedStub = true := by
  cases usedStub with
  | true => exact iff_of_true rfl rfl
  | false =>
    refine iff_of_false ?_ (by simp)
    rintro ⟨⟩

/-- A transcription returns a text, which is a stub exactly when the mode is the mock, or fails. -/
theorem sends_runAsrOnPcm_bind {P : Json → Prop} {pcm : PcmMono} {modelId : String}
    {mode : InferenceMode} {g : String × Bool × Bool → Handler Unit}
    (htext : ∀ text, Sends P (g (text, decide (mode = .offlineMock), false)))
    (hfailed : ∀ e, Sends P (g (e, false, true))) :
    Sends P (runAsrOnPcm pcm modelId mode >>= g) := by
  unfold runAsrOnPcm
  cases mode with
  | offlineMock => exact htext _
  | weights =>
    intro an
    dsimp only [Handler.bind]
    split
    · split
      · exact hfailed _
      · exact htext _
    · exact hfailed _

/-- The transcript of a segment is a stub exactly when its mode is the mock. -/
theorem stub_transcribeSegment (videoId : String) (captureRunning : Bool) (modelId : String)
    (mode : InferenceMode) :
    Sends (fun message => IsTranscript message → (IsStub message ↔ mode = .offlineMock))
      (transcribeSegment jobId token videoId captureRunning modelId mode) := by
  refine sends_lockCapture.bind fun snapshot => ?_
  split
  · trivial
  next pcm =>
  refine sends_lockCapture.bind fun _ => sends_runAsrOnPcm_bind (fun text => ?_) fun e => ?_
  · refine ⟨fun _ => (isStub_asrTimeline ..).trans (by simp), ?_⟩
    split
    · exact fun _ => ⟨fun ht => absurd ht (by simp [IsTranscript, strOr_type]), trivial⟩
    · trivial
  · exact ⟨fun ht => absurd ht (by simp [IsTranscript, strOr_type]), trivial⟩

/-- After a chunk was ingested, the capture is looked at. -/
theorem next_handleAudioChunk_capture (hn : Next t an (handleAudioChunk env value token) s
      body' s') :
    Sends (fun message => ¬ IsTranscript message) body' ∨
      body' = transcribeCapture (value.strOr "jobId" "") token := by
  rw [handleAudioChunk_eq] at hn
  obtain ⟨rfl, _⟩ := hn.of_lock
  dsimp only
  split
  · exact Or.inl trivial
  split
  · next ingested _ =>
    rcases ingested with _ | _ | e
    · exact Or.inl trivial
    · exact Or.inr rfl
    · exact Or.inl apart_sendError.plain.silent
  · exact Or.inl trivial

/-- A segment that is due goes on with the chosen model. -/
theorem next_transcribeCapture (hn : Next t an (transcribeCapture jobId token) s body' s') :
    Sends (fun message => ¬ IsTranscript message) body' ∨
    s.capturePoisoned = false ∧ ∃ job, s.capture.get jobId = some job ∧ (asrDecision job).1 = true ∧
      body' = transcribeSegment jobId token job.videoId (decide (job.state = .running))
        an.asrModel.1
        an.asrModel.2 := by
  rw [transcribeCapture_eq] at hn
  obtain ⟨rfl, _⟩ := hn.of_lock
  dsimp only
  split
  · exact Or.inl trivial
  next hpoisoned =>
  cases hjob : s.capture.get jobId with
  | none => exact Or.inl trivial
  | some job =>
    have hdecision : asrDecision job =
        ((asrDecision job).1, job.videoId, decide (job.state = .running)) := rfl
    cases hdue : (asrDecision job).1 with
    | true =>
      refine Or.inr ⟨by simpa using hpoisoned, job, rfl, hdue, ?_⟩
      rw [hdue] at hdecision
      simp only [Option.map_some, hdecision]
      rfl
    | false =>
      refine Or.inl ?_
      rw [hdue] at hdecision
      simp only [Option.map_some, hdecision]
      trivial

end Source

/-! ## The invariant -/

/-- Where the handler of a connection is, after the steps `h`. -/
inductive Sourced (env : External) (h : List (Fired Companion CompanionEvent)) (c : Nat)
    (value : Json) :
    Handler Unit → Prop
  /-- It sends no transcript. -/
  | silent {body : Handler Unit} (hb : Sends (fun message => ¬ IsTranscript message) body) :
      Sourced env h c value body
  | chunk (token : String) : Sourced env h c value (handleAudioChunk env value token)
  | capture (token : String) :
      Sourced env h c value (transcribeCapture (value.strOr "jobId" "") token)
  /-- Its transcript has a source. -/
  | source {body : Handler Unit} {g : Fired Companion CompanionEvent}
      {past : List (Fired Companion CompanionEvent)} {modelId : String} {mode : InferenceMode}
      (ht : Transcribing c g past h) (hg : Picks g c (value.strOr "jobId" "") modelId mode)
      (hb : Sends (fun message => IsTranscript message →
        (IsStub message ↔ mode = .offlineMock)) body) :
      Sourced env h c value body

section Invariant

variable {env : External} {h : List (Fired Companion CompanionEvent)} {s s' : Companion}
  {l : CompanionEvent}

theorem sourced_starts {c : Nat} {value : Json} {body : Handler Unit} (hs : Starts env value body) :
    Sourced env h c value body := by
  rcases undecided_starts hs with ⟨token, _, rfl⟩ | hsilent
  · exact .chunk token
  · exact .silent hsilent

/-- A handler keeps its source while others act. -/
theorem Sourced.others {f : Fired Companion CompanionEvent} {c : Nat} {value : Json}
    {body : Handler Unit} (hS : Sourced env h c value body) (hf : f.post.Handling c value body) :
    Sourced env (f :: h) c value body := by
  cases hS with
  | silent hb => exact .silent hb
  | chunk token => exact .chunk token
  | capture token => exact .capture token
  | source ht hg hb => exact .source (ht.later ⟨_, _, hf⟩) hg hb

/-- A handler keeps its source, or finds it, when it acts. -/
theorem Sourced.act {c : Nat} {an : Answers} {value : Json} {body body' : Handler Unit}
    (hS : Sourced env h c value body) (hbody : s.Handling c value body)
    (hbody' : s'.Handling c value body')
    (hnext : Next s.server.now (an.under s.models) body s.stores body' s'.stores) :
    Sourced env (⟨s, .server (.act c an), s'⟩ :: h) c value body' := by
  cases hS with
  | silent hb => exact .silent (hb.next hnext)
  | chunk token =>
    rcases next_handleAudioChunk_capture hnext with hsilent | rfl
    · exact .silent hsilent
    · exact .capture token
  | capture token =>
    rcases next_transcribeCapture hnext with hsilent | ⟨hpoisoned, job, hjob, hdue, rfl⟩
    · exact .silent hsilent
    · have hpicks : Picks ⟨s, .server (.act c an), s'⟩ c (value.strOr "jobId" "")
          (an.under s.models).asrModel.1 (an.under s.models).asrModel.2 :=
        ⟨an, value, token, job, rfl, hbody, hpoisoned, hjob, hdue, rfl⟩
      exact .source (.picks hpicks) hpicks (stub_transcribeSegment _ _ _ _)
  | source ht hg hb => exact .source (ht.later ⟨_, _, hbody'⟩) hg (hb.next hnext)

theorem Sourced.step (hS : ∀ c value body, s.Handling c value body → Sourced env h c value body)
    (hm : s.Moves env s' l) {c : Nat} {value : Json} {body : Handler Unit}
    (hbody : s'.Handling c value body) : Sourced env (⟨s, l, s'⟩ :: h) c value body := by
  have hlater := hm.handlers (Q := fun c value body => s'.Handling c value body →
    Sourced env (⟨s, l, s'⟩ :: h) c value body) ?_ ?_ ?_ hbody
  · exact hlater hbody
  · rintro c an value body body' rfl hbody hnext hbody'
    exact (hS c value body hbody).act hbody hbody' hnext
  · exact fun c value body _ hbody hbody' => (hS c value body hbody).others hbody'
  · exact fun c value body hs _ => sourced_starts hs

/-- A transcript that is about to be sent has a source. -/
theorem Sourced.hasSource {c : Nat} {value message : Json} {next : Handler Unit}
    (hS : Sourced env h c value (.send message next)) (hm : IsTranscript message) :
    HasSource h c (value.strOr "jobId" "") message := by
  cases hS with
  | silent hb => exact absurd hm hb.1
  | source ht hg hb => exact ⟨_, _, _, _, ht, hg, hb.1 hm⟩

end Invariant

/-! ## Models over runs -/

theorem Unasked.not_replans {c : Nat} {f : Fired Companion CompanionEvent} (hf : Unasked c f)
    (jobId : String) : ¬ Replans f jobId := by
  rintro ⟨d, an, value, token, videoId, payload, hl, hbody, _⟩
  obtain rfl := hf.acting d an hl
  exact (hf.handling _ _ hbody).ask _ rfl

theorem PlannedBy.append {c : Nat} {jobId : String} {p : AsrPlan}
    {h h' : List (Fired Companion CompanionEvent)} (hp : PlannedBy jobId p h)
    (hh' : ∀ f ∈ h', Unasked c f) : PlannedBy jobId p (h' ++ h) := by
  induction h' with
  | nil => exact hp
  | cons f h' ih =>
    have hrest := ih fun g hg => hh' g (List.mem_cons_of_mem _ hg)
    exact hrest.later ((hh' f List.mem_cons_self).not_replans jobId)

/-- The parser and the decoder, for a job on a model and a second of silence. -/
def plansAsr (modelId : String) : External := hears 10668 modelId

/-- A job is planned and a second of audio arrives: a transcript is sent. -/
theorem SessionAt.transcribesPlan {debug : Bool} {t : Nat} {s₀ s : Companion}
    {h : List (Fired Companion CompanionEvent)} {stores : Stores} (p : AsrPlan) {modelId : String}
    (hmock : liveAsrModel (some p.models) = (modelId, .offlineMock))
    (hr : Run (Companion.step (plansAsr p.modelId) debug) s₀ h s)
    (hat : SessionAt (some p.models) t 0 (randomToken 1 2) s .listening stores)
    (hs : stores.capturePoisoned = false) :
    ∃ h' f s' value message next an g past,
      Run (Companion.step (plansAsr p.modelId) debug) s₀ (f :: h') s' ∧
      f.label = .server (.act 0 an) ∧ f.pre.Handling 0 value (.send message next) ∧
      IsTranscript message ∧ value.strOr "jobId" "" = "a" ∧ Transcribing 0 g past h' ∧
      Picks g 0 "a" modelId .offlineMock ∧ PlannedBy "a" p past ∧
      ∀ f' ∈ f :: h', f' ∈ h ∨ ∃ e, f'.label = .server e := by
  have hplan : planAnswer (some p.models) (some p.modelId) = some (.ok p.payload.toJson) := by
    simp only [planAnswer, Option.map_some, Option.getD_some, p.planned]
  -- The message of the job comes to its plan, and the capture starts.
  obtain ⟨h₁, s₁, stores₁, hr₁, hsteps₁, hat₁, hs₁⟩ :=
    hat.submits debug 10668 p.modelId
  obtain ⟨plan, hstart⟩ : ∃ plan, Next t (Answers.under (some p.models) default)
      (runAsrJob (randomToken 1 2) "a" "v" (.obj [("modelId", .str p.modelId)])) stores₁
      (startCapture (randomToken 1 2) "a" "v" plan) stores₁ :=
    next_runAsrJob _ _ _ fun e he => by cases hplan.symm.trans he
  obtain ⟨s₂, hs₂, hat₂⟩ := hat₁.act (plansAsr p.modelId) debug default hstart
  have hplans : Plans ⟨s₁, .server (.act 0 default), s₂⟩ "a" p :=
    ⟨0, default, _, _, _, _, rfl, hat₁.handling, hat₁.models, rfl⟩
  -- The chunk comes to the choice of its model.
  obtain ⟨h₃, s₃, stores₃, hr₃, hsteps₃, hat₃, hs₃, hjob⟩ :=
    hat₂.captures debug 10668 (hs₁.trans hs)
  have hdue : (asrDecision (heard 10668 "v")).1 = true := asrDecision_heard (by decide) "v"
  have hpicks (s' : Companion) : Picks ⟨s₃, .server (.act 0 default), s'⟩ 0 "a" modelId
      .offlineMock := by
    refine ⟨default, _, _, _, rfl, hat₃.handling, hat₃.stores ▸ hs₃, hat₃.stores ▸ hjob, hdue, ?_⟩
    rw [hat₃.models]
    exact hmock
  -- The segment comes to its transcript.
  obtain ⟨s₄, s₅, s₆, s₇, _, _, _, message, next, hs₄, hat₄, hs₅, hat₅, _, hs₆, hsend, hm, hs₇⟩ :=
    hat₃.transcribes (plansAsr p.modelId) debug hmock hs₃ hjob hdue
      (by rw [heard_lenSamples]; decide)
  have hplanned : PlannedBy "a" p (h₃ ++ (⟨s₁, .server (.act 0 default), s₂⟩ :: (h₁ ++ h))) :=
    (PlannedBy.plans hplans).append hsteps₃
  have hpicking := (((hr.append hr₁).cons hs₂).append hr₃).cons hs₄
  refine ⟨_, _, s₇, _, message, next, default, _, _, ((hpicking.cons hs₅).cons hs₆).cons hs₇,
    rfl, hsend, hm, rfl, ?_, hpicks s₄, hplanned, ?_⟩
  · exact ((Transcribing.picks (hpicks s₄)).later ⟨_, _, hat₅.handling⟩).later ⟨_, _, hsend⟩
  intro f hf
  simp only [List.mem_cons, List.mem_append] at hf
  rcases hf with rfl | rfl | rfl | rfl | hf | rfl | hf | hf
  · exact Or.inr ⟨_, rfl⟩
  · exact Or.inr ⟨_, rfl⟩
  · exact Or.inr ⟨_, rfl⟩
  · exact Or.inr ⟨_, rfl⟩
  · exact Or.inr (hsteps₃ f hf).server
  · exact Or.inr ⟨_, rfl⟩
  · exact Or.inr (hsteps₁ f hf).server
  · exact Or.inl hf

/-! The catalog has a small Whisper model, which is the default, and in the second case a
specialist. -/

def whisperBase : CatalogModel where
  id := "whisper-base"
  family := "whisper"
  task := "asr"
  licenseClass := some "commercial-default"
  commercialDefault := some true
  hardwareMin := some "lite"
  backend := some "whisper-cpp"
  languages := some "99+ languages; edge/CPU emergency fallback"
  notes := none

def qwen3Asr : CatalogModel where
  id := "qwen3-asr-0.6b"
  family := "qwen3-asr"
  task := "asr"
  licenseClass := some "commercial-default"
  commercialDefault := some false
  hardwareMin := some "balanced"
  backend := some "onnx"
  languages := some "30 languages + 22 Chinese dialects; lower-memory Qwen3-ASR"
  notes := some "Balanced-profile multilingual candidate."

def whisperModels : ModelManager where
  catalog := ⟨[whisperBase]⟩
  isInstalled _ := false
  discoverWeights _ := none
  modelDir id := "models/weights/" ++ id

def specialistModels : ModelManager where
  catalog := ⟨[whisperBase, qwen3Asr]⟩
  isInstalled id := id = "qwen3-asr-0.6b"
  discoverWeights id :=
    if id = "qwen3-asr-0.6b" then some "models/weights/qwen3-asr-0.6b/model.onnx" else none
  modelDir id := "models/weights/" ++ id

theorem exists_asrPlan (m : ModelManager) (modelId : String)
    (hplan : (m.planAsrJob modelId).isOk = true) :
    ∃ p : AsrPlan, p.models = m ∧ p.modelId = modelId := by
  cases h : m.planAsrJob modelId with
  | error e =>
    rw [h] at hplan
    cases hplan
  | ok payload => exact ⟨⟨m, modelId, payload, h⟩, rfl, rfl⟩

theorem PlannedBy.plans_mem {jobId : String} {p : AsrPlan}
    {h : List (Fired Companion CompanionEvent)}
    (hp : PlannedBy jobId p h) : ∃ f ∈ h, Plans f jobId p := by
  induction hp with
  | plans hf => exact ⟨_, List.mem_cons_self, hf⟩
  | later _ _ ih =>
    obtain ⟨f, hf, hplans⟩ := ih
    exact ⟨f, List.mem_cons_of_mem _ hf, hplans⟩

theorem Transcribing.mem {c : Nat} {g : Fired Companion CompanionEvent}
    {past h : List (Fired Companion CompanionEvent)} (ht : Transcribing c g past h) :
    g ∈ h ∧ ∀ f ∈ past, f ∈ h := by
  induction ht with
  | picks hg => exact ⟨List.mem_cons_self, fun f hf => List.mem_cons_of_mem _ hf⟩
  | later _ _ ih =>
    exact ⟨List.mem_cons_of_mem _ ih.1, fun f hf => List.mem_cons_of_mem _ (ih.2 f hf)⟩

/-- While the models stay the same and every plan is for the default, every choice is as it was
planned. -/
theorem pickedDefault_of_models {m : ModelManager} {h : List (Fired Companion CompanionEvent)}
    (hmodels : ∀ f ∈ h, f.pre.models = some m)
    (hm : ∀ p : AsrPlan, p.models = m → p.StillDefault (some m)) : Meets PickedDefault h := by
  induction h with
  | nil => trivial
  | cons f h ih =>
    have hbefore : ∀ f ∈ h, f.pre.models = some m :=
      fun f hf => hmodels f (List.mem_cons_of_mem _ hf)
    refine ⟨?_, ih hbefore⟩
    intro c an value message next _ _ _ g past modelId mode ht _ p hp
    obtain ⟨hg, hpast⟩ := ht.mem
    obtain ⟨f', hf', _, _, _, _, _, _, _, _, hsome, _⟩ := hp.plans_mem
    rw [hbefore f' (hpast f' hf')] at hsome
    rw [hbefore g hg]
    exact hm p (Option.some.inj hsome).symm

/-- The only model of a catalog is the default. -/
theorem stillDefault_whisperModels (p : AsrPlan) (hp : p.models = whisperModels) :
    p.StillDefault (some whisperModels) := by
  have hlive : whisperModels.liveAsrModelId = "whisper-base" := by decide +kernel
  have hid : p.modelId = "whisper-base" := by
    by_contra hne
    have hfind : whisperModels.catalog.find p.modelId = none :=
      List.find?_eq_none.2 (by simpa [whisperModels, whisperBase] using Ne.symm hne)
    have hplanned := p.planned
    rw [hp, ModelManager.planAsrJob, hfind] at hplanned
    cases hplanned
  rw [AsrPlan.StillDefault, hlive, hid, hp]
  exact ⟨rfl, rfl⟩

end LanguageLlm.Desktop