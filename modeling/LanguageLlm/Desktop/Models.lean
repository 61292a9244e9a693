import Mathlib.Data.List.Sort
import LanguageLlm.Desktop.Handlers

/-!
# Models

The crate `inference-router`: the catalog of models, the selection of a default and the plan of an
ASR job. What the files of a model say is a parameter.
-/

namespace LanguageLlm.Desktop

/-- `{profile:?}`. -/
def HardwareProfile.name : HardwareProfile → String
  | lite => "Lite"
  | balanced => "Balanced"
  | quality => "Quality"
  | workstation => "Workstation"

/-- `RouterError` as it is displayed. -/
def RouterError.toString : RouterError → String
  | noCompatibleModel task profile =>
    "no compatible model for task=" ++ task ++ " profile=" ++ profile.name
  | scheduler message => "scheduler refused job: " ++ message
  | catalog message => "catalog: " ++ message
  | modelNotInstalled message => "model not installed: " ++ message

/-! ## The catalog -/

/-- `CatalogModel`, without the digest and the hint for its download. -/
structure CatalogModel where
  id : String
  family : String
  task : String
  licenseClass : Option String
  commercialDefault : Option Bool
  hardwareMin : Option String
  backend : Option String
  languages : Option String
  notes : Option String

structure ModelCatalog where
  models : List CatalogModel

def ModelCatalog.find (catalog : ModelCatalog) (id : String) : Option CatalogModel :=
  catalog.models.find? fun m => m.id = id

def profileRank : HardwareProfile → Nat
  | .lite => 0
  | .balanced => 1
  | .quality => 2
  | .workstation => 3

def parseProfile : String → HardwareProfile
  | "balanced" => .balanced
  | "quality" => .quality
  | "workstation" => .workstation
  | _ => .lite

/-- `c.contains("research")`. -/
def containsResearch (licenseClass : String) : Bool :=
  licenseClass.toList.tails.any fun rest => "research".toList.isPrefixOf rest

/-- The order of the key `(!commercial_default, id)`. -/
def selectedBefore (a b : CatalogModel) : Prop :=
  if a.commercialDefault.getD false = b.commercialDefault.getD false then a.id ≤ b.id
  else a.commercialDefault.getD false = true

instance : DecidableRel selectedBefore := fun a b => by
  unfold selectedBefore
  infer_instance

def selectModels (catalog : ModelCatalog) (task : String) (profile : HardwareProfile)
    (allowResearch : Bool) : Except RouterError (List CatalogModel) :=
  let matched := catalog.models.filter fun m =>
    m.task = task &&
    decide (profileRank ((m.hardwareMin.map parseProfile).getD .lite) ≤ profileRank profile) &&
    !((m.licenseClass.map containsResearch).getD false && !allowResearch)
  if matched = [] then .error (.noCompatibleModel task profile)
  else .ok (matched.insertionSort selectedBefore)

/-! ## The model manager -/

/-- `ModelManager` over the files of the models. -/
structure ModelManager where
  catalog : ModelCatalog
  /-- `is_installed`. -/
  isInstalled : String → Bool
  /-- `discover_weights`. -/
  discoverWeights : String → Option String
  /-- `paths.model_dir(..).display()`. -/
  modelDir : String → String

inductive AsrBackendKind where
  | whisperCpp
  | llamaCpp
  | onnx
  | nemoPython
  | research
  | unknown
  deriving DecidableEq

namespace AsrBackendKind

/-- `s.trim()`. -/
def trim (s : String) : String :=
  String.ofList ((s.toList.dropWhile isWhitespace).reverse.dropWhile isWhitespace).reverse

def parse (s : String) : AsrBackendKind :=
  match String.ofList ((trim s).toList.map Char.toLower) with
  | "whisper-cpp" => whisperCpp
  | "llama-cpp" => llamaCpp
  | "onnx" => onnx
  | "nemo-python" => nemoPython
  | "research" => research
  | _ => unknown

def asStr : AsrBackendKind → String
  | whisperCpp => "whisper-cpp"
  | llamaCpp => "llama-cpp"
  | onnx => "onnx"
  | nemoPython => "nemo-python"
  | research => "research"
  | unknown => "unknown"

def requiresExplicitInstall : AsrBackendKind → Bool
  | onnx | nemoPython | research | llamaCpp => true
  | _ => false

end AsrBackendKind

def backendOf (model : CatalogModel) : AsrBackendKind :=
  (model.backend.map AsrBackendKind.parse).getD .unknown

def isSpecialistAsr (modelId family : String) (backend : AsrBackendKind) : Bool :=
  if backend.requiresExplicitInstall && family != "moonshine" then true
  else
    family ∈ ["fireredasr", "qwen3-asr", "parakeet", "canary", "canary-qwen", "granite-speech"] ||
    modelId ∈ ["fireredasr2s", "qwen3-asr-1.7b", "qwen3-asr-0.6b", "parakeet-tdt-0.6b-v3",
      "parakeet-tdt-1.1b", "canary-1b-v2", "canary-qwen-2.5b", "granite-speech-3.3-8b"]

/-- `AsrJobPayload`; its sample rate is 16 kHz. -/
structure AsrJobPayload where
  modelId : String
  family : String
  backend : AsrBackendKind
  mode : InferenceMode
  weightPath : Option String
  languagesHint : Option String
  notes : Option String

def AsrJobPayload.toJson (p : AsrJobPayload) : Json :=
  .obj [("modelId", .str p.modelId), ("family", .str p.family), ("backend", .str p.backend.asStr),
    ("mode", .str p.mode.name), ("weightPath", jsonOption p.weightPath),
    ("sampleRateHz", .nat 16000), ("languagesHint", jsonOption p.languagesHint),
    ("notes", jsonOption p.notes)]

namespace ModelManager

/-- `require_or_mock`, which never fails. -/
def requireOrMock (m : ModelManager) (modelId : String) : InferenceMode :=
  if m.isInstalled modelId then .weights else .offlineMock

def defaultAsrModelId (m : ModelManager) (profile : HardwareProfile) (allowResearch : Bool) :
    Except RouterError String := do
  let matched ← selectModels m.catalog "asr" profile allowResearch
  match matched with
  | model :: _ => return model.id
  | [] => throw (.noCompatibleModel "asr" profile)

def planAsrJob (m : ModelManager) (modelId : String) : Except RouterError AsrJobPayload :=
  match m.catalog.find modelId with
  | none => .error (.catalog ("unknown ASR model id: " ++ modelId))
  | some model =>
    if model.task ≠ "asr" ∧ model.task ≠ "aligner" then
      .error (.catalog ("model " ++ modelId ++ " task=" ++ model.task ++ " is not asr"))
    else
      let backend := backendOf model
      if backend = .research then
        .error (.modelNotInstalled (modelId ++ ": research / no deployable weights"))
      else
        let installed := m.isInstalled modelId
        let specialist := isSpecialistAsr model.id model.family backend
        if specialist && !installed then
          .error (.modelNotInstalled (modelId ++ " (" ++ backend.asStr ++
            ") is not installed under " ++ m.modelDir modelId ++
            "; place weights and re-verify SHA-256"))
        else
          .ok
            { modelId := model.id
              family := model.family
              backend
              mode := if installed then .weights else .offlineMock
              weightPath := m.discoverWeights modelId
              languagesHint := model.languages
              notes := model.notes }

/-- `default_asr_model_id(m, HardwareProfile::Lite, false)`, or else the model that the handlers
fall back to. -/
def liveAsrModelId (m : ModelManager) : String :=
  match m.defaultAsrModelId .lite false with
  | .ok id => id
  | .error _ => "whisper-large-v3-turbo"

end ModelManager

/-! ## What the handlers learn -/

/-- What `job.submit` learns of an ASR job. -/
def planAnswer (models : Option ModelManager) (requested : Option String) :
    Option (Except (String × String) Json) :=
  models.map fun m =>
    let id := requested.getD m.liveAsrModelId
    match m.planAsrJob id with
    | .ok plan => .ok plan.toJson
    | .error e => .error (id, e.toString)

/-- The model and the mode that `handle_audio_chunk` chooses. -/
def liveAsrModel : Option ModelManager → String × InferenceMode
  | some m => (m.liveAsrModelId, m.requireOrMock m.liveAsrModelId)
  | none => ("whisper-large-v3-turbo", .offlineMock)

/-- The mode and the backend of a translate job, when `try_load` returns `backend`. -/
def liveTranslator (models : Option ModelManager) (backend : Option Backend) :
    InferenceMode × Option Backend :=
  match models with
  | some m =>
    match m.requireOrMock "hy-mt2-1.8b" with
    | .weights => (.weights, backend)
    | .offlineMock => (.offlineMock, none)
  | none => (.offlineMock, none)

/-- The answers that are given while the companion has these models. -/
def Answers.under (models : Option ModelManager) (a : Answers) : Answers :=
  { a with
    translator := liveTranslator models a.translator.2
    asrPlan := planAnswer models
    asrModel := liveAsrModel models }

end LanguageLlm.Desktop
