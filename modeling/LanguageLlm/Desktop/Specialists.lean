import LanguageLlm.Desktop.Models

/-!
# Which models are mocked

Only Whisper and Moonshine models are meant to be mocked while their weights are absent.
`planAsrJob` knows the specialists by a list of backends, a list of families and a list of ids; a
model whose backend it does not know and that is on neither other list is mocked as well.
`neverMocksSilently_iff` says for which catalogs that happens.
-/

namespace LanguageLlm.Desktop

/-! ## Backends -/

namespace AsrBackendKind

/-- What `parse` compares: the name without surrounding spaces and in lower case. -/
def normalize (s : String) : String :=
  String.ofList ((trim s).toList.map Char.toLower)

/-- `parse` reads the names that `asStr` writes, and nothing else. -/
theorem parse_eq_iff {s : String} {kind : AsrBackendKind} (hkind : kind ≠ unknown) :
    parse s = kind ↔ normalize s = kind.asStr := by
  unfold parse normalize
  constructor
  · intro h
    split at h
    all_goals
      next heq =>
        subst h
        first
          | exact heq
          | exact absurd rfl hkind
  · intro h
    rw [h]
    cases kind with
    | unknown => exact absurd rfl hkind
    | _ => rfl

end AsrBackendKind

theorem backendOf_some {model : CatalogModel} {name : String} (h : model.backend = some name) :
    backendOf model = AsrBackendKind.parse name := by
  simp only [backendOf, h, Option.map_some, Option.getD_some]

/-- The backend is one that the router knows. -/
def CatalogModel.NamesBackend (model : CatalogModel) : Prop :=
  ∃ name, model.backend = some name ∧ AsrBackendKind.normalize name ∈
    ["whisper-cpp", "llama-cpp", "onnx", "nemo-python", "research"]

theorem backendOf_eq_unknown {model : CatalogModel} :
    backendOf model = .unknown ↔ ¬ model.NamesBackend := by
  constructor
  · intro hunknown hnames
    obtain ⟨name, hname, hmem⟩ := hnames
    rw [backendOf_some hname] at hunknown
    have hread : ∀ kind : AsrBackendKind, kind ≠ .unknown →
        AsrBackendKind.normalize name ≠ kind.asStr := by
      intro kind hkind heq
      exact hkind (((AsrBackendKind.parse_eq_iff hkind).2 heq).symm.trans hunknown)
    simp only [List.mem_cons, List.not_mem_nil, or_false] at hmem
    rcases hmem with h | h | h | h | h
    · exact hread .whisperCpp (by decide) h
    · exact hread .llamaCpp (by decide) h
    · exact hread .onnx (by decide) h
    · exact hread .nemoPython (by decide) h
    · exact hread .research (by decide) h
  · intro hnames
    by_contra hknown
    cases hname : model.backend with
    | none => exact hknown (by simp only [backendOf, hname, Option.map_none, Option.getD_none])
    | some name =>
      rw [backendOf_some hname] at hknown
      refine hnames ⟨name, hname, ?_⟩
      rw [(AsrBackendKind.parse_eq_iff hknown).1 rfl]
      cases hkind : AsrBackendKind.parse name with
      | unknown => exact absurd hkind hknown
      | _ => simp [AsrBackendKind.asStr]

/-! ## Specialists -/

def specialistFamilies : List String :=
  ["fireredasr", "qwen3-asr", "parakeet", "canary", "canary-qwen", "granite-speech"]

def specialistIds : List String :=
  ["fireredasr2s", "qwen3-asr-1.7b", "qwen3-asr-0.6b", "parakeet-tdt-0.6b-v3",
    "parakeet-tdt-1.1b", "canary-1b-v2", "canary-qwen-2.5b", "granite-speech-3.3-8b"]

theorem isSpecialistAsr_iff {modelId family : String} {backend : AsrBackendKind} :
    isSpecialistAsr modelId family backend = true ↔
      backend.requiresExplicitInstall = true ∧ family ≠ "moonshine" ∨
        family ∈ specialistFamilies ∨ modelId ∈ specialistIds := by
  rw [isSpecialistAsr, specialistFamilies, specialistIds]
  split
  · rename_i h
    rw [Bool.and_eq_true, bne_iff_ne] at h
    exact ⟨fun _ => .inl h, fun _ => rfl⟩
  · rename_i h
    rw [Bool.and_eq_true, bne_iff_ne] at h
    rw [Bool.or_eq_true, decide_eq_true_eq, decide_eq_true_eq, or_iff_right h]

/-- The models that `planAsrJob` plans. -/
def CatalogModel.IsAsr (model : CatalogModel) : Prop :=
  model.task = "asr" ∨ model.task = "aligner"

/-- The models that are meant to be mocked while they are not installed. -/
def CatalogModel.MayMock (model : CatalogModel) : Prop :=
  backendOf model = .whisperCpp ∨ model.family = "moonshine"

/-- The payload of a job on this model. -/
def ModelManager.asrPayload (m : ModelManager) (modelId : String) (model : CatalogModel) :
    AsrJobPayload where
  modelId := model.id
  family := model.family
  backend := backendOf model
  mode := m.requireOrMock modelId
  weightPath := m.discoverWeights modelId
  languagesHint := model.languages
  notes := model.notes

/-- When a job is planned. -/
theorem planAsrJob_ok {m : ModelManager} {modelId : String} {payload : AsrJobPayload} :
    m.planAsrJob modelId = .ok payload ↔ ∃ model, m.catalog.find modelId = some model ∧
      model.IsAsr ∧ backendOf model ≠ .research ∧
      (isSpecialistAsr model.id model.family (backendOf model) = true →
        m.isInstalled modelId = true) ∧
      payload = m.asrPayload modelId model := by
  unfold ModelManager.planAsrJob
  cases hfind : m.catalog.find modelId with
  | none => simp
  | some model =>
    have htask : (model.task ≠ "asr" ∧ model.task ≠ "aligner") ↔ ¬ model.IsAsr := by
      simp only [CatalogModel.IsAsr, not_or, ne_eq]
    simp only [Option.some.injEq, exists_eq_left']
    by_cases hasr : model.IsAsr
    · rw [if_neg (fun h => htask.1 h hasr)]
      by_cases hresearch : backendOf model = .research
      · simp [hresearch]
      · rw [if_neg hresearch]
        by_cases hspecialist : isSpecialistAsr model.id model.family (backendOf model) = true
        · cases hinstalled : m.isInstalled modelId with
          | false => simp [hspecialist]
          | true =>
            simp only [hspecialist, Bool.not_true, Bool.and_false, Bool.false_eq_true, if_false,
              if_true, Except.ok.injEq, hasr, hresearch, ne_eq, not_false_eq_true, true_and,
              imp_self, ModelManager.asrPayload, ModelManager.requireOrMock, hinstalled]
            exact eq_comm
        · simp only [hspecialist, Bool.false_and, Bool.false_eq_true, if_false, Except.ok.injEq,
            hasr, hresearch, ne_eq, not_false_eq_true, true_and, false_imp_iff,
            ModelManager.asrPayload, ModelManager.requireOrMock]
          exact eq_comm
    · rw [if_pos (htask.2 hasr)]
      simp [hasr]

/-! ## Silent mocks -/

/-- Only a model that may be mocked is mocked, any other model of an ASR job is installed or
refused, and a job that asks for weights has them. -/
structure NeverMocksSilently (m : ModelManager) (modelId : String) : Prop where
  mocked : ∀ payload, m.planAsrJob modelId = .ok payload → payload.mode = .offlineMock →
    ∃ model, m.catalog.find modelId = some model ∧ model.MayMock
  refused : ∀ model, m.catalog.find modelId = some model → model.IsAsr → ¬ model.MayMock →
    m.isInstalled modelId = false → ∃ e, m.planAsrJob modelId = .error e
  weights : ∀ payload, m.planAsrJob modelId = .ok payload → payload.mode = .weights →
    m.isInstalled payload.modelId = true

/-- The model is known to be a specialist or to be none. -/
def CatalogModel.Classified (model : CatalogModel) : Prop :=
  model.NamesBackend ∨ model.family = "moonshine" ∨ model.family ∈ specialistFamilies ∨
    model.id ∈ specialistIds

theorem mode_asrPayload {m : ModelManager} {modelId : String} {model : CatalogModel} :
    (m.asrPayload modelId model).mode = .weights ↔ m.isInstalled modelId = true := by
  simp only [ModelManager.asrPayload, ModelManager.requireOrMock]
  split
  · exact ⟨fun _ => by assumption, fun _ => rfl⟩
  · rename_i h
    constructor
    · intro hmode
      cases hmode
    · intro hinstalled
      exact absurd hinstalled h

theorem find_id {catalog : ModelCatalog} {modelId : String} {model : CatalogModel}
    (h : catalog.find modelId = some model) : model.id = modelId := by
  simpa using List.find?_some h

/-- A model that is classified and no specialist may be mocked. -/
theorem CatalogModel.Classified.mayMock {model : CatalogModel} (h : model.Classified)
    (hresearch : backendOf model ≠ .research)
    (hspecialist : isSpecialistAsr model.id model.family (backendOf model) ≠ true) :
    model.MayMock := by
  rw [ne_eq, isSpecialistAsr_iff, not_or] at hspecialist
  obtain ⟨hbackend, hlisted⟩ := hspecialist
  by_cases hmoonshine : model.family = "moonshine"
  · exact .inr hmoonshine
  · have hnames : model.NamesBackend := by
      rcases h with hnames | hfamily | hlist
      · exact hnames
      · exact absurd hfamily hmoonshine
      · exact absurd hlist hlisted
    left
    -- every other backend that is known has to be installed
    cases hkind : backendOf model with
    | whisperCpp => rfl
    | unknown => exact absurd hnames (backendOf_eq_unknown.1 hkind)
    | research => exact absurd hkind hresearch
    | _ =>
      rw [hkind] at hbackend
      exact absurd ⟨rfl, hmoonshine⟩ hbackend

section

variable {m : ModelManager} {modelId : String}

/-- A model that is not classified is planned without its weights. -/
theorem planned_of_not_classified {model : CatalogModel}
    (hfind : m.catalog.find modelId = some model) (hasr : model.IsAsr)
    (hclassified : ¬ model.Classified) :
    m.planAsrJob modelId = .ok (m.asrPayload modelId model) ∧ ¬ model.MayMock := by
  simp only [CatalogModel.Classified, not_or] at hclassified
  obtain ⟨hnames, hmoonshine, hfamily, hid⟩ := hclassified
  have hunknown := backendOf_eq_unknown.2 hnames
  constructor
  · refine planAsrJob_ok.2 ⟨model, hfind, hasr, ?_, ?_, rfl⟩
    · rw [hunknown]
      exact AsrBackendKind.noConfusion
    · intro hspecialist
      rw [isSpecialistAsr_iff, hunknown] at hspecialist
      rcases hspecialist with hbackend | hlist | hlist
      · cases hbackend.1
      · exact absurd hlist hfamily
      · exact absurd hlist hid
  · intro hmay
    rcases hmay with hwhisper | hfam
    · rw [hunknown] at hwhisper
      cases hwhisper
    · exact hmoonshine hfam

/-- A model that is planned and not installed is no specialist. -/
theorem mayMock_of_planned {payload : AsrJobPayload}
    (hclassified : ∀ model, m.catalog.find modelId = some model → model.IsAsr →
      m.isInstalled modelId = false → model.Classified)
    (hok : m.planAsrJob modelId = .ok payload) (hmissing : m.isInstalled modelId = false) :
    ∃ model, m.catalog.find modelId = some model ∧ model.MayMock := by
  obtain ⟨model, hfind, hasr, hresearch, hspecialist, -⟩ := planAsrJob_ok.1 hok
  refine ⟨model, hfind, (hclassified model hfind hasr hmissing).mayMock hresearch ?_⟩
  intro h
  rw [hspecialist h] at hmissing
  cases hmissing

/-- The mode of a payload says whether the model is installed. -/
theorem mode_of_planned {payload : AsrJobPayload} (hok : m.planAsrJob modelId = .ok payload) :
    payload.modelId = modelId ∧ (payload.mode = .weights ↔ m.isInstalled modelId = true) := by
  obtain ⟨model, hfind, _, _, _, rfl⟩ := planAsrJob_ok.1 hok
  exact ⟨find_id hfind, mode_asrPayload⟩

end

/-- No model of an ASR job is mocked silently if and only if it is classified or installed. -/
theorem neverMocksSilently_iff (m : ModelManager) (modelId : String) :
    NeverMocksSilently m modelId ↔ ∀ model, m.catalog.find modelId = some model →
      model.IsAsr → m.isInstalled modelId = false → model.Classified := by
  constructor
  · intro h model hfind hasr hmissing
    by_contra hclassified
    obtain ⟨hok, hmay⟩ := planned_of_not_classified hfind hasr hclassified
    obtain ⟨e, he⟩ := h.refused model hfind hasr hmay hmissing
    rw [hok] at he
    cases he
  · intro hclassified
    refine ⟨?_, ?_, ?_⟩
    · intro payload hok hmode
      apply mayMock_of_planned hclassified hok
      rw [← Bool.not_eq_true]
      intro hinstalled
      rw [(mode_of_planned hok).2.2 hinstalled] at hmode
      cases hmode
    · intro model hfind _ hmay hmissing
      cases hplan : m.planAsrJob modelId with
      | error e => exact ⟨e, rfl⟩
      | ok payload =>
        obtain ⟨found, hfound, hfoundMay⟩ := mayMock_of_planned hclassified hplan hmissing
        obtain rfl := Option.some.inj (hfind.symm.trans hfound)
        exact absurd hfoundMay hmay
    · intro payload hok hmode
      obtain ⟨hid, hweights⟩ := mode_of_planned hok
      rw [hid]
      exact hweights.1 hmode

/-- A model that names no backend, of a family that the router does not list. -/
def unlistedModels : ModelManager where
  catalog := ⟨[
    { id := "sensevoice-small", family := "sensevoice", task := "asr", licenseClass := none,
      commercialDefault := none, hardwareMin := none, backend := none, languages := none,
      notes := none }]⟩
  isInstalled _ := false
  discoverWeights _ := none
  modelDir id := "models/weights/" ++ id

/-- It is mocked although it is not installed. -/
theorem not_neverMocksSilently :
    ¬ ∀ (m : ModelManager) (modelId : String), NeverMocksSilently m modelId := by
  intro hall
  obtain ⟨model, hfind, hmay⟩ :=
    (hall unlistedModels "sensevoice-small").mocked _ rfl rfl
  obtain rfl := Option.some.inj hfind
  rcases hmay with hbackend | hfamily
  · cases hbackend
  · revert hfamily
    decide

end LanguageLlm.Desktop
