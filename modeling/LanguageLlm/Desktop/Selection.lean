import Mathlib.Data.List.Sort
import Mathlib.Data.String.Basic
import LanguageLlm.Lib.StableSort
import LanguageLlm.Desktop.Models

/-!
# The selection of models

`selectModels` sorts the eligible models, the commercial defaults first. `selectedBefore` is a
total preorder on all models and ties no two models of different ids, so the sort neither depends
on the order of the catalog nor moves the models that stay when fewer are eligible.
-/

namespace LanguageLlm.Desktop

open Lib

/-! ## What selection is for -/

def CatalogModel.CommercialDefault (model : CatalogModel) : Prop :=
  model.commercialDefault = some true

/-- The licence class speaks of research. -/
def CatalogModel.ResearchLicence (model : CatalogModel) : Prop :=
  ∃ licence, model.licenseClass = some licence ∧ "research".toList <:+: licence.toList

/-- The profile that a model needs; one that names none runs everywhere. -/
def CatalogModel.minimum (model : CatalogModel) : HardwareProfile :=
  (model.hardwareMin.map parseProfile).getD .lite

/-- The models that may be selected for a task. -/
structure Eligible (task : String) (profile : HardwareProfile) (allowResearch : Bool)
    (model : CatalogModel) : Prop where
  hasTask : model.task = task
  fits : profileRank model.minimum ≤ profileRank profile
  licensed : model.ResearchLicence → allowResearch = true

/-- Commercial defaults come before other models, and a smaller id before a larger one. -/
def ComesBefore (a b : CatalogModel) : Prop :=
  a.CommercialDefault ∧ ¬ b.CommercialDefault ∨
    (a.CommercialDefault ↔ b.CommercialDefault) ∧ a.id < b.id

/-- The selected models are the eligible ones, each once and in order. -/
structure SelectsEligible (catalog : ModelCatalog) (task : String) (profile : HardwareProfile)
    (allowResearch : Bool) (selected : List CatalogModel) : Prop where
  nodup : selected.Nodup
  mem_iff : ∀ model, model ∈ selected ↔
    model ∈ catalog.models ∧ Eligible task profile allowResearch model
  ordered : selected.Pairwise ComesBefore

/-! ## The order -/

theorem selectedBefore_iff {a b : CatalogModel} :
    selectedBefore a b ↔ a.CommercialDefault ∧ ¬ b.CommercialDefault ∨
      (a.CommercialDefault ↔ b.CommercialDefault) ∧ a.id ≤ b.id := by
  have hgetD : ∀ o : Option Bool, o.getD false = true ↔ o = some true := by
    intro o
    cases o with
    | none => simp
    | some v => simp
  simp only [selectedBefore, CatalogModel.CommercialDefault, ← hgetD]
  cases a.commercialDefault.getD false <;> cases b.commercialDefault.getD false <;> simp

instance : Std.Total selectedBefore where
  total a b := by
    simp only [selectedBefore_iff]
    rcases le_total a.id b.id with h | h <;> tauto

instance : IsTrans CatalogModel selectedBefore where
  trans a b c hab hbc := by
    rw [selectedBefore_iff] at hab hbc ⊢
    have htrans : a.id ≤ b.id → b.id ≤ c.id → a.id ≤ c.id := le_trans
    tauto

/-- Only models of one id are tied. -/
theorem id_eq_of_selectedBefore {a b : CatalogModel} (hab : selectedBefore a b)
    (hba : selectedBefore b a) : a.id = b.id := by
  rw [selectedBefore_iff] at hab hba
  have hanti : a.id ≤ b.id → b.id ≤ a.id → a.id = b.id := le_antisymm
  tauto

theorem comesBefore_of_selectedBefore {a b : CatalogModel} (h : selectedBefore a b)
    (hne : a.id ≠ b.id) : ComesBefore a b := by
  rw [selectedBefore_iff] at h
  have hlt : a.id ≤ b.id → a.id < b.id := fun hle => lt_of_le_of_ne hle hne
  unfold ComesBefore
  tauto

/-! ## The filter -/

/-- The filters of `selectModels`. -/
def isEligible (task : String) (profile : HardwareProfile) (allowResearch : Bool)
    (model : CatalogModel) : Bool :=
  model.task = task && decide (profileRank model.minimum ≤ profileRank profile) &&
    !((model.licenseClass.map containsResearch).getD false && !allowResearch)

theorem containsResearch_iff {licence : String} :
    containsResearch licence = true ↔ "research".toList <:+: licence.toList := by
  rw [containsResearch, List.any_eq_true]
  constructor
  · intro h
    obtain ⟨rest, hrest, hprefix⟩ := h
    have hsuffix : rest <:+ licence.toList := (List.mem_tails _ _).1 hrest
    exact (List.isPrefixOf_iff_prefix.1 hprefix).isInfix.trans hsuffix.isInfix
  · intro h
    obtain ⟨before, after, heq⟩ := h
    refine ⟨"research".toList ++ after, (List.mem_tails _ _).2 ⟨before, ?_⟩, ?_⟩
    · rw [← List.append_assoc, heq]
    · exact List.isPrefixOf_iff_prefix.2 (List.prefix_append _ _)

theorem isEligible_iff {task : String} {profile : HardwareProfile} {allowResearch : Bool}
    {model : CatalogModel} :
    isEligible task profile allowResearch model = true ↔
      Eligible task profile allowResearch model := by
  have hresearch : (model.licenseClass.map containsResearch).getD false = true ↔
      model.ResearchLicence := by
    cases hlicence : model.licenseClass with
    | none => simp [CatalogModel.ResearchLicence, hlicence]
    | some licence => simp [CatalogModel.ResearchLicence, hlicence, containsResearch_iff]
  simp only [isEligible, Bool.and_eq_true, decide_eq_true_eq, Bool.not_eq_true',
    Bool.and_eq_false_iff, Bool.not_eq_false']
  constructor
  · intro h
    obtain ⟨⟨htask, hfits⟩, hlicence⟩ := h
    refine ⟨htask, hfits, fun hr => ?_⟩
    rcases hlicence with hno | hallow
    · rw [hresearch.2 hr] at hno
      cases hno
    · exact hallow
  · intro h
    refine ⟨⟨h.hasTask, h.fits⟩, ?_⟩
    by_cases hr : model.ResearchLicence
    · exact .inr (h.licensed hr)
    · left
      rw [← hresearch] at hr
      simpa using hr

/-- The eligible models of a catalog, in its order. -/
def ModelCatalog.eligible (catalog : ModelCatalog) (task : String) (profile : HardwareProfile)
    (allowResearch : Bool) : List CatalogModel :=
  catalog.models.filter (isEligible task profile allowResearch)

section

variable {catalog : ModelCatalog} {task : String} {profile : HardwareProfile}
  {allowResearch : Bool} {selected : List CatalogModel}

theorem mem_eligible {model : CatalogModel} :
    model ∈ catalog.eligible task profile allowResearch ↔
      model ∈ catalog.models ∧ Eligible task profile allowResearch model := by
  rw [ModelCatalog.eligible, List.mem_filter, isEligible_iff]

theorem eligible_eq_nil : catalog.eligible task profile allowResearch = [] ↔
    ∀ model ∈ catalog.models, ¬ Eligible task profile allowResearch model := by
  rw [List.eq_nil_iff_forall_not_mem]
  simp only [mem_eligible, not_and]

theorem selectModels_eq : selectModels catalog task profile allowResearch =
    if catalog.eligible task profile allowResearch = [] then
      .error (.noCompatibleModel task profile)
    else .ok ((catalog.eligible task profile allowResearch).insertionSort selectedBefore) :=
  rfl

theorem selectModels_error : (∃ e, selectModels catalog task profile allowResearch = .error e) ↔
    catalog.eligible task profile allowResearch = [] := by
  rw [selectModels_eq]
  split
  · rename_i h
    exact ⟨fun _ => h, fun _ => ⟨_, rfl⟩⟩
  · rename_i h
    constructor
    · intro herror
      obtain ⟨e, he⟩ := herror
      cases he
    · intro h'
      exact absurd h' h

theorem selectModels_ok : selectModels catalog task profile allowResearch = .ok selected ↔
    catalog.eligible task profile allowResearch ≠ [] ∧
      selected = (catalog.eligible task profile allowResearch).insertionSort selectedBefore := by
  rw [selectModels_eq]
  split
  · rename_i h
    simp [h]
  · rename_i h
    simp only [Except.ok.injEq, ne_eq, h, not_false_eq_true, true_and]
    exact eq_comm

/-! ## What is selected -/

/-- No two models of a catalog share an id. -/
def ModelCatalog.DistinctIds (catalog : ModelCatalog) : Prop :=
  (catalog.models.map CatalogModel.id).Nodup

theorem ModelCatalog.DistinctIds.eq_of_id (hids : catalog.DistinctIds) {a b : CatalogModel}
    (ha : a ∈ catalog.models) (hb : b ∈ catalog.models) (h : a.id = b.id) : a = b :=
  List.inj_on_of_nodup_map hids ha hb h

theorem selectsEligible_of_ok (hids : catalog.DistinctIds)
    (h : selectModels catalog task profile allowResearch = .ok selected) :
    SelectsEligible catalog task profile allowResearch selected := by
  obtain ⟨-, rfl⟩ := selectModels_ok.1 h
  have hperm := List.perm_insertionSort selectedBefore
    (catalog.eligible task profile allowResearch)
  have hnodup := hperm.nodup_iff.2 ((List.Nodup.of_map _ hids).filter
    (isEligible task profile allowResearch))
  have hmem : ∀ model, model ∈ (catalog.eligible task profile allowResearch).insertionSort
      selectedBefore ↔ model ∈ catalog.models ∧ Eligible task profile allowResearch model :=
    fun model => hperm.mem_iff.trans mem_eligible
  refine ⟨hnodup, hmem, ?_⟩
  -- two models of the sorted list differ, hence so do their ids
  have hne : (((catalog.eligible task profile allowResearch).insertionSort
      selectedBefore)).Pairwise fun a b => a.id ≠ b.id := by
    apply List.Pairwise.imp_of_mem _ hnodup
    intro a b ha hb hab hid
    exact hab (hids.eq_of_id ((hmem a).1 ha).1 ((hmem b).1 hb).1 hid)
  apply ((List.pairwise_insertionSort selectedBefore _).and hne).imp
  intro a b hab
  exact comesBefore_of_selectedBefore hab.1 hab.2

theorem selectModels_perm (hids : catalog.DistinctIds) {other : ModelCatalog}
    (hp : catalog.models.Perm other.models) :
    selectModels other task profile allowResearch =
      selectModels catalog task profile allowResearch := by
  have heligible : (catalog.eligible task profile allowResearch).Perm
      (other.eligible task profile allowResearch) := hp.filter _
  have hsort : (catalog.eligible task profile allowResearch).insertionSort selectedBefore =
      (other.eligible task profile allowResearch).insertionSort selectedBefore := by
    apply insertionSort_eq_of_perm heligible
    intro a ha b hb hab hba
    exact hids.eq_of_id (mem_eligible.1 ha).1 (mem_eligible.1 hb).1
      (id_eq_of_selectedBefore hab hba)
  have hnil : other.eligible task profile allowResearch = [] ↔
      catalog.eligible task profile allowResearch = [] := by
    rw [← List.length_eq_zero_iff, ← List.length_eq_zero_iff, heligible.length_eq]
  simp only [selectModels_eq, hsort, hnil]

/-- Whoever is eligible stays eligible on better hardware and with research allowed. -/
theorem Eligible.mono {profile' : HardwareProfile} {allowResearch' : Bool} {model : CatalogModel}
    (h : Eligible task profile allowResearch model)
    (hprofile : profileRank profile ≤ profileRank profile')
    (hallow : allowResearch = true → allowResearch' = true) :
    Eligible task profile' allowResearch' model :=
  ⟨h.hasTask, h.fits.trans hprofile, fun hr => hallow (h.licensed hr)⟩

/-- What is selected under less is what is selected under more, less the models not eligible. -/
theorem selectModels_mono {profile' : HardwareProfile} {allowResearch' : Bool}
    (hprofile : profileRank profile ≤ profileRank profile')
    (hallow : allowResearch = true → allowResearch' = true)
    (h : selectModels catalog task profile allowResearch = .ok selected) :
    ∃ more, selectModels catalog task profile' allowResearch' = .ok more ∧
      selected = more.filter (isEligible task profile allowResearch) := by
  obtain ⟨hne, rfl⟩ := selectModels_ok.1 h
  have hfilter : (catalog.eligible task profile' allowResearch').filter
      (isEligible task profile allowResearch) = catalog.eligible task profile allowResearch := by
    rw [ModelCatalog.eligible, ModelCatalog.eligible, List.filter_filter]
    apply List.filter_congr
    intro model _
    by_cases hm : isEligible task profile allowResearch model = true
    · rw [hm, isEligible_iff.2 ((isEligible_iff.1 hm).mono hprofile hallow)]
      rfl
    · rw [Bool.not_eq_true] at hm
      rw [hm, Bool.false_and]
  refine ⟨(catalog.eligible task profile' allowResearch').insertionSort selectedBefore,
    selectModels_ok.2 ⟨?_, rfl⟩, ?_⟩
  · intro hnil
    rw [hnil] at hfilter
    exact hne hfilter.symm
  · rw [filter_insertionSort, hfilter]

end

/-! ## The default model -/

theorem defaultAsrModelId_of_ok {m : ModelManager} {profile : HardwareProfile}
    {allowResearch : Bool} {model : CatalogModel} {rest : List CatalogModel}
    (h : selectModels m.catalog "asr" profile allowResearch = .ok (model :: rest)) :
    m.defaultAsrModelId profile allowResearch = .ok model.id := by
  rw [ModelManager.defaultAsrModelId, h]
  rfl

/-- The first selected model is a commercial default if any of them is. -/
theorem commercialDefault_of_ordered {first model : CatalogModel} {rest : List CatalogModel}
    (hordered : (first :: rest).Pairwise ComesBefore) (hmem : model ∈ first :: rest)
    (hdefault : model.CommercialDefault) : first.CommercialDefault := by
  rcases List.mem_cons.1 hmem with rfl | hmem
  · exact hdefault
  · rcases List.rel_of_pairwise_cons hordered hmem with hbefore | hbefore
    · exact hbefore.1
    · exact hbefore.1.2 hdefault

theorem defaultAsrModelId_commercial {m : ModelManager} (hids : m.catalog.DistinctIds)
    {profile : HardwareProfile} {allowResearch : Bool} {model : CatalogModel}
    (hmem : model ∈ m.catalog.models) (heligible : Eligible "asr" profile allowResearch model)
    (hdefault : model.CommercialDefault) :
    ∃ chosen ∈ m.catalog.models, Eligible "asr" profile allowResearch chosen ∧
      chosen.CommercialDefault ∧ m.defaultAsrModelId profile allowResearch = .ok chosen.id := by
  have hne : m.catalog.eligible "asr" profile allowResearch ≠ [] := by
    intro hnil
    exact eligible_eq_nil.1 hnil model hmem heligible
  have hok := selectModels_ok.2 ⟨hne, rfl⟩
  have hselects := selectsEligible_of_ok hids hok
  have hin := (hselects.mem_iff model).2 ⟨hmem, heligible⟩
  generalize (m.catalog.eligible "asr" profile allowResearch).insertionSort selectedBefore =
    selected at hok hselects hin
  cases selected with
  | nil => cases hin
  | cons chosen rest =>
    obtain ⟨hchosen, hfits⟩ := (hselects.mem_iff chosen).1 List.mem_cons_self
    exact ⟨chosen, hchosen, hfits, commercialDefault_of_ordered hselects.ordered hin hdefault,
      defaultAsrModelId_of_ok hok⟩

/-! ## Selection is exact -/

/-- Selection fails when nothing is eligible and otherwise selects the eligible models in order,
whatever the order of the catalog; better hardware and research only add models; and the default
ASR model is a commercial default when one is eligible. -/
theorem selectModels_exact (catalog : ModelCatalog) (hids : catalog.DistinctIds) (task : String)
    (profile : HardwareProfile) (allowResearch : Bool) :
    ((∃ e, selectModels catalog task profile allowResearch = .error e) ↔
      ∀ model ∈ catalog.models, ¬ Eligible task profile allowResearch model) ∧
    (∀ selected, selectModels catalog task profile allowResearch = .ok selected →
      SelectsEligible catalog task profile allowResearch selected) ∧
    (∀ other : ModelCatalog, catalog.models.Perm other.models →
      selectModels other task profile allowResearch =
        selectModels catalog task profile allowResearch) ∧
    (∀ selected profile' allowResearch',
      selectModels catalog task profile allowResearch = .ok selected →
      profileRank profile ≤ profileRank profile' →
      (allowResearch = true → allowResearch' = true) →
      ∃ more, selectModels catalog task profile' allowResearch' = .ok more ∧
        selected.Sublist more) ∧
    ∀ m : ModelManager, m.catalog = catalog →
      (∃ model ∈ catalog.models, Eligible "asr" profile allowResearch model ∧
        model.CommercialDefault) →
      ∃ model ∈ catalog.models, Eligible "asr" profile allowResearch model ∧
        model.CommercialDefault ∧ m.defaultAsrModelId profile allowResearch = .ok model.id := by
  refine ⟨selectModels_error.trans eligible_eq_nil, fun selected => selectsEligible_of_ok hids,
    fun other => selectModels_perm hids, ?_, ?_⟩
  · intro selected profile' allowResearch' hok hprofile hallow
    obtain ⟨more, hmore, rfl⟩ := selectModels_mono hprofile hallow hok
    exact ⟨more, hmore, List.filter_sublist⟩
  · intro m hm hexists
    obtain ⟨model, hmem, heligible, hdefault⟩ := hexists
    subst hm
    exact defaultAsrModelId_commercial hids hmem heligible hdefault

/-- A research model and a commercial default, each fit for any hardware. -/
def researchAndDefault : ModelCatalog :=
  { models := [
      { id := "canary", family := "canary", task := "asr", licenseClass := some "research-only",
        commercialDefault := none, hardwareMin := none, backend := some "nemo-python",
        languages := none, notes := none },
      { id := "whisper", family := "whisper", task := "asr", licenseClass := none,
        commercialDefault := some true, hardwareMin := some "lite",
        backend := some "whisper-cpp", languages := none, notes := none }] }

theorem selectModels_exact_researchAndDefault :
    selectModels ⟨researchAndDefault.models.reverse⟩ "asr" .lite false =
        selectModels researchAndDefault "asr" .lite false ∧
      ∃ model ∈ researchAndDefault.models, Eligible "asr" .lite false model ∧
        model.CommercialDefault ∧
        ({ catalog := researchAndDefault, isInstalled := fun _ => false,
           discoverWeights := fun _ => none, modelDir := id } : ModelManager).defaultAsrModelId
          .lite false = .ok model.id := by
  have hids : researchAndDefault.DistinctIds := by
    unfold ModelCatalog.DistinctIds
    decide
  have hexact := selectModels_exact researchAndDefault hids "asr" .lite false
  refine ⟨hexact.2.2.1 _ (List.reverse_perm _).symm, hexact.2.2.2.2 _ rfl ?_⟩
  refine ⟨_, List.mem_cons_of_mem _ List.mem_cons_self, ⟨rfl, le_rfl, ?_⟩, rfl⟩
  intro hresearch
  obtain ⟨licence, hlicence, -⟩ := hresearch
  cases hlicence

end LanguageLlm.Desktop
