import LanguageLlm.Router.VerifiedGate

/-!
# The check of installed weights

`verify_model` reads the weight file that the loader would take and compares its digest with the
catalog's. Its report is clean exactly while the gate before the weights is met.
-/

namespace LanguageLlm.Router

open Lib

/-- `sha256_file(path).ok()`. -/
def sha256File (sha256 : List UInt8 → List UInt8) (fs : FileSystem) (path : FilePath) :
    Option String :=
  match fs.read path with
  | .ok bytes => some (hexEncode (sha256 bytes))
  | .error _ => none

structure ModelVerifyReport where
  modelId : String
  installed : Bool
  digestOk : Bool
  expectedDigest : Option String
  actualDigest : Option String
  markerPresent : Bool
  weightPath : Option String
  deriving DecidableEq

/-- `digest_ok`: a catalog digest that is still pending fails no file, and without a file or a
catalog digest the answer is that of `is_installed`. -/
def digestOk (installed : Bool) : Option String → Option String → Bool
  | some expected, some actual =>
    if isRealDigest (normalizeDigest expected) then digestsMatch expected actual else true
  | _, _ => installed

def ModelManager.verifyModel (m : ModelManager) (sha256 : List UInt8 → List UInt8)
    (devCatalog : Bool) (fs : FileSystem) (modelId : String) :
    Except InstallError ModelVerifyReport :=
  match m.catalog.find modelId with
  | none => .error (.catalog ("unknown model " ++ modelId))
  | some model =>
    let installed := m.isInstalled devCatalog fs modelId
    let weight := discoverWeightFile fs (m.modelDir modelId)
    let fileDigest := weight.bind (sha256File sha256 fs)
    .ok
      { modelId
        installed
        digestOk := digestOk installed model.sha256Placeholder fileDigest
        expectedDigest := model.sha256Placeholder
        actualDigest := fileDigest
        markerPresent := fs.isFile (m.markerPath modelId)
        weightPath := weight.map ModelManager.display }

/-- Nothing is wrong: a model that is installed has a file that was read and has its digest. -/
def ModelVerifyReport.Clean (r : ModelVerifyReport) : Prop :=
  r.installed = true → r.actualDigest.isSome = true ∧ r.digestOk = true

instance : DecidablePred ModelVerifyReport.Clean := fun r => by
  unfold ModelVerifyReport.Clean
  infer_instance

section Report

variable {m : ModelManager} {sha256 : List UInt8 → List UInt8} {modelId expected : String}
  {model : CatalogModel} {devCatalog : Bool} {fs : FileSystem}

theorem requireOrMock_eq_weights :
    m.requireOrMock devCatalog fs modelId = .weights ↔
      m.isInstalled devCatalog fs modelId = true := by
  unfold ModelManager.requireOrMock
  split
  · next h => exact iff_of_true rfl h
  · next h => exact iff_of_false (by rintro ⟨⟩) h

theorem sha256File_eq_some {path : FilePath} {digest : String} :
    sha256File sha256 fs path = some digest ↔
      ∃ bytes, fs.read path = .ok bytes ∧ hexEncode (sha256 bytes) = digest := by
  unfold sha256File
  cases hread : fs.read path with
  | ok bytes => simp
  | error e => simp

/-- The digest of the file that the loader takes. -/
theorem fileDigest_eq_some {digest : String} :
    (discoverWeightFile fs (m.modelDir modelId)).bind (sha256File sha256 fs) = some digest ↔
      ∃ path bytes, m.discoverWeights fs modelId = some path ∧ fs.read path = .ok bytes ∧
        hexEncode (sha256 bytes) = digest := by
  rw [Option.bind_eq_some_iff]
  constructor
  · rintro ⟨path, hpath, hdigest⟩
    obtain ⟨bytes, hread, hhash⟩ := sha256File_eq_some.1 hdigest
    exact ⟨path, bytes, hpath, hread, hhash⟩
  · rintro ⟨path, bytes, hpath, hread, hhash⟩
    exact ⟨path, hpath, sha256File_eq_some.2 ⟨bytes, hread, hhash⟩⟩

/-- A digest that was computed passes when it is the catalog's. -/
theorem digestOk_hexEncode (hreal : isRealDigest (normalizeDigest expected) = true)
    (installed : Bool) (hash : List UInt8) :
    digestOk installed (some expected) (some (hexEncode hash)) = true ↔
      hexEncode hash = normalizeDigest expected := by
  simp only [digestOk, if_pos hreal]
  rw [digestsMatch_iff hreal, normalizeDigest_hexEncode]
  exact eq_comm

/-- The report of a model in the catalog. -/
theorem verifyModel_of_find (sha256 : List UInt8 → List UInt8) (devCatalog : Bool)
    (fs : FileSystem) (hfind : m.catalog.find modelId = some model) :
    ∃ report, m.verifyModel sha256 devCatalog fs modelId = .ok report ∧
      report.installed = m.isInstalled devCatalog fs modelId ∧
      report.actualDigest =
        (discoverWeightFile fs (m.modelDir modelId)).bind (sha256File sha256 fs) ∧
      report.digestOk = digestOk report.installed model.sha256Placeholder report.actualDigest := by
  unfold ModelManager.verifyModel
  rw [hfind]
  exact ⟨_, rfl, rfl, rfl, rfl⟩

/-- A report that names the catalog's digest as that of the file, or not. -/
theorem digest_iff {report : ModelVerifyReport}
    (hexpected : model.sha256Placeholder = some expected)
    (hreal : isRealDigest (normalizeDigest expected) = true)
    (hactual : report.actualDigest =
      (discoverWeightFile fs (m.modelDir modelId)).bind (sha256File sha256 fs))
    (hok : report.digestOk =
      digestOk report.installed model.sha256Placeholder report.actualDigest) :
    report.actualDigest.isSome = true ∧ report.digestOk = true ↔
      ∃ path bytes, m.discoverWeights fs modelId = some path ∧ fs.read path = .ok bytes ∧
        hexEncode (sha256 bytes) = normalizeDigest expected := by
  rw [← fileDigest_eq_some, ← hactual, hok, hexpected]
  cases hdigest : report.actualDigest with
  | none => simp
  | some digest =>
    rw [hactual] at hdigest
    obtain ⟨path, bytes, -, -, rfl⟩ := fileDigest_eq_some.1 hdigest
    rw [digestOk_hexEncode hreal, Option.some.injEq]
    simp

/-- The report is clean exactly when the gate is met. -/
theorem clean_iff {report : ModelVerifyReport}
    (hexpected : model.sha256Placeholder = some expected)
    (hreal : isRealDigest (normalizeDigest expected) = true)
    (hinstalled : report.installed = m.isInstalled devCatalog fs modelId)
    (hactual : report.actualDigest =
      (discoverWeightFile fs (m.modelDir modelId)).bind (sha256File sha256 fs))
    (hok : report.digestOk =
      digestOk report.installed model.sha256Placeholder report.actualDigest) :
    report.Clean ↔ (m.requireOrMock devCatalog fs modelId = .weights →
      ∃ path bytes, m.discoverWeights fs modelId = some path ∧ fs.read path = .ok bytes ∧
        hexEncode (sha256 bytes) = normalizeDigest expected) := by
  unfold ModelVerifyReport.Clean
  rw [digest_iff hexpected hreal hactual hok, requireOrMock_eq_weights, hinstalled]

end Report

section Runs

variable {m : ModelManager} {sha256 : List UInt8 → List UInt8} {modelId expected : String}
  {model : CatalogModel} {fs fs' : FileSystem}

/-- With a verified file in front the directory is sound, whatever wrote it. -/
theorem Sound.of_first
    (h : ∃ path bytes, m.discoverWeights fs modelId = some path ∧ fs.read path = .ok bytes ∧
      hexEncode (sha256 bytes) = normalizeDigest expected) :
    Sound m sha256 modelId expected fs := by
  obtain ⟨path, bytes, hpath, hread, hgood⟩ := h
  intro _
  rw [ModelManager.discoverWeights, discoverWeightFile] at hpath
  split at hpath
  · next p hdir =>
    obtain rfl := weightsOf_of_isDir hdir
    obtain ⟨n, hhead, rfl⟩ := Option.map_eq_some_iff.1 hpath
    obtain ⟨first, hfirst, hmem, hle⟩ := head_weightFiles (List.mem_of_mem_head? hhead)
    obtain rfl := Option.some.inj (hhead.symm.trans hfirst)
    obtain ⟨hvisible, content, hcontent⟩ := mem_weightFiles.1 hmem
    have hresolve := (fs.resolve_append (fs.nodeName (by rw [hcontent]; simp))).2
      ⟨_, hdir, rfl, hcontent⟩
    rw [FileSystem.read, hresolve] at hread
    cases hread
    refine ⟨n, hvisible, ⟨_, hcontent, hgood⟩, ?_⟩
    rintro k hk ⟨other, hother, -⟩
    exact hle k (mem_weightFiles.2 ⟨hk, other, hother⟩)
  · cases hpath

theorem Sound.fileStep (h : Sound m sha256 modelId expected fs)
    (hfind : m.catalog.find modelId = some model)
    (hexpected : model.sha256Placeholder = some expected)
    (hreal : isRealDigest (normalizeDigest expected) = true) {call : FileCall}
    (hkeeps : KeepsGate m sha256 modelId expected fs call)
    (hs : fileStep m sha256 fs call = some fs') : Sound m sha256 modelId expected fs' := by
  cases call with
  | installBytes id filename bytes =>
    rw [Router.fileStep] at hs
    split at hs
    · next hplain =>
      obtain rfl := Option.some.inj hs
      exact h.install hfind hexpected hreal hplain hkeeps
    · cases hs
  | removeModel id =>
    obtain rfl := Option.some.inj hs
    exact h.remove id

/-- After an install that can write its files the model is installed. -/
theorem installed_of_writes (hfind : m.catalog.find modelId = some model)
    (hexpected : model.sha256Placeholder = some expected)
    (hreal : isRealDigest (normalizeDigest expected) = true) {filename : String}
    (hplain : PlainName filename) (hwrites : Writes m modelId fs filename) {bytes : List UInt8}
    (haccepted : m.accepted sha256 modelId bytes = some model) :
    m.isInstalled false (m.installBytes sha256 fs modelId filename bytes).2 modelId = true := by
  have hmatch := digestsMatch_of_accepted haccepted hexpected hreal
  have hdigest := (digestsMatch_iff hreal).1 hmatch
  rw [normalizeDigest_hexEncode] at hdigest
  have hverified : ModelManager.verified model (hexEncode (sha256 bytes)) = true := by
    rw [ModelManager.verified, hexpected, Option.map_some, Option.getD_some, hmatch]
  obtain ⟨⟨p, hp⟩, hmarker, -⟩ := install_of_writes hplain hwrites haccepted hverified
  exact requireOrMock_eq_weights.1
    (requireOrMock_of_marker hfind hexpected hreal hp hdigest hmarker)

end Runs

end LanguageLlm.Router
