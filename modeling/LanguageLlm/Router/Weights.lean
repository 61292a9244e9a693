import Mathlib.Data.String.Basic
import Mathlib.Data.List.Sort
import LanguageLlm.Lib.FileSystem
import LanguageLlm.Desktop.Models

/-!
# The weights of the models

The part of the crate `inference-router` that works on files: `install_bytes`, `is_installed`,
`remove_model` and `discover_weight_file`. SHA-256 is a parameter.
-/

namespace LanguageLlm.Router

open Lib

/-! ## Digests -/

/-- `c.is_ascii_hexdigit()`. -/
def isHexDigit (c : Char) : Bool := c.isDigit || ('a' ≤ c && c ≤ 'f') || ('A' ≤ c && c ≤ 'F')

def hexDigits : List Char := "0123456789abcdef".toList

/-- `hex::encode`. -/
def hexEncode (bytes : List UInt8) : String :=
  String.ofList (bytes.flatMap fun b =>
    [hexDigits.getD (b.toNat / 16) '0', hexDigits.getD (b.toNat % 16) '0'])

/-- `s.strip_prefix(start)`. -/
def stripPrefix (start s : String) : Option String :=
  if start.toList <+: s.toList then some (String.ofList (s.toList.drop start.toList.length))
    else none

def normalizeDigest (value : String) : String :=
  let trimmed := Desktop.AsrBackendKind.trim value
  let hex := ((stripPrefix "sha256:" trimmed).or (stripPrefix "SHA256:" trimmed)).getD trimmed
  String.ofList ((Desktop.AsrBackendKind.trim hex).toList.map Char.toLower)

/-- `norm.contains("pending")`. -/
def isPending (norm : String) : Bool :=
  norm.toList.tails.any fun rest => "pending".toList.isPrefixOf rest

/-- A digest of 64 hexadecimal digits. -/
def isRealDigest (norm : String) : Bool := norm.utf8ByteSize = 64 && norm.toList.all isHexDigit

def digestsMatch (expected actual : String) : Bool :=
  let e := normalizeDigest expected
  let a := normalizeDigest actual
  if isPending e then false else isRealDigest e && e = a

/-! ## The catalog and its paths -/

/-- `CatalogModel`, with the digest of its weights. -/
structure CatalogModel extends Desktop.CatalogModel where
  sha256Placeholder : Option String

structure ModelCatalog where
  models : List CatalogModel

def ModelCatalog.find (catalog : ModelCatalog) (id : String) : Option CatalogModel :=
  catalog.models.find? fun m => m.id = id

/-- `ModelPaths`, below a root that is named without `.` and `..`. -/
structure ModelPaths where
  root : FilePath
  plain : ∀ segment ∈ root, Names segment
  nulFree : NulFree root

namespace ModelPaths

variable (paths : ModelPaths)

def weightsDir : FilePath := paths.root ++ ["models", "weights"]

def modelDir (modelId : String) : FilePath := join paths.weightsDir modelId

def markerPath (modelId : String) : FilePath := join (paths.modelDir modelId) ".installed"

end ModelPaths

/-! ## Files -/

/-- The bytes of a text. -/
def utf8 (s : String) : List UInt8 := s.toByteArray.data.toList

/-- `fs::read_to_string`. -/
def readToString (fs : FileSystem) (path : FilePath) : Option String :=
  match fs.read path with
  | .ok bytes => String.fromUTF8? ⟨bytes.toArray⟩
  | .error _ => none

theorem readToString_utf8 {fs : FileSystem} {path : FilePath} {s : String}
    (h : fs.read path = .ok (utf8 s)) :
    readToString fs path = some s := by
  have hbytes : (⟨(utf8 s).toArray⟩ : ByteArray) = s.toByteArray := rfl
  rw [readToString, h]
  simp only [hbytes, String.fromUTF8?]
  rw [dif_pos s.isValidUTF8]
  rfl

/-- `path.extension()` of a file with this name. -/
def extension (name : String) : Option String :=
  let last := name.toList.reverse.takeWhile (· ≠ '.')
  match name.toList.reverse.dropWhile (· ≠ '.') with
  | [] | [_] => none
  | _ => some (String.ofList last.reverse)

def isGguf (name : String) : Bool :=
  match extension name with
  | some e => e.toList.map Char.toLower = "gguf".toList
  | none => false

/-- A name that the loader looks at. -/
def isVisible (name : String) : Bool := name ≠ ".installed" && name.toList.head? ≠ some '.'

/-- The loader's order: a GGUF file before any other, and else by the name. -/
def weightBefore (a b : String) : Prop := if isGguf a = isGguf b then a ≤ b else isGguf a = true

instance : DecidableRel weightBefore := fun a b => by
  unfold weightBefore
  infer_instance

/-- The files in a directory that the loader looks at, the first of them first. -/
def weightFiles (fs : FileSystem) (p : Place) : List String :=
  ((fs.names p).filter fun n => isVisible n && match fs.node (p ++ [n]) with
    | some (.file _) => true
    | _ => false).insertionSort weightBefore

def discoverWeightFile (fs : FileSystem) (modelDir : FilePath) : Option FilePath :=
  match fs.resolve modelDir with
  | .ok (p, .dir) => (weightFiles fs p).head?.map fun n => modelDir ++ [n]
  | _ => none

/-! ## The manager -/

structure ModelManager where
  paths : ModelPaths
  catalog : ModelCatalog

/-- The errors of an install or a removal. -/
inductive InstallError where
  | catalog (message : String)
  | sha256Mismatch (id expected actual : String)
  | io
  deriving DecidableEq

namespace ModelManager

variable (m : ModelManager)

def modelDir (modelId : String) : FilePath := m.paths.modelDir modelId

def markerPath (modelId : String) : FilePath := m.paths.markerPath modelId

/-- The digest in the catalog that the bytes of this digest fail. -/
def mismatch (model : CatalogModel) (actual : String) : Option String :=
  model.sha256Placeholder.filter fun expected =>
    isRealDigest (normalizeDigest expected) && !digestsMatch expected actual

def verified (model : CatalogModel) (actual : String) : Bool :=
  (model.sha256Placeholder.map fun expected => digestsMatch expected actual).getD false

/-- What `install_bytes` writes into the directory of the model. -/
def storeIn (fs : FileSystem) (model : CatalogModel) (modelId filename : String)
    (bytes : List UInt8) (actual : String) : Except InstallError FilePath × FileSystem :=
  let dest := join (m.modelDir modelId) filename
  match fs.write dest bytes with
  | .error _ => (.error .io, fs)
  | .ok fs =>
    if verified model actual then
      match fs.write (m.markerPath modelId) (utf8 ("sha256:" ++ actual ++ "\n")) with
      | .error _ => (.error .io, fs)
      | .ok fs => (.ok dest, fs)
    else (.ok dest, fs)

/-- The writes of `install_bytes`, once the bytes are accepted. -/
def store (fs : FileSystem) (model : CatalogModel) (modelId filename : String) (bytes : List UInt8)
    (actual : String) : Except InstallError FilePath × FileSystem :=
  match fs.createDirAll (m.modelDir modelId) with
  | (.error _, fs) => (.error .io, fs)
  | (.ok (), fs) => m.storeIn fs model modelId filename bytes actual

def installBytes (sha256 : List UInt8 → List UInt8) (fs : FileSystem) (modelId filename : String)
    (bytes : List UInt8) : Except InstallError FilePath × FileSystem :=
  match m.catalog.find modelId with
  | none => (.error (.catalog ("unknown model " ++ modelId)), fs)
  | some model =>
    let actual := hexEncode (sha256 bytes)
    match mismatch model actual with
    | some expected => (.error (.sha256Mismatch modelId expected actual), fs)
    | none => m.store fs model modelId filename bytes actual

/-- `remove_model`: whether there was something to remove. -/
def removeModel (fs : FileSystem) (modelId : String) : Except InstallError Bool × FileSystem :=
  if fs.exists (m.modelDir modelId) then
    match fs.removeDirAll (m.modelDir modelId) with
    | (.error _, fs) => (.error .io, fs)
    | (.ok (), fs) => (.ok true, fs)
  else (.ok false, fs)

/-- `is_installed`; `devCatalog` says whether `LANGUAGE_LLM_DEV_CATALOG` is set. -/
def isInstalled (devCatalog : Bool) (fs : FileSystem) (modelId : String) : Bool :=
  let catalogDigest := (m.catalog.find modelId).bind fun model => model.sha256Placeholder
  let pendingCatalog := (catalogDigest.map fun d => isPending (normalizeDigest d)).getD true
  if fs.isFile (m.markerPath modelId) then
    match catalogDigest with
    | some expected =>
      if isRealDigest (normalizeDigest expected) then
        let markerText := (readToString fs (m.markerPath modelId)).getD ""
        digestsMatch expected (Desktop.AsrBackendKind.trim markerText)
      else true
    | none => true
  else if devCatalog || pendingCatalog then (discoverWeightFile fs (m.modelDir modelId)).isSome
  else false

def requireOrMock (devCatalog : Bool) (fs : FileSystem) (modelId : String) :
    Desktop.InferenceMode :=
  if m.isInstalled devCatalog fs modelId then .weights else .offlineMock

def discoverWeights (fs : FileSystem) (modelId : String) : Option FilePath :=
  discoverWeightFile fs (m.modelDir modelId)

/-- `path.display()`. -/
def display (path : FilePath) : String := "/" ++ String.intercalate "/" path

/-! ## What the calls do -/

/-- The model of a call whose bytes `install_bytes` accepts. -/
def accepted (sha256 : List UInt8 → List UInt8) (modelId : String) (bytes : List UInt8) :
    Option CatalogModel :=
  (m.catalog.find modelId).filter fun model => (mismatch model (hexEncode (sha256 bytes))).isNone

theorem installBytes_of_accepted {sha256 : List UInt8 → List UInt8} {modelId : String}
    {bytes : List UInt8}
    {model : CatalogModel} (h : m.accepted sha256 modelId bytes = some model) (fs : FileSystem)
    (filename : String) :
    m.installBytes sha256 fs modelId filename bytes =
      m.store fs model modelId filename bytes (hexEncode (sha256 bytes)) := by
  obtain ⟨hfind, hnone⟩ := Option.filter_eq_some_iff.1 h
  rw [installBytes, hfind]
  simp only [Option.isNone_iff_eq_none.1 hnone]

theorem installBytes_of_not_accepted {sha256 : List UInt8 → List UInt8} {modelId : String}
    {bytes : List UInt8}
    (h : m.accepted sha256 modelId bytes = none) (fs : FileSystem) (filename : String) :
    ∃ e, m.installBytes sha256 fs modelId filename bytes = (.error e, fs) := by
  rw [installBytes]
  cases hfind : m.catalog.find modelId with
  | none => exact ⟨_, rfl⟩
  | some model =>
    rw [accepted, hfind, Option.filter_some] at h
    cases hmismatch : mismatch model (hexEncode (sha256 bytes)) with
    | some expected =>
      simp only [hmismatch]
      exact ⟨_, rfl⟩
    | none =>
      rw [hmismatch] at h
      cases h

/-- How the writes of an install can end. -/
theorem storeIn_cases (fs : FileSystem) (model : CatalogModel) (modelId filename : String)
    (bytes : List UInt8) (actual : String) :
    ¬ fs.CanWrite (join (m.modelDir modelId) filename) ∧
        m.storeIn fs model modelId filename bytes actual = (.error .io, fs) ∨
      ∃ fs₁, fs.CanWrite (join (m.modelDir modelId) filename) ∧
        fs.node (locate [] (join (m.modelDir modelId) filename)) ≠ some .dir ∧
        (∀ q, fs₁.node q =
          if q = locate [] (join (m.modelDir modelId) filename) then some (.file bytes)
            else fs.node q) ∧
        (verified model actual = false ∧
            m.storeIn fs model modelId filename bytes actual =
              (.ok (join (m.modelDir modelId) filename), fs₁) ∨
          verified model actual = true ∧ ¬ fs₁.CanWrite (m.markerPath modelId) ∧
            m.storeIn fs model modelId filename bytes actual = (.error .io, fs₁) ∨
          ∃ fs₂, verified model actual = true ∧ fs₁.CanWrite (m.markerPath modelId) ∧
            fs₁.node (locate [] (m.markerPath modelId)) ≠ some .dir ∧
            (∀ q, fs₂.node q = if q = locate [] (m.markerPath modelId)
              then some (.file (utf8 ("sha256:" ++ actual ++ "\n"))) else fs₁.node q) ∧
            m.storeIn fs model modelId filename bytes actual =
              (.ok (join (m.modelDir modelId) filename), fs₂)) := by
  unfold storeIn
  by_cases hdest : fs.CanWrite (join (m.modelDir modelId) filename)
  · obtain ⟨fs₁, hwrite, hdir, hnode⟩ := fs.write_of_canWrite hdest bytes
    refine Or.inr ⟨fs₁, hdest, hdir, hnode, ?_⟩
    simp only [hwrite]
    cases hverified : verified model actual with
    | false => exact Or.inl ⟨rfl, rfl⟩
    | true =>
      right
      rw [if_pos rfl]
      by_cases hmarker : fs₁.CanWrite (m.markerPath modelId)
      · obtain ⟨fs₂, hwrite', hdir', hnode'⟩ :=
          fs₁.write_of_canWrite hmarker (utf8 ("sha256:" ++ actual ++ "\n"))
        rw [hwrite']
        exact Or.inr ⟨fs₂, rfl, hmarker, hdir', hnode', rfl⟩
      · obtain ⟨e, he⟩ := fs₁.write_of_not_canWrite hmarker (utf8 ("sha256:" ++ actual ++ "\n"))
        rw [he]
        exact Or.inl ⟨rfl, hmarker, rfl⟩
  · obtain ⟨e, he⟩ := fs.write_of_not_canWrite hdest bytes
    refine Or.inl ⟨hdest, ?_⟩
    simp only [he]

/-- The writes of an install leave every directory where it is. -/
theorem storeIn_dir {fs : FileSystem} {q : Place} (h : fs.node q = some .dir) (model : CatalogModel)
    (modelId filename : String) (bytes : List UInt8) (actual : String) :
    (m.storeIn fs model modelId filename bytes actual).2.node q = some .dir := by
  obtain ⟨-, hresult⟩ | ⟨fs₁, -, hdir, hnode, hrest⟩ :=
    m.storeIn_cases fs model modelId filename bytes actual
  · rw [hresult]
    exact h
  · have hkeep : fs₁.node q = some .dir := by
      rw [hnode, if_neg]
      · exact h
      · rintro rfl
        exact hdir h
    obtain ⟨-, hresult⟩ | ⟨-, -, hresult⟩ | ⟨fs₂, -, -, hdir', hnode', hresult⟩ := hrest
    · rw [hresult]
      exact hkeep
    · rw [hresult]
      exact hkeep
    · rw [hresult]
      change fs₂.node q = _
      rw [hnode', if_neg]
      · exact hkeep
      · rintro rfl
        exact hdir' hkeep

/-- The writes of an install change the places of the file and of the marker. -/
theorem storeIn_changes (fs : FileSystem) (model : CatalogModel) (modelId filename : String)
    (bytes : List UInt8) (actual : String) {q : Place}
    (hdest : q ≠ locate [] (join (m.modelDir modelId) filename))
    (hmarker : q ≠ locate [] (m.markerPath modelId)) :
    (m.storeIn fs model modelId filename bytes actual).2.node q = fs.node q := by
  obtain ⟨-, hresult⟩ | ⟨fs₁, -, -, hnode, hrest⟩ :=
    m.storeIn_cases fs model modelId filename bytes actual
  · rw [hresult]
  · have hkeep : fs₁.node q = fs.node q := by rw [hnode, if_neg hdest]
    obtain ⟨-, hresult⟩ | ⟨-, -, hresult⟩ | ⟨fs₂, -, -, -, hnode', hresult⟩ := hrest
    · rw [hresult]
      exact hkeep
    · rw [hresult]
      exact hkeep
    · rw [hresult]
      change fs₂.node q = _
      rw [hnode', if_neg hmarker, hkeep]

/-! ## What the companion sees -/

/-- What the handlers of the companion see of the manager while the files are these. -/
def view (devCatalog : Bool) (fs : FileSystem) : Desktop.ModelManager where
  catalog := ⟨m.catalog.models.map CatalogModel.toCatalogModel⟩
  isInstalled := m.isInstalled devCatalog fs
  discoverWeights id := (m.discoverWeights fs id).map display
  modelDir id := display (m.modelDir id)

/-- The companion chooses between weights and mock as the manager does. -/
theorem view_requireOrMock (devCatalog : Bool) (fs : FileSystem) (modelId : String) :
    (m.view devCatalog fs).requireOrMock modelId = m.requireOrMock devCatalog fs modelId := rfl

end ModelManager

end LanguageLlm.Router
