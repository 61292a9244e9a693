import LanguageLlm.Lib.Run
import LanguageLlm.Router.Confinement

/-!
# The gate before the weights

`.installed` records that verified bytes were written; which file is loaded is decided by the order
of the directory. The two agree as long as no other file comes before the verified ones.
-/

namespace LanguageLlm.Router

open Lib

/-! ## The digest of bytes -/

theorem mem_hexDigits {bytes : List UInt8} {c : Char} (h : c ∈ (hexEncode bytes).toList) :
    c ∈ hexDigits := by
  rw [hexEncode, String.toList_ofList, List.mem_flatMap] at h
  obtain ⟨b, -, hc⟩ := h
  have hdigit : ∀ i < 16, hexDigits.getD i '0' ∈ hexDigits := by decide
  have hb := b.toNat_lt
  rcases List.mem_cons.1 hc with rfl | hc
  · exact hdigit _ (by omega)
  · rw [List.mem_singleton.1 hc]
    exact hdigit _ (by omega)

theorem trim_eq_self {s : String} (h : ∀ c ∈ s.toList, Desktop.isWhitespace c = false) :
    Desktop.AsrBackendKind.trim s = s := by
  have hdrop : ∀ l : List Char, (∀ c ∈ l, Desktop.isWhitespace c = false) →
      l.dropWhile Desktop.isWhitespace = l := by
    intro l hl
    rw [List.dropWhile_eq_self_iff]
    intro hpos
    simpa using hl _ (List.getElem_mem hpos)
  rw [Desktop.AsrBackendKind.trim, hdrop _ h, hdrop _ (fun c hc => h c (List.mem_reverse.1 hc)),
    List.reverse_reverse, String.ofList_toList]

/-- The digits of a digest are none of the characters that a comparison of digests changes. -/
theorem hexDigits_plain :
    ∀ c ∈ hexDigits, Desktop.isWhitespace c = false ∧ c.toLower = c ∧ c ≠ 's' ∧ c ≠ 'S' := by
  have hall : (hexDigits.all fun c =>
      !Desktop.isWhitespace c && c.toLower = c && c != 's' && c != 'S') = true := by decide
  simpa [and_assoc] using hall

theorem trim_hexEncode (bytes : List UInt8) :
    Desktop.AsrBackendKind.trim (hexEncode bytes) = hexEncode bytes :=
  trim_eq_self fun c hc => (hexDigits_plain c (mem_hexDigits hc)).1

theorem toLower_hexEncode (bytes : List UInt8) :
    (hexEncode bytes).toList.map Char.toLower = (hexEncode bytes).toList := by
  apply (List.map_congr_left _).trans (List.map_id _)
  intro c hc
  exact (hexDigits_plain c (mem_hexDigits hc)).2.1

/-- The digest of bytes is written the way the catalog's digests are compared. -/
theorem normalizeDigest_hexEncode (bytes : List UInt8) :
    normalizeDigest (hexEncode bytes) = hexEncode bytes := by
  have hstrip : ∀ start : String, ('s' ∈ start.toList ∨ 'S' ∈ start.toList) →
      stripPrefix start (hexEncode bytes) = none := by
    intro start hstart
    rw [stripPrefix, if_neg]
    intro hstarts
    rcases hstart with hs | hs
    · exact (hexDigits_plain _ (mem_hexDigits (hstarts.subset hs))).2.2.1 rfl
    · exact (hexDigits_plain _ (mem_hexDigits (hstarts.subset hs))).2.2.2 rfl
  simp only [normalizeDigest, trim_hexEncode, hstrip "sha256:" (by decide),
    hstrip "SHA256:" (by decide),
    Option.or_none, Option.getD_none, toLower_hexEncode, String.ofList_toList]

/-- What `install_bytes` writes into the marker is read back as the digest. -/
theorem normalizeDigest_marker (bytes : List UInt8) :
    normalizeDigest (Desktop.AsrBackendKind.trim ("sha256:" ++ hexEncode bytes ++ "\n")) =
      hexEncode bytes := by
  have hplain : ∀ c ∈ ("sha256:" ++ hexEncode bytes).toList, Desktop.isWhitespace c = false := by
    intro c hc
    rw [String.toList_append, List.mem_append] at hc
    rcases hc with hc | hc
    · have hall : ("sha256:".toList.all fun c => !Desktop.isWhitespace c) = true := by decide
      simpa using List.all_eq_true.1 hall c hc
    · exact (hexDigits_plain c (mem_hexDigits hc)).1
  have htrim : Desktop.AsrBackendKind.trim ("sha256:" ++ hexEncode bytes ++ "\n") = "sha256:" ++
      hexEncode bytes := by
    conv => rhs; rw [← trim_eq_self hplain]
    rw [Desktop.AsrBackendKind.trim, Desktop.AsrBackendKind.trim, String.toList_append (t := "\n")]
    have hne : ("sha256:" ++ hexEncode bytes).toList.dropWhile Desktop.isWhitespace ≠ [] := by
      rw [String.toList_append]
      exact List.cons_ne_nil _ _
    have hdrop : (("sha256:" ++ hexEncode bytes).toList ++ "\n".toList).dropWhile
      Desktop.isWhitespace =
        ("sha256:" ++ hexEncode bytes).toList.dropWhile Desktop.isWhitespace ++ ['\n'] := by
      rw [List.dropWhile_append, if_neg (by simpa using hne)]
      rfl
    rw [hdrop, List.reverse_append, List.reverse_singleton, List.singleton_append,
      List.dropWhile_cons_of_pos (by decide)]
  have hstrip : stripPrefix "sha256:" ("sha256:" ++ hexEncode bytes) = some (hexEncode bytes) := by
    rw [stripPrefix, String.toList_append, if_pos (List.prefix_append _ _), List.drop_left,
      String.ofList_toList]
  simp only [htrim, normalizeDigest, trim_eq_self hplain, hstrip, Option.some_or, Option.getD_some,
    trim_hexEncode, toLower_hexEncode, String.ofList_toList]

theorem isPending_of_isRealDigest {norm : String} (h : isRealDigest norm = true) :
    isPending norm = false := by
  by_contra hpending
  rw [Bool.not_eq_false, isPending, List.any_eq_true] at hpending
  obtain ⟨rest, hrest, hstarts⟩ := hpending
  have hp : 'p' ∈ norm.toList := by
    apply ((List.mem_tails _ _).1 hrest).subset
    obtain ⟨after, hafter⟩ := List.isPrefixOf_iff_prefix.1 hstarts
    rw [← hafter]
    exact List.mem_append_left _ (by decide)
  have hhex := List.all_eq_true.1 (Bool.and_eq_true_iff.1 h).2 'p' hp
  exact absurd hhex (by decide)

/-- A digest in the catalog is compared with the digest that a text stands for. -/
theorem digestsMatch_iff {expected actual : String}
    (hreal : isRealDigest (normalizeDigest expected) = true) :
    digestsMatch expected actual = true ↔ normalizeDigest expected = normalizeDigest actual := by
  simp only [digestsMatch, isPending_of_isRealDigest hreal, if_neg Bool.false_ne_true, hreal,
    Bool.true_and, decide_eq_true_eq]

/-- A digest of 32 bytes can stand in the catalog. -/
theorem isRealDigest_hexEncode {bytes : List UInt8} (h : bytes.length = 32) :
    isRealDigest (hexEncode bytes) = true := by
  have hall : (hexDigits.all fun c => isHexDigit c && c.utf8Size = 1) = true := by decide
  have hdigit : ∀ c ∈ hexDigits, isHexDigit c = true ∧ c.utf8Size = 1 := by simpa using hall
  have hlength : (hexEncode bytes).toList.length = 64 := by
    rw [hexEncode, String.toList_ofList, List.length_flatMap]
    simp [h]
  have hsize : ∀ l : List Char, (∀ c ∈ l, c.utf8Size = 1) → String.utf8Len l = l.length := by
    intro l hl
    induction l with
    | nil => rfl
    | cons c l ih =>
      rw [String.utf8Len_cons, ih (fun d hd => hl d (List.mem_cons_of_mem _ hd)),
        hl c List.mem_cons_self]
      rfl
  rw [isRealDigest, Bool.and_eq_true, decide_eq_true_eq, List.all_eq_true]
  constructor
  · rw [← String.ofList_toList (s := hexEncode bytes), String.utf8ByteSize_ofList,
      hsize _ (fun c hc => (hdigit c (mem_hexDigits hc)).2), hlength]
  · intro c hc
    exact (hdigit c (mem_hexDigits hc)).1

theorem mismatch_eq_none_iff {model : CatalogModel} {expected actual : String}
    (hexpected : model.sha256Placeholder = some expected)
    (hreal : isRealDigest (normalizeDigest expected) = true) :
    ModelManager.mismatch model actual = none ↔ digestsMatch expected actual = true := by
  rw [ModelManager.mismatch, hexpected, Option.filter_some, hreal]
  cases digestsMatch expected actual <;> simp

/-- Accepted bytes of a model with a digest have that digest. -/
theorem digestsMatch_of_accepted {m : ModelManager} {sha256 : List UInt8 → List UInt8}
    {modelId expected : String}
    {bytes : List UInt8} {model : CatalogModel} (h : m.accepted sha256 modelId bytes = some model)
    (hexpected : model.sha256Placeholder = some expected)
    (hreal : isRealDigest (normalizeDigest expected) = true) :
    digestsMatch expected (hexEncode (sha256 bytes)) = true := by
  obtain ⟨-, hnone⟩ := Option.filter_eq_some_iff.1 h
  exact (mismatch_eq_none_iff hexpected hreal).1 (Option.isNone_iff_eq_none.1 hnone)

/-! ## The loader's order -/

theorem weightBefore_total (a b : String) : weightBefore a b ∨ weightBefore b a := by
  unfold weightBefore
  by_cases h : isGguf a = isGguf b
  · rw [if_pos h, if_pos h.symm]
    exact le_total a b
  · rw [if_neg h, if_neg (Ne.symm h)]
    cases ha : isGguf a with
    | true => exact Or.inl rfl
    | false =>
      right
      rw [ha] at h
      simpa using Ne.symm h

theorem weightBefore_trans {a b c : String} (hab : weightBefore a b) (hbc : weightBefore b c) :
    weightBefore a c := by
  unfold weightBefore at hab hbc ⊢
  by_cases h : isGguf a = isGguf b
  · rw [if_pos h] at hab
    rw [h]
    by_cases h' : isGguf b = isGguf c
    · rw [if_pos h'] at hbc ⊢
      exact hab.trans hbc
    · rw [if_neg h'] at hbc ⊢
      exact hbc
  · rw [if_neg h] at hab
    have hb : isGguf b = false := by
      rw [hab] at h
      simpa using Ne.symm h
    rw [hb] at hbc
    by_cases h' : false = isGguf c
    · rw [if_neg]
      · exact hab
      · rw [hab, ← h']
        simp
    · rw [if_neg h'] at hbc
      cases hbc

theorem weightBefore_antisymm {a b : String} (hab : weightBefore a b) (hba : weightBefore b a) :
    a = b := by
  unfold weightBefore at hab hba
  by_cases h : isGguf a = isGguf b
  · rw [if_pos h] at hab
    rw [if_pos h.symm] at hba
    exact le_antisymm hab hba
  · rw [if_neg h] at hab
    rw [if_neg (Ne.symm h)] at hba
    rw [hab, hba] at h
    exact absurd rfl h

theorem mem_weightFiles {fs : FileSystem} {p : Place} {n : String} :
    n ∈ weightFiles fs p ↔ isVisible n = true ∧
      ∃ bytes, fs.node (p ++ [n]) = some (.file bytes) := by
  rw [weightFiles, List.mem_insertionSort, List.mem_filter, Bool.and_eq_true, FileSystem.mem_names]
  constructor
  · rintro ⟨-, hvisible, hfile⟩
    refine ⟨hvisible, ?_⟩
    split at hfile
    · next bytes hnode => exact ⟨bytes, hnode⟩
    · cases hfile
  · rintro ⟨hvisible, bytes, hnode⟩
    rw [hnode]
    exact ⟨by simp, hvisible, rfl⟩

/-- The file that is loaded comes before all others. -/
theorem head_weightFiles {fs : FileSystem} {p : Place} {n : String} (hn : n ∈ weightFiles fs p) :
    ∃ first, (weightFiles fs p).head? = some first ∧ first ∈ weightFiles fs p ∧
      ∀ k ∈ weightFiles fs p, weightBefore first k := by
  have hsorted : (weightFiles fs p).Pairwise weightBefore :=
    have : Std.Total weightBefore := ⟨weightBefore_total⟩
    have : IsTrans String weightBefore := ⟨fun _ _ _ => weightBefore_trans⟩
    List.pairwise_insertionSort _ _
  cases hfiles : weightFiles fs p with
  | nil =>
    rw [hfiles] at hn
    cases hn
  | cons first rest =>
    refine ⟨first, rfl, List.mem_cons_self, fun k hk => ?_⟩
    rw [hfiles, List.pairwise_cons] at hsorted
    rcases List.mem_cons.1 hk with rfl | hk
    · rcases weightBefore_total k k with h | h <;> exact h
    · exact hsorted.1 k hk

/-! ## The calls -/

/-- A filename that is a name of its own, and no path. -/
def PlainName (filename : String) : Prop := '/' ∉ filename.toList ∧ Names filename

instance : DecidablePred PlainName := fun filename =>
  inferInstanceAs (Decidable ('/' ∉ filename.toList ∧ Names filename))

theorem join_plain {filename : String} (h : PlainName filename) (base : FilePath) :
    join base filename = base ++ [filename] := by
  have hsegments : segments filename = [filename] := by
    rw [segments, List.splitOn_eq_singleton h.1]
    simp
  rw [join_of_relative, hsegments]
  intro hhead
  obtain ⟨rest, hrest⟩ := List.head?_eq_some_iff.1 hhead
  apply h.1
  rw [hrest]
  exact List.mem_cons_self

/-- The manager's calls with plain filenames. -/
def fileStep (m : ModelManager) (sha256 : List UInt8 → List UInt8) (fs : FileSystem) :
    FileCall → Option FileSystem
  | .installBytes modelId filename bytes =>
    if PlainName filename then some (m.installBytes sha256 fs modelId filename bytes).2 else none
  | .removeModel modelId => some (m.removeModel fs modelId).2

section Gate

variable (m : ModelManager) (sha256 : List UInt8 → List UInt8) (modelId expected : String)

/-- While the manager says `weights`, the file it finds has the digest of the catalog. -/
def Gate (fs : FileSystem) : Prop :=
  m.requireOrMock false fs modelId = .weights →
    ∃ path bytes, m.discoverWeights fs modelId = some path ∧
    fs.read path = .ok bytes ∧ hexEncode (sha256 bytes) = normalizeDigest expected

/-- The directory of the model. -/
def weightsOf : Place := locate [] (m.modelDir modelId)

/-- A file of the model with the digest of the catalog. -/
def Verified (fs : FileSystem) (n : String) : Prop :=
  ∃ bytes, fs.node (weightsOf m modelId ++ [n]) = some (.file bytes) ∧
    hexEncode (sha256 bytes) = normalizeDigest expected

/-- A file of the model with another digest. -/
def Foreign (fs : FileSystem) (n : String) : Prop :=
  ∃ bytes, fs.node (weightsOf m modelId ++ [n]) = some (.file bytes) ∧
    hexEncode (sha256 bytes) ≠ normalizeDigest expected

/-- With this filename written, a verified file comes before every other. -/
def LoadsVerified (fs : FileSystem) (filename : String) : Prop :=
  ∃ n, isVisible n = true ∧ (n = filename ∨ Verified m sha256 modelId expected fs n) ∧
    ∀ k, isVisible k = true → k ≠ filename → Foreign m sha256 modelId expected fs k →
      weightBefore n k

/-- An install makes its directory and can write the file and the marker there. -/
def Writes (fs : FileSystem) (filename : String) : Prop :=
  let made := fs.createDirAll (m.modelDir modelId)
  made.1 = .ok () ∧ made.2.CanWrite (join (m.modelDir modelId) filename) ∧
    made.2.CanWrite (m.markerPath modelId)

instance (fs : FileSystem) (filename : String) : Decidable (Writes m modelId fs filename) := by
  unfold Writes
  infer_instance

/-- When a call keeps the gate: an install of the model leaves a verified file in front, and one of
another id leads to another directory. -/
def KeepsGate (fs : FileSystem) : FileCall → Prop
  | .installBytes id filename bytes => ∀ other, m.accepted sha256 id bytes = some other →
    if id = modelId then Writes m modelId fs filename →
      LoadsVerified m sha256 modelId expected fs filename
    else weightsOf m id ≠ weightsOf m modelId
  | .removeModel _ => True

/-- A marked directory has a verified file in front. -/
def Sound (fs : FileSystem) : Prop :=
  (∃ bytes, fs.node (weightsOf m modelId ++ [".installed"]) = some (.file bytes)) →
    ∃ n, isVisible n = true ∧ Verified m sha256 modelId expected fs n ∧
      ∀ k, isVisible k = true → Foreign m sha256 modelId expected fs k → weightBefore n k

variable {m} {sha256} {modelId} {expected}

theorem Sound.gate {fs : FileSystem} (h : Sound m sha256 modelId expected fs) {model : CatalogModel}
    (hfind : m.catalog.find modelId = some model)
    (hexpected : model.sha256Placeholder = some expected)
    (hreal : isRealDigest (normalizeDigest expected) = true) :
    Gate m sha256 modelId expected fs := by
  intro hweights
  have hpending := isPending_of_isRealDigest hreal
  have hmarker : fs.isFile (m.markerPath modelId) = true := by
    by_contra hnot
    rw [ModelManager.requireOrMock, ModelManager.isInstalled, if_neg hnot, hfind] at hweights
    simp only [Option.bind_some, hexpected, Option.map_some, Option.getD_some, hpending,
      Bool.or_false, if_neg Bool.false_ne_true] at hweights
    cases hweights
  have hpath : m.markerPath modelId = m.modelDir modelId ++ [".installed"] :=
    m.paths.markerPath_eq modelId
  obtain ⟨p, bytes, hresolve⟩ := fs.isFile_iff.1 hmarker
  rw [hpath] at hresolve
  obtain ⟨d, hd, rfl, hnode⟩ := (fs.resolve_append (by decide)).1 hresolve
  obtain rfl : d = weightsOf m modelId := fs.walk_eq_ok (fs.resolve_eq_ok hd).2.1
  obtain ⟨n, hvisible, ⟨content, hcontent, hdigest⟩, hfirst⟩ := h ⟨bytes, hnode⟩
  obtain ⟨first, hhead, hmem, hle⟩ :=
    head_weightFiles (mem_weightFiles.2 ⟨hvisible, content, hcontent⟩)
  obtain ⟨hvisible', content', hcontent'⟩ := mem_weightFiles.1 hmem
  refine ⟨m.modelDir modelId ++ [first], content', ?_, ?_, ?_⟩
  · rw [ModelManager.discoverWeights, discoverWeightFile, hd]
    simp only [hhead, Option.map_some]
  · rw [FileSystem.read, (fs.resolve_append (fs.nodeName (by rw [hcontent']; simp))).2
      ⟨_, hd, rfl, hcontent'⟩]
  · -- a foreign file in front would have the verified one before it
    by_contra hforeign
    have hsame : n = first :=
      weightBefore_antisymm (hfirst first hvisible' ⟨content', hcontent', hforeign⟩)
        (hle n (mem_weightFiles.2 ⟨hvisible, content, hcontent⟩))
    rw [← hsame, hcontent] at hcontent'
    cases hcontent'
    exact hforeign hdigest

/-- A change that leaves the files of the model as they are, or takes them all, keeps the gate
sound. -/
theorem Sound.of_files {fs fs' : FileSystem} (h : Sound m sha256 modelId expected fs)
    (hfiles : ∀ n bytes, fs'.node (weightsOf m modelId ++ [n]) = some (.file bytes) ↔
      fs.node (weightsOf m modelId ++ [n]) = some (.file bytes)) : Sound m sha256 modelId expected
        fs' := by
  rintro ⟨bytes, hmarker⟩
  obtain ⟨n, hvisible, ⟨content, hcontent, hdigest⟩, hfirst⟩ := h ⟨bytes, (hfiles _ _).1 hmarker⟩
  refine ⟨n, hvisible, ⟨content, (hfiles _ _).2 hcontent, hdigest⟩, ?_⟩
  rintro k hk ⟨other, hother, hne⟩
  exact hfirst k hk ⟨other, (hfiles _ _).1 hother, hne⟩

theorem Sound.remove {fs : FileSystem} (h : Sound m sha256 modelId expected fs) (id : String) :
    Sound m sha256 modelId expected (m.removeModel fs id).2 := by
  have hremoved : Sound m sha256 modelId expected (fs.removeDirAll (m.modelDir id)).2 := by
    cases hresolve : fs.resolve (m.modelDir id) with
    | error e =>
      rw [FileSystem.removeDirAll, hresolve]
      exact h
    | ok target =>
      obtain ⟨t, x⟩ := target
      cases x with
      | file bytes =>
        rw [fs.removeDirAll_of_file hresolve]
        exact h
      | dir =>
        rintro ⟨bytes, hmarker⟩
        have hkept : ¬ t <+: weightsOf m modelId := by
          intro hstarts
          obtain ⟨-, hbelow⟩ | ⟨-, hnone⟩ :=
            fs.removeDirAll_changes hresolve (weightsOf m modelId ++ [".installed"])
          · exact hbelow (FileSystem.below_append hstarts _)
          · rw [hnone] at hmarker
            cases hmarker
        refine h.of_files (fun n content => ?_) ⟨bytes, hmarker⟩
        obtain ⟨hsame, -⟩ | ⟨hstarts, hnone⟩ :=
          fs.removeDirAll_changes hresolve (weightsOf m modelId ++ [n])
        · rw [hsame]
        · -- what is removed in the directory is itself a directory
          have ht : t = weightsOf m modelId ++ [n] :=
            (List.prefix_concat_iff.1 hstarts).resolve_right hkept
          rw [hnone, ← ht, (fs.resolve_eq_ok hresolve).2.2]
          simp
  unfold ModelManager.removeModel
  split
  · split
    · next hresult =>
      rw [hresult] at hremoved
      exact hremoved
    · next hresult =>
      rw [hresult] at hremoved
      exact hremoved
  · exact h

theorem createDirAll_file (fs : FileSystem) (path : FilePath) (q : Place) (bytes : List UInt8) :
    (fs.createDirAll path).2.node q = some (.file bytes) ↔ fs.node q = some (.file bytes) := by
  obtain hsame | ⟨hnone, hdir, -⟩ := fs.createDirAll_changes path q
  · rw [hsame]
  · rw [hnone, hdir]
    simp

theorem loadsVerified_createDirAll {fs : FileSystem} (path : FilePath) (filename : String) :
    LoadsVerified m sha256 modelId expected (fs.createDirAll path).2 filename ↔
      LoadsVerified m sha256 modelId expected fs filename := by
  unfold LoadsVerified Verified Foreign
  simp only [createDirAll_file]

theorem locate_markerPath (id : String) :
    locate [] (m.markerPath id) = weightsOf m id ++ [".installed"] := by
  have hpath : m.markerPath id = m.modelDir id ++ [".installed"] := m.paths.markerPath_eq id
  rw [hpath, locate_append, locate_names (by decide)]
  rfl

theorem locate_dest {filename : String} (hplain : PlainName filename) (id : String) :
    locate [] (join (m.modelDir id) filename) = weightsOf m id ++ [filename] := by
  rw [join_plain hplain, locate_append, locate_names (by simpa using hplain.2)]
  rfl

/-- What an install leaves under the names that the loader looks at: the filename alone is written.
-/
theorem storeIn_visible {fs : FileSystem} {filename : String} (hplain : PlainName filename)
    (hdest : fs.CanWrite (join (m.modelDir modelId) filename)) (model : CatalogModel)
    (bytes : List UInt8) (actual : String) {n : String} (hn : isVisible n = true) :
    (m.storeIn fs model modelId filename bytes actual).2.node (weightsOf m modelId ++ [n]) =
      if n = filename then some (.file bytes) else fs.node (weightsOf m modelId ++ [n]) := by
  obtain ⟨hdest', -⟩ | ⟨fs₁, -, -, hnode, hrest⟩ :=
    m.storeIn_cases fs model modelId filename bytes actual
  · exact absurd hdest hdest'
  rw [locate_dest hplain] at hnode
  have hfirst : fs₁.node (weightsOf m modelId ++ [n]) =
      if n = filename then some (.file bytes) else fs.node (weightsOf m modelId ++ [n]) := by
    rw [hnode]
    simp
  have hmarker : n ≠ ".installed" := by
    rintro rfl
    cases hn
  obtain ⟨-, hresult⟩ | ⟨-, -, hresult⟩ | ⟨fs₂, -, -, -, hnode', hresult⟩ := hrest
  · rw [hresult]
    exact hfirst
  · rw [hresult]
    exact hfirst
  · rw [hresult]
    change fs₂.node _ = _
    rw [hnode', locate_markerPath, if_neg]
    · exact hfirst
    · simpa using hmarker

/-- Verified bytes are written, and a verified file stays in front. -/
theorem Sound.storeIn {fs : FileSystem} (h : Sound m sha256 modelId expected fs) {filename : String}
    (hplain : PlainName filename) {bytes : List UInt8}
    (hdigest : normalizeDigest expected = hexEncode (sha256 bytes))
    (hloads : fs.CanWrite (join (m.modelDir modelId) filename) →
      fs.CanWrite (m.markerPath modelId) →
      LoadsVerified m sha256 modelId expected fs filename) (model : CatalogModel)
        (actual : String) :
    Sound m sha256 modelId expected (m.storeIn fs model modelId filename bytes actual).2 := by
  by_cases hdest : fs.CanWrite (join (m.modelDir modelId) filename)
  · by_cases hmarker : fs.CanWrite (m.markerPath modelId)
    · intro _
      have hafter := fun n hn => storeIn_visible (n := n) hplain hdest model bytes actual hn
      obtain ⟨n, hn, hgood, hbefore⟩ := hloads hdest hmarker
      refine ⟨n, hn, ?_, ?_⟩
      · unfold Verified
        rw [hafter n hn]
        by_cases hfile : n = filename
        · exact ⟨bytes, by rw [if_pos hfile], hdigest.symm⟩
        · rw [if_neg hfile]
          exact hgood.resolve_left hfile
      · intro k hk hforeign
        unfold Foreign at hforeign
        rw [hafter k hk] at hforeign
        by_cases hfile : k = filename
        · rw [if_pos hfile] at hforeign
          obtain ⟨content, hcontent, hne⟩ := hforeign
          cases hcontent
          exact absurd hdigest.symm hne
        · rw [if_neg hfile] at hforeign
          exact hbefore k hk hfile hforeign
    · -- the marker's place is a directory, and stays one
      rintro ⟨content, hfile⟩
      have hpath : m.markerPath modelId = m.modelDir modelId ++ [".installed"] :=
        m.paths.markerPath_eq modelId
      rw [join_plain hplain] at hdest
      obtain ⟨p, hp⟩ := fs.resolve_of_canWrite hdest
      obtain rfl : p = weightsOf m modelId := fs.walk_eq_ok (fs.resolve_eq_ok hp).2.1
      rw [hpath, fs.canWrite_append hp (by decide), not_not] at hmarker
      rw [m.storeIn_dir hmarker] at hfile
      cases hfile
  · obtain ⟨-, hresult⟩ | ⟨fs₁, hdest', -⟩ := m.storeIn_cases fs model modelId filename bytes actual
    · rw [hresult]
      exact h
    · exact absurd hdest' hdest

theorem Sound.install {fs : FileSystem} (h : Sound m sha256 modelId expected fs)
    {model : CatalogModel}
    (hfind : m.catalog.find modelId = some model)
    (hexpected : model.sha256Placeholder = some expected)
    (hreal : isRealDigest (normalizeDigest expected) = true) {id filename : String}
    (hplain : PlainName filename)
    {bytes : List UInt8}
    (hkeeps : KeepsGate m sha256 modelId expected fs (.installBytes id filename bytes)) :
    Sound m sha256 modelId expected (m.installBytes sha256 fs id filename bytes).2 := by
  cases haccepted : m.accepted sha256 id bytes with
  | none =>
    obtain ⟨e, he⟩ := m.installBytes_of_not_accepted haccepted fs filename
    rw [he]
    exact h
  | some other =>
    rw [m.installBytes_of_accepted haccepted]
    have hkeep := hkeeps other haccepted
    by_cases hid : id = modelId
    · rw [if_pos hid] at hkeep
      subst hid
      have hsame := (Option.filter_eq_some_iff.1 haccepted).1
      rw [hfind] at hsame
      cases hsame
      have hdigest :=
        (digestsMatch_iff hreal).1 (digestsMatch_of_accepted haccepted hexpected hreal)
      rw [normalizeDigest_hexEncode] at hdigest
      have hdirs : Sound m sha256 id expected (fs.createDirAll (m.modelDir id)).2 :=
        h.of_files fun n content => createDirAll_file fs _ _ content
      unfold ModelManager.store
      split
      · next hresult =>
        rw [hresult] at hdirs
        exact hdirs
      · next fs' hresult =>
        have hfs' : (fs.createDirAll (m.modelDir id)).2 = fs' := by rw [hresult]
        rw [hfs'] at hdirs
        refine hdirs.storeIn hplain hdigest (fun hdest hmarker => ?_) _ _
        have hloads := hkeep ⟨by rw [hresult], hfs' ▸ hdest, hfs' ▸ hmarker⟩
        rw [← hfs']
        exact (loadsVerified_createDirAll _ _).2 hloads
    · rw [if_neg hid] at hkeep
      refine h.of_files fun n content => ?_
      rw [m.store_changes, createDirAll_file]
      · rw [locate_dest hplain]
        exact fun heq => hkeep (List.append_inj' heq rfl).1.symm
      · rw [locate_markerPath]
        exact fun heq => hkeep (List.append_inj' heq rfl).1.symm

theorem weightsOf_of_isDir {fs : FileSystem} {p : Place}
    (h : fs.resolve (m.modelDir modelId) = .ok (p, .dir)) :
    p = weightsOf m modelId :=
  fs.walk_eq_ok (fs.resolve_eq_ok h).2.1

/-- A marker with the catalog's digest makes the model one with weights. -/
theorem requireOrMock_of_marker {model : CatalogModel} (hfind : m.catalog.find modelId = some model)
    (hexpected : model.sha256Placeholder = some expected)
    (hreal : isRealDigest (normalizeDigest expected) = true)
    {fs : FileSystem} {p : Place} (hdir : fs.resolve (m.modelDir modelId) = .ok (p, .dir))
    {digest : List UInt8} (hdigest : normalizeDigest expected = hexEncode digest)
    (hmarker : fs.node (weightsOf m modelId ++ [".installed"]) =
      some (.file (utf8 ("sha256:" ++ hexEncode digest ++ "\n")))) :
    m.requireOrMock false fs modelId = .weights := by
  have hpath : m.markerPath modelId = m.modelDir modelId ++ [".installed"] :=
    m.paths.markerPath_eq modelId
  obtain rfl := weightsOf_of_isDir hdir
  have hresolve := (fs.resolve_append (by decide)).2 ⟨_, hdir, rfl, hmarker⟩
  rw [← hpath] at hresolve
  have htext :
      readToString fs (m.markerPath modelId) = some ("sha256:" ++ hexEncode digest ++ "\n") := by
    apply readToString_utf8
    rw [FileSystem.read, hresolve]
  have hmatch : digestsMatch expected
      (Desktop.AsrBackendKind.trim ("sha256:" ++ hexEncode digest ++ "\n")) = true := by
    rw [digestsMatch_iff hreal, normalizeDigest_marker, hdigest]
  rw [ModelManager.requireOrMock, ModelManager.isInstalled,
    if_pos (fs.isFile_iff.2 ⟨_, _, hresolve⟩), hfind]
  simp only [Option.bind_some, hexpected, hreal, if_true, htext, Option.getD_some, hmatch]

/-- What an install that succeeds leaves in the directory of the model. -/
theorem install_of_writes {fs : FileSystem} {filename : String} (hplain : PlainName filename)
    (hwrites : Writes m modelId fs filename) {bytes : List UInt8} {model : CatalogModel}
    (haccepted : m.accepted sha256 modelId bytes = some model)
    (hverified : ModelManager.verified model (hexEncode (sha256 bytes)) = true) :
    (∃ p, (m.installBytes sha256 fs modelId filename bytes).2.resolve (m.modelDir modelId) =
      .ok (p, .dir)) ∧
      (m.installBytes sha256 fs modelId filename bytes).2.node (weightsOf m modelId ++
        [".installed"]) =
        some (.file (utf8 ("sha256:" ++ hexEncode (sha256 bytes) ++ "\n"))) ∧
      ∀ n, isVisible n = true → ∀ content,
        (m.installBytes sha256 fs modelId filename bytes).2.node (weightsOf m modelId ++ [n]) =
          some (.file content) ↔
        if n = filename then content = bytes else fs.node (weightsOf m modelId ++ [n]) =
          some (.file content) := by
  obtain ⟨hok, hdest, hmarker⟩ := hwrites
  rw [m.installBytes_of_accepted haccepted, ModelManager.store]
  obtain ⟨fs', hmade⟩ : ∃ fs', fs.createDirAll (m.modelDir modelId) = (.ok (), fs') :=
    ⟨_, Prod.ext hok rfl⟩
  have hfiles : ∀ q content, fs'.node q = some (.file content) ↔
      fs.node q = some (.file content) := by
    intro q content
    rw [← createDirAll_file fs (m.modelDir modelId), hmade]
  simp only [hmade] at hdest hmarker ⊢
  obtain ⟨p, hp⟩ : ∃ p, fs'.resolve (m.modelDir modelId) = .ok (p, .dir) := by
    apply fs'.resolve_of_canWrite
    rw [← join_plain hplain]
    exact hdest
  refine ⟨⟨p, fs'.resolve_dir_mono (fun q hq => m.storeIn_dir hq _ _ _ _ _) hp⟩, ?_, ?_⟩
  · obtain ⟨hdest', -⟩ | ⟨fs₁, -, hnotdir, hnode, hrest⟩ :=
      m.storeIn_cases fs' model modelId filename bytes (hexEncode (sha256 bytes))
    · exact absurd hdest hdest'
    obtain ⟨hverified', -⟩ | ⟨-, hmarker', -⟩ | ⟨fs₂, -, -, -, hnode', hresult⟩ := hrest
    · rw [hverified] at hverified'
      cases hverified'
    · exact absurd ((m.canWrite_markerPath (fs'.isDir_iff.2 ⟨p, hp⟩) hnotdir hnode).2 hmarker)
        hmarker'
    · rw [hresult]
      change fs₂.node _ = _
      rw [hnode', locate_markerPath, if_pos rfl]
  · intro n hn content
    rw [storeIn_visible hplain hdest _ _ _ hn]
    by_cases hfile : n = filename
    · rw [if_pos hfile, if_pos hfile, Option.some.injEq, FileNode.file.injEq, eq_comm]
    · rw [if_neg hfile, if_neg hfile, hfiles]

/-- An install that succeeds leaves the gate met exactly when a verified file comes first. -/
theorem gate_install_iff {fs : FileSystem} (h : Sound m sha256 modelId expected fs)
    {model : CatalogModel}
    (hfind : m.catalog.find modelId = some model)
    (hexpected : model.sha256Placeholder = some expected)
    (hreal : isRealDigest (normalizeDigest expected) = true) {filename : String}
    (hplain : PlainName filename) (hwrites : Writes m modelId fs filename) {bytes : List UInt8}
    (haccepted : m.accepted sha256 modelId bytes = some model) :
    Gate m sha256 modelId expected (m.installBytes sha256 fs modelId filename bytes).2 ↔
      LoadsVerified m sha256 modelId expected fs filename := by
  have hmatch := digestsMatch_of_accepted haccepted hexpected hreal
  have hdigest := (digestsMatch_iff hreal).1 hmatch
  rw [normalizeDigest_hexEncode] at hdigest
  have hverified : ModelManager.verified model (hexEncode (sha256 bytes)) = true := by
    rw [ModelManager.verified, hexpected, Option.map_some, Option.getD_some, hmatch]
  obtain ⟨⟨p, hp⟩, hmarker, hfiles⟩ := install_of_writes hplain hwrites haccepted hverified
  constructor
  · intro hgate
    obtain ⟨path, content, hpath, hread, hgood⟩ :=
      hgate (requireOrMock_of_marker hfind hexpected hreal hp hdigest hmarker)
    obtain rfl := weightsOf_of_isDir hp
    rw [ModelManager.discoverWeights, discoverWeightFile, hp] at hpath
    obtain ⟨n, hhead, rfl⟩ := Option.map_eq_some_iff.1 hpath
    obtain ⟨first, hhead', hmem, hle⟩ := head_weightFiles (List.mem_of_mem_head? hhead)
    rw [hhead] at hhead'
    cases hhead'
    obtain ⟨hvisible, content', hcontent⟩ := mem_weightFiles.1 hmem
    have hresolve := ((m.installBytes sha256 fs modelId filename bytes).2.resolve_append
      (FileSystem.nodeName _ (by rw [hcontent]; simp))).2 ⟨_, hp, rfl, hcontent⟩
    rw [FileSystem.read, hresolve] at hread
    cases hread
    refine ⟨n, hvisible, ?_, ?_⟩
    · by_cases hfile : n = filename
      · exact Or.inl hfile
      · have hbefore := (hfiles n hvisible content).1 hcontent
        rw [if_neg hfile] at hbefore
        exact Or.inr ⟨content, hbefore, hgood⟩
    · rintro k hk hne ⟨other, hother, -⟩
      apply hle k
      refine mem_weightFiles.2 ⟨hk, other, (hfiles k hk other).2 ?_⟩
      rw [if_neg hne]
      exact hother
  · intro hloads
    refine (h.install hfind hexpected hreal hplain ?_).gate hfind hexpected hreal
    intro other _
    rw [if_pos rfl]
    exact fun _ => hloads

end Gate

/-- From a directory without a marker, every run whose calls keep the gate meets it in every state.
-/
theorem gate_of_keepsGate (m : ModelManager) (sha256 : List UInt8 → List UInt8)
    {modelId expected : String} {model : CatalogModel} (hfind : m.catalog.find modelId = some model)
    (hexpected : model.sha256Placeholder = some expected)
    (hreal : isRealDigest (normalizeDigest expected) = true)
    {fs₀ : FileSystem} (hmarker : fs₀.node (weightsOf m modelId ++ [".installed"]) = none)
    {h : List (Fired FileSystem FileCall)} {fs : FileSystem} (hr : Run (fileStep m sha256) fs₀ h fs)
    (hkeeps : ∀ f ∈ h, KeepsGate m sha256 modelId expected f.pre f.label) :
    Gate m sha256 modelId expected fs := by
  have hsound : Sound m sha256 modelId expected fs := by
    refine hr.invWhen (fun f => KeepsGate m sha256 modelId expected f.pre f.label)
      (fun _ fs => Sound m sha256 modelId expected fs) ?_ ?_ hkeeps
    · rintro ⟨bytes, hfile⟩
      rw [hmarker] at hfile
      cases hfile
    · intro _ fs call fs' _ hs hkeep hstep
      cases call with
      | installBytes id filename bytes =>
        rw [fileStep] at hstep
        split at hstep
        · next hplain =>
          cases hstep
          exact hs.install hfind hexpected hreal hplain hkeep
        · cases hstep
      | removeModel id =>
        cases hstep
        exact hs.remove id
  exact hsound.gate hfind hexpected hreal

/-- The SHA-256 of no bytes. -/
def emptyDigest : List UInt8 :=
  [0xe3, 0xb0, 0xc4, 0x42, 0x98, 0xfc, 0x1c, 0x14, 0x9a, 0xfb, 0xf4, 0xc8, 0x99, 0x6f, 0xb9, 0x24,
    0x27, 0xae, 0x41, 0xe4, 0x64, 0x9b, 0x93, 0x4c, 0xa4, 0x95, 0x99, 0x1b, 0x78, 0x52, 0xb8, 0x55]

/-- A model with that digest. -/
def emptyModel : CatalogModel where
  id := "hy-mt2-1.8b"
  family := "hy-mt2"
  task := "mt"
  licenseClass := none
  commercialDefault := none
  hardwareMin := none
  backend := none
  languages := none
  notes := none
  sha256Placeholder := some (hexEncode emptyDigest)

def emptyManager : ModelManager := ⟨⟨[], by decide, by decide⟩, ⟨[emptyModel]⟩⟩

theorem emptyModel_real : isRealDigest (normalizeDigest (hexEncode emptyDigest)) = true := by
  rw [normalizeDigest_hexEncode]
  exact isRealDigest_hexEncode rfl

theorem emptyModel_accepted :
    emptyManager.accepted (fun _ => emptyDigest) "hy-mt2-1.8b" [] = some emptyModel := by
  have hmismatch : ModelManager.mismatch emptyModel (hexEncode emptyDigest) = none :=
    (mismatch_eq_none_iff rfl emptyModel_real).2 ((digestsMatch_iff emptyModel_real).2 rfl)
  have hfind : emptyManager.catalog.find "hy-mt2-1.8b" = some emptyModel := rfl
  rw [ModelManager.accepted, hfind, Option.filter_some, if_pos (by rw [hmismatch]; rfl)]

theorem loadsVerified_new_iff (filename : String) :
    LoadsVerified emptyManager (fun _ => emptyDigest) "hy-mt2-1.8b" (hexEncode emptyDigest)
      FileSystem.new filename ↔
      isVisible filename = true := by
  have hnone : ∀ n, FileSystem.new.node (weightsOf emptyManager "hy-mt2-1.8b" ++ [n]) = none := by
    intro n
    exact (OrderedMap.get?_set_ne _ _ (by simp)).trans rfl
  constructor
  · rintro ⟨n, hn, rfl | ⟨bytes, hbytes, -⟩, -⟩
    · exact hn
    · rw [hnone] at hbytes
      cases hbytes
  · intro hvisible
    refine ⟨filename, hvisible, Or.inl rfl, ?_⟩
    rintro k - - ⟨bytes, hbytes, -⟩
    rw [hnone] at hbytes
    cases hbytes

theorem fileStep_installBytes (m : ModelManager) (sha256 : List UInt8 → List UInt8)
    (fs : FileSystem)
    (modelId : String) (bytes : List UInt8) {filename : String} (h : PlainName filename) :
    fileStep m sha256 fs (.installBytes modelId filename bytes) =
      some (m.installBytes sha256 fs modelId filename bytes).2 := by
  rw [fileStep, if_pos h]

/-- An install into an empty directory, under the visible name `weights.gguf`. -/
theorem gate_of_keepsGate_weights :
    Gate emptyManager (fun _ => emptyDigest) "hy-mt2-1.8b" (hexEncode emptyDigest)
      (emptyManager.installBytes (fun _ => emptyDigest) FileSystem.new "hy-mt2-1.8b" "weights.gguf"
        []).2 := by
  refine gate_of_keepsGate emptyManager (fun _ => emptyDigest) rfl rfl emptyModel_real
    (by decide +kernel)
    (Run.nil.cons (fileStep_installBytes _ _ FileSystem.new "hy-mt2-1.8b" [] (by decide))) ?_
  intro f hf
  rw [List.mem_singleton.1 hf]
  intro other _
  rw [if_pos rfl]
  intro _
  exact (loadsVerified_new_iff _).2 (by decide)

/-- An install under the hidden name `.w`: the marker is written, and no file is found. -/
theorem not_gate : ¬ ∀ (m : ModelManager) (sha256 : List UInt8 → List UInt8)
    (modelId expected : String)
    (model : CatalogModel), m.catalog.find modelId = some model →
      model.sha256Placeholder = some expected →
    isRealDigest (normalizeDigest expected) = true → ∀ fs₀ : FileSystem,
    fs₀.node (weightsOf m modelId ++ [".installed"]) = none →
    ∀ (h : List (Fired FileSystem FileCall)) (fs : FileSystem), Run (fileStep m sha256) fs₀ h fs →
      Gate m sha256 modelId expected fs := by
  intro hall
  have hplain : PlainName ".w" := by decide
  have hgate :=
    hall emptyManager (fun _ => emptyDigest) "hy-mt2-1.8b" _ emptyModel rfl rfl emptyModel_real
    FileSystem.new (by decide +kernel) _ _
    (Run.nil.cons (fileStep_installBytes _ _ _ "hy-mt2-1.8b" [] hplain))
  have hsound : Sound emptyManager (fun _ => emptyDigest) "hy-mt2-1.8b" (hexEncode emptyDigest)
      FileSystem.new := by
    rintro ⟨bytes, hbytes⟩
    have hnone : FileSystem.new.node (weightsOf emptyManager "hy-mt2-1.8b" ++ [".installed"]) =
        none := by
      decide +kernel
    rw [hnone] at hbytes
    cases hbytes
  rw [gate_install_iff hsound rfl rfl emptyModel_real hplain (by decide +kernel)
    emptyModel_accepted, loadsVerified_new_iff] at hgate
  cases hgate

end LanguageLlm.Router
