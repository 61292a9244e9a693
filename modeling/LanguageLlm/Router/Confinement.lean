import LanguageLlm.Router.Weights

/-!
# Where installs and removals write

An id that names a child of the weights directory keeps an install and a removal in there, unless
the filename leads out; any other id leads out itself, and nothing checks that.
-/

namespace LanguageLlm.Router

open Lib

/-- The child of the weights directory that an id names: the id is relative, and its one segment
that moves is a name. -/
def childName (modelId : String) : Option String :=
  if modelId.toList.head? = some '/' then none
  else
    match (segments modelId).filter (fun s => ¬ Stays s) with
    | [n] => if n = ".." then none else some n
    | _ => none

theorem childName_eq_some {modelId n : String} (h : childName modelId = some n) :
    modelId.toList.head? ≠ some '/' ∧ (segments modelId).filter (fun s => ¬ Stays s) = [n] ∧
      Names n := by
  unfold childName at h
  split at h
  · cases h
  · next hrelative =>
    split at h
    · next k hsegments =>
      split at h
      · cases h
      · next hup =>
        cases h
        have hmem : n ∈ (segments modelId).filter (fun s => ¬ Stays s) := by
          rw [hsegments]
          exact List.mem_singleton_self n
        exact ⟨hrelative, hsegments, by simpa using (List.mem_filter.1 hmem).2, hup⟩
    · cases h

namespace ModelPaths

variable (paths : ModelPaths)

theorem weightsDir_plain : ∀ segment ∈ paths.weightsDir, Names segment := by
  have hlast : ∀ segment ∈ ["models", "weights"], Names segment := by decide
  intro segment hs
  rcases List.mem_append.1 hs with hs | hs
  · exact paths.plain segment hs
  · exact hlast segment hs

theorem locate_modelDir {modelId n : String} (h : childName modelId = some n) :
    locate [] (paths.modelDir modelId) = paths.weightsDir ++ [n] := by
  obtain ⟨hrelative, hsegments, hname⟩ := childName_eq_some h
  rw [modelDir, join_of_relative hrelative, locate_append, locate_names paths.weightsDir_plain,
    List.nil_append, locate_filter, hsegments]
  intro hup
  have hmem : ".." ∈ (segments modelId).filter (fun s => ¬ Stays s) :=
    List.mem_filter.2 ⟨hup, by decide⟩
  rw [hsegments, List.mem_singleton] at hmem
  exact hname.2 hmem.symm

theorem parentPath_modelDir {modelId n : String} (h : childName modelId = some n) :
    parentPath (paths.modelDir modelId) = some paths.weightsDir := by
  obtain ⟨hrelative, hsegments, -⟩ := childName_eq_some h
  rw [modelDir, join_of_relative hrelative]
  apply parentPath_append _ hsegments
  intro s hs
  have hmem := List.mem_of_getLast? hs
  exact (paths.weightsDir_plain s hmem).1

theorem markerPath_eq (modelId : String) :
    paths.markerPath modelId = paths.modelDir modelId ++ [".installed"] :=
  join_of_relative (by decide)

end ModelPaths

namespace ModelManager

variable (m : ModelManager)

/-- A place at or below the child of the weights directory that the id names. -/
def Inside (modelId : String) (q : Place) : Prop :=
  ∃ n, childName modelId = some n ∧ m.paths.weightsDir ++ [n] <+: q

variable {m} in
theorem Inside.append {modelId : String} {q : Place} (h : m.Inside modelId q) (rest : Place) :
    m.Inside modelId (q ++ rest) := by
  obtain ⟨n, hn, hq⟩ := h
  exact ⟨n, hn, hq.trans (List.prefix_append _ _)⟩

theorem inside_modelDir {modelId n : String} (h : childName modelId = some n) :
    m.Inside modelId (locate [] (m.modelDir modelId)) :=
  ⟨n, h, m.paths.locate_modelDir h ▸ List.prefix_rfl⟩

theorem inside_markerPath {modelId n : String} (h : childName modelId = some n) :
    m.Inside modelId (locate [] (m.markerPath modelId)) := by
  have hmarker : m.markerPath modelId = m.modelDir modelId ++ [".installed"] :=
    m.paths.markerPath_eq modelId
  rw [hmarker, locate_append, locate_names (by decide)]
  exact (m.inside_modelDir h).append _

/-- The promise of a call about `modelId` whose arguments lead to `target`: nothing changes outside
the model's directory, and arguments that lead outside are refused. -/
structure Confined {α : Type} (fs : FileSystem) (modelId : String) (target : Place)
    (result : Except InstallError α × FileSystem) : Prop where
  inside : ∀ q, result.2.node q ≠ fs.node q → m.Inside modelId q
  refused : ¬ m.Inside modelId target → (∃ e, result.1 = .error e) ∧
    ∀ q, result.2.node q = fs.node q

theorem confined_of_error {α : Type} (fs : FileSystem) (modelId : String) (target : Place)
    (e : InstallError) :
    m.Confined fs modelId target ((.error e, fs) : Except InstallError α × FileSystem) where
  inside _ hq := absurd rfl hq
  refused _ := ⟨⟨e, rfl⟩, fun _ => rfl⟩

/-! ## Removals -/

/-- When a removal stays in the model's directory. -/
def RemovesInside (fs : FileSystem) (modelId : String) : Prop :=
  childName modelId ≠ none ∨
    ∃ p x, fs.resolve (m.modelDir modelId) = .ok (p, x) ∧
      (x = .dir → fs.names p = [] ∧ FileSystem.Refuses (m.modelDir modelId))

theorem removeModel_child {modelId n : String} (h : childName modelId = some n) (fs : FileSystem) :
    m.Confined fs modelId (locate [] (m.modelDir modelId)) (m.removeModel fs modelId) := by
  refine ⟨fun q hq => ?_, fun hout => absurd (m.inside_modelDir h) hout⟩
  unfold removeModel at hq
  split at hq
  · have hchanged : (fs.removeDirAll (m.modelDir modelId)).2.node q ≠ fs.node q := by
      split at hq <;> next hresult => rw [hresult]; exact hq
    cases hresolve : fs.resolve (m.modelDir modelId) with
    | error e =>
      rw [FileSystem.removeDirAll, hresolve] at hchanged
      exact absurd rfl hchanged
    | ok target =>
      obtain ⟨p, x⟩ := target
      cases x with
      | file bytes =>
        rw [fs.removeDirAll_of_file hresolve] at hchanged
        exact absurd rfl hchanged
      | dir =>
        have hp := fs.walk_eq_ok (fs.resolve_eq_ok hresolve).2.1
        obtain ⟨hsame, -⟩ | ⟨hq, -⟩ := fs.removeDirAll_changes hresolve q
        · exact absurd hsame hchanged
        · obtain ⟨rest, rfl⟩ := hq
          rw [hp]
          exact (m.inside_modelDir h).append rest
  · exact absurd rfl hq

/-- A removal leads to the outcome of `remove_dir_all`, where there is something to remove. -/
theorem removeModel_of_resolve {fs : FileSystem} {modelId : String} {p : Place} {x : FileNode}
    (h : fs.resolve (m.modelDir modelId) = .ok (p, x)) :
    ((∃ e, (m.removeModel fs modelId).1 = .error e) ↔
      ∃ e, (fs.removeDirAll (m.modelDir modelId)).1 = .error e) ∧
    (m.removeModel fs modelId).2 = (fs.removeDirAll (m.modelDir modelId)).2 := by
  have hexists : fs.exists (m.modelDir modelId) = true := by
    simp [FileSystem.exists, h, Except.isOk, Except.toBool]
  rw [removeModel, if_pos hexists]
  split
  · next hresult => simp [hresult]
  · next hresult => simp [hresult]

theorem removeModel_confined_iff (fs : FileSystem) (modelId : String) :
    m.Confined fs modelId (locate [] (m.modelDir modelId)) (m.removeModel fs modelId) ↔
      m.RemovesInside fs modelId := by
  cases hchild : childName modelId with
  | some n =>
    exact ⟨fun _ => Or.inl (by simp [hchild]), fun _ => m.removeModel_child hchild fs⟩
  | none =>
    have hout : ∀ q, ¬ m.Inside modelId q := by
      rintro q ⟨n, hn, -⟩
      rw [hchild] at hn
      cases hn
    constructor
    · intro h
      right
      obtain ⟨⟨e, he⟩, hsame⟩ := h.refused (hout _)
      cases hresolve : fs.resolve (m.modelDir modelId) with
      | error e' =>
        rw [removeModel,
          if_neg (by simp [FileSystem.exists, hresolve, Except.isOk, Except.toBool])] at he
        cases he
      | ok target =>
        obtain ⟨p, x⟩ := target
        obtain ⟨herror, hstate⟩ := m.removeModel_of_resolve hresolve
        rw [hstate] at hsame
        exact ⟨p, x, rfl, (fs.removeDirAll_refused_iff hresolve).1 ⟨herror.1 ⟨e, he⟩, hsame⟩⟩
    · rintro (hchild' | ⟨p, x, hresolve, hdir⟩)
      · exact absurd hchild hchild'
      · obtain ⟨herror, hstate⟩ := m.removeModel_of_resolve hresolve
        obtain ⟨hfails, hsame⟩ := (fs.removeDirAll_refused_iff hresolve).2 hdir
        rw [← hstate] at hsame
        exact ⟨fun q hq => absurd (hsame q) hq, fun _ => ⟨herror.2 hfails, hsame⟩⟩

/-! ## Installs -/

section Store

variable (fs : FileSystem) (model : CatalogModel) (modelId filename : String) (bytes : List UInt8)
  (actual : String)

/-- The writes into the model's directory keep the directories that were made for it. -/
theorem store_dir {q : Place} (h : (fs.createDirAll (m.modelDir modelId)).2.node q = some .dir) :
    (m.store fs model modelId filename bytes actual).2.node q = some .dir := by
  unfold store
  split
  · next hdirs =>
    rw [hdirs] at h
    exact h
  · next hdirs =>
    rw [hdirs] at h
    exact m.storeIn_dir h _ _ _ _ _

theorem store_changes {q : Place} (hdest : q ≠ locate [] (join (m.modelDir modelId) filename))
    (hmarker : q ≠ locate [] (m.markerPath modelId)) :
    (m.store fs model modelId filename bytes actual).2.node q =
      (fs.createDirAll (m.modelDir modelId)).2.node q := by
  unfold store
  split
  · next hdirs => rw [hdirs]
  · next hdirs =>
    rw [hdirs]
    exact m.storeIn_changes _ _ _ _ _ _ hdest hmarker

variable {fs} {modelId} in
theorem store_of_isDir (hcreates : ¬ fs.Creates (m.modelDir modelId))
    (hdir : fs.isDir (m.modelDir modelId) = true) :
    m.store fs model modelId filename bytes actual =
      m.storeIn fs model modelId filename bytes actual := by
  obtain ⟨hsame, hok⟩ := fs.createDirAll_of_not_creates hcreates
  unfold store
  split
  · next hdirs =>
    rw [hdirs] at hok
    cases hok.2 hdir
  · next hdirs =>
    rw [hdirs] at hsame
    subst hsame
    rfl

variable {fs} {modelId} in
theorem store_of_not_isDir (hcreates : ¬ fs.Creates (m.modelDir modelId))
    (hdir : fs.isDir (m.modelDir modelId) = false) :
    m.store fs model modelId filename bytes actual = (.error .io, fs) := by
  obtain ⟨hsame, hok⟩ := fs.createDirAll_of_not_creates hcreates
  unfold store
  split
  · next hdirs =>
    rw [hdirs] at hsame
    subst hsame
    rfl
  · next hdirs =>
    rw [hdirs] at hok
    rw [hok.1 rfl] at hdir
    cases hdir

variable {fs} {modelId} {bytes} {filename} in
/-- Writing a file does not change whether the marker can be written. -/
theorem canWrite_markerPath {fs₁ : FileSystem} (hdir : fs.isDir (m.modelDir modelId) = true)
    (hdest : fs.node (locate [] (join (m.modelDir modelId) filename)) ≠ some .dir)
    (hnode : ∀ q, fs₁.node q =
      if q = locate [] (join (m.modelDir modelId) filename) then some (.file bytes)
        else fs.node q) :
    fs₁.CanWrite (m.markerPath modelId) ↔ fs.CanWrite (m.markerPath modelId) := by
  have hmarker : m.markerPath modelId = m.modelDir modelId ++ [".installed"] :=
    m.paths.markerPath_eq modelId
  obtain ⟨p, hp⟩ := fs.isDir_iff.1 hdir
  have hp₁ : fs₁.resolve (m.modelDir modelId) = .ok (p, .dir) := by
    apply fs.resolve_dir_mono _ hp
    intro q hq
    rw [hnode, if_neg]
    · exact hq
    · rintro rfl
      exact hdest hq
  rw [hmarker, fs₁.canWrite_append hp₁ (by decide), fs.canWrite_append hp (by decide), hnode]
  split
  · next heq =>
    rw [heq]
    exact ⟨fun _ => hdest, fun _ => by simp⟩
  · rfl

end Store

/-- When an install stays in the model's directory: its bytes are not accepted, or it leads into
that directory and makes no other, or it leads out and fails before it changes anything. -/
def InstallsInside (sha256 : List UInt8 → List UInt8) (fs : FileSystem) (modelId filename : String)
    (bytes : List UInt8) : Prop :=
  ∀ model, m.accepted sha256 modelId bytes = some model →
    let dir := m.modelDir modelId
    let dest := join dir filename
    (m.Inside modelId (locate [] dest) → fs.node m.paths.weightsDir = some .dir ∨
      ¬ fs.Creates dir) ∧
    (¬ m.Inside modelId (locate [] dest) → ¬ fs.Creates dir ∧
      (fs.isDir dir = true → ¬ fs.CanWrite dest ∨
        verified model (hexEncode (sha256 bytes)) = true ∧
          fs.node (locate [] dest) = some (.file bytes) ∧
          ¬ fs.CanWrite (m.markerPath modelId)))

theorem not_inside_weightsDir (modelId : String) : ¬ m.Inside modelId m.paths.weightsDir := by
  rintro ⟨n, -, hstarts⟩
  have hle := hstarts.length_le
  rw [List.length_append, List.length_singleton] at hle
  omega

variable {m} in
/-- An install into a child of the weights directory. -/
theorem store_confined_of_inside {fs : FileSystem} {model : CatalogModel}
    {modelId filename : String} {bytes : List UInt8} {actual : String}
    (hinside : m.Inside modelId (locate [] (join (m.modelDir modelId) filename))) :
    m.Confined fs modelId (locate [] (join (m.modelDir modelId) filename))
        (m.store fs model modelId filename bytes actual) ↔
      fs.node m.paths.weightsDir = some .dir ∨ ¬ fs.Creates (m.modelDir modelId) := by
  obtain ⟨n, hchild, -⟩ := id hinside
  constructor
  · intro h
    by_contra hcon
    rw [not_or, not_not] at hcon
    obtain ⟨hbase, hcreates⟩ := hcon
    -- a directory that is made is inside, so the weights directory above it is made as well
    obtain ⟨q, hnone, hdir⟩ := fs.createDirAll_of_creates hcreates
    have hstored := m.store_dir fs model modelId filename bytes actual hdir
    obtain ⟨k, -, hq⟩ := h.inside q (by rw [hstored, hnone]; simp)
    have hne : m.paths.weightsDir ≠ q := by
      rintro rfl
      exact m.not_inside_weightsDir modelId ⟨k, by
        have hle := hq.length_le
        rw [List.length_append, List.length_singleton] at hle
        omega, hq⟩
    have hmade := (m.store fs model modelId filename bytes actual).2.dir_of_le
      ((List.prefix_append _ _).trans hq) hne (by rw [hstored]; simp)
    apply m.not_inside_weightsDir modelId
    apply h.inside
    rw [hmade]
    exact Ne.symm hbase
  · intro hcond
    refine ⟨fun q hq => ?_, fun hout => absurd hinside hout⟩
    by_cases hdest : q = locate [] (join (m.modelDir modelId) filename)
    · rw [hdest]
      exact hinside
    by_cases hmarker : q = locate [] (m.markerPath modelId)
    · rw [hmarker]
      exact m.inside_markerPath hchild
    rw [m.store_changes fs model modelId filename bytes actual hdest hmarker] at hq
    obtain hsame | ⟨hnone, -, c, hc, rfl⟩ := fs.createDirAll_changes (m.modelDir modelId) q
    · exact absurd hsame hq
    obtain hbase | hcreates := hcond
    · have hparent : parentPath (m.modelDir modelId) = some m.paths.weightsDir :=
        m.paths.parentPath_modelDir hchild
      rw [ancestry_of_some hparent, List.mem_cons] at hc
      obtain rfl | hc := hc
      · exact m.inside_modelDir hchild
      · exfalso
        have hstarts := prefix_of_mem_ancestry hc
        rw [locate_names (fun s hs => m.paths.weightsDir_plain s (hstarts.subset hs)),
          List.nil_append] at hnone
        by_cases heq : c = m.paths.weightsDir
        · rw [heq, hbase] at hnone
          cases hnone
        · rw [fs.dir_of_le hstarts heq (by rw [hbase]; simp)] at hnone
          cases hnone
    · rw [(fs.createDirAll_of_not_creates hcreates).1] at hq
      exact absurd rfl hq

variable {m} in
/-- A call that leads outside and succeeds breaks the promise. -/
theorem not_confined_of_ok {α : Type} {fs : FileSystem} {modelId : String} {target : Place}
    {result : Except InstallError α × FileSystem} (houtside : ¬ m.Inside modelId target) {x : α}
    (hok : result.1 = .ok x) : ¬ m.Confined fs modelId target result := by
  intro h
  obtain ⟨⟨e, he⟩, -⟩ := h.refused houtside
  rw [hok] at he
  cases he

variable {m} in
/-- An install into a directory that is there, which leads out of it. -/
theorem storeIn_confined_iff {fs : FileSystem} {model : CatalogModel}
    {modelId filename : String} {bytes : List UInt8} {actual : String}
    (houtside : ¬ m.Inside modelId (locate [] (join (m.modelDir modelId) filename)))
    (hdir : fs.isDir (m.modelDir modelId) = true) :
    m.Confined fs modelId (locate [] (join (m.modelDir modelId) filename))
        (m.storeIn fs model modelId filename bytes actual) ↔
      ¬ fs.CanWrite (join (m.modelDir modelId) filename) ∨
        verified model actual = true ∧
          fs.node (locate [] (join (m.modelDir modelId) filename)) = some (.file bytes) ∧
          ¬ fs.CanWrite (m.markerPath modelId) := by
  obtain ⟨hdest, hresult⟩ | ⟨fs₁, hdest, hnotdir, hnode, hrest⟩ :=
    m.storeIn_cases fs model modelId filename bytes actual
  · rw [hresult]
    exact iff_of_true (m.confined_of_error _ _ _ _) (Or.inl hdest)
  rw [or_iff_right (not_not.2 hdest), ← m.canWrite_markerPath hdir hnotdir hnode]
  obtain ⟨hverified, hresult⟩ | ⟨hverified, hmarker, hresult⟩ |
    ⟨fs₂, -, hmarker, -, -, hresult⟩ := hrest
  · rw [hresult, hverified]
    exact iff_of_false (not_confined_of_ok houtside rfl) (by simp)
  · rw [hresult, and_iff_right hverified, and_iff_left hmarker]
    constructor
    · intro h
      rw [← (h.refused houtside).2]
      exact (hnode _).trans (if_pos rfl)
    · intro hsame
      have hkept : ∀ q, fs₁.node q = fs.node q := by
        intro q
        rw [hnode]
        split
        · next hq => rw [hq, hsame]
        · rfl
      exact ⟨fun q hq => absurd (hkept q) hq, fun _ => ⟨⟨_, rfl⟩, hkept⟩⟩
  · rw [hresult]
    exact iff_of_false (not_confined_of_ok houtside rfl) fun h => h.2.2 hmarker

variable {m} in
/-- An install that leads out of the model's directory. -/
theorem store_confined_of_outside {fs : FileSystem} {model : CatalogModel}
    {modelId filename : String} {bytes : List UInt8} {actual : String}
    (houtside : ¬ m.Inside modelId (locate [] (join (m.modelDir modelId) filename))) :
    m.Confined fs modelId (locate [] (join (m.modelDir modelId) filename))
        (m.store fs model modelId filename bytes actual) ↔
      ¬ fs.Creates (m.modelDir modelId) ∧ (fs.isDir (m.modelDir modelId) = true →
        ¬ fs.CanWrite (join (m.modelDir modelId) filename) ∨
          verified model actual = true ∧
            fs.node (locate [] (join (m.modelDir modelId) filename)) = some (.file bytes) ∧
            ¬ fs.CanWrite (m.markerPath modelId)) := by
  by_cases hcreates : fs.Creates (m.modelDir modelId)
  · refine iff_of_false ?_ fun h => h.1 hcreates
    intro h
    obtain ⟨q, hnone, hdir⟩ := fs.createDirAll_of_creates hcreates
    have hstored := m.store_dir fs model modelId filename bytes actual hdir
    rw [(h.refused houtside).2, hnone] at hstored
    cases hstored
  rw [and_iff_right hcreates]
  cases hdir : fs.isDir (m.modelDir modelId) with
  | false =>
    rw [m.store_of_not_isDir model filename bytes actual hcreates hdir]
    exact iff_of_true (m.confined_of_error _ _ _ _) nofun
  | true =>
    rw [m.store_of_isDir model filename bytes actual hcreates hdir,
      storeIn_confined_iff houtside hdir]
    exact ⟨fun h _ => h, fun h => h rfl⟩

theorem installBytes_confined_iff (sha256 : List UInt8 → List UInt8) (fs : FileSystem)
    (modelId filename : String) (bytes : List UInt8) :
    m.Confined fs modelId (locate [] (join (m.modelDir modelId) filename))
        (m.installBytes sha256 fs modelId filename bytes) ↔
      m.InstallsInside sha256 fs modelId filename bytes := by
  unfold InstallsInside
  cases haccepted : m.accepted sha256 modelId bytes with
  | none =>
    obtain ⟨e, he⟩ := m.installBytes_of_not_accepted haccepted fs filename
    rw [he]
    refine ⟨fun _ model hmodel => ?_, fun _ => m.confined_of_error _ _ _ _⟩
    cases hmodel
  | some model =>
    rw [m.installBytes_of_accepted haccepted]
    by_cases hinside : m.Inside modelId (locate [] (join (m.modelDir modelId) filename))
    · rw [store_confined_of_inside hinside]
      constructor
      · rintro h _ ⟨⟩
        exact ⟨fun _ => h, fun hout => absurd hinside hout⟩
      · intro h
        exact (h model rfl).1 hinside
    · rw [store_confined_of_outside hinside]
      constructor
      · rintro h _ ⟨⟩
        exact ⟨fun hin => absurd hin hinside, fun _ => h⟩
      · intro h
        exact (h model rfl).2 hinside

end ModelManager

/-! ## Both calls -/

inductive FileCall where
  | installBytes (modelId filename : String) (bytes : List UInt8)
  | removeModel (modelId : String)
  deriving DecidableEq

namespace FileCall

variable (m : ModelManager) (sha256 : List UInt8 → List UInt8)

/-- The call keeps to the model's directory, or fails and changes nothing. -/
def Confined (fs : FileSystem) : FileCall → Prop
  | installBytes modelId filename bytes =>
    m.Confined fs modelId (locate [] (join (m.modelDir modelId) filename))
      (m.installBytes sha256 fs modelId filename bytes)
  | removeModel modelId =>
    m.Confined fs modelId (locate [] (m.modelDir modelId)) (m.removeModel fs modelId)

/-- When it does. -/
def WorksInside (fs : FileSystem) : FileCall → Prop
  | installBytes modelId filename bytes => m.InstallsInside sha256 fs modelId filename bytes
  | removeModel modelId => m.RemovesInside fs modelId

end FileCall

end LanguageLlm.Router
