import Mathlib.Data.List.DropRight
import LanguageLlm.Lib.OrderedMap

/-!
# A file system

Directories and files below a root, without links. A path is the list of its segments: an empty
segment and `.` stay where they are, `..` goes up and another segment goes down.

* `FileSystem.write_eq_ok`, `node_write`: what a written file changes.
* `FileSystem.createDirAll_of_not_creates`, `createDirAll_changes`: when the directories of a path
  are made, and which.
* `FileSystem.removeDirAll_ok`, `removeDirAll_error`: what is gone with a directory.
-/

namespace LanguageLlm.Lib

inductive FileNode where
  | dir
  | file (bytes : List UInt8)
  deriving DecidableEq

/-- A place: the names that lead to it from the root. -/
abbrev Place := List String

/-- The kinds of errors, as far as `create_dir_all` and `remove_dir_all` tell them apart. -/
inductive FileError where
  | notFound
  | alreadyExists
  | other
  deriving DecidableEq

/-! ## Paths -/

/-- The segments of a path, after the root. -/
abbrev FilePath := List String

/-- A segment that stays in its directory. -/
def Stays (segment : String) : Prop := segment = "" ∨ segment = "."

instance : DecidablePred Stays :=
  fun segment => inferInstanceAs (Decidable (segment = "" ∨ segment = "."))

/-- A segment that names a node. -/
def Names (segment : String) : Prop := ¬ Stays segment ∧ segment ≠ ".."

instance : DecidablePred Names := fun segment =>
  inferInstanceAs (Decidable (¬ Stays segment ∧ segment ≠ ".."))

/-- Where a segment leads to. -/
def goTo (p : Place) (segment : String) : Place :=
  if Stays segment then p else if segment = ".." then p.dropLast else p ++ [segment]

theorem goTo_names {segment : String} (hn : Names segment) (p : Place) :
    goTo p segment = p ++ [segment] := by
  rw [goTo, if_neg hn.1, if_neg hn.2]

theorem goTo_stays {segment : String} (hs : Stays segment) (p : Place) : goTo p segment = p :=
  if_pos hs

/-- Where a path leads to. -/
def locate (p : Place) (path : FilePath) : Place := path.foldl goTo p

@[simp]
theorem locate_nil (p : Place) : locate p [] = p := rfl

@[simp]
theorem locate_cons (p : Place) (segment : String) (path : FilePath) :
    locate p (segment :: path) = locate (goTo p segment) path := rfl

@[simp]
theorem locate_append (p : Place) (path path' : FilePath) :
    locate p (path ++ path') = locate (locate p path) path' :=
  List.foldl_append

theorem locate_names {path : FilePath} (hn : ∀ segment ∈ path, Names segment) (p : Place) :
    locate p path = p ++ path := by
  induction path generalizing p with
  | nil => exact (List.append_nil p).symm
  | cons segment path ih =>
    rw [locate_cons, goTo_names (hn segment List.mem_cons_self),
      ih (fun s hs => hn s (List.mem_cons_of_mem _ hs)), List.append_assoc]
    rfl

theorem locate_stays {path : FilePath} (hs : ∀ segment ∈ path, Stays segment) (p : Place) :
    locate p path = p := by
  induction path generalizing p with
  | nil => rfl
  | cons segment path ih =>
    rw [locate_cons, goTo_stays (hs segment List.mem_cons_self),
      ih (fun s h => hs s (List.mem_cons_of_mem _ h))]

/-- Without `..`, the segments that stay do not matter. -/
theorem locate_filter {path : FilePath} (hup : ".." ∉ path) (p : Place) :
    locate p path = p ++ path.filter (fun s => ¬ Stays s) := by
  induction path generalizing p with
  | nil => exact (List.append_nil p).symm
  | cons segment path ih =>
    rw [List.mem_cons, not_or] at hup
    rw [locate_cons, ih hup.2]
    by_cases hs : Stays segment
    · rw [goTo_stays hs, List.filter_cons_of_neg (by simpa using hs)]
    · rw [goTo_names ⟨hs, Ne.symm hup.1⟩, List.filter_cons_of_pos (by simpa using hs),
        List.append_assoc]
      rfl

/-- No segment holds a zero byte, with which no path can be passed to the system. -/
def NulFree (path : FilePath) : Prop := ∀ segment ∈ path, '\x00' ∉ segment.toList

instance : DecidablePred NulFree := fun path => List.decidableBAll _ path

theorem NulFree.of_le {path path' : FilePath} (h : NulFree path') (hp : path <+: path') :
    NulFree path :=
  fun segment hs => h segment (hp.subset hs)

/-- A segment under which a node can stand. -/
def NodeName (segment : String) : Prop := Names segment ∧ '\x00' ∉ segment.toList

instance : DecidablePred NodeName := fun segment =>
  inferInstanceAs (Decidable (Names segment ∧ '\x00' ∉ segment.toList))

theorem NulFree.append {path : FilePath} {n : String} (h : NulFree path) (hn : '\x00' ∉ n.toList) :
    NulFree (path ++ [n]) := by
  intro segment hs
  rcases List.mem_append.1 hs with hs | hs
  · exact h segment hs
  · rw [List.mem_singleton.1 hs]
    exact hn

theorem rdropWhile_le (p : String → Bool) (path : FilePath) : path.rdropWhile p <+: path :=
  List.rdropWhile_prefix p path

theorem rdropWhile_append {p : String → Bool} {path rest : FilePath} (h : ∀ s ∈ rest, p s = true) :
    (path ++ rest).rdropWhile p = path.rdropWhile p := by
  induction rest using List.reverseRecOn with
  | nil => rw [List.append_nil]
  | append_singleton rest s ih =>
    rw [← List.append_assoc, List.rdropWhile_concat_pos _ _ _ (h s (by simp)),
      ih (fun t ht => h t (List.mem_append_left _ ht))]

/-- `Path::parent`. -/
def parentPath (path : FilePath) : Option FilePath :=
  let body := path.rdropWhile (fun s => Stays s)
  if body = [] then none else some (body.dropLast.rdropWhile (fun s => Stays s))

/-- A path that has a parent ends with a segment that moves and some that stay. -/
theorem parentPath_eq_some {path parent : FilePath} (h : parentPath path = some parent) :
    ∃ before segment rest, path = before ++ segment :: rest ∧ ¬ Stays segment ∧
      (∀ s ∈ rest, Stays s) ∧ parent = before.rdropWhile (fun s => Stays s) := by
  unfold parentPath at h
  by_cases hbody : path.rdropWhile (fun s => Stays s) = []
  · rw [if_pos hbody] at h
    cases h
  · rw [if_neg hbody] at h
    obtain rfl := Option.some.inj h
    refine ⟨_, (path.rdropWhile (fun s => Stays s)).getLast hbody,
      path.rtakeWhile (fun s => Stays s), ?_, ?_, ?_, rfl⟩
    · rw [← List.singleton_append, ← List.append_assoc, List.dropLast_append_getLast,
        List.rdropWhile_append_rtakeWhile]
    · simpa using List.rdropWhile_last_not (fun s => decide (Stays s)) path hbody
    · intro s hs
      simpa using List.mem_rtakeWhile_imp hs

theorem parentPath_le {path parent : FilePath} (h : parentPath path = some parent) :
    parent <+: path := by
  obtain ⟨before, segment, rest, rfl, -, -, rfl⟩ := parentPath_eq_some h
  exact (rdropWhile_le _ _).trans (List.prefix_append _ _)

theorem parentPath_lt {path parent : FilePath} (h : parentPath path = some parent) :
    parent.length < path.length := by
  obtain ⟨before, segment, rest, rfl, -, -, rfl⟩ := parentPath_eq_some h
  have hle := (rdropWhile_le (fun s => Stays s) before).length_le
  rw [List.length_append, List.length_cons]
  omega

/-- Below a path that ends with a name, the parent of a child is that path. -/
theorem parentPath_append {base path : FilePath} {n : String}
    (hbase : ∀ s ∈ base.getLast?, ¬ Stays s)
    (hn : path.filter (fun s => ¬ Stays s) = [n]) : parentPath (base ++ path) = some base := by
  obtain ⟨before, rest, rfl, hbefore, hname, hrest⟩ := List.filter_eq_cons_iff.1 hn
  have hstay : ∀ l : FilePath, (∀ s ∈ l, ¬ (decide (¬ Stays s)) = true) →
      ∀ s ∈ l, (fun s => decide (Stays s)) s = true := by
    intro l hl s hs
    simpa using hl s hs
  have hbody : (base ++ (before ++ n :: rest)).rdropWhile (fun s => Stays s) = (base ++ before) ++
      [n] := by
    rw [← List.singleton_append, ← List.append_assoc, ← List.append_assoc,
      rdropWhile_append (hstay rest (List.filter_eq_nil_iff.1 hrest)),
      List.rdropWhile_concat_neg _ _ _ (by simpa using hname)]
  have hparent : (base ++ before).rdropWhile (fun s => Stays s) = base := by
    rw [rdropWhile_append (hstay before hbefore), List.rdropWhile_eq_self_iff]
    intro hne
    simpa using hbase _ (List.getLast_mem_getLast? hne)
  unfold parentPath
  simp only [hbody, List.dropLast_concat, hparent]
  rw [if_neg (by simp)]

/-- `Path::ancestors`. -/
def ancestry (path : FilePath) : List FilePath :=
  path :: match _h : parentPath path with
    | none => []
    | some parent => ancestry parent
termination_by path.length
decreasing_by exact parentPath_lt _h

theorem ancestry_of_some {path parent : FilePath} (h : parentPath path = some parent) :
    ancestry path = path :: ancestry parent := by
  rw [ancestry]
  split
  · next hnone => rw [h] at hnone; cases hnone
  · next parent' hsome => rw [h] at hsome; rw [Option.some.inj hsome]

theorem ancestry_of_none {path : FilePath} (h : parentPath path = none) :
    ancestry path = [path] := by
  rw [ancestry]
  split
  · rfl
  · next parent hsome => rw [h] at hsome; cases hsome

theorem prefix_of_mem_ancestry {path c : FilePath} (h : c ∈ ancestry path) : c <+: path := by
  induction path using ancestry.induct with
  | case1 path ih =>
    cases hparent : parentPath path with
    | none =>
      rw [ancestry_of_none hparent, List.mem_singleton] at h
      subst h
      exact List.prefix_rfl
    | some parent =>
      rw [ancestry_of_some hparent, List.mem_cons] at h
      rcases h with rfl | h
      · exact List.prefix_rfl
      · exact (ih parent hparent h).trans (parentPath_le hparent)

/-- The segments of a path's text. -/
def segments (path : String) : FilePath := (path.toList.splitOn '/').map String.ofList

/-- `base.join(path)`: an absolute path replaces the base. -/
def join (base : FilePath) (path : String) : FilePath :=
  match path.toList with
  | '/' :: rest => segments (String.ofList rest)
  | _ => base ++ segments path

theorem join_of_relative {base : FilePath} {path : String} (h : path.toList.head? ≠ some '/') :
    join base path = base ++ segments path := by
  unfold join
  split
  · next rest htext =>
    rw [htext] at h
    exact absurd rfl h
  · rfl

/-- The nodes at their places. Every node but the root has a name and stands in a directory. -/
structure FileSystem where
  nodes : OrderedMap Place FileNode
  root : nodes.get? [] = some .dir
  parents : ∀ p n, nodes.get? (p ++ [n]) ≠ none → nodes.get? p = some .dir ∧ NodeName n

namespace FileSystem

/-- The file system that holds nothing but its root. -/
def new : FileSystem where
  nodes := OrderedMap.empty.set [] .dir
  root := rfl
  parents p n h := by
    rw [OrderedMap.get?_set_ne _ _ (by simp)] at h
    exact absurd rfl h

variable (fs : FileSystem)

def node (p : Place) : Option FileNode := fs.nodes.get? p

@[simp]
theorem node_root : fs.node [] = some .dir := fs.root

/-- What stands below something stands below a directory. -/
theorem dir_of_below {p : Place} {n : String} (h : fs.node (p ++ [n]) ≠ none) :
    fs.node p = some .dir :=
  (fs.parents p n h).1

theorem nodeName {p : Place} {n : String} (h : fs.node (p ++ [n]) ≠ none) : NodeName n :=
  (fs.parents p n h).2

theorem dir_of_le {p q : Place} (hpq : p <+: q) (hne : p ≠ q) (h : fs.node q ≠ none) :
    fs.node p = some .dir := by
  obtain ⟨rest, rfl⟩ := hpq
  induction rest using List.reverseRecOn with
  | nil => exact absurd (List.append_nil p).symm hne
  | append_singleton rest n ih =>
    rw [← List.append_assoc] at h
    have hup := fs.dir_of_below h
    by_cases hrest : rest = []
    · rw [hrest, List.append_nil] at hup
      exact hup
    · apply ih
      · intro heq
        exact hrest (List.self_eq_append_right.1 heq)
      · rw [hup]
        simp

/-! ## What stands where -/

/-- Where a path leads to, through directories. -/
def walk (p : Place) : FilePath → Except FileError Place
  | [] => .ok p
  | segment :: rest =>
    match fs.node p with
    | some .dir => walk (goTo p segment) rest
    | some (.file _) => .error .other
    | none => .error .notFound

theorem walk_eq_ok {p q : Place} {path : FilePath} (h : fs.walk p path = .ok q) :
    q = locate p path := by
  induction path generalizing p with
  | nil =>
    cases h
    rfl
  | cons segment rest ih =>
    rw [walk] at h
    split at h
    · exact ih h
    · cases h
    · cases h

theorem walk_append (p : Place) (path path' : FilePath) :
    fs.walk p (path ++ path') = (fs.walk p path).bind fun q => fs.walk q path' := by
  induction path generalizing p with
  | nil => rfl
  | cons segment rest ih =>
    rw [List.cons_append, walk, walk]
    split
    · exact ih _
    · rfl
    · rfl

/-- Nothing is found behind what is not there. -/
theorem walk_of_none {p : Place} (h : fs.node p = none) {path : FilePath} (hne : path ≠ []) :
    fs.walk p path = .error .notFound := by
  cases path with
  | nil => exact absurd rfl hne
  | cons segment rest => rw [walk, h]

theorem walk_mono {fs' : FileSystem} (hdirs : ∀ q, fs.node q = some .dir → fs'.node q = some .dir)
    {p q : Place} {path : FilePath} (h : fs.walk p path = .ok q) : fs'.walk p path = .ok q := by
  induction path generalizing p with
  | nil => exact h
  | cons segment rest ih =>
    rw [walk] at h ⊢
    split at h
    · next hdir =>
      rw [hdirs p hdir]
      exact ih h
    · cases h
    · cases h

/-- The place and the node of a path. -/
def resolve (path : FilePath) : Except FileError (Place × FileNode) :=
  if NulFree path then
    match fs.walk [] path with
    | .error e => .error e
    | .ok p =>
      match fs.node p with
      | none => .error .notFound
      | some x => .ok (p, x)
  else .error .other

theorem resolve_eq_ok {path : FilePath} {p : Place} {x : FileNode}
    (h : fs.resolve path = .ok (p, x)) :
    NulFree path ∧ fs.walk [] path = .ok p ∧ fs.node p = some x := by
  unfold resolve at h
  split at h
  · next hnul =>
    cases hwalk : fs.walk [] path with
    | error e =>
      rw [hwalk] at h
      cases h
    | ok q =>
      simp only [hwalk] at h
      cases hnode : fs.node q with
      | none =>
        rw [hnode] at h
        cases h
      | some y =>
        rw [hnode] at h
        cases h
        exact ⟨hnul, rfl, hnode⟩
  · cases h

theorem resolve_of_walk {path : FilePath} {p : Place} {x : FileNode} (hnul : NulFree path)
    (hwalk : fs.walk [] path = .ok p) (hnode : fs.node p = some x) :
    fs.resolve path = .ok (p, x) := by
  rw [resolve, if_pos hnul, hwalk]
  simp only [hnode]

/-- A path to a directory leads there while the directories stay. -/
theorem resolve_dir_mono {fs' : FileSystem}
    (hdirs : ∀ q, fs.node q = some .dir → fs'.node q = some .dir)
    {path : FilePath} {p : Place} (h : fs.resolve path = .ok (p, .dir)) :
    fs'.resolve path = .ok (p, .dir) := by
  obtain ⟨hnul, hwalk, hdir⟩ := fs.resolve_eq_ok h
  exact fs'.resolve_of_walk hnul (fs.walk_mono hdirs hwalk) (hdirs p hdir)

/-- What a name in a directory stands for. -/
theorem resolve_append {path : FilePath} {n : String} (hn : NodeName n) {p : Place} {x : FileNode} :
    fs.resolve (path ++ [n]) = .ok (p, x) ↔ ∃ d, fs.resolve path = .ok (d, .dir) ∧ p = d ++ [n] ∧
      fs.node p = some x := by
  constructor
  · intro h
    obtain ⟨hnul, hwalk, hnode⟩ := fs.resolve_eq_ok h
    have hnul' : NulFree path := hnul.of_le (List.prefix_append _ _)
    rw [walk_append] at hwalk
    cases hd : fs.walk [] path with
    | error e =>
      rw [hd] at hwalk
      cases hwalk
    | ok d =>
      rw [hd] at hwalk
      change fs.walk d [n] = _ at hwalk
      rw [walk] at hwalk
      split at hwalk
      · next hdir =>
        cases hwalk
        rw [goTo_names hn.1] at hnode ⊢
        exact ⟨d, fs.resolve_of_walk hnul' hd hdir, rfl, hnode⟩
      · cases hwalk
      · cases hwalk
  · rintro ⟨d, hd, rfl, hnode⟩
    obtain ⟨hnul, hwalk, hdir⟩ := fs.resolve_eq_ok hd
    apply fs.resolve_of_walk (hnul.append hn.2) _ hnode
    rw [walk_append, hwalk]
    change fs.walk d [n] = _
    rw [walk, hdir]
    exact congrArg Except.ok (goTo_names hn.1 d)

/-- `path.exists()`. -/
def «exists» (path : FilePath) : Bool := (fs.resolve path).isOk

/-- `path.is_dir()`. -/
def isDir (path : FilePath) : Bool :=
  match fs.resolve path with
  | .ok (_, .dir) => true
  | _ => false

/-- `path.is_file()`. -/
def isFile (path : FilePath) : Bool :=
  match fs.resolve path with
  | .ok (_, .file _) => true
  | _ => false

theorem isDir_iff {path : FilePath} :
    fs.isDir path = true ↔ ∃ p, fs.resolve path = .ok (p, .dir) := by
  unfold isDir
  split
  · next p h => exact ⟨fun _ => ⟨p, h⟩, fun _ => rfl⟩
  · next h => exact ⟨fun hfalse => absurd hfalse Bool.false_ne_true, fun ⟨p, hp⟩ => (h p hp).elim⟩

theorem isFile_iff {path : FilePath} :
    fs.isFile path = true ↔ ∃ p bytes, fs.resolve path = .ok (p, .file bytes) := by
  unfold isFile
  split
  · next p bytes h => exact ⟨fun _ => ⟨p, bytes, h⟩, fun _ => rfl⟩
  · next h =>
      exact ⟨fun hfalse => absurd hfalse Bool.false_ne_true, fun ⟨p, bytes, hp⟩ =>
      (h p bytes hp).elim⟩

/-- `fs::read`. -/
def read (path : FilePath) : Except FileError (List UInt8) :=
  match fs.resolve path with
  | .ok (_, .file bytes) => .ok bytes
  | .ok (_, .dir) => .error .other
  | .error e => .error e

/-- The names that `fs::read_dir` lists at a place. -/
def names (p : Place) : List String :=
  fs.nodes.keys.filterMap fun q => if q.dropLast = p then q.getLast? else none

theorem mem_names {p : Place} {n : String} : n ∈ fs.names p ↔ fs.node (p ++ [n]) ≠ none := by
  rw [names, List.mem_filterMap]
  constructor
  · rintro ⟨q, hq, hn⟩
    split at hn
    · next hlast =>
      obtain ⟨before, rfl⟩ := List.getLast?_eq_some_iff.1 hn
      rw [List.dropLast_concat] at hlast
      subst hlast
      obtain ⟨e, he, hkey⟩ := List.mem_map.1 hq
      rw [node, ← hkey, (OrderedMap.get?_eq_some_iff _).2 he]
      simp
    · cases hn
  · intro hsome
    obtain ⟨x, hx⟩ := Option.ne_none_iff_exists'.1 hsome
    refine ⟨p ++ [n], ?_, ?_⟩
    · exact List.mem_map.2 ⟨_, (OrderedMap.get?_eq_some_iff _).1 hx, rfl⟩
    · rw [List.dropLast_concat, if_pos rfl, List.getLast?_concat]

/-! ## Changes of the nodes -/

/-- A new or another node in a directory; a directory stays one. -/
def put (p : Place) (n : String) (x : FileNode) (hdir : fs.node p = some .dir) (hname : NodeName n)
    (hkeep : fs.node (p ++ [n]) = some .dir → x = .dir) : FileSystem where
  nodes := fs.nodes.set (p ++ [n]) x
  root := by
    rw [OrderedMap.get?_set_ne]
    · exact fs.root
    · simp
  parents q m hsome := by
    rw [OrderedMap.get?_set] at hsome ⊢
    by_cases hm : q ++ [m] = p ++ [n]
    · obtain ⟨rfl, hmn⟩ := List.append_inj' hm rfl
      cases hmn
      rw [if_neg (by simp)]
      exact ⟨hdir, hname⟩
    · rw [if_neg hm] at hsome
      obtain ⟨hup, hnode⟩ := fs.parents q m hsome
      refine ⟨?_, hnode⟩
      by_cases hq : q = p ++ [n]
      · rw [if_pos hq, hkeep (hq ▸ hup)]
      · rw [if_neg hq]
        exact hup

theorem node_put {p : Place} {n : String} {x : FileNode} (hdir : fs.node p = some .dir)
    (hname : NodeName n) (hkeep : fs.node (p ++ [n]) = some .dir → x = .dir) (q : Place) :
    (fs.put p n x hdir hname hkeep).node q = if q = p ++ [n] then some x else fs.node q :=
  OrderedMap.get?_set _ _ _ _

/-- Some places are cleared, with all that is below them. -/
def without (gone : Place → Bool) (hroot : gone [] = false)
    (hbelow : ∀ q n, gone q = true → gone (q ++ [n]) = true) : FileSystem where
  nodes := fs.nodes.filter fun q _ => !gone q
  root := by
    rw [OrderedMap.get?_filter, fs.root, hroot]
    rfl
  parents q m hsome := by
    rw [OrderedMap.get?_filter] at hsome ⊢
    have hkept : gone (q ++ [m]) = false := by
      by_contra hgone
      rw [Bool.not_eq_false] at hgone
      rw [hgone] at hsome
      exact hsome (by simp)
    have hup : gone q = false := by
      by_contra hgone
      rw [Bool.not_eq_false] at hgone
      rw [hbelow q m hgone] at hkept
      cases hkept
    have hnode : fs.nodes.get? (q ++ [m]) ≠ none := by
      intro hnone
      rw [hnone] at hsome
      exact hsome rfl
    obtain ⟨hdir, hname⟩ := fs.parents q m hnode
    rw [hdir, hup]
    exact ⟨rfl, hname⟩

theorem node_without {gone : Place → Bool} (hroot : gone [] = false)
    (hbelow : ∀ q n, gone q = true → gone (q ++ [n]) = true) (q : Place) :
    (fs.without gone hroot hbelow).node q = if gone q = true then none else fs.node q := by
  rw [node, without, OrderedMap.get?_filter]
  cases hnode : fs.nodes.get? q <;> cases gone q <;> simp [node, hnode]

/-- A place is strictly below another. -/
def below (p q : Place) : Bool := p.isPrefixOf q && q ≠ p

theorem below_iff {p q : Place} : below p q = true ↔ p <+: q ∧ q ≠ p := by
  simp [below]

theorem below_append {p q : Place} (h : p <+: q) (n : String) : below p (q ++ [n]) = true := by
  rw [below_iff]
  refine ⟨h.trans (List.prefix_append _ _), ?_⟩
  rintro rfl
  have hlength := h.length_le
  rw [List.length_append, List.length_singleton] at hlength
  omega

/-- Everything below a place is removed. -/
def clear (p : Place) : FileSystem :=
  fs.without (below p) (by cases p <;> rfl) (fun _ n hq => below_append (below_iff.1 hq).1 n)

theorem node_clear (p q : Place) :
    (fs.clear p).node q = if below p q = true then none else fs.node q :=
  node_without _ _ _ q

/-- A place is removed with everything below it. -/
def remove (p : Place) (hp : p ≠ []) : FileSystem :=
  fs.without p.isPrefixOf (by cases p with | nil => exact absurd rfl hp | cons => rfl)
    (fun q n hq => List.isPrefixOf_iff_prefix.2
      (( List.isPrefixOf_iff_prefix.1 hq).trans (List.prefix_append _ _)))

theorem node_remove {p : Place} (hp : p ≠ []) (q : Place) :
    (fs.remove p hp).node q = if p <+: q then none else fs.node q := by
  rw [remove, node_without]
  simp

/-! ## A new node -/

/-- A directory and a name in it, for a new node. -/
structure Slot where
  dir : Place
  name : String
  isDir : fs.node dir = some .dir
  nodeName : NodeName name

/-- The place of a slot. -/
abbrev Slot.place {fs : FileSystem} (s : Slot fs) : Place := s.dir ++ [s.name]

/-- The slot of a path; a path that ends with `.`, `..` or a slash names none. -/
def slot (path : FilePath) : Except FileError (Option (Slot fs)) :=
  if NulFree path then
    match path.getLast? with
    | none => .ok none
    | some n =>
      match fs.walk [] path.dropLast with
      | .error e => .error e
      | .ok p =>
        match h : fs.node p with
        | none => .error .notFound
        | some (.file _) => .error .other
        | some .dir => .ok (if hn : NodeName n then some ⟨p, n, h, hn⟩ else none)
  else .error .other

theorem slot_eq_some {path : FilePath} {s : Slot fs} (h : fs.slot path = .ok (some s)) :
    NulFree path ∧ s.place = locate [] path ∧ fs.walk [] path = .ok s.place := by
  unfold slot at h
  split at h
  · next hnul =>
    split at h
    · cases h
    · next n hlast =>
      obtain ⟨before, rfl⟩ := List.getLast?_eq_some_iff.1 hlast
      rw [List.dropLast_concat] at h
      split at h
      · cases h
      · next p hwalk =>
        split at h
        · cases h
        · cases h
        · next hdir =>
          by_cases hn : NodeName n
          · rw [dif_pos hn] at h
            cases h
            have hto : fs.walk [] (before ++ [n]) = .ok (p ++ [n]) := by
              rw [walk_append, hwalk]
              change fs.walk p [n] = _
              rw [walk, hdir]
              exact congrArg Except.ok (goTo_names hn.1 p)
            exact ⟨hnul, fs.walk_eq_ok hto, hto⟩
          · rw [dif_neg hn] at h
            cases h
  · cases h

/-- A path whose slot is not found leads nowhere. -/
theorem walk_of_slot_notFound {path : FilePath} (h : fs.slot path = .error .notFound) {p : Place}
    (hwalk : fs.walk [] path = .ok p) : False := by
  unfold slot at h
  split at h
  · split at h
    · cases h
    · next n hlast =>
      obtain ⟨before, rfl⟩ := List.getLast?_eq_some_iff.1 hlast
      rw [List.dropLast_concat] at h
      rw [walk_append] at hwalk
      cases hbefore : fs.walk [] before with
      | error e =>
        rw [hbefore] at hwalk
        cases hwalk
      | ok q =>
        rw [hbefore] at hwalk
        simp only [hbefore] at h
        split at h
        · next hnone =>
          change fs.walk q [n] = _ at hwalk
          rw [fs.walk_of_none hnone (List.cons_ne_nil _ _)] at hwalk
          cases hwalk
        · cases h
        · cases h
  · cases h

/-- What is not there is not found by a path that leads through it. -/
theorem slot_notFound {path before : FilePath} {n : String} {p : Place}
    (hnul : NulFree (before ++ [n]))
    (hwalk : fs.walk [] path = .ok p) (hnone : fs.node p = none) (hstarts : path <+: before) :
    fs.slot (before ++ [n]) = .error .notFound := by
  have hbefore : fs.walk [] before = .error .notFound ∨
      fs.walk [] before = .ok p ∧ before = path := by
    obtain ⟨rest, rfl⟩ := hstarts
    by_cases hrest : rest = []
    · right
      rw [hrest, List.append_nil]
      exact ⟨hwalk, rfl⟩
    · left
      rw [walk_append, hwalk]
      exact fs.walk_of_none hnone hrest
  unfold slot
  rw [if_pos hnul, List.getLast?_concat]
  simp only [List.dropLast_concat]
  rcases hbefore with hbefore | ⟨hbefore, -⟩
  · rw [hbefore]
  · rw [hbefore]
    simp only
    split
    · rfl
    · next h => rw [hnone] at h; cases h
    · next h => rw [hnone] at h; cases h

/-- The path without the slashes at its end. -/
def withoutSlash (path : FilePath) : FilePath := path.rdropWhile (· = "")

/-- `mkdir`, which permits slashes at the end. -/
def mkdir (path : FilePath) : Except FileError FileSystem :=
  match fs.slot (withoutSlash path) with
  | .error e => .error e
  | .ok none => .error .alreadyExists
  | .ok (some s) =>
    if fs.node s.place = none then .ok (fs.put s.dir s.name .dir s.isDir s.nodeName (fun _ => rfl))
    else .error .alreadyExists

/-- `fs::write`. -/
def write (path : FilePath) (bytes : List UInt8) : Except FileError FileSystem :=
  match fs.slot path with
  | .error e => .error e
  | .ok none => .error .other
  | .ok (some s) =>
    if h : fs.node s.place = some .dir then .error .other
    else .ok (fs.put s.dir s.name (.file bytes) s.isDir s.nodeName (fun hdir => absurd hdir h))

/-- A file can be written under this path. -/
def CanWrite (path : FilePath) : Prop :=
  match fs.slot path with
  | .ok (some s) => fs.node s.place ≠ some .dir
  | _ => False

instance (path : FilePath) : Decidable (fs.CanWrite path) := by
  unfold CanWrite
  split <;> infer_instance

/-- A written file changes its own place. -/
theorem write_of_canWrite {path : FilePath} (h : fs.CanWrite path) (bytes : List UInt8) :
    ∃ fs', fs.write path bytes = .ok fs' ∧ fs.node (locate [] path) ≠ some .dir ∧
      ∀ q, fs'.node q = if q = locate [] path then some (.file bytes) else fs.node q := by
  unfold CanWrite at h
  unfold write
  cases hslot : fs.slot path with
  | error e =>
    rw [hslot] at h
    exact h.elim
  | ok s =>
    cases s with
    | none =>
      rw [hslot] at h
      exact h.elim
    | some s =>
      rw [hslot] at h
      have hplace := (fs.slot_eq_some hslot).2.1
      refine ⟨_, dif_neg h, hplace ▸ h, fun q => ?_⟩
      rw [node_put, ← hplace]

/-- In a directory a file can be written under every name that is not one of a directory. -/
theorem canWrite_append {path : FilePath} {p : Place} {n : String}
    (h : fs.resolve path = .ok (p, .dir))
    (hn : NodeName n) : fs.CanWrite (path ++ [n]) ↔ fs.node (p ++ [n]) ≠ some .dir := by
  obtain ⟨hfree, hwalk, hdir⟩ := fs.resolve_eq_ok h
  have hslot : fs.slot (path ++ [n]) = .ok (some ⟨p, n, hdir, hn⟩) := by
    rw [slot, if_pos (hfree.append hn.2), List.getLast?_concat]
    simp only [List.dropLast_concat, hwalk]
    split
    · next h => rw [h] at hdir; cases hdir
    · next h => rw [h] at hdir; cases hdir
    · rw [dif_pos hn]
  rw [CanWrite, hslot]

/-- Where a file can be written, the path before its name leads to a directory. -/
theorem resolve_of_canWrite {path : FilePath} {n : String} (h : fs.CanWrite (path ++ [n])) :
    ∃ p, fs.resolve path = .ok (p, .dir) := by
  unfold CanWrite slot at h
  split at h
  · next s hslot =>
    split at hslot
    · next hnul =>
      rw [List.getLast?_concat] at hslot
      simp only [List.dropLast_concat] at hslot
      cases hwalk : fs.walk [] path with
      | error e =>
        rw [hwalk] at hslot
        cases hslot
      | ok p =>
        simp only [hwalk] at hslot
        split at hslot
        · cases hslot
        · cases hslot
        · next hdir =>
            exact ⟨p, fs.resolve_of_walk (hnul.of_le (List.prefix_append _ _)) hwalk hdir⟩
    · cases hslot
  · exact h.elim

theorem write_of_not_canWrite {path : FilePath} (h : ¬ fs.CanWrite path) (bytes : List UInt8) :
    ∃ e, fs.write path bytes = .error e := by
  unfold CanWrite at h
  unfold write
  cases hslot : fs.slot path with
  | error e => exact ⟨e, rfl⟩
  | ok s =>
    cases s with
    | none => exact ⟨_, rfl⟩
    | some s =>
      rw [hslot] at h
      exact ⟨_, dif_pos (not_not.1 h)⟩

/-- A directory can be made under this path. -/
def CanMkdir (path : FilePath) : Prop :=
  match fs.slot (withoutSlash path) with
  | .ok (some s) => fs.node s.place = none
  | _ => False

instance (path : FilePath) : Decidable (fs.CanMkdir path) := by
  unfold CanMkdir
  split <;> infer_instance

theorem withoutSlash_append (path : FilePath) :
    ∃ rest, path = withoutSlash path ++ rest ∧ ∀ segment ∈ rest, segment = "" := by
  refine ⟨path.rtakeWhile (· = ""), List.rdropWhile_append_rtakeWhile.symm, fun segment hs => ?_⟩
  simpa using List.mem_rtakeWhile_imp hs

theorem locate_withoutSlash (path : FilePath) : locate [] (withoutSlash path) = locate [] path := by
  obtain ⟨rest, hpath, hrest⟩ := withoutSlash_append path
  conv => rhs; rw [hpath]
  rw [locate_append, locate_stays (fun segment hs => Or.inl (hrest segment hs))]

/-- A made directory is new at its place. -/
theorem mkdir_of_canMkdir {path : FilePath} (h : fs.CanMkdir path) :
    ∃ fs', fs.mkdir path = .ok fs' ∧ fs.node (locate [] path) = none ∧
      ∀ q, fs'.node q = if q = locate [] path then some .dir else fs.node q := by
  unfold CanMkdir at h
  unfold mkdir
  cases hslot : fs.slot (withoutSlash path) with
  | error e =>
    rw [hslot] at h
    exact h.elim
  | ok s =>
    cases s with
    | none =>
      rw [hslot] at h
      exact h.elim
    | some s =>
      rw [hslot] at h
      have hplace := (fs.slot_eq_some hslot).2.1
      rw [locate_withoutSlash] at hplace
      refine ⟨_, if_pos h, hplace ▸ h, fun q => ?_⟩
      rw [node_put, ← hplace]

theorem mkdir_of_not_canMkdir {path : FilePath} (h : ¬ fs.CanMkdir path) :
    ∃ e, fs.mkdir path = .error e := by
  unfold CanMkdir at h
  unfold mkdir
  cases hslot : fs.slot (withoutSlash path) with
  | error e => exact ⟨e, rfl⟩
  | ok s =>
    cases s with
    | none => exact ⟨_, rfl⟩
    | some s =>
      rw [hslot] at h
      exact ⟨_, if_neg h⟩

theorem isDir_of_mkdir_notFound {path : FilePath} (h : fs.mkdir path = .error .notFound) :
    fs.isDir path = false := by
  have hslot : fs.slot (withoutSlash path) = .error .notFound := by
    unfold mkdir at h
    split at h
    · next e he => cases h; exact he
    · cases h
    · split at h <;> cases h
  unfold isDir
  split
  · next p hresolve =>
    exfalso
    obtain ⟨-, hwalk, -⟩ := fs.resolve_eq_ok hresolve
    obtain ⟨rest, hpath, -⟩ := withoutSlash_append path
    rw [hpath, walk_append] at hwalk
    cases hfirst : fs.walk [] (withoutSlash path) with
    | error e =>
      rw [hfirst] at hwalk
      cases hwalk
    | ok q => exact fs.walk_of_slot_notFound hslot hfirst
  · rfl

/-! ## The directories of a path -/

/-- The directory is made, or it is there. -/
def ensureDir (path : FilePath) : Except FileError Unit × FileSystem :=
  match fs.mkdir path with
  | .ok fs' => (.ok (), fs')
  | .error e => if fs.isDir path then (.ok (), fs) else (.error e, fs)

/-- The first directory of the list is made, when it is not found after those that follow. -/
def createAlong : List FilePath → Except FileError Unit × FileSystem
  | [] => (.error .other, fs)
  | path :: parents =>
    match fs.mkdir path with
    | .error .notFound =>
      match createAlong parents with
      | (.ok (), fs') => fs'.ensureDir path
      | failed => failed
    | _ => fs.ensureDir path

/-- `fs::create_dir_all`. -/
def createDirAll (path : FilePath) : Except FileError Unit × FileSystem :=
  fs.createAlong (ancestry path)

/-- `create_dir_all` makes a directory. -/
def Creates (path : FilePath) : Prop := NulFree path ∧ ∃ c ∈ ancestry path, fs.CanMkdir c

instance (path : FilePath) : Decidable (fs.Creates path) :=
  inferInstanceAs (Decidable (NulFree path ∧ ∃ c ∈ ancestry path, fs.CanMkdir c))

theorem ensureDir_of_not_canMkdir {path : FilePath} (h : ¬ fs.CanMkdir path) :
    (fs.ensureDir path).2 = fs ∧ ((fs.ensureDir path).1 = .ok () ↔ fs.isDir path = true) := by
  obtain ⟨e, he⟩ := fs.mkdir_of_not_canMkdir h
  unfold ensureDir
  rw [he]
  by_cases hdir : fs.isDir path = true
  · simp [hdir]
  · simp [hdir]

/-- While a directory above can be made, what is below is not found. -/
theorem mkdir_notFound {path parent c : FilePath} (hnul : NulFree path)
    (hparent : parentPath path = some parent)
    (hc : c ∈ ancestry parent) (hmake : fs.CanMkdir c) : fs.mkdir path = .error .notFound := by
  obtain ⟨before, segment, rest, hpath, hmoves, hstay, rfl⟩ := parentPath_eq_some hparent
  -- without its slashes the path still ends behind what is before the segment
  obtain ⟨init, last, hinit, hbefore⟩ : ∃ init last, withoutSlash path = init ++ [last] ∧
    before <+: init := by
    have hne : segment ≠ "" := fun h => hmoves (Or.inl h)
    rw [hpath, withoutSlash]
    clear hpath hnul hparent
    induction rest using List.reverseRecOn with
    | nil =>
      rw [List.rdropWhile_concat_neg _ _ _ (by simpa using hne)]
      exact ⟨before, segment, rfl, List.prefix_rfl⟩
    | append_singleton rest s ih =>
      rw [← List.cons_append, ← List.append_assoc]
      by_cases hs : s = ""
      · rw [List.rdropWhile_concat_pos _ _ _ (by simpa using hs)]
        exact ih fun t ht => hstay t (List.mem_append_left _ ht)
      · rw [List.rdropWhile_concat_neg _ _ _ (by simpa using hs)]
        exact ⟨before ++ segment :: rest, s, rfl, List.prefix_append _ _⟩
  unfold CanMkdir at hmake
  split at hmake
  · next s hslot =>
    obtain ⟨-, -, hwalk⟩ := fs.slot_eq_some hslot
    have hstarts : withoutSlash c <+: init :=
      (rdropWhile_le _ _).trans ((prefix_of_mem_ancestry hc).trans
        ((rdropWhile_le _ _).trans hbefore))
    have hnul' : NulFree (init ++ [last]) := by
      rw [← hinit]
      exact hnul.of_le (rdropWhile_le _ _)
    unfold mkdir
    rw [hinit, fs.slot_notFound hnul' hwalk hmake hstarts]
  · exact hmake.elim

theorem createDirAll_of_some {path parent : FilePath} (h : parentPath path = some parent)
    (hmkdir : fs.mkdir path = .error .notFound) :
    fs.createDirAll path =
      match fs.createDirAll parent with
      | (.ok (), fs') => fs'.ensureDir path
      | failed => failed := by
  rw [createDirAll, ancestry_of_some h, createAlong, hmkdir]
  rfl

theorem createDirAll_of_none {path : FilePath} (h : parentPath path = none)
    (hmkdir : fs.mkdir path = .error .notFound) : fs.createDirAll path = (.error .other, fs) := by
  rw [createDirAll, ancestry_of_none h, createAlong, hmkdir]
  rfl

theorem createDirAll_of_found {path : FilePath} (hmkdir : fs.mkdir path ≠ .error .notFound) :
    fs.createDirAll path = fs.ensureDir path := by
  rw [createDirAll]
  obtain ⟨parents, hpath⟩ : ∃ parents, ancestry path = path :: parents := by
    rw [ancestry]
    exact ⟨_, rfl⟩
  rw [hpath, createAlong]
  split
  · next h => exact absurd h hmkdir
  · rfl

/-- Where no directory can be made, none is, and the call succeeds when the path is one. -/
theorem createDirAll_of_not_creates {path : FilePath} (h : ¬ fs.Creates path) :
    (fs.createDirAll path).2 = fs ∧ ((fs.createDirAll path).1 = .ok () ↔ fs.isDir path = true) := by
  by_cases hnul : NulFree path
  · have hmake : ∀ c ∈ ancestry path, ¬ fs.CanMkdir c := fun c hc hmk => h ⟨hnul, c, hc, hmk⟩
    clear h
    induction path using ancestry.induct with
    | case1 path ih =>
      by_cases hmkdir : fs.mkdir path = .error .notFound
      · have hnot := fs.isDir_of_mkdir_notFound hmkdir
        cases hparent : parentPath path with
        | none =>
          rw [fs.createDirAll_of_none hparent hmkdir, hnot]
          simp
        | some parent =>
          rw [ancestry_of_some hparent] at hmake
          obtain ⟨hsame, -⟩ := ih parent hparent (hnul.of_le (parentPath_le hparent))
            (fun c hc => hmake c (List.mem_cons_of_mem _ hc))
          rw [fs.createDirAll_of_some hparent hmkdir]
          have hensure := fs.ensureDir_of_not_canMkdir (hmake path List.mem_cons_self)
          cases hup : fs.createDirAll parent with
          | mk result fs' =>
            rw [hup] at hsame
            subst hsame
            cases result with
            | ok u => exact hensure
            | error e => simp [hnot]
      · rw [fs.createDirAll_of_found hmkdir]
        apply fs.ensureDir_of_not_canMkdir
        apply hmake
        rw [ancestry]
        exact List.mem_cons_self
  · have hslot : fs.slot (withoutSlash path) = .error .other := by
      unfold slot
      rw [if_neg]
      intro hfree
      apply hnul
      obtain ⟨rest, hpath, hrest⟩ := withoutSlash_append path
      rw [hpath]
      intro segment hs
      rcases List.mem_append.1 hs with hs | hs
      · exact hfree segment hs
      · rw [hrest segment hs]
        simp
    have hmkdir : fs.mkdir path = .error .other := by
      unfold mkdir
      rw [hslot]
    rw [fs.createDirAll_of_found (by rw [hmkdir]; simp)]
    apply fs.ensureDir_of_not_canMkdir
    unfold CanMkdir
    rw [hslot]
    exact id

theorem ensureDir_changes (path : FilePath) (q : Place) :
    (fs.ensureDir path).2.node q = fs.node q ∨
      fs.node q = none ∧ (fs.ensureDir path).2.node q = some .dir ∧ q = locate [] path := by
  by_cases hmake : fs.CanMkdir path
  · obtain ⟨fs', hok, hnone, hnode⟩ := fs.mkdir_of_canMkdir hmake
    unfold ensureDir
    rw [hok]
    change fs'.node q = _ ∨ _ ∧ fs'.node q = _ ∧ _
    rw [hnode]
    by_cases hq : q = locate [] path
    · rw [if_pos hq]
      exact Or.inr ⟨hq ▸ hnone, rfl, hq⟩
    · rw [if_neg hq]
      exact Or.inl rfl
  · rw [(fs.ensureDir_of_not_canMkdir hmake).1]
    exact Or.inl rfl

/-- What `create_dir_all` changes: it makes directories at the places of the path and of its
parents. -/
theorem createDirAll_changes (path : FilePath) (q : Place) :
    (fs.createDirAll path).2.node q = fs.node q ∨
      fs.node q = none ∧ (fs.createDirAll path).2.node q = some .dir ∧
        ∃ c ∈ ancestry path, q = locate [] c := by
  induction path using ancestry.induct with
  | case1 path ih =>
    have hself : path ∈ ancestry path := by
      rw [ancestry]
      exact List.mem_cons_self
    by_cases hmkdir : fs.mkdir path = .error .notFound
    · cases hparent : parentPath path with
      | none =>
        rw [fs.createDirAll_of_none hparent hmkdir]
        exact Or.inl rfl
      | some parent =>
        have hup := ih parent hparent
        rw [fs.createDirAll_of_some hparent hmkdir, ancestry_of_some hparent]
        cases hresult : fs.createDirAll parent with
        | mk result fs' =>
          rw [hresult] at hup
          have hup' : fs'.node q = fs.node q ∨ fs.node q = none ∧ fs'.node q = some .dir ∧
              ∃ c ∈ path :: ancestry parent, q = locate [] c := by
            obtain hsame | ⟨hnone, hdir, c, hc, hq⟩ := hup
            · exact Or.inl hsame
            · exact Or.inr ⟨hnone, hdir, c, List.mem_cons_of_mem _ hc, hq⟩
          cases result with
          | error e => exact hup'
          | ok u =>
            obtain hlast | ⟨hnone, hdir, hq⟩ := fs'.ensureDir_changes path q
            · simp only [hlast]
              exact hup'
            · obtain hsame | ⟨-, hdir', -⟩ := hup'
              · exact Or.inr ⟨hsame ▸ hnone, hdir, path, List.mem_cons_self, hq⟩
              · rw [hnone] at hdir'
                cases hdir'
    · rw [fs.createDirAll_of_found hmkdir]
      obtain hsame | ⟨hnone, hdir, hq⟩ := fs.ensureDir_changes path q
      · exact Or.inl hsame
      · exact Or.inr ⟨hnone, hdir, path, hself, hq⟩

/-- Where a directory can be made, one is. -/
theorem createDirAll_of_creates {path : FilePath} (h : fs.Creates path) :
    ∃ q, fs.node q = none ∧ (fs.createDirAll path).2.node q = some .dir := by
  obtain ⟨hnul, c, hc, hmake⟩ := h
  induction path using ancestry.induct with
  | case1 path ih =>
    by_cases hself : fs.CanMkdir path
    · obtain ⟨fs', hok, hnone, hnode⟩ := fs.mkdir_of_canMkdir hself
      refine ⟨locate [] path, hnone, ?_⟩
      rw [fs.createDirAll_of_found (by rw [hok]; simp), ensureDir, hok]
      change fs'.node _ = _
      rw [hnode, if_pos rfl]
    · cases hparent : parentPath path with
      | none =>
        rw [ancestry_of_none hparent, List.mem_singleton] at hc
        rw [hc] at hmake
        exact absurd hmake hself
      | some parent =>
        rw [ancestry_of_some hparent, List.mem_cons] at hc
        obtain rfl | hc := hc
        · exact absurd hmake hself
        obtain ⟨q, hnone, hdir⟩ := ih parent hparent (hnul.of_le (parentPath_le hparent)) hc
        refine ⟨q, hnone, ?_⟩
        rw [fs.createDirAll_of_some hparent (fs.mkdir_notFound hnul hparent hc hmake)]
        cases hresult : fs.createDirAll parent with
        | mk result fs' =>
          rw [hresult] at hdir
          cases result with
          | error e => exact hdir
          | ok u =>
            change (fs'.ensureDir path).2.node q = _
            obtain hsame | ⟨hnone', -, -⟩ := fs'.ensureDir_changes path q
            · rw [hsame]
              exact hdir
            · rw [hnone'] at hdir
              cases hdir

/-! ## Removing a directory -/

/-- `rmdir`. -/
def rmdir (path : FilePath) : Except FileError FileSystem :=
  match fs.slot (withoutSlash path) with
  | .error e => .error e
  | .ok none => .error .other
  | .ok (some s) =>
    match fs.node s.place with
    | none => .error .notFound
    | some (.file _) => .error .other
    | some .dir =>
      if fs.names s.place = [] then .ok (fs.remove s.place (by simp)) else .error .other

/-- `fs::remove_dir_all`: a directory is emptied and then removed, unless its path refuses that. -/
def removeDirAll (path : FilePath) : Except FileError Unit × FileSystem :=
  match fs.resolve path with
  | .error e => (.error e, fs)
  | .ok (_, .file _) => (.error .other, fs)
  | .ok (p, .dir) =>
    match (fs.clear p).rmdir path with
    | .ok fs' => (.ok (), fs')
    | .error .notFound => (.ok (), fs.clear p)
    | .error e => (.error e, fs.clear p)

theorem rmdir_eq_ok {path : FilePath} {fs' : FileSystem} (h : fs.rmdir path = .ok fs') (q : Place) :
    fs'.node q = if locate [] path <+: q then none else fs.node q := by
  unfold rmdir at h
  split at h
  · cases h
  · cases h
  · next s hslot =>
    have hplace := (fs.slot_eq_some hslot).2.1
    rw [locate_withoutSlash] at hplace
    split at h
    · cases h
    · cases h
    · split at h
      · cases h
        rw [node_remove, hplace]
      · cases h

/-- A path that leads to the root, or ends with `.` or `..`, and so names no node to remove. -/
def Refuses (path : FilePath) : Prop := ∀ n ∈ (withoutSlash path).getLast?, ¬ NodeName n

instance : DecidablePred Refuses := fun path =>
  inferInstanceAs (Decidable (∀ n ∈ (withoutSlash path).getLast?, ¬ NodeName n))

/-- The slot of a path that leads to something. -/
theorem slot_of_resolve {path : FilePath} {p : Place} {x : FileNode}
    (h : fs.resolve path = .ok (p, x)) :
    if Refuses path then fs.slot (withoutSlash path) = .ok none
    else ∃ s, fs.slot (withoutSlash path) = .ok (some s) ∧ s.place = p := by
  obtain ⟨hnul, hwalk, -⟩ := fs.resolve_eq_ok h
  have hp := fs.walk_eq_ok hwalk
  obtain ⟨rest, hpath, -⟩ := withoutSlash_append path
  have hnul' : NulFree (withoutSlash path) := hnul.of_le (rdropWhile_le _ _)
  cases hlast : (withoutSlash path).getLast? with
  | none =>
    rw [if_pos (by simp [Refuses, hlast]), slot, if_pos hnul', hlast]
  | some n =>
    obtain ⟨init, hinit⟩ := List.getLast?_eq_some_iff.1 hlast
    -- the path goes on behind what is before its last segment, so that is a directory
    obtain ⟨d, hd, hdir⟩ : ∃ d, fs.walk [] init = .ok d ∧ fs.node d = some .dir := by
      rw [hpath, hinit, List.append_assoc, walk_append] at hwalk
      cases hd : fs.walk [] init with
      | error e =>
        rw [hd] at hwalk
        cases hwalk
      | ok d =>
        rw [hd] at hwalk
        change fs.walk d (n :: rest) = _ at hwalk
        rw [walk] at hwalk
        split at hwalk
        · next hdir => exact ⟨d, rfl, hdir⟩
        · cases hwalk
        · cases hwalk
    have hslot : fs.slot (withoutSlash path) =
        .ok (if hn : NodeName n then some ⟨d, n, hdir, hn⟩ else none) := by
      rw [slot, if_pos hnul', hlast]
      simp only [hinit, List.dropLast_concat, hd]
      split
      · next h => rw [h] at hdir; cases hdir
      · next h => rw [h] at hdir; cases hdir
      · rfl
    by_cases hn : NodeName n
    · rw [if_neg (fun hrefuses => hrefuses n hlast hn)]
      rw [dif_pos hn] at hslot
      refine ⟨_, hslot, ?_⟩
      rw [hp, ← locate_withoutSlash]
      exact (fs.slot_eq_some hslot).2.1
    · rw [dif_neg hn] at hslot
      rw [if_pos]
      · exact hslot
      · intro m hm
        rw [hlast] at hm
        cases hm
        exact hn

theorem clear_of_names_nil {p : Place} (h : fs.names p = []) : fs.clear p = fs := by
  have hnodes : (fs.nodes.filter fun q _ => !below p q) = fs.nodes := by
    apply OrderedMap.ext
    apply List.filter_eq_self.2
    intro e he
    rw [Bool.not_eq_true']
    by_contra hbelow
    rw [Bool.not_eq_false, below_iff] at hbelow
    obtain ⟨⟨rest, hrest⟩, hne⟩ := hbelow
    cases rest with
    | nil => exact hne (by rw [← hrest, List.append_nil])
    | cons n rest =>
      have hnode : fs.node e.1 ≠ none := by
        rw [node, (OrderedMap.get?_eq_some_iff _).2 he]
        simp
      have hn : fs.node (p ++ [n]) ≠ none := by
        by_cases heq : p ++ [n] = e.1
        · rw [heq]
          exact hnode
        · rw [fs.dir_of_le ⟨rest, by rw [← hrest]; simp⟩ heq hnode]
          simp
      have hmem := fs.mem_names.2 hn
      rw [h] at hmem
      cases hmem
  cases fs
  unfold clear without
  simp only [hnodes]

/-- Only what is at or below a directory is removed. -/
theorem removeDirAll_changes {path : FilePath} {p : Place} (h : fs.resolve path = .ok (p, .dir))
    (q : Place) :
    (fs.removeDirAll path).2.node q = fs.node q ∧ ¬ below p q = true ∨
      p <+: q ∧ (fs.removeDirAll path).2.node q = none := by
  have hp := fs.walk_eq_ok (fs.resolve_eq_ok h).2.1
  have hclear : (fs.clear p).node q = fs.node q ∧ ¬ below p q = true ∨
      p <+: q ∧ (fs.clear p).node q = none := by
    rw [node_clear]
    by_cases hbelow : below p q = true
    · rw [if_pos hbelow]
      exact Or.inr ⟨(below_iff.1 hbelow).1, rfl⟩
    · rw [if_neg hbelow]
      exact Or.inl ⟨rfl, hbelow⟩
  unfold removeDirAll
  rw [h]
  cases hrmdir : (fs.clear p).rmdir path with
  | ok fs' =>
    simp only [hrmdir]
    rw [(fs.clear p).rmdir_eq_ok hrmdir, ← hp]
    by_cases hq : p <+: q
    · rw [if_pos hq]
      exact Or.inr ⟨hq, rfl⟩
    · rw [if_neg hq]
      exact hclear
  | error e =>
    simp only [hrmdir]
    cases e <;> exact hclear

theorem removeDirAll_of_file {path : FilePath} {p : Place} {bytes : List UInt8}
    (h : fs.resolve path = .ok (p, .file bytes)) : fs.removeDirAll path = (.error .other, fs) := by
  rw [removeDirAll, h]

theorem rmdir_of_refuses {path : FilePath} {p : Place} {x : FileNode}
    (h : fs.resolve path = .ok (p, x))
    (hrefuses : Refuses path) : fs.rmdir path = .error .other := by
  have hslot := fs.slot_of_resolve h
  rw [if_pos hrefuses] at hslot
  rw [rmdir, hslot]

theorem rmdir_of_empty {path : FilePath} {p : Place} (h : fs.resolve path = .ok (p, .dir))
    (hempty : fs.names p = []) (hrefuses : ¬ Refuses path) : ∃ fs', fs.rmdir path = .ok fs' := by
  have hslot := fs.slot_of_resolve h
  rw [if_neg hrefuses] at hslot
  obtain ⟨s, hslot, rfl⟩ := hslot
  rw [rmdir, hslot]
  simp only [(fs.resolve_eq_ok h).2.2, if_pos hempty]
  exact ⟨_, rfl⟩

/-- An empty directory is removed, unless its path refuses that. -/
theorem removeDirAll_of_empty {path : FilePath} {p : Place} (h : fs.resolve path = .ok (p, .dir))
    (hempty : fs.names p = []) :
    if Refuses path then fs.removeDirAll path = (.error .other, fs)
    else (fs.removeDirAll path).1 = .ok () := by
  have hclear := fs.clear_of_names_nil hempty
  rw [removeDirAll, h]
  simp only [hclear]
  by_cases hrefuses : Refuses path
  · rw [if_pos hrefuses, fs.rmdir_of_refuses h hrefuses]
  · obtain ⟨fs', hok⟩ := fs.rmdir_of_empty h hempty hrefuses
    rw [if_neg hrefuses, hok]

/-- What is in a directory is gone, whether the directory is removed or not. -/
theorem removeDirAll_of_mem {path : FilePath} {p : Place} {n : String}
    (h : fs.resolve path = .ok (p, .dir)) (hn : n ∈ fs.names p) :
    fs.node (p ++ [n]) ≠ none ∧ (fs.removeDirAll path).2.node (p ++ [n]) = none := by
  refine ⟨fs.mem_names.1 hn, ?_⟩
  obtain ⟨-, hbelow⟩ | ⟨-, hnone⟩ := fs.removeDirAll_changes h (p ++ [n])
  · exact absurd (below_append List.prefix_rfl n) hbelow
  · exact hnone

/-- A removal fails and changes nothing exactly when its path leads to a file, or to an empty
directory that is not to be removed by that path. -/
theorem removeDirAll_refused_iff {path : FilePath} {p : Place} {x : FileNode}
    (h : fs.resolve path = .ok (p, x)) :
    (∃ e, (fs.removeDirAll path).1 = .error e) ∧
        (∀ q, (fs.removeDirAll path).2.node q = fs.node q) ↔
      (x = .dir → fs.names p = [] ∧ Refuses path) := by
  cases x with
  | file bytes =>
    rw [fs.removeDirAll_of_file h]
    exact iff_of_true ⟨⟨_, rfl⟩, fun _ => rfl⟩ nofun
  | dir =>
    constructor
    · intro hrefused _
      obtain ⟨⟨e, he⟩, hsame⟩ := hrefused
      have hempty : fs.names p = [] := by
        apply List.eq_nil_iff_forall_not_mem.2
        intro n hn
        obtain ⟨hbefore, hafter⟩ := fs.removeDirAll_of_mem h hn
        exact hbefore ((hsame _).symm.trans hafter)
      refine ⟨hempty, ?_⟩
      by_contra hremoves
      have hok := fs.removeDirAll_of_empty h hempty
      rw [if_neg hremoves] at hok
      rw [hok] at he
      cases he
    · intro hdir
      obtain ⟨hempty, hrefuses⟩ := hdir rfl
      have hremove := fs.removeDirAll_of_empty h hempty
      rw [if_pos hrefuses] at hremove
      rw [hremove]
      exact ⟨⟨_, rfl⟩, fun _ => rfl⟩

end FileSystem

end LanguageLlm.Lib
