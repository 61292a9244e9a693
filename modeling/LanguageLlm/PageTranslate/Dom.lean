import Mathlib.Data.List.Nodup
import Mathlib.Data.List.Perm.Basic
import Mathlib.Data.List.Infix
import LanguageLlm.Lib.Digits

/-!
# The document tree

The part of the DOM that page translation works on: a body with elements, text nodes and comments,
the trees that the page holds outside it, the text of every text node and the attributes of every
element. `Nodes` is a list of siblings with their subtrees. The structure of the tree is separate
from the text and the attributes, so that the writes of the controller leave it as it is.
-/

namespace LanguageLlm.PageTranslate

abbrev NodeId := Nat

/-- Sibling nodes in document order. -/
inductive Nodes where
  | nil
  | text (id : NodeId) (next : Nodes)
  | comment (id : NodeId) (next : Nodes)
  | element (id : NodeId) (tagName : String) (childNodes next : Nodes)
  deriving DecidableEq

/-- An element above a node, with its place among its siblings. -/
structure Ancestor where
  id : NodeId
  tagName : String
  index : Nat
  deriving DecidableEq

/-- A text node with its place among its siblings and the elements above it, the outermost
first. -/
structure TextNode where
  id : NodeId
  index : Nat
  ancestors : List Ancestor
  deriving DecidableEq

/-- `node.parentElement`. -/
def TextNode.parentElement (t : TextNode) : Option NodeId := t.ancestors.getLast?.map Ancestor.id

def buildNodePath (parts : List (String × Nat)) : String :=
  "/".intercalate (parts.map fun p => p.2.repr ++ "." ++ p.1)

/-- The path parts of a text node below the root. -/
def TextNode.parts (t : TextNode) : List (String × Nat) :=
  t.ancestors.map (fun a => (a.tagName, a.index)) ++ [("#text", t.index)]

/-- `absoluteNodePath`: the places of the node and of the elements above it. -/
def TextNode.absoluteNodePath (t : TextNode) : String := buildNodePath (("ROOT", 0) :: t.parts)

namespace Nodes

/-- The nodes and all nodes below them. -/
def ids : Nodes → List NodeId
  | nil => []
  | text id next => id :: next.ids
  | comment id next => id :: next.ids
  | element id _ childNodes next => id :: (childNodes.ids ++ next.ids)

/-- The text nodes in document order that lie in no skipped element. -/
def walk (skip : NodeId → String → Bool) (above : List Ancestor) (index : Nat) :
    Nodes → List TextNode
  | nil => []
  | text id next => ⟨id, index, above⟩ :: next.walk skip above (index + 1)
  | comment _ next => next.walk skip above (index + 1)
  | element id tagName childNodes next =>
    (if skip id tagName then []
      else childNodes.walk skip (above ++ [⟨id, tagName, index⟩]) 0) ++
    next.walk skip above (index + 1)

/-- A tree walker that shows text nodes. -/
def texts (above : List Ancestor) (index : Nat) (f : Nodes) : List TextNode :=
  f.walk (fun _ _ => false) above index

/-- The chain of elements down to the element `id`, and its child nodes. -/
def locate (id : NodeId) (above : List Ancestor) (index : Nat) :
    Nodes → Option (List Ancestor × Nodes)
  | nil => none
  | text _ next => next.locate id above (index + 1)
  | comment _ next => next.locate id above (index + 1)
  | element i tagName childNodes next =>
    let chain := above ++ [⟨i, tagName, index⟩]
    if i = id then some (chain, childNodes)
    else (childNodes.locate id chain 0).or (next.locate id above (index + 1))

def append : Nodes → Nodes → Nodes
  | nil, g => g
  | text id next, g => text id (next.append g)
  | comment id next, g => comment id (next.append g)
  | element id tagName childNodes next, g => element id tagName childNodes (next.append g)

/-- Put `x` before the `k`-th of the siblings, or after the last one. -/
def insertAt : Nodes → Nat → Nodes → Nodes
  | f, 0, x => x.append f
  | nil, _ + 1, x => x
  | text id next, k + 1, x => text id (next.insertAt k x)
  | comment id next, k + 1, x => comment id (next.insertAt k x)
  | element id tagName childNodes next, k + 1, x =>
    element id tagName childNodes (next.insertAt k x)

/-- Insert `x` below the element `parent`. -/
def insertBelow (parent : NodeId) (k : Nat) : Nodes → Nodes → Option Nodes
  | nil, _ => none
  | text id next, x => (next.insertBelow parent k x).map (text id)
  | comment id next, x => (next.insertBelow parent k x).map (comment id)
  | element id tagName childNodes next, x =>
    if id = parent then some (element id tagName (childNodes.insertAt k x) next)
    else
      match childNodes.insertBelow parent k x with
      | some childNodes' => some (element id tagName childNodes' next)
      | none => (next.insertBelow parent k x).map (element id tagName childNodes)

/-- Take out the node `id` with its subtree. -/
def extract (id : NodeId) : Nodes → Option (Nodes × Nodes)
  | nil => none
  | text i next =>
    if i = id then some (text i nil, next)
    else (next.extract id).map fun r => (r.1, text i r.2)
  | comment i next =>
    if i = id then some (comment i nil, next)
    else (next.extract id).map fun r => (r.1, comment i r.2)
  | element i tagName childNodes next =>
    if i = id then some (element i tagName childNodes nil, next)
    else
      match childNodes.extract id with
      | some r => some (r.1, element i tagName r.2 next)
      | none => (next.extract id).map fun r => (r.1, element i tagName childNodes r.2)

/-! ## Identities -/

@[simp] theorem ids_append (f g : Nodes) : (f.append g).ids = f.ids ++ g.ids := by
  induction f with
  | nil => rfl
  | text id next ih | comment id next ih => simp [append, ids, ih]
  | element id tagName childNodes next _ ih => simp [append, ids, ih]

theorem perm_insert {x a b b' : List NodeId} (h : b'.Perm (x ++ b)) :
    (a ++ b').Perm (x ++ (a ++ b)) :=
  (h.append_left a).trans (by simpa using List.perm_append_comm.append_right b)

theorem ids_insertAt (f : Nodes) (k : Nat) (x : Nodes) :
    (f.insertAt k x).ids.Perm (x.ids ++ f.ids) := by
  induction k generalizing f with
  | zero => simp [insertAt]
  | succ k ih =>
    cases f with
    | nil => simp [insertAt, ids]
    | text id next | comment id next =>
      simp only [insertAt, ids]
      exact perm_insert (a := [id]) (ih next)
    | element id tagName childNodes next =>
      simp only [insertAt, ids]
      exact perm_insert (a := id :: childNodes.ids) (ih next)

theorem ids_insertBelow {parent : NodeId} {k : Nat} {x : Nodes} :
    ∀ {f f' : Nodes}, f.insertBelow parent k x = some f' → f'.ids.Perm (x.ids ++ f.ids) := by
  intro f
  induction f with
  | nil => intro f' h; cases h
  | text id next ih | comment id next ih =>
    intro f' h
    obtain ⟨g, hg, rfl⟩ := Option.map_eq_some_iff.1 h
    exact perm_insert (a := [id]) (ih hg)
  | element id tagName childNodes next ihc ihn =>
    intro f' h
    simp only [insertBelow] at h
    split at h
    · cases h
      refine (((ids_insertAt childNodes k x).append_right _).cons id).trans ?_
      simpa [ids] using List.perm_middle.symm
    · split at h
      · next g hg =>
        cases h
        refine (((ihc hg).append_right _).cons id).trans ?_
        simpa [ids] using List.perm_middle.symm
      · obtain ⟨g, hg, rfl⟩ := Option.map_eq_some_iff.1 h
        exact perm_insert (a := id :: childNodes.ids) (ihn hg)

theorem ids_extract {id : NodeId} :
    ∀ {f x r : Nodes}, f.extract id = some (x, r) → f.ids.Perm (x.ids ++ r.ids) := by
  intro f
  induction f with
  | nil => intro x r h; cases h
  | text i next ih | comment i next ih =>
    intro x r h
    simp only [extract] at h
    split at h
    · cases h
      simp [ids]
    · obtain ⟨p, hp, he⟩ := Option.map_eq_some_iff.1 h
      cases he
      exact perm_insert (a := [i]) (ih hp)
  | element i tagName childNodes next ihc ihn =>
    intro x r h
    simp only [extract] at h
    split at h
    · cases h
      simp [ids]
    · split at h
      · next p hp =>
        cases h
        refine (((ihc hp).append_right _).cons i).trans ?_
        simpa [ids] using List.perm_middle.symm
      · obtain ⟨p, hp, he⟩ := Option.map_eq_some_iff.1 h
        cases he
        exact perm_insert (a := i :: childNodes.ids) (ihn hp)

/-! ## Walks -/

variable {skip : NodeId → String → Bool}

theorem walk_ids_sublist (f : Nodes) (above : List Ancestor) (i : Nat) :
    ((f.walk skip above i).map TextNode.id).Sublist f.ids := by
  induction f generalizing above i with
  | nil => exact List.Sublist.slnil
  | text id next ih => exact (ih above (i + 1)).cons_cons id
  | comment id next ih => exact (ih above (i + 1)).cons id
  | element id tagName childNodes next ihc ihn =>
    simp only [walk, List.map_append]
    refine .cons id (.append ?_ (ihn above (i + 1)))
    split
    · exact List.nil_sublist _
    · exact ihc _ _

/-- The elements from which a walk starts stay above what it shows. -/
theorem walk_above {f : Nodes} {above : List Ancestor} {i : Nat} {t : TextNode}
    (h : t ∈ f.walk skip above i) : above <+: t.ancestors := by
  induction f generalizing above i with
  | nil => cases h
  | text id next ih =>
    rcases List.mem_cons.1 h with rfl | h
    · exact List.prefix_rfl
    · exact ih h
  | comment id next ih => exact ih h
  | element id tagName childNodes next ihc ihn =>
    simp only [walk, List.mem_append] at h
    rcases h with h | h
    · split at h
      · cases h
      · exact (List.prefix_append above _).trans (ihc h)
    · exact ihn h

/-- A walk shows the text nodes below no skipped element. -/
theorem mem_walk_iff {f : Nodes} {above : List Ancestor} {i : Nat} {t : TextNode} :
    t ∈ f.walk skip above i ↔ t ∈ f.texts above i ∧
      ∀ a ∈ t.ancestors.drop above.length, skip a.id a.tagName = false := by
  unfold texts
  induction f generalizing above i with
  | nil => simp [walk]
  | text id next ih =>
    simp only [walk, List.mem_cons, ih]
    constructor
    · rintro (rfl | ⟨h, hs⟩)
      · exact ⟨Or.inl rfl, by simp⟩
      · exact ⟨Or.inr h, hs⟩
    · rintro ⟨rfl | h, hs⟩
      · exact Or.inl rfl
      · exact Or.inr ⟨h, hs⟩
  | comment id next ih => exact ih
  | element id tagName childNodes next ihc ihn =>
    have hdrop : ∀ {t}, t ∈ childNodes.walk (fun _ _ => false) (above ++ [⟨id, tagName, i⟩]) 0 →
        t.ancestors.drop above.length =
          ⟨id, tagName, i⟩ :: t.ancestors.drop
            (above ++ [(⟨id, tagName, i⟩ : Ancestor)]).length := by
      intro t h
      obtain ⟨rest, hrest⟩ := walk_above h
      simp [← hrest]
    simp only [walk, Bool.false_eq_true, if_false, List.mem_append, ihn]
    constructor
    · rintro (h | ⟨h, hs⟩)
      · split at h
        · cases h
        · next hskip =>
          obtain ⟨h, hs⟩ := ihc.1 h
          refine ⟨Or.inl h, ?_⟩
          rw [hdrop h, List.forall_mem_cons]
          exact ⟨by simpa using hskip, hs⟩
      · exact ⟨Or.inr h, hs⟩
    · rintro ⟨h | h, hs⟩
      · rw [hdrop h, List.forall_mem_cons] at hs
        rw [if_neg (by simp [hs.1])]
        exact Or.inl (ihc.2 ⟨h, hs.2⟩)
      · exact Or.inr ⟨h, hs⟩

/-- What is below a located element is below the siblings it was looked for in. -/
theorem mem_of_locate {id : NodeId} {f : Nodes} {above chain : List Ancestor} {i : Nat}
    {childNodes : Nodes} {t : TextNode} (h : f.locate id above i = some (chain, childNodes))
    (ht : t ∈ childNodes.texts chain 0) : t ∈ f.texts above i := by
  unfold texts at ht ⊢
  induction f generalizing above i with
  | nil => cases h
  | text j next ih => exact List.mem_cons_of_mem _ (ih h)
  | comment j next ih => exact ih h
  | element j tagName children next ihc ihn =>
    simp only [walk, Bool.false_eq_true, if_false, List.mem_append]
    simp only [locate] at h
    split at h
    · cases h
      exact Or.inl ht
    · rcases Option.or_eq_some_iff.1 h with h | ⟨-, h⟩
      · exact Or.inl (ihc h)
      · exact Or.inr (ihn h)

/-! ## Paths -/

/-- Two lists of path parts agree up to a place where their indices differ. -/
def Diverge (p q : List (String × Nat)) : Prop :=
  ∃ (front p' q' : List (String × Nat)) (a b : String) (i j : Nat), i ≠ j ∧
    p = front ++ (a, i) :: p' ∧ q = front ++ (b, j) :: q'

theorem Diverge.symm {p q : List (String × Nat)} (h : Diverge p q) : Diverge q p := by
  obtain ⟨front, p', q', a, b, i, j, hij, hp, hq⟩ := h
  exact ⟨front, q', p', b, a, j, i, Ne.symm hij, hq, hp⟩

/-- What a walk of siblings shows lies at or after the place of the first of them. -/
theorem walk_parts {f : Nodes} {above : List Ancestor} {i : Nat} {t : TextNode}
    (h : t ∈ f.walk skip above i) : ∃ (tag : String) (j : Nat) (rest : List (String × Nat)),
      i ≤ j ∧ t.parts = above.map (fun a => (a.tagName, a.index)) ++ (tag, j) :: rest := by
  induction f generalizing above i with
  | nil => cases h
  | text id next ih =>
    rcases List.mem_cons.1 h with rfl | h
    · exact ⟨"#text", i, [], Nat.le_refl i, rfl⟩
    · obtain ⟨tag, j, rest, hj, hp⟩ := ih h
      exact ⟨tag, j, rest, by omega, hp⟩
  | comment id next ih =>
    obtain ⟨tag, j, rest, hj, hp⟩ := ih h
    exact ⟨tag, j, rest, by omega, hp⟩
  | element id tagName childNodes next ihc ihn =>
    simp only [walk, List.mem_append] at h
    rcases h with h | h
    · split at h
      · cases h
      · obtain ⟨tag, j, rest, -, hp⟩ := ihc h
        exact ⟨tagName, i, (tag, j) :: rest, Nat.le_refl i, by rw [hp]; simp⟩
    · obtain ⟨tag, j, rest, hj, hp⟩ := ihn h
      exact ⟨tag, j, rest, by omega, hp⟩

theorem diverge_of_lt (above : List Ancestor) {i : Nat} {tag : String} {t u : TextNode}
    {rest : List (String × Nat)}
    (ht : t.parts = above.map (fun a => (a.tagName, a.index)) ++ (tag, i) :: rest)
    (hu : ∃ (tag : String) (j : Nat) (rest : List (String × Nat)), i + 1 ≤ j ∧
      u.parts = above.map (fun a => (a.tagName, a.index)) ++ (tag, j) :: rest) :
    Diverge t.parts u.parts := by
  obtain ⟨tag', j, rest', hj, hu⟩ := hu
  exact ⟨_, rest, rest', tag, tag', i, j, by omega, ht, hu⟩

/-- The paths of two text nodes diverge at the first ancestors they do not share. -/
theorem diverge_of_ne {f : Nodes} {above : List Ancestor} {i : Nat} {t u : TextNode}
    (ht : t ∈ f.texts above i) (hu : u ∈ f.texts above i) (hne : t ≠ u) :
    Diverge t.parts u.parts := by
  unfold texts at ht hu
  induction f generalizing above i with
  | nil => cases ht
  | text id next ih =>
    rcases List.mem_cons.1 ht with rfl | ht <;> rcases List.mem_cons.1 hu with rfl | hu
    · exact absurd rfl hne
    · exact diverge_of_lt above rfl (walk_parts hu)
    · exact (diverge_of_lt above rfl (walk_parts ht)).symm
    · exact ih ht hu
  | comment id next ih => exact ih ht hu
  | element id tagName childNodes next ihc ihn =>
    have hchild : ∀ {t}, t ∈ childNodes.walk (fun _ _ => false) (above ++ [⟨id, tagName, i⟩]) 0 →
        ∃ rest, t.parts = above.map (fun a => (a.tagName, a.index)) ++ (tagName, i) :: rest := by
      intro t h
      obtain ⟨tag, j, rest, -, hp⟩ := walk_parts h
      exact ⟨(tag, j) :: rest, by rw [hp]; simp⟩
    simp only [walk, Bool.false_eq_true, if_false, List.mem_append] at ht hu
    rcases ht with ht | ht <;> rcases hu with hu | hu
    · exact ihc ht hu
    · obtain ⟨rest, hp⟩ := hchild ht
      exact diverge_of_lt above hp (walk_parts hu)
    · obtain ⟨rest, hp⟩ := hchild hu
      exact (diverge_of_lt above hp (walk_parts ht)).symm
    · exact ihn ht hu

end Nodes

/-- A path part in characters: the digits of the index, a dot and the tag. -/
theorem toList_pathPart (a : String) (i : Nat) :
    (i.repr ++ "." ++ a).toList = Nat.toDigits 10 i ++ '.' :: a.toList := by
  simp [Nat.toList_repr]

/-- Path parts that diverge make different paths. -/
theorem buildNodePath_ne {p q : List (String × Nat)} (h : Nodes.Diverge p q) :
    buildNodePath p ≠ buildNodePath q := by
  obtain ⟨front, p', q', a, b, i, j, hij, rfl, rfl⟩ := h
  unfold buildNodePath
  induction front with
  | nil =>
    have hfirst : ∀ (a : String) (i : Nat) (p : List (String × Nat)), ∃ r,
        ("/".intercalate (((a, i) :: p).map fun p => p.2.repr ++ "." ++ p.1)).toList =
          Nat.toDigits 10 i ++ '.' :: r := by
      intro a i p
      cases p with
      | nil => exact ⟨_, by rw [List.map_singleton, String.intercalate_singleton, toList_pathPart]⟩
      | cons x p =>
        rw [List.map_cons, List.map_cons, String.intercalate_cons_cons, String.toList_append,
          String.toList_append, toList_pathPart]
        exact ⟨_, by rw [List.append_assoc, List.append_assoc]; rfl⟩
    intro he
    obtain ⟨r, hr⟩ := hfirst a i p'
    obtain ⟨r', hr'⟩ := hfirst b j q'
    have hdigits : Nat.toDigits 10 i ++ '.' :: r = Nat.toDigits 10 j ++ '.' :: r' := by
      rw [← hr, ← hr']
      exact congrArg String.toList he
    exact hij (Lib.toDigits_eq_of_append rfl hdigits)
  | cons x front ih =>
    rw [List.cons_append, List.cons_append, List.map_cons, List.map_cons,
      String.intercalate_cons_of_ne_nil (by simp), String.intercalate_cons_of_ne_nil (by simp)]
    exact fun he => ih (by simpa using he)

/-- Text nodes of one document have different paths, also outside its body. -/
theorem Nodes.texts_path_inj {html : Nodes} {index : Nat} {t u : TextNode}
    (ht : t ∈ html.texts [] index) (hu : u ∈ html.texts [] index)
    (h : t.absoluteNodePath = u.absoluteNodePath) : t = u := by
  by_contra hne
  obtain ⟨front, p, q, a, b, i, j, hij, hp, hq⟩ := Nodes.diverge_of_ne ht hu hne
  refine buildNodePath_ne ⟨("ROOT", 0) :: front, p, q, a, b, i, j, hij, rfl, rfl⟩ ?_
  rw [List.cons_append, List.cons_append, ← hp, ← hq]
  exact h

end LanguageLlm.PageTranslate
