import LanguageLlm.PageTranslate.Dom

/-!
# The document and the edits of the page

A document is a tree with the text of its text nodes, the attributes of its elements and the
records that it queues for the mutation observer on its body. The controller changes text and
attributes; the page creates, inserts and removes nodes. The text and the attributes of a node that
the page has not created yet are those it will be created with.
-/

namespace LanguageLlm.PageTranslate

/-- A node that a mutation record lists as added. -/
inductive AddedNode where
  | element (id : NodeId)
  | text (id : NodeId)
  | comment (id : NodeId)
  deriving DecidableEq

/-- A record of the mutation observer, with what the controller reads of it. -/
inductive MutationRecord where
  | childList (addedNodes : List AddedNode)
  | characterData
  deriving DecidableEq

/-- The first of the nodes, as a record lists it. -/
def Nodes.added : Nodes → List AddedNode
  | nil => []
  | text id _ => [.text id]
  | comment id _ => [.comment id]
  | element id _ _ _ => [.element id]

/-- The nodes of a document: the body and the trees that are not in the document. -/
structure Tree where
  bodyIndex : Nat
  bodyId : NodeId
  /-- The child nodes of the body. -/
  childNodes : Nodes
  detached : Nodes
  nodup : (bodyId :: (childNodes.ids ++ detached.ids)).Nodup

/-- `doc`, with the queue of its observer. -/
structure Document where
  tree : Tree
  data : NodeId → String
  attributes : NodeId → String → Option String
  records : List MutationRecord

/-- What the page does with its nodes. -/
inductive PageEdit where
  | create (x : Nodes)
  /-- Insert a detached node below `parent`. An insertion into a tree that has just been removed
  from the body may still be observed (`transient`). -/
  | insert (id parent : NodeId) (k : Nat) (transient : Bool)
  | remove (id : NodeId)
  /-- Siblings of the body come or go. -/
  | moveBody (index : Nat)
  deriving DecidableEq

namespace Tree

/-- `doc.body`. -/
def body (T : Tree) : Nodes := .element T.bodyId "BODY" T.childNodes .nil

/-- `doc.createTreeWalker(doc.body, NodeFilter.SHOW_TEXT)`. -/
def texts (T : Tree) : List TextNode := T.body.texts [] T.bodyIndex

/-- For an element: the elements down to it whose places make its path, all elements down to it,
and its child nodes. The path of a node in a detached tree leaves the root of the tree out. -/
def locate (T : Tree) (id : NodeId) : Option (List Ancestor × List Ancestor × Nodes) :=
  match T.body.locate id [] T.bodyIndex with
  | some (chain, childNodes) => some (chain, chain, childNodes)
  | none =>
    match T.detached.locate id [] 0 with
    | some (chain, childNodes) => some (chain.tail, chain, childNodes)
    | none => none

/-- The parent element of a text node, in the document or in a detached tree. -/
def parentElement (T : Tree) (id : NodeId) : Option NodeId :=
  ((T.texts ++ T.detached.texts [] 0).find? (·.id = id)).bind TextNode.parentElement

/-! ## Edits of the page -/

/-- Moving nodes from one tree to another permutes the identities. -/
theorem perm_move {c c' d d' x : List NodeId} (hc : c'.Perm (x ++ c)) (hd : d.Perm (x ++ d')) :
    (c' ++ d').Perm (c ++ d) :=
  calc (c' ++ d').Perm (x ++ c ++ d') := hc.append_right d'
    List.Perm _ (c ++ x ++ d') := List.perm_append_comm.append_right d'
    _ = c ++ (x ++ d') := List.append_assoc ..
    List.Perm _ (c ++ d) := hd.symm.append_left c

theorem nodup_of_perm (T : Tree) {c d : Nodes}
    (h : (c.ids ++ d.ids).Perm (T.childNodes.ids ++ T.detached.ids)) :
    (T.bodyId :: (c.ids ++ d.ids)).Nodup :=
  (h.cons T.bodyId).nodup_iff.2 T.nodup

/-- The page creates nodes, outside every tree. -/
def create (T : Tree) (x : Nodes) : Option Tree :=
  if h : x.ids.Nodup ∧ ∀ id ∈ x.ids, id ∉ T.bodyId :: (T.childNodes.ids ++ T.detached.ids) then
    some { T with
      detached := x.append T.detached
      nodup := by
        have hp : (T.bodyId :: (T.childNodes.ids ++ (x.append T.detached).ids)).Perm
            (x.ids ++ T.bodyId :: (T.childNodes.ids ++ T.detached.ids)) := by
          rw [Nodes.ids_append]
          exact Nodes.perm_insert (a := T.bodyId :: T.childNodes.ids) (List.Perm.refl _)
        rw [hp.nodup_iff, List.nodup_append]
        exact ⟨h.1, T.nodup, fun a ha b hb hab => h.2 a ha (hab ▸ hb)⟩ }
  else none

/-- The page inserts a node that is not in the document, as the `k`-th child of `parent`. -/
def insert (T : Tree) (id parent : NodeId) (k : Nat) (transient : Bool) :
    Option (Tree × List MutationRecord) :=
  match hx : T.detached.extract id with
  | none => none
  | some (x, rest) =>
    if parent = T.bodyId then
      some
        ({ T with
            childNodes := T.childNodes.insertAt k x
            detached := rest
            nodup := T.nodup_of_perm
              (perm_move (Nodes.ids_insertAt T.childNodes k x) (Nodes.ids_extract hx)) },
          [.childList x.added])
    else
      match hc : T.childNodes.insertBelow parent k x with
      | some childNodes =>
        some
          ({ T with
              childNodes
              detached := rest
              nodup := T.nodup_of_perm
                (perm_move (Nodes.ids_insertBelow hc) (Nodes.ids_extract hx)) },
            [.childList x.added])
      | none =>
        match hr : rest.insertBelow parent k x with
        | some detached =>
          some
            ({ T with
                detached
                nodup := T.nodup_of_perm
                  (((Nodes.ids_insertBelow hr).trans (Nodes.ids_extract hx).symm).append_left _) },
              if transient then [.childList x.added] else [])
        | none => none

/-- The page takes a node out of its tree. -/
def remove (T : Tree) (id : NodeId) : Option (Tree × List MutationRecord) :=
  match hx : T.childNodes.extract id with
  | some (x, rest) =>
    some
      ({ T with
          childNodes := rest
          detached := x.append T.detached
          nodup := by
            have hd : (x.append T.detached).ids.Perm (x.ids ++ T.detached.ids) := by
              rw [Nodes.ids_append]
            exact T.nodup_of_perm (perm_move (Nodes.ids_extract hx) hd).symm },
        [.childList []])
  | none =>
    match hy : T.detached.extract id with
    | some (x, rest) =>
      some
        ({ T with
            detached := x.append rest
            nodup := by
              refine T.nodup_of_perm (List.Perm.append_left _ ?_)
              rw [Nodes.ids_append]
              exact (Nodes.ids_extract hy).symm },
          [])
    | none => none

/-- One edit, and the records that it queues. -/
def edit (T : Tree) : PageEdit → Option (Tree × List MutationRecord)
  | .create x => (T.create x).map (·, [])
  | .insert id parent k transient => T.insert id parent k transient
  | .remove id => T.remove id
  | .moveBody index => some ({ T with bodyIndex := index }, [])

/-! ## The text nodes -/

variable (T : Tree) {t u : TextNode}

theorem body_ids : T.body.ids = T.bodyId :: T.childNodes.ids := by
  simp [body, Nodes.ids]

theorem body_nodup : T.body.ids.Nodup := by
  rw [body_ids]
  exact T.nodup.sublist ((List.sublist_append_left _ _).cons_cons _)

theorem texts_ids_nodup : (T.texts.map TextNode.id).Nodup :=
  T.body_nodup.sublist (Nodes.walk_ids_sublist ..)

/-- A text node has one place. -/
theorem texts_id_inj (ht : t ∈ T.texts) (hu : u ∈ T.texts) (h : t.id = u.id) : t = u :=
  List.inj_on_of_nodup_map T.texts_ids_nodup ht hu h

/-- Different text nodes have different paths. -/
theorem texts_path_inj (ht : t ∈ T.texts) (hu : u ∈ T.texts)
    (h : t.absoluteNodePath = u.absoluteNodePath) : t = u := Nodes.texts_path_inj ht hu h

/-- The body is above every text node. -/
theorem texts_ancestors (ht : t ∈ T.texts) :
    ∃ rest, t.ancestors = ⟨T.bodyId, "BODY", T.bodyIndex⟩ :: rest := by
  unfold texts body Nodes.texts at ht
  simp only [Nodes.walk, Bool.false_eq_true, if_false, List.append_nil] at ht
  obtain ⟨rest, hrest⟩ := Nodes.walk_above ht
  exact ⟨rest, hrest.symm⟩

theorem texts_parentElement (ht : t ∈ T.texts) : ∃ p, t.parentElement = some p := by
  obtain ⟨rest, hrest⟩ := T.texts_ancestors ht
  unfold TextNode.parentElement
  rw [hrest, List.getLast?_cons]
  exact ⟨_, rfl⟩

theorem locate_body :
    T.locate T.bodyId = some ([⟨T.bodyId, "BODY", T.bodyIndex⟩], [⟨T.bodyId, "BODY", T.bodyIndex⟩],
      T.childNodes) := by
  simp [locate, body, Nodes.locate]

end Tree

namespace Document

/-- The text nodes of the body in document order. -/
def texts (d : Document) : List TextNode := d.tree.texts

theorem texts_congr {d d' : Document} (h : d.tree = d'.tree) : d.texts = d'.texts :=
  congrArg Tree.texts h

/-- `text.textContent = s`. -/
def setText (d : Document) (id : NodeId) (s : String) : Document :=
  { d with
    data := Function.update d.data id s
    records := d.records ++ [.characterData] }

/-- `el.setAttribute(name, value)`. -/
def setAttribute (d : Document) (id : NodeId) (name value : String) : Document :=
  { d with
    attributes :=
      Function.update d.attributes id (Function.update (d.attributes id) name (some value)) }

/-- `el.removeAttribute(name)`. -/
def removeAttribute (d : Document) (id : NodeId) (name : String) : Document :=
  { d with
    attributes := Function.update d.attributes id (Function.update (d.attributes id) name none) }

theorem setAttribute_attributes (d : Document) (id n : NodeId) (name value a : String) :
    (d.setAttribute id name value).attributes n a =
      if n = id ∧ a = name then some value else d.attributes n a := by
  simp only [setAttribute, Function.update_apply]
  split <;> simp_all [Function.update_apply]

theorem removeAttribute_attributes (d : Document) (id n : NodeId) (name a : String) :
    (d.removeAttribute id name).attributes n a =
      if n = id ∧ a = name then none else d.attributes n a := by
  simp only [removeAttribute, Function.update_apply]
  split <;> simp_all [Function.update_apply]

/-- `el.closest("[name]")` is not null. -/
def closest (d : Document) (id : NodeId) (name : String) : Bool :=
  match d.tree.locate id with
  | some (_, chain, _) => chain.any fun a => (d.attributes a.id name).isSome
  | none => false

/-- One edit of the page. -/
def edit (d : Document) (e : PageEdit) : Option Document :=
  (d.tree.edit e).map fun (tree, records) => { d with tree, records := d.records ++ records }

theorem edit_keeps {d d' : Document} {e : PageEdit} (h : d.edit e = some d') :
    d'.data = d.data ∧ d'.attributes = d.attributes := by
  obtain ⟨x, -, rfl⟩ := Option.map_eq_some_iff.1 h
  exact ⟨rfl, rfl⟩

/-- The edits of a task change neither text nor attributes. -/
theorem edits_keep {edits : List PageEdit} {d d' : Document}
    (h : edits.foldlM Document.edit d = some d') :
    d'.data = d.data ∧ d'.attributes = d.attributes := by
  induction edits generalizing d with
  | nil => cases h; exact ⟨rfl, rfl⟩
  | cons e edits ih =>
    rw [List.foldlM_cons] at h
    obtain ⟨d₁, he, h⟩ := Option.bind_eq_some_iff.1 h
    obtain ⟨hdata, hattributes⟩ := ih h
    exact ⟨hdata.trans (edit_keeps he).1, hattributes.trans (edit_keeps he).2⟩

end Document

end LanguageLlm.PageTranslate
