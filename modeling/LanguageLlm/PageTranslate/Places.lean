import LanguageLlm.PageTranslate.Document

/-!
# Edits and mutation records

Where a text node is, apart from its index and those of the elements above it: a task of the page
leaves it there or queues a record that covers it. Below an added root lie exactly the text nodes
that have the root above them.
-/

namespace LanguageLlm.PageTranslate

/-- A text node and the elements above it with their tags. -/
structure Place where
  id : NodeId
  above : List (NodeId × String)
  deriving DecidableEq

def Ancestor.key (a : Ancestor) : NodeId × String := (a.id, a.tagName)

def TextNode.place (t : TextNode) : Place := ⟨t.id, t.ancestors.map Ancestor.key⟩

/-- The text node was added by the node of the record, or below it. -/
def AddedNode.Covers : AddedNode → Place → Prop
  | .element id, m => ∃ tagName, (id, tagName) ∈ m.above
  | .text id, m => m.id = id
  | .comment _, _ => False

/-- One of the records lists the text node, or an element above it. -/
def Covered (records : List MutationRecord) (m : Place) : Prop :=
  ∃ nodes, .childList nodes ∈ records ∧ ∃ a ∈ nodes, a.Covers m

theorem Covered.mono {records records' : List MutationRecord} {m : Place}
    (h : Covered records m) (hsub : ∀ r ∈ records, r ∈ records') : Covered records' m := by
  obtain ⟨nodes, hr, ha⟩ := h
  exact ⟨nodes, hsub _ hr, ha⟩

namespace Nodes

/-- The places of the text nodes. -/
def places (above : List (NodeId × String)) : Nodes → List Place
  | nil => []
  | text id next => ⟨id, above⟩ :: next.places above
  | comment _ next => next.places above
  | element id tagName childNodes next =>
    childNodes.places (above ++ [(id, tagName)]) ++ next.places above

theorem map_place_texts (f : Nodes) (above : List Ancestor) (i : Nat) :
    (f.texts above i).map TextNode.place = f.places (above.map Ancestor.key) := by
  unfold texts
  induction f generalizing above i with
  | nil => rfl
  | text id next ih => simp [walk, places, ih, TextNode.place]
  | comment id next ih => simp [walk, places, ih]
  | element id tagName childNodes next ihc ihn =>
    simp [walk, places, ihc, ihn, Ancestor.key]

theorem places_append (f g : Nodes) (above : List (NodeId × String)) :
    (f.append g).places above = f.places above ++ g.places above := by
  induction f with
  | nil => rfl
  | text id next ih | comment id next ih => simp [append, places, ih]
  | element id tagName childNodes next _ ih => simp [append, places, ih]

theorem places_above {f : Nodes} {above : List (NodeId × String)} {m : Place}
    (h : m ∈ f.places above) : above <+: m.above := by
  induction f generalizing above with
  | nil => cases h
  | text id next ih =>
    rcases List.mem_cons.1 h with rfl | h
    · exact List.prefix_rfl
    · exact ih h
  | comment id next ih => exact ih h
  | element id tagName childNodes next ihc ihn =>
    rcases List.mem_append.1 h with h | h
    · exact (List.prefix_append above _).trans (ihc h)
    · exact ihn h

/-! ## Edits -/

theorem mem_places_insertAt {f x : Nodes} {k : Nat} {above : List (NodeId × String)} {m : Place}
    (h : m ∈ (f.insertAt k x).places above) : m ∈ x.places above ∨ m ∈ f.places above := by
  induction k generalizing f with
  | zero =>
    rw [insertAt, places_append] at h
    exact List.mem_append.1 h
  | succ k ih =>
    cases f with
    | nil => exact Or.inl h
    | text id next =>
      rcases List.mem_cons.1 h with rfl | h
      · exact Or.inr List.mem_cons_self
      · exact (ih h).imp_right (List.mem_cons_of_mem _)
    | comment id next => exact ih (f := next) h
    | element id tagName childNodes next =>
      rcases List.mem_append.1 h with h | h
      · exact Or.inr (List.mem_append_left _ h)
      · exact (ih h).imp_right (List.mem_append_right _)

/-- An insertion adds the inserted nodes and moves nothing else. -/
theorem mem_places_insertBelow {parent : NodeId} {k : Nat} {x : Nodes} {m : Place} :
    ∀ {f f' : Nodes} {above : List (NodeId × String)}, f.insertBelow parent k x = some f' →
      m ∈ f'.places above → (∃ b, m ∈ x.places b) ∨ m ∈ f.places above := by
  intro f
  induction f with
  | nil => intro f' above h; cases h
  | text id next ih =>
    intro f' above h hm
    obtain ⟨g, hg, rfl⟩ := Option.map_eq_some_iff.1 h
    rcases List.mem_cons.1 hm with rfl | hm
    · exact Or.inr List.mem_cons_self
    · exact (ih hg hm).imp_right (List.mem_cons_of_mem _)
  | comment id next ih =>
    intro f' above h hm
    obtain ⟨g, hg, rfl⟩ := Option.map_eq_some_iff.1 h
    exact ih hg hm
  | element id tagName childNodes next ihc ihn =>
    intro f' above h hm
    simp only [insertBelow] at h
    split at h
    · cases h
      rcases List.mem_append.1 hm with hm | hm
      · rcases mem_places_insertAt hm with hm | hm
        · exact Or.inl ⟨_, hm⟩
        · exact Or.inr (List.mem_append_left _ hm)
      · exact Or.inr (List.mem_append_right _ hm)
    · split at h
      · next g hg =>
        cases h
        rcases List.mem_append.1 hm with hm | hm
        · exact (ihc hg hm).imp_right (List.mem_append_left _)
        · exact Or.inr (List.mem_append_right _ hm)
      · obtain ⟨g, hg, rfl⟩ := Option.map_eq_some_iff.1 h
        rcases List.mem_append.1 hm with hm | hm
        · exact Or.inr (List.mem_append_left _ hm)
        · exact (ihn hg hm).imp_right (List.mem_append_right _)

/-- What is left after a removal has not moved, and the removed node stands alone. -/
theorem places_extract {id : NodeId} :
    ∀ {f x r : Nodes}, f.extract id = some (x, r) →
      (∀ above, ∀ m ∈ r.places above, m ∈ f.places above) ∧
        ∀ b, ∀ m ∈ x.places b, ∃ a ∈ x.added, a.Covers m := by
  intro f
  induction f with
  | nil => intro x r h; cases h
  | text i next ih =>
    intro x r h
    simp only [extract] at h
    split at h
    · cases h
      refine ⟨fun above m hm => List.mem_cons_of_mem _ hm, fun b m hm => ?_⟩
      obtain rfl := List.mem_singleton.1 hm
      exact ⟨_, List.mem_cons_self, rfl⟩
    · obtain ⟨p, hp, he⟩ := Option.map_eq_some_iff.1 h
      cases he
      refine ⟨fun above m hm => ?_, (ih hp).2⟩
      rcases List.mem_cons.1 hm with rfl | hm
      · exact List.mem_cons_self
      · exact List.mem_cons_of_mem _ ((ih hp).1 above m hm)
  | comment i next ih =>
    intro x r h
    simp only [extract] at h
    split at h
    · cases h
      exact ⟨fun above m hm => hm, fun b m hm => by cases hm⟩
    · obtain ⟨p, hp, he⟩ := Option.map_eq_some_iff.1 h
      cases he
      exact ⟨(ih hp).1, (ih hp).2⟩
  | element i tagName childNodes next ihc ihn =>
    intro x r h
    simp only [extract] at h
    split at h
    · cases h
      refine ⟨fun above m hm => List.mem_append_right _ hm, fun b m hm => ?_⟩
      rw [places, places, List.append_nil] at hm
      exact ⟨_, List.mem_cons_self, tagName, (places_above hm).subset (by simp)⟩
    · split at h
      · next p hp =>
        cases h
        refine ⟨fun above m hm => ?_, (ihc hp).2⟩
        rcases List.mem_append.1 hm with hm | hm
        · exact List.mem_append_left _ ((ihc hp).1 _ m hm)
        · exact List.mem_append_right _ hm
      · obtain ⟨p, hp, he⟩ := Option.map_eq_some_iff.1 h
        cases he
        refine ⟨fun above m hm => ?_, (ihn hp).2⟩
        rcases List.mem_append.1 hm with hm | hm
        · exact List.mem_append_left _ hm
        · exact List.mem_append_right _ ((ihn hp).1 above m hm)

/-! ## Below an element -/

/-- The elements above a text node that were not there when the walk started are walked over. -/
theorem ancestors_mem_ids {f : Nodes} {above : List Ancestor} {i : Nat} {t : TextNode}
    (h : t ∈ f.texts above i) : ∀ a ∈ t.ancestors.drop above.length, a.id ∈ f.ids := by
  unfold texts at h
  induction f generalizing above i with
  | nil => cases h
  | text id next ih =>
    rcases List.mem_cons.1 h with rfl | h
    · simp
    · exact fun a ha => List.mem_cons_of_mem _ (ih h a ha)
  | comment id next ih => exact fun a ha => List.mem_cons_of_mem _ (ih h a ha)
  | element id tagName childNodes next ihc ihn =>
    intro a ha
    simp only [walk, Bool.false_eq_true, if_false, List.mem_append] at h
    simp only [ids, List.mem_cons, List.mem_append]
    rcases h with h | h
    · obtain ⟨rest, hrest⟩ := walk_above h
      have hih := ihc h a
      rw [← hrest, List.drop_left] at hih
      rw [← hrest, List.append_assoc, List.drop_left] at ha
      rcases List.mem_cons.1 ha with rfl | ha
      · exact Or.inl rfl
      · exact Or.inr (Or.inl (hih ha))
    · exact Or.inr (Or.inr (ihn h a ha))

theorem locate_mem_ids {id : NodeId} {f : Nodes} {above : List Ancestor} {i : Nat}
    {r : List Ancestor × Nodes} (h : f.locate id above i = some r) : id ∈ f.ids := by
  induction f generalizing above i with
  | nil => cases h
  | text j next ih | comment j next ih => exact List.mem_cons_of_mem _ (ih h)
  | element j tagName childNodes next ihc ihn =>
    simp only [locate] at h
    simp only [ids, List.mem_cons, List.mem_append]
    split at h
    · next hid => exact Or.inl hid.symm
    · rcases Option.or_eq_some_iff.1 h with h | ⟨-, h⟩
      · exact Or.inr (Or.inl (ihc h))
      · exact Or.inr (Or.inr (ihn h))

/-- An element above a text node is found, and the text node is below it. -/
theorem locate_ancestor {f : Nodes} (hn : f.ids.Nodup) {above : List Ancestor} {i : Nat}
    {t : TextNode} (ht : t ∈ f.texts above i) {a : Ancestor}
    (ha : a ∈ t.ancestors.drop above.length) :
    ∃ chain childNodes, f.locate a.id above i = some (chain, childNodes) ∧
      t ∈ childNodes.texts chain 0 := by
  unfold texts at ht ⊢
  induction f generalizing above i with
  | nil => cases ht
  | text id next ih =>
    rcases List.mem_cons.1 ht with rfl | ht
    · simp at ha
    · exact ih hn.of_cons ht ha
  | comment id next ih => exact ih hn.of_cons ht ha
  | element id tagName childNodes next ihc ihn =>
    simp only [ids, List.nodup_cons, List.nodup_append, List.mem_append, not_or] at hn
    obtain ⟨⟨-, hidn⟩, hnc, hnn, hdisjoint⟩ := hn
    simp only [walk, Bool.false_eq_true, if_false, List.mem_append] at ht
    rw [locate]
    by_cases hid : id = a.id
    · simp only [if_pos hid]
      rcases ht with ht | ht
      · exact ⟨_, _, rfl, ht⟩
      · exact absurd (ancestors_mem_ids ht a ha) (hid ▸ hidn)
    · simp only [if_neg hid]
      rcases ht with ht | ht
      · obtain ⟨rest, hrest⟩ := walk_above ht
        rw [← hrest, List.append_assoc, List.drop_left] at ha
        rcases List.mem_cons.1 ha with rfl | ha
        · exact absurd rfl hid
        · obtain ⟨chain, children, hl, hm⟩ := ihc hnc ht (by rw [← hrest, List.drop_left]; exact ha)
          exact ⟨chain, children, by rw [hl]; rfl, hm⟩
      · -- the element is among the later siblings, so it is not among the child nodes
        obtain ⟨chain, children, hl, hm⟩ := ihn hnn ht ha
        refine ⟨chain, children, ?_, hm⟩
        have hnone : childNodes.locate a.id (above ++ [⟨id, tagName, i⟩]) 0 = none := by
          by_contra hsome
          obtain ⟨r, hr⟩ := Option.ne_none_iff_exists'.1 hsome
          exact hdisjoint _ (locate_mem_ids hr) _ (ancestors_mem_ids ht a ha) rfl
        rw [hnone, hl]
        rfl

end Nodes

namespace Tree

variable {T T' : Tree} {t : TextNode}

/-- The places of the text nodes of the body. -/
def places (T : Tree) : List Place := T.body.places []

theorem mem_places {m : Place} : m ∈ T.places ↔ ∃ t ∈ T.texts, t.place = m := by
  unfold places
  have h := T.body.map_place_texts [] T.bodyIndex
  rw [List.map_nil] at h
  rw [← h]
  exact List.mem_map

theorem places_eq (T : Tree) : T.places = T.childNodes.places [(T.bodyId, "BODY")] := by
  simp [places, body, Nodes.places]

/-- After an edit a text node is where it was, or a record covers it. -/
theorem mem_places_edit {e : PageEdit} {records : List MutationRecord} {m : Place}
    (h : T.edit e = some (T', records)) (hm : m ∈ T'.places) :
    Covered records m ∨ m ∈ T.places := by
  rw [places_eq] at hm ⊢
  cases e with
  | create x =>
    obtain ⟨T₁, hT, he⟩ := Option.map_eq_some_iff.1 h
    cases he
    unfold create at hT
    split at hT <;> cases hT
    exact Or.inr hm
  | insert id parent k transient =>
    simp only [edit, insert] at h
    split at h
    · cases h
    · next x rest hx =>
      have hadded := (Nodes.places_extract hx).2
      split at h
      · cases h
        refine (Nodes.mem_places_insertAt hm).imp_left fun hm => ?_
        exact ⟨_, List.mem_cons_self, hadded _ m hm⟩
      · split at h
        · next hc =>
          cases h
          refine (Nodes.mem_places_insertBelow hc hm).imp_left fun ⟨b, hm⟩ => ?_
          exact ⟨_, List.mem_cons_self, hadded b m hm⟩
        · split at h <;> cases h
          exact Or.inr hm
  | remove id =>
    simp only [edit, remove] at h
    split at h
    · next x rest hx =>
      cases h
      exact Or.inr ((Nodes.places_extract hx).1 _ m hm)
    · split at h <;> cases h
      exact Or.inr hm
  | moveBody index =>
    cases h
    exact Or.inr hm

/-- An element above a text node is found in the body, and the text node is below it. -/
theorem locate_ancestor (ht : t ∈ T.texts) {a : Ancestor} (ha : a ∈ t.ancestors) :
    ∃ chain childNodes, T.locate a.id = some (chain, chain, childNodes) ∧
      t ∈ childNodes.texts chain 0 := by
  obtain ⟨chain, childNodes, hl, hm⟩ := Nodes.locate_ancestor T.body_nodup ht
    (show a ∈ t.ancestors.drop ([] : List Ancestor).length from ha)
  exact ⟨chain, childNodes, by simp only [locate, hl], hm⟩

theorem parentElement_eq (ht : t ∈ T.texts) : T.parentElement t.id = t.parentElement := by
  unfold parentElement
  rw [List.find?_append]
  have hfind : T.texts.find? (·.id = t.id) = some t := by
    obtain ⟨u, hu⟩ := Option.isSome_iff_exists.1
      (List.find?_isSome.2 ⟨t, ht, by simp⟩ : (T.texts.find? (·.id = t.id)).isSome)
    have hid := List.find?_some hu
    rw [hu, T.texts_id_inj (List.mem_of_find?_eq_some hu) ht (by simpa using hid)]
  rw [hfind]
  rfl

end Tree

namespace Document

/-- After the edits of a task a text node is where it was, or a record covers it. -/
theorem mem_places_edits {edits : List PageEdit} {d d' : Document}
    (h : edits.foldlM Document.edit d = some d') {m : Place} (hm : m ∈ d'.tree.places) :
    (∃ l, d'.records = d.records ++ l) ∧ (Covered d'.records m ∨ m ∈ d.tree.places) := by
  induction edits generalizing d with
  | nil =>
    cases h
    exact ⟨⟨[], by simp⟩, Or.inr hm⟩
  | cons e edits ih =>
    rw [List.foldlM_cons] at h
    obtain ⟨d₁, he, h⟩ := Option.bind_eq_some_iff.1 h
    obtain ⟨⟨T, records⟩, hT, rfl⟩ := Option.map_eq_some_iff.1 he
    obtain ⟨⟨l, hl⟩, hplace⟩ := ih h
    dsimp only at hl
    refine ⟨⟨records ++ l, by rw [hl, List.append_assoc]⟩, ?_⟩
    rcases hplace with hcov | hplace
    · exact Or.inl hcov
    · refine (Tree.mem_places_edit hT hplace).imp_left fun hcov => hcov.mono fun r hr => ?_
      rw [hl]
      simp [hr]

end Document

end LanguageLlm.PageTranslate
