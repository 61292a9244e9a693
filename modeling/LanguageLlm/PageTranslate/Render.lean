import LanguageLlm.PageTranslate.Controller

/-!
# What the controller writes

The texts after `applyToDom` and after `restoreOriginal`, by the entry of the restore table that
counts for the path of a text node. Neither changes the tree.
-/

namespace LanguageLlm.PageTranslate

open Lib

/-- The translation of an entry: that of the last result with its identifier, or its original
text. -/
def shown (results : List PageTranslateSegmentResult) (e : RestoreEntry) : String :=
  (((OrderedMap.ofList (results.map fun r => (r.id, r))).get? e.segmentId).map
    PageTranslateSegmentResult.translatedText).getD e.originalText

/-- A translation that differs from the original text comes from a result. -/
theorem shown_cases (results : List PageTranslateSegmentResult) (e : RestoreEntry) :
    shown results e = e.originalText ∨
      ∃ r ∈ results, r.id = e.segmentId ∧ shown results e = r.translatedText := by
  unfold shown
  cases h : (OrderedMap.ofList (results.map fun r => (r.id, r))).get? e.segmentId with
  | none => exact Or.inl rfl
  | some r =>
    obtain ⟨r', hr', he⟩ := List.mem_map.1 (OrderedMap.mem_of_get?_ofList h)
    obtain ⟨hid, rfl⟩ := Prod.mk.inj he
    exact Or.inr ⟨r', hr', hid, rfl⟩

theorem displayByPath_eq (mode : PageTranslateMode) (restore : RestoreTable)
    (results : List PageTranslateSegmentResult) :
    displayByPath mode restore results = .ofList (restore.byId.values.map fun e =>
      (e.path, (resolveDisplayText mode e.originalText (shown results e)).text)) := by
  unfold displayByPath buildAppliedMap
  dsimp only
  rw [RestoreTable.originals_entries, List.map_map, List.filterMap_map, OrderedMap.values,
    List.map_map]
  congr 1
  refine Eq.trans (List.filterMap_congr fun p hp => ?_) (congrFun List.filterMap_eq_map _)
  obtain ⟨id, e⟩ := p
  have hget : restore.byId.get? id = some e := restore.byId.get?_eq_some_iff.2 hp
  have hid := restore.keyed hget
  subst hid
  simp only [Function.comp_apply, RestoreTable.get, hget, Option.map_some]
  rfl

/-- Both modes that translate show the translation of the entry that counts for a path. -/
theorem get?_displayByPath {mode : PageTranslateMode} (hm : mode ≠ .original)
    (restore : RestoreTable) (results : List PageTranslateSegmentResult) (path : String) :
    (displayByPath mode restore results).get? path =
      (restore.entryAt path).map (shown results) := by
  rw [displayByPath_eq, OrderedMap.get?_ofList_map _ RestoreEntry.path]
  have htext : (fun e => (resolveDisplayText mode e.originalText (shown results e)).text) =
      shown results := by
    funext e
    cases mode with
    | original => exact absurd rfl hm
    | translated | dual => rfl
  rw [htext]
  rfl

/-! ## Writing the text nodes one after the other -/

/-- `f` writes `g t` to the text node `t`, or leaves its text. -/
structure Writes (f : Document → TextNode → Document) (g : TextNode → Option String)
    (t : TextNode) : Prop where
  tree : ∀ d, (f d t).tree = d.tree
  data_self : ∀ d, (f d t).data t.id = (g t).getD (d.data t.id)
  data_ne : ∀ d n, n ≠ t.id → (f d t).data n = d.data n
  records : ∀ d, ∃ l, (f d t).records = d.records ++ l ∧ ∀ r ∈ l, r = .characterData

section Fold

variable {f : Document → TextNode → Document} {g : TextNode → Option String}

theorem foldl_tree {L : List TextNode} (h : ∀ t ∈ L, Writes f g t) (d : Document) :
    (L.foldl f d).tree = d.tree := by
  induction L generalizing d with
  | nil => rfl
  | cons t L ih =>
    rw [List.foldl_cons, ih fun u hu => h u (List.mem_cons_of_mem _ hu)]
    exact (h t List.mem_cons_self).tree d

theorem foldl_data_notMem {L : List TextNode} (h : ∀ t ∈ L, Writes f g t) (d : Document)
    {n : NodeId} (hn : ∀ t ∈ L, t.id ≠ n) : (L.foldl f d).data n = d.data n := by
  induction L generalizing d with
  | nil => rfl
  | cons t L ih =>
    rw [List.foldl_cons, ih (fun u hu => h u (List.mem_cons_of_mem _ hu)) _
      fun u hu => hn u (List.mem_cons_of_mem _ hu)]
    exact (h t List.mem_cons_self).data_ne d n (Ne.symm (hn t List.mem_cons_self))

theorem foldl_data {L : List TextNode} (h : ∀ t ∈ L, Writes f g t)
    (hn : (L.map TextNode.id).Nodup) (d : Document) {t : TextNode} (ht : t ∈ L) :
    (L.foldl f d).data t.id = (g t).getD (d.data t.id) := by
  induction L generalizing d with
  | nil => cases ht
  | cons u L ih =>
    have hL : ∀ v ∈ L, Writes f g v := fun v hv => h v (List.mem_cons_of_mem _ hv)
    simp only [List.map_cons, List.nodup_cons] at hn
    rw [List.foldl_cons]
    rcases List.mem_cons.1 ht with rfl | ht
    · rw [foldl_data_notMem hL]
      · exact (h t List.mem_cons_self).data_self d
      · intro v hv he
        exact hn.1 (he ▸ List.mem_map_of_mem hv)
    · rw [ih hL hn.2 _ ht]
      have hne : t.id ≠ u.id := fun he => hn.1 (he ▸ List.mem_map_of_mem ht)
      rw [(h u List.mem_cons_self).data_ne d _ hne]

theorem foldl_records {L : List TextNode} (h : ∀ t ∈ L, Writes f g t) (d : Document) :
    ∃ l, (L.foldl f d).records = d.records ++ l ∧ ∀ r ∈ l, r = .characterData := by
  induction L generalizing d with
  | nil => exact ⟨[], by simp, by simp⟩
  | cons t L ih =>
    obtain ⟨l, hl, hc⟩ := (h t List.mem_cons_self).records d
    obtain ⟨l', hl', hc'⟩ := ih (fun u hu => h u (List.mem_cons_of_mem _ hu)) (f d t)
    refine ⟨l ++ l', by rw [List.foldl_cons, hl', hl, List.append_assoc], fun r hr => ?_⟩
    rcases List.mem_append.1 hr with hr | hr
    · exact hc r hr
    · exact hc' r hr

end Fold

@[simp] theorem setText_data_self (d : Document) (id : NodeId) (s : String) :
    (d.setText id s).data id = s := Function.update_self ..

theorem setText_data_ne (d : Document) {id n : NodeId} (s : String) (h : n ≠ id) :
    (d.setText id s).data n = d.data n := Function.update_of_ne h ..

/-- A function that leaves the document as it is, or sets the text of the node and attributes. -/
theorem Writes.of_setText {f : Document → TextNode → Document} {g : TextNode → Option String}
    {t : TextNode}
    (h : ∀ d, (f d t = d ∧ (g t).getD (d.data t.id) = d.data t.id) ∨
      ∃ text attributes, g t = some text ∧
        f d t = { d.setText t.id text with attributes := attributes }) : Writes f g t := by
  constructor
  · intro d
    rcases h d with ⟨hf, -⟩ | ⟨text, attributes, -, hf⟩
    · rw [hf]
    · rw [hf]
      rfl
  · intro d
    rcases h d with ⟨hf, hg⟩ | ⟨text, attributes, hg, hf⟩
    · rw [hf, hg]
    · rw [hf, hg]
      exact setText_data_self d t.id text
  · intro d n hn
    rcases h d with ⟨hf, -⟩ | ⟨text, attributes, -, hf⟩
    · rw [hf]
    · rw [hf]
      exact setText_data_ne d text hn
  · intro d
    rcases h d with ⟨hf, -⟩ | ⟨text, attributes, -, hf⟩
    · rw [hf]
      exact ⟨[], (List.append_nil _).symm, nofun⟩
    · rw [hf]
      exact ⟨[.characterData], rfl, fun _ hr => List.mem_singleton.1 hr⟩

theorem writes_applyText (mode : PageTranslateMode) (hm : mode ≠ .original)
    (displayByPath originalsByPath : OrderedMap String String) {t : TextNode}
    (hp : ∃ p, t.parentElement = some p) :
    Writes (applyText mode displayByPath originalsByPath)
      (fun t => displayByPath.get? t.absoluteNodePath) t := by
  obtain ⟨parent, hp⟩ := hp
  have htext : ∀ o s, (resolveDisplayText mode o s).text = s := by
    intro o s
    cases mode with
    | original => exact absurd rfl hm
    | translated | dual => rfl
  apply Writes.of_setText
  intro d
  unfold applyText
  cases hd : displayByPath.get? t.absoluteNodePath with
  | none => exact .inl ⟨rfl, rfl⟩
  | some display =>
    simp only [hp, htext]
    split
    · right
      split
      · split
        · exact ⟨display, _, rfl, rfl⟩
        · exact ⟨display, _, rfl, rfl⟩
      · exact ⟨display, _, rfl, rfl⟩
    · next he =>
      left
      exact ⟨rfl, (not_not.1 he).symm⟩

theorem writes_restoreText (originalsByPath : OrderedMap String String) (t : TextNode) :
    Writes (restoreText originalsByPath) (fun t => originalsByPath.get? t.absoluteNodePath) t := by
  apply Writes.of_setText
  intro d
  unfold restoreText
  cases ho : originalsByPath.get? t.absoluteNodePath with
  | none => exact .inl ⟨rfl, rfl⟩
  | some original =>
    right
    dsimp only
    split
    · exact ⟨original, _, rfl, rfl⟩
    · exact ⟨original, _, rfl, rfl⟩

namespace Page

variable (p : Page)

theorem writes_texts (hm : p.mode ≠ .original) : ∀ t ∈ p.doc.texts,
    Writes (applyText p.mode (displayByPath p.mode p.restore p.results) p.restore.originalsByPath)
      (fun t => (displayByPath p.mode p.restore p.results).get? t.absoluteNodePath) t :=
  fun _ ht => writes_applyText _ hm _ _ (p.doc.tree.texts_parentElement ht)

/-! ## `applyToDom` -/

theorem applyToDom_original (hm : p.mode = .original) : p.applyToDom = p := if_pos hm

@[simp] theorem applyToDom_tree : p.applyToDom.doc.tree = p.doc.tree := by
  unfold applyToDom
  split
  · rfl
  · next hm => exact foldl_tree (p.writes_texts hm) p.doc

theorem applyToDom_data (hm : p.mode ≠ .original) {t : TextNode} (ht : t ∈ p.doc.texts) :
    p.applyToDom.doc.data t.id =
      ((p.restore.entryAt t.absoluteNodePath).map (shown p.results)).getD (p.doc.data t.id) := by
  unfold applyToDom
  rw [if_neg hm, ← get?_displayByPath hm]
  exact foldl_data (p.writes_texts hm) p.doc.tree.texts_ids_nodup p.doc ht

theorem applyToDom_data_notMem {n : NodeId} (hn : ∀ t ∈ p.doc.texts, t.id ≠ n) :
    p.applyToDom.doc.data n = p.doc.data n := by
  unfold applyToDom
  split
  · rfl
  · next hm => exact foldl_data_notMem (p.writes_texts hm) p.doc hn

theorem applyToDom_records :
    ∃ l, p.applyToDom.doc.records = p.doc.records ++ l ∧ ∀ r ∈ l, r = .characterData := by
  unfold applyToDom
  split
  · exact ⟨[], (List.append_nil _).symm, nofun⟩
  · next hm => exact foldl_records (p.writes_texts hm) p.doc

/-- Only the document and the flag change. -/
theorem applyToDom_eq : ∃ doc applying, p.applyToDom = { p with doc, applying } := by
  unfold applyToDom
  split
  · exact ⟨p.doc, p.applying, rfl⟩
  · exact ⟨_, _, rfl⟩

/-! ## `restoreOriginal` -/

@[simp] theorem restoreOriginal_tree : p.restoreOriginal.doc.tree = p.doc.tree :=
  foldl_tree (fun t _ => writes_restoreText _ t) p.doc

theorem restoreOriginal_data {t : TextNode} (ht : t ∈ p.doc.texts) :
    p.restoreOriginal.doc.data t.id = ((p.restore.entryAt t.absoluteNodePath).map
      RestoreEntry.originalText).getD (p.doc.data t.id) := by
  rw [← RestoreTable.get?_originalsByPath]
  exact foldl_data (fun t _ => writes_restoreText _ t) p.doc.tree.texts_ids_nodup p.doc ht

theorem restoreOriginal_data_notMem {n : NodeId} (hn : ∀ t ∈ p.doc.texts, t.id ≠ n) :
    p.restoreOriginal.doc.data n = p.doc.data n :=
  foldl_data_notMem (fun t _ => writes_restoreText _ t) p.doc hn

theorem restoreOriginal_records :
    ∃ l, p.restoreOriginal.doc.records = p.doc.records ++ l ∧ ∀ r ∈ l, r = .characterData :=
  foldl_records (fun t _ => writes_restoreText _ t) p.doc

/-! ## Delivery of records -/

theorem deliver_doc : p.deliver.doc.tree = p.doc.tree ∧ p.deliver.doc.data = p.doc.data ∧
    p.deliver.restore = p.restore := by
  unfold deliver
  split <;> exact ⟨rfl, rfl, rfl⟩

end Page

end LanguageLlm.PageTranslate
