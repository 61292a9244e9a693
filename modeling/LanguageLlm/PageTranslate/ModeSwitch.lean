import LanguageLlm.PageTranslate.Recover

/-!
# Switching the mode

After a `translateNow` the mode is switched any number of times. `pathIndependent_iff` says exactly
for which pages the result depends on the last mode alone and the original mode gives the page
back: those whose translations equal their originals, below elements without a title.
-/

namespace LanguageLlm.PageTranslate

open Lib

/-- The mode that an operation switches to. -/
def Op.mode : Op → Option PageTranslateMode
  | .setMode m => some m
  | .restore => some .original
  | .translateNow _ _ | .idle => none

/-- The operations switch the mode, at last to `m`. -/
def Switches (ops : List Op) (m : PageTranslateMode) : Prop :=
  (∀ op ∈ ops, op.mode ≠ none) ∧ ops.getLast?.bind Op.mode = some m

/-- The same nodes with the same text and the same attributes. -/
structure SameDom (d d' : Document) : Prop where
  tree : d.tree = d'.tree
  data : d.data = d'.data
  attributes : d.attributes = d'.attributes

/-- The document after switches of the mode depends on the last of them alone. -/
def PathIndependent (dev : Bool) (q : Page) : Prop :=
  ∀ m ops₁ ops₂ q₁ q₂, Switches ops₁ m → Switches ops₂ m → q.performAll dev ops₁ = some q₁ →
    q.performAll dev ops₂ = some q₂ → SameDom q₁.doc q₂.doc

/-- Switches to the original mode give the document `d` back. -/
def GivesBack (dev : Bool) (d : Document) (q : Page) : Prop :=
  ∀ ops q', Switches ops .original → q.performAll dev ops = some q' → SameDom d q'.doc

/-- Every entry of the restore table is translated to its original text, and the element around
its node has no title of the page. -/
def Inert (d : Document) (q : Page) : Prop :=
  ∀ t ∈ d.texts, ∀ e, q.restore.entryAt t.absoluteNodePath = some e →
    shown q.results e = e.originalText ∧ ∀ parent, t.parentElement = some parent →
      d.attributes parent "title" = none ∧ d.attributes parent "data-llm-original" = none

theorem SameDom.refl (d : Document) : SameDom d d := ⟨rfl, rfl, rfl⟩

theorem SameDom.symm {d d' : Document} (h : SameDom d d') : SameDom d' d :=
  ⟨h.tree.symm, h.data.symm, h.attributes.symm⟩

theorem SameDom.trans {d d' d'' : Document} (h : SameDom d d') (h' : SameDom d' d'') :
    SameDom d d'' :=
  ⟨h.tree.trans h'.tree, h.data.trans h'.data, h.attributes.trans h'.attributes⟩

namespace Page

/-! ## Documents that are left as they are -/

theorem foldl_sameDom {f : Document → TextNode → Document} {L : List TextNode}
    {d d' : Document} (hf : ∀ t ∈ L, ∀ d', SameDom d d' → SameDom d (f d' t))
    (h : SameDom d d') : SameDom d (L.foldl f d') := by
  induction L generalizing d' with
  | nil => exact h
  | cons t L ih =>
    exact ih (fun u hu => hf u (List.mem_cons_of_mem _ hu)) (hf t List.mem_cons_self d' h)

/-- Nothing is written where the text is shown already. -/
theorem applyText_sameDom {mode : PageTranslateMode}
    {displayByPath originalsByPath : OrderedMap String String} {d d' : Document} {t : TextNode}
    (ht : ∀ display, displayByPath.get? t.absoluteNodePath = some display → d.data t.id = display)
    (h : SameDom d d') : SameDom d (applyText mode displayByPath originalsByPath d' t) := by
  unfold applyText
  split
  · next display _ hd _ => rw [if_neg (by rw [← h.data, ht display hd]; simp)]; exact h
  · exact h

theorem update_self_of_eq {α β : Type} [DecidableEq α] {f : α → β} {a : α} {b : β} (h : f a = b) :
    Function.update f a b = f := by
  rw [← h, Function.update_eq_self]

theorem removeAttribute_sameDom {d d' : Document} {id : NodeId} {name : String}
    (hd : d.attributes id name = none) (h : SameDom d d') :
    SameDom d (d'.removeAttribute id name) := by
  refine ⟨h.tree, h.data, ?_⟩
  unfold Document.removeAttribute
  rw [← h.attributes, update_self_of_eq hd, Function.update_eq_self]

theorem restoreText_sameDom {originalsByPath : OrderedMap String String} {d d' : Document}
    {t : TextNode}
    (ht : ∀ original, originalsByPath.get? t.absoluteNodePath = some original →
      d.data t.id = original ∧ ∀ parent, t.parentElement = some parent →
        d.attributes parent "title" = none ∧ d.attributes parent "data-llm-original" = none)
    (h : SameDom d d') : SameDom d (restoreText originalsByPath d' t) := by
  unfold restoreText
  split
  · next original ho =>
    obtain ⟨hdata, hattr⟩ := ht original ho
    have hset : SameDom d (d'.setText t.id original) :=
      ⟨h.tree, by
        unfold Document.setText
        rw [← h.data, update_self_of_eq hdata], h.attributes⟩
    dsimp only
    split
    · next parent hp =>
      exact removeAttribute_sameDom (hattr parent hp).2
        (removeAttribute_sameDom (hattr parent hp).1 hset)
    · exact hset
  · exact h

variable {p q : Page}

theorem applyToDom_sameDom (h : ∀ t ∈ p.doc.texts, ∀ e,
    p.restore.entryAt t.absoluteNodePath = some e → p.doc.data t.id = shown p.results e) :
    SameDom p.doc p.applyToDom.doc := by
  unfold applyToDom
  split
  · exact .refl _
  · next hm =>
    refine foldl_sameDom (fun t ht d' hd => applyText_sameDom ?_ hd) (.refl _)
    intro display hdisplay
    rw [get?_displayByPath hm] at hdisplay
    obtain ⟨e, he, rfl⟩ := Option.map_eq_some_iff.1 hdisplay
    exact h t ht e he

theorem restoreOriginal_sameDom (h : ∀ t ∈ p.doc.texts, ∀ e,
    p.restore.entryAt t.absoluteNodePath = some e → p.doc.data t.id = e.originalText ∧
      ∀ parent, t.parentElement = some parent → p.doc.attributes parent "title" = none ∧
        p.doc.attributes parent "data-llm-original" = none) :
    SameDom p.doc p.restoreOriginal.doc := by
  refine foldl_sameDom (fun t ht d' hd => restoreText_sameDom ?_ hd) (.refl _)
  intro original ho
  rw [RestoreTable.get?_originalsByPath] at ho
  obtain ⟨e, he, rfl⟩ := Option.map_eq_some_iff.1 ho
  exact h t ht e he

theorem deliver_sameDom (p : Page) : SameDom p.doc p.deliver.doc := by
  unfold deliver
  split <;> exact ⟨rfl, rfl, rfl⟩

theorem perform_mode (dev : Bool) (p : Page) {op : Op} {m : PageTranslateMode}
    (h : op.mode = some m) : p.perform dev op = some (p.setMode m).deliver := by
  cases op with
  | setMode m' => cases h; simp [perform, Op.events, step]
  | restore => cases h; simp [perform, Op.events, step, setMode]; rfl
  | translateNow lang outcome => cases h
  | idle => cases h

/-- A switch of the mode changes neither the table nor the results. -/
theorem setMode_keeps (p : Page) (m : PageTranslateMode) :
    (p.setMode m).deliver.restore = p.restore ∧ (p.setMode m).deliver.results = p.results := by
  have hdeliver : ∀ r : Page, r.deliver.restore = r.restore ∧ r.deliver.results = r.results := by
    intro r
    unfold deliver
    split <;> exact ⟨rfl, rfl⟩
  obtain ⟨hrestore, hresults⟩ := hdeliver (p.setMode m)
  rw [hrestore, hresults]
  unfold setMode
  dsimp only
  split
  · exact ⟨rfl, rfl⟩
  · obtain ⟨doc, applying, h⟩ := applyToDom_eq { p with mode := m }
    rw [h]
    exact ⟨rfl, rfl⟩

/-! ## Inert pages -/

/-- On an inert page a switch of the mode leaves the document. -/
theorem setMode_inert {d : Document} (h : Inert d p) (hd : SameDom d p.doc)
    (ho : ∀ t ∈ d.texts, ∀ e, p.restore.entryAt t.absoluteNodePath = some e →
      d.data t.id = e.originalText) (m : PageTranslateMode) : SameDom d (p.setMode m).doc := by
  have htexts : p.doc.texts = d.texts := Document.texts_congr hd.tree.symm
  refine hd.trans ?_
  unfold setMode
  dsimp only
  split
  · refine restoreOriginal_sameDom (p := { p with mode := m }) fun t ht e he => ?_
    rw [htexts] at ht
    rw [← hd.data, ← hd.attributes]
    exact ⟨ho t ht e he, (h t ht e he).2⟩
  · refine applyToDom_sameDom (p := { p with mode := m }) fun t ht e he => ?_
    rw [htexts] at ht
    rw [← hd.data, ho t ht e he]
    exact (h t ht e he).1.symm

theorem performAll_inert {dev : Bool} {d : Document} {ops : List Op}
    (hops : ∀ op ∈ ops, op.mode ≠ none) {p q : Page} (h : Inert d p) (hd : SameDom d p.doc)
    (ho : ∀ t ∈ d.texts, ∀ e, p.restore.entryAt t.absoluteNodePath = some e →
      d.data t.id = e.originalText) (hq : p.performAll dev ops = some q) : SameDom d q.doc := by
  induction ops generalizing p with
  | nil =>
    cases hq
    exact hd
  | cons op ops ih =>
    obtain ⟨m, hm⟩ := Option.ne_none_iff_exists'.1 (hops op List.mem_cons_self)
    obtain ⟨hrestore, hresults⟩ := p.setMode_keeps m
    unfold performAll at hq
    rw [List.foldlM_cons, perform_mode dev p hm] at hq
    refine ih (fun op hop => hops op (List.mem_cons_of_mem _ hop)) ?_ ?_ ?_ hq
    · unfold Inert
      rw [hrestore, hresults]
      exact h
    · exact (setMode_inert h hd ho m).trans (deliver_sameDom _)
    · rw [hrestore]
      exact ho

/-! ## Titles -/

/-- Writing in the dual mode does not take a title away. -/
theorem applyText_title {displayByPath originalsByPath : OrderedMap String String} {d : Document}
    {t : TextNode} {P : NodeId} (h : d.attributes P "title" ≠ none) :
    (applyText .dual displayByPath originalsByPath d t).attributes P "title" ≠ none := by
  unfold applyText
  split
  · split
    · dsimp only [resolveDisplayText]
      split
      · rw [Document.setAttribute_attributes, Document.setAttribute_attributes]
        split
        · simp
        · split
          · simp
          · exact h
      · exact h
    · exact h
  · exact h

theorem foldl_applyText_title {displayByPath originalsByPath : OrderedMap String String}
    {L : List TextNode} {d : Document} {P : NodeId} (h : d.attributes P "title" ≠ none) :
    (L.foldl (applyText .dual displayByPath originalsByPath) d).attributes P "title" ≠ none := by
  induction L generalizing d with
  | nil => exact h
  | cons t L ih => exact ih (applyText_title h)

/-- A text that is written in the dual mode gives its parent a title. -/
theorem foldl_applyText_sets {displayByPath originalsByPath : OrderedMap String String}
    {t : TextNode} {P : NodeId} {display original : String}
    (hd : displayByPath.get? t.absoluteNodePath = some display)
    (ho : originalsByPath.get? t.absoluteNodePath = some original) (hne : original ≠ "")
    (hp : t.parentElement = some P) {L : List TextNode}
    (hL : ∀ u ∈ L, ∃ p, u.parentElement = some p)
    (hn : (L.map TextNode.id).Nodup) (ht : t ∈ L) {d : Document} (hdata : d.data t.id ≠ display) :
    (L.foldl (applyText .dual displayByPath originalsByPath) d).attributes P "title" ≠ none := by
  induction L generalizing d with
  | nil => cases ht
  | cons u L ih =>
    simp only [List.map_cons, List.nodup_cons] at hn
    rw [List.foldl_cons]
    rcases List.mem_cons.1 ht with rfl | ht
    · refine foldl_applyText_title ?_
      unfold applyText
      simp only [hd, hp, ho, hdata, ne_eq, not_false_eq_true, if_true, resolveDisplayText,
        Option.getD_some, hne]
      rw [Document.setAttribute_attributes, Document.setAttribute_attributes]
      simp
    · refine ih (fun v hv => hL v (List.mem_cons_of_mem _ hv)) hn.2 ht ?_
      have hid : t.id ≠ u.id := fun he => hn.1 (he ▸ List.mem_map_of_mem ht)
      have hw := writes_applyText .dual (by simp) displayByPath originalsByPath
        (hL u List.mem_cons_self)
      rw [hw.data_ne d t.id hid]
      exact hdata

/-- A text that does not show its translation gets a title in the dual mode. -/
theorem setMode_dual_title {t : TextNode} {e : RestoreEntry} {P : NodeId} (ht : t ∈ p.doc.texts)
    (he : p.restore.entryAt t.absoluteNodePath = some e) (hP : t.parentElement = some P)
    (hdata : p.doc.data t.id ≠ shown p.results e) (ho : e.originalText ≠ "") :
    (p.setMode .dual).doc.attributes P "title" ≠ none := by
  have hdisplay : (displayByPath .dual p.restore p.results).get? t.absoluteNodePath =
      some (shown p.results e) := by
    rw [get?_displayByPath (by simp), he]
    rfl
  have horiginal : p.restore.originalsByPath.get? t.absoluteNodePath = some e.originalText := by
    rw [RestoreTable.get?_originalsByPath, he]
    rfl
  exact foldl_applyText_sets hdisplay horiginal ho hP
    (fun u hu => p.doc.tree.texts_parentElement hu) p.doc.tree.texts_ids_nodup ht hdata

/-- The translated mode writes no attributes. -/
theorem applyToDom_translated_attributes (hm : p.mode = .translated) :
    p.applyToDom.doc.attributes = p.doc.attributes := by
  have hfold : ∀ (displayByPath originalsByPath : OrderedMap String String) (L : List TextNode)
      (d : Document), (L.foldl (applyText .translated displayByPath originalsByPath) d).attributes =
        d.attributes := by
    intro displayByPath originalsByPath L
    induction L with
    | nil => exact fun _ => rfl
    | cons t L ih =>
      intro d
      rw [List.foldl_cons, ih]
      unfold applyText
      split
      · split <;> rfl
      · rfl
  unfold applyToDom
  rw [if_neg (by rw [hm]; simp), hm]
  exact hfold _ _ _ _

/-- Restoring takes the titles of the elements around restored texts away. -/
theorem restoreOriginal_attributes {t : TextNode} {e : RestoreEntry} {P : NodeId}
    (ht : t ∈ p.doc.texts) (he : p.restore.entryAt t.absoluteNodePath = some e)
    (hp : t.parentElement = some P) : p.restoreOriginal.doc.attributes P "title" = none ∧
      p.restoreOriginal.doc.attributes P "data-llm-original" = none := by
  have ho : p.restore.originalsByPath.get? t.absoluteNodePath = some e.originalText := by
    rw [RestoreTable.get?_originalsByPath, he]
    rfl
  have hkeep : ∀ (u : TextNode) (d : Document) (a : String), d.attributes P a = none →
      (restoreText p.restore.originalsByPath d u).attributes P a = none := by
    intro u d a ha
    unfold restoreText
    split
    · dsimp only
      split
      · rw [Document.removeAttribute_attributes, Document.removeAttribute_attributes]
        simp [Document.setText, ha]
      · exact ha
    · exact ha
  have hfold : ∀ (L : List TextNode) (d : Document), t ∈ L ∨
      (d.attributes P "title" = none ∧ d.attributes P "data-llm-original" = none) →
      (L.foldl (restoreText p.restore.originalsByPath) d).attributes P "title" = none ∧
        (L.foldl (restoreText p.restore.originalsByPath) d).attributes P "data-llm-original" =
          none := by
    intro L
    induction L with
    | nil =>
      intro d h
      exact h.resolve_left List.not_mem_nil
    | cons u L ih =>
      intro d h
      rw [List.foldl_cons]
      refine ih _ ?_
      rcases h with h | ⟨h₁, h₂⟩
      · rcases List.mem_cons.1 h with rfl | h
        · refine Or.inr ?_
          unfold restoreText
          simp only [ho, hp]
          constructor <;>
            rw [Document.removeAttribute_attributes, Document.removeAttribute_attributes] <;> simp
        · exact Or.inl h
      · exact Or.inr ⟨hkeep u d _ h₁, hkeep u d _ h₂⟩
  exact hfold p.doc.texts p.doc (Or.inl ht)

/-! ## After a `translateNow` -/

/-- The entries that a `translateNow` collects hold the text of their nodes, which is not empty. -/
theorem translateNow_entryAt {p : Page} {lang : String} {t : TextNode} {e : RestoreEntry}
    (ht : t ∈ p.doc.texts)
    (he : (p.translateNow lang).restore.entryAt t.absoluteNodePath = some e) :
    p.doc.data t.id = e.originalText ∧ e.originalText ≠ "" := by
  obtain ⟨c, hc, rfl, rfl⟩ := collected_of_entryAt ht he
  have hcol := collects_of_mem hc
  refine ⟨hcol.originalText.symm, fun hempty => ?_⟩
  have hseg := hcol.segment
  rw [hempty] at hseg
  exact trimmed_ne_of_makeSegment hseg rfl

/-- A settled call leaves a page without results, or applies its results in the translated mode. -/
theorem settleCall_cases (s : Page) (source : ProvisionalSource)
    (result : Except String (List PageTranslateSegmentResult)) :
    ∃ r : Page, r.doc = s.doc ∧ r.restore = s.restore ∧
      ((r.results = [] ∧ s.settleCall source result = r) ∨
        (r.mode = .translated ∧ s.settleCall source result = r.applyToDom)) := by
  cases result with
  | ok batch =>
    exact ⟨{ s with lastProvisionalSource := source, results := batch, mode := .translated },
      rfl, rfl, Or.inr ⟨rfl, rfl⟩⟩
  | error message =>
    exact ⟨{ s with lastProvisionalSource := source, lastError := some message, results := [] },
      rfl, rfl, Or.inl ⟨rfl, rfl⟩⟩

/-- A `translateNow` fails and leaves the page without results, or applies its results to the page
in the translated mode. -/
theorem perform_translateNow (dev : Bool) (p : Page) (lang : String) (outcome : Outcome) :
    ∃ q r : Page, p.perform dev (.translateNow lang outcome) = some q ∧ SameDom p.doc r.doc ∧
      r.restore = (p.translateNow lang).restore ∧ q.restore = r.restore ∧ q.results = r.results ∧
      ((r.results = [] ∧ SameDom r.doc q.doc) ∨
        (r.mode = .translated ∧ SameDom r.applyToDom.doc q.doc)) := by
  have hkeep : ∀ r : Page, r.deliver.restore = r.restore ∧ r.deliver.results = r.results := by
    intro r
    unfold deliver
    split <;> exact ⟨rfl, rfl⟩
  have hdoc : SameDom p.doc (p.translateNow lang).deliver.doc :=
    deliver_sameDom (p.translateNow lang)
  obtain ⟨q, hs, hq⟩ := perform_settle dev p lang outcome
  obtain ⟨c, hc, ⟨-, rfl⟩ | ⟨hbatch, -⟩⟩ := settle_cases hs
  · obtain ⟨r, hrdoc, hrestore, hr⟩ := settleCall_cases
      { (p.translateNow lang).deliver with
        pending := (p.translateNow lang).deliver.pending.delete p.serial }
      (runTranslation dev c.segments c.lang outcome).1
      (runTranslation dev c.segments c.lang outcome).2
    refine ⟨_, r, hq, hrdoc ▸ hdoc, hrestore.trans (hkeep _).1, ?_⟩
    rcases hr with ⟨hempty, hr⟩ | ⟨hmode, hr⟩ <;> rw [hr]
    · exact ⟨(hkeep r).1, (hkeep r).2, Or.inl ⟨hempty, deliver_sameDom r⟩⟩
    · obtain ⟨doc, applying, happly⟩ := r.applyToDom_eq
      refine ⟨?_, ?_, Or.inr ⟨hmode, deliver_sameDom _⟩⟩
      · rw [(hkeep _).1, happly]
      · rw [(hkeep _).2, happly]
  · rw [translateNow_pending] at hc
    cases hc
    cases hbatch

/-- Where the dual mode of a translated text is that of the restored one, the entry of a node
without a title is translated to its own text: otherwise the restored text gets a title, and the
translated one gets none. -/
theorem shown_eq_of_dual {t : TextNode} {e : RestoreEntry} {P : NodeId} (ht : t ∈ q.doc.texts)
    (he : q.restore.entryAt t.absoluteNodePath = some e) (hP : t.parentElement = some P)
    (hempty : e.originalText ≠ "") (htitle : q.doc.attributes P "title" = none)
    (hshown : ∀ u ∈ q.doc.texts, ∀ e, q.restore.entryAt u.absoluteNodePath = some e →
      q.doc.data u.id = shown q.results e)
    (hdual : SameDom (q.setMode .dual).deliver.doc
      (q.restoreOriginal.deliver.setMode .dual).deliver.doc) :
    shown q.results e = e.originalText := by
  by_contra hne
  have hfirst : SameDom q.doc (q.setMode .dual).doc :=
    applyToDom_sameDom (p := { q with mode := .dual }) hshown
  have hback : SameDom q.restoreOriginal.doc q.restoreOriginal.deliver.doc :=
    deliver_sameDom q.restoreOriginal
  have hrestored : t ∈ q.restoreOriginal.deliver.doc.texts := by
    rw [show q.restoreOriginal.deliver.doc.texts = q.doc.texts from
      Document.texts_congr (hback.tree.symm.trans q.restoreOriginal_tree)]
    exact ht
  have hentry : q.restoreOriginal.deliver.restore.entryAt t.absoluteNodePath = some e := by
    rw [q.restoreOriginal.deliver_doc.2.2]
    exact he
  have hdata : q.restoreOriginal.deliver.doc.data t.id ≠
      shown q.restoreOriginal.deliver.results e := by
    have hresults : q.restoreOriginal.deliver.results = q.results := (q.setMode_keeps .original).2
    rw [← hback.data, q.restoreOriginal_data ht, he, hresults]
    exact Ne.symm hne
  refine setMode_dual_title hrestored hentry hP hdata hempty ?_
  rw [(deliver_sameDom _).attributes, ← hdual.attributes, ← (deliver_sameDom _).attributes,
    ← hfirst.attributes]
  exact htitle

end Page

section

variable {dev : Bool} {q : Page}

/-- Switching to the dual mode gives the same whether the page was restored before or not. -/
theorem PathIndependent.dual (hpath : PathIndependent dev q) :
    SameDom (q.setMode .dual).deliver.doc
      (q.restoreOriginal.deliver.setMode .dual).deliver.doc :=
  hpath .dual [.setMode .dual] [.restore, .setMode .dual] (q.setMode .dual).deliver
    (q.restoreOriginal.deliver.setMode .dual).deliver ⟨by simp [Op.mode], rfl⟩
    ⟨by simp [Op.mode], rfl⟩ (by simp [Page.performAll, Page.perform, Op.events, Page.step])
    (by simp [Page.performAll, Page.perform, Op.events, Page.step])

/-- Restoring clears the attributes of an element with a translated text, so a page that is given
back had none there. -/
theorem GivesBack.attributes {d : Document} (hback : GivesBack dev d q) {t : TextNode}
    {e : RestoreEntry} {P : NodeId} (ht : t ∈ q.doc.texts)
    (he : q.restore.entryAt t.absoluteNodePath = some e) (hP : t.parentElement = some P) :
    d.attributes P "title" = none ∧ d.attributes P "data-llm-original" = none := by
  have hrestored := hback [.restore] q.restoreOriginal.deliver ⟨by simp [Op.mode], rfl⟩
    (by simp [Page.performAll, Page.perform, Op.events, Page.step])
  rw [hrestored.attributes, ← (Page.deliver_sameDom q.restoreOriginal).attributes]
  exact Page.restoreOriginal_attributes ht he hP

end

/-- After a `translateNow` the last mode alone determines the document and the original mode gives
the page back if and only if the translation changes nothing, below elements without a title. -/
theorem pathIndependent_iff (dev : Bool) (p : Page) (lang : String) (outcome : Outcome) :
    ∃ q, p.perform dev (.translateNow lang outcome) = some q ∧
      (PathIndependent dev q ∧ GivesBack dev p.doc q ↔ Inert p.doc q) := by
  obtain ⟨q, r, hq, hr, hnew, hrestore, hresults, hdone⟩ :=
    p.perform_translateNow dev lang outcome
  have hentry : ∀ t ∈ p.doc.texts, ∀ e, q.restore.entryAt t.absoluteNodePath = some e →
      p.doc.data t.id = e.originalText ∧ e.originalText ≠ "" := by
    intro t ht e he
    rw [hrestore, hnew] at he
    exact Page.translateNow_entryAt ht he
  have hrtexts : r.doc.texts = p.doc.texts := Document.texts_congr hr.tree.symm
  refine ⟨q, hq, ?_, ?_⟩
  · rintro ⟨hpath, hback⟩ t ht e he
    have hqtree : q.doc.tree = p.doc.tree := by
      rcases hdone with ⟨-, h⟩ | ⟨-, h⟩
      · exact (hr.trans h).tree.symm
      · rw [← h.tree, Page.applyToDom_tree, hr.tree]
    have hqtexts : q.doc.texts = p.doc.texts := Document.texts_congr hqtree
    have hqt : t ∈ q.doc.texts := hqtexts ▸ ht
    obtain ⟨P, hP⟩ := p.doc.tree.texts_parentElement ht
    have hattr := hback.attributes hqt he hP
    refine ⟨?_, fun parent hparent => ?_⟩
    · rcases hdone with ⟨hempty, -⟩ | ⟨hmode, hdom⟩
      · rw [hresults, hempty]
        rfl
      · have hshown : ∀ u ∈ q.doc.texts, ∀ e, q.restore.entryAt u.absoluteNodePath = some e →
            q.doc.data u.id = shown q.results e := by
          intro u hu e he
          rw [hqtexts, ← hrtexts] at hu
          rw [hrestore] at he
          rw [← hdom.data, r.applyToDom_data (by rw [hmode]; simp) hu, he, hresults]
          rfl
        have htitle : q.doc.attributes P "title" = none := by
          rw [← hdom.attributes, Page.applyToDom_translated_attributes hmode, ← hr.attributes]
          exact hattr.1
        exact Page.shown_eq_of_dual hqt he hP (hentry t ht e he).2 htitle hshown hpath.dual
    · rw [hP] at hparent
      cases hparent
      exact hattr
  · intro hinert
    have hsame : SameDom p.doc q.doc := by
      rcases hdone with ⟨-, h⟩ | ⟨-, h⟩
      · exact hr.trans h
      · refine hr.trans (.trans (Page.applyToDom_sameDom fun t ht e he => ?_) h)
        rw [hrtexts] at ht
        rw [← hrestore] at he
        rw [← hr.data, ← hresults, (hentry t ht e he).1]
        exact (hinert t ht e he).1.symm
    have hall : ∀ ops q', (∀ op ∈ ops, op.mode ≠ none) → q.performAll dev ops = some q' →
        SameDom p.doc q'.doc := fun ops q' hops hq' =>
      Page.performAll_inert hops hinert hsame (fun t ht e he => (hentry t ht e he).1) hq'
    refine ⟨?_, fun ops q' hops hq' => hall ops q' hops.1 hq'⟩
    intro m ops₁ ops₂ q₁ q₂ h₁ h₂ hq₁ hq₂
    exact (hall ops₁ q₁ h₁.1 hq₁).symm.trans (hall ops₂ q₂ h₂.1 hq₂)

/-- A page whose paragraph has a title of its own. -/
def titledPage : Document :=
  { helloPage with
    attributes := fun n name => if n = 1 ∧ name = "title" then some "Greeting" else none }

/-- On a page with one translated paragraph the dual mode after the translated one shows no title,
after the original mode it does; on the page with a title the original mode takes it away. -/
theorem not_pathIndependent_hello :
    (∃ q, (Page.fresh helloPage).perform false
        (.translateNow "fr" (answer "seg_9bcdc586" "Bonjour")) = some q ∧
      ¬ PathIndependent false q) ∧
    (∃ q, (Page.fresh titledPage).perform false
        (.translateNow "fr" (answer "seg_9bcdc586" "Bonjour")) = some q ∧
      ¬ GivesBack false titledPage q) := by
  constructor
  · have hend : ((Page.fresh helloPage).perform false
        (.translateNow "fr" (answer "seg_9bcdc586" "Bonjour"))).bind (fun q =>
          (q.performAll false [.setMode .dual]).bind fun q₁ =>
            (q.performAll false [.restore, .setMode .dual]).map fun q₂ =>
              (q₁.doc.attributes 1 "title", q₂.doc.attributes 1 "title")) =
        some (none, some "Hello") := by decide +kernel
    obtain ⟨q, hq, hend⟩ := Option.bind_eq_some_iff.1 hend
    obtain ⟨q₁, hq₁, hend⟩ := Option.bind_eq_some_iff.1 hend
    obtain ⟨q₂, hq₂, hend⟩ := Option.map_eq_some_iff.1 hend
    refine ⟨q, hq, fun h => ?_⟩
    have hsame := h .dual _ _ q₁ q₂ ⟨by simp [Op.mode], rfl⟩ ⟨by simp [Op.mode], rfl⟩ hq₁ hq₂
    rw [hsame.attributes] at hend
    obtain ⟨hnone, hsome⟩ := Prod.mk.inj hend
    rw [hsome] at hnone
    cases hnone
  · have hend : ((Page.fresh titledPage).perform false
        (.translateNow "fr" (answer "seg_9bcdc586" "Bonjour"))).bind (fun q =>
          (q.performAll false [.restore]).map fun q' => q'.doc.attributes 1 "title") =
        some none := by decide +kernel
    obtain ⟨q, hq, hend⟩ := Option.bind_eq_some_iff.1 hend
    obtain ⟨q', hq', hend⟩ := Option.map_eq_some_iff.1 hend
    refine ⟨q, hq, fun h => ?_⟩
    have hsame := h _ q' ⟨by simp [Op.mode], rfl⟩ hq'
    rw [← hsame.attributes] at hend
    exact absurd hend (by decide)

end LanguageLlm.PageTranslate
