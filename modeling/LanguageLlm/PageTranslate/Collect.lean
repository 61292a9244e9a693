import LanguageLlm.PageTranslate.Render

/-!
# What the steps collect

The text nodes that a `translateNow` or the flush of a batch collects, with their segments and
entries, and what the flush does with them: every entry of the new table was collected or was there
before, and no path loses its entries as long as the identifiers do not collide.
-/

namespace LanguageLlm.PageTranslate

open Lib

/-- What the flush collects at the added roots: nothing at a root that is marked when its turn
comes. -/
def rootsCollected (results : List PageTranslateSegmentResult) (b : Page.Batch) :
    List NodeId → List Collected
  | [] => []
  | root :: roots =>
    (if b.doc.closest root "data-llm-page-translated" then []
      else collectTextSegments b.doc root collectOptions) ++
    rootsCollected results (Page.collectRoot results b root) roots

namespace Page

/-- The batch before the first root. -/
def firstBatch (p : Page) : Batch := { doc := p.doc, restore := p.restore, newSegments := [] }

/-- What the flush of the buffer collects. -/
def flushCollected (p : Page) : List Collected :=
  if p.mode = .original ∨ p.applying then []
  else rootsCollected p.results p.firstBatch (addedRoots p.doc p.buffer)

end Page

/-- What a step collects. -/
def collectedBy (f : Fired Page PageEvent) : List Collected :=
  match f.label with
  | .translateNow _ => collectTextSegments f.pre.doc f.pre.doc.tree.bodyId collectOptions
  | .flush => f.pre.flushCollected
  | .settle _ _ | .setMode _ | .restore | .edit _ => []

/-- Segments with one identifier have one path and one text: the hashes do not collide. -/
def NoCollision (h : List (Fired Page PageEvent)) : Prop :=
  ∀ f ∈ h, ∀ g ∈ h, ∀ c ∈ collectedBy f, ∀ c' ∈ collectedBy g, c.segment.id = c'.segment.id →
    c.entry.path = c'.entry.path ∧ c.segment.originalText = c'.segment.originalText

instance (h : List (Fired Page PageEvent)) : Decidable (NoCollision h) :=
  inferInstanceAs (Decidable (∀ f ∈ h, ∀ g ∈ h, ∀ c ∈ collectedBy f, ∀ c' ∈ collectedBy g,
    c.segment.id = c'.segment.id →
      c.entry.path = c'.entry.path ∧ c.segment.originalText = c'.segment.originalText))

theorem NoCollision.tail {f : Fired Page PageEvent} {h : List (Fired Page PageEvent)}
    (hn : NoCollision (f :: h)) : NoCollision h :=
  fun f hf g hg => hn f (List.mem_cons_of_mem _ hf) g (List.mem_cons_of_mem _ hg)

/-- A segment carries the text and the path of its entry. -/
theorem Collects.segment_eq {d : Document} {c : Collected} (h : Collects d c) :
    c.segment.originalText = trimmed c.entry.originalText ∧ c.segment.path = c.entry.path := by
  have hs := h.segment
  unfold makeSegment at hs
  dsimp only at hs
  split at hs
  · cases hs
  · rw [← Option.some.inj hs]
    exact ⟨rfl, rfl⟩

/-! ## The flush at its roots -/

/-- The batch has changed nothing of the document but marks. -/
structure Marked (d d' : Document) : Prop where
  tree : d'.tree = d.tree
  data : d'.data = d.data
  attributes : ∀ id name, name ≠ "data-llm-page-translated" → d'.attributes id name =
    d.attributes id name
  records : d'.records = d.records

theorem Marked.refl (d : Document) : Marked d d := ⟨rfl, rfl, fun _ _ _ => rfl, rfl⟩

theorem Marked.collectRoot {d : Document} {b : Page.Batch} (h : Marked d b.doc)
    (results : List PageTranslateSegmentResult) (root : NodeId) :
    Marked d (Page.collectRoot results b root).doc := by
  unfold Page.collectRoot
  split
  · exact h
  · refine ⟨h.tree, h.data, fun id name hne => ?_, h.records⟩
    rw [Document.setAttribute_attributes, if_neg fun he => hne he.2]
    exact h.attributes id name hne

theorem Marked.skips {d d' : Document} (h : Marked d d') (opts : DomSegmentOptions) :
    skips d' opts = skips d opts := by
  funext id tagName
  unfold PageTranslate.skips
  rw [h.attributes id "contenteditable" (by decide)]

/-- Marks do not change what is collected. -/
theorem Marked.collect {d d' : Document} (h : Marked d d') (root : NodeId)
    (opts : DomSegmentOptions) :
    collectTextSegments d' root opts = collectTextSegments d root opts := by
  unfold collectTextSegments
  rw [h.tree, h.skips opts]
  have htext : collectText d' opts = collectText d opts := by
    funext t
    unfold collectText
    rw [h.data]
  rw [htext]

section Roots

variable {results : List PageTranslateSegmentResult} {d : Document} {b : Page.Batch}

theorem Marked.foldl (h : Marked d b.doc) (results : List PageTranslateSegmentResult)
    (roots : List NodeId) :
    Marked d (roots.foldl (Page.collectRoot results) b).doc := by
  induction roots generalizing b with
  | nil => exact h
  | cons root roots ih => exact ih (h.collectRoot results root)

/-- What is collected at the roots is collected from the document before the flush. -/
theorem mem_rootsCollected (h : Marked d b.doc) {roots : List NodeId} {c : Collected}
    (hc : c ∈ rootsCollected results b roots) :
    ∃ root ∈ roots, c ∈ collectTextSegments d root collectOptions := by
  induction roots generalizing b with
  | nil => cases hc
  | cons root roots ih =>
    rcases List.mem_append.1 hc with hc | hc
    · split at hc
      · cases hc
      · rw [h.collect] at hc
        exact ⟨root, List.mem_cons_self, hc⟩
    · obtain ⟨r, hr, hc⟩ := ih (h.collectRoot results root) hc
      exact ⟨r, List.mem_cons_of_mem _ hr, hc⟩

/-- Everything that a step collects is collected from the document before it. -/
theorem collects_of_collectedBy {f : Fired Page PageEvent} {c : Collected}
    (hc : c ∈ collectedBy f) : Collects f.pre.doc c := by
  unfold collectedBy at hc
  split at hc
  · exact collects_of_mem hc
  · unfold Page.flushCollected at hc
    split at hc
    · cases hc
    · obtain ⟨root, -, hc⟩ := mem_rootsCollected (.refl f.pre.doc) hc
      exact collects_of_mem hc
  · cases hc
  · cases hc
  · cases hc
  · cases hc

/-- The entries after the flush were collected or were there before. -/
theorem get_foldl_collectRoot {roots : List NodeId} {id : String} {e : RestoreEntry}
    (he : (roots.foldl (Page.collectRoot results) b).restore.get id = some e) :
    (∃ c ∈ rootsCollected results b roots, c.entry = e) ∨ b.restore.get id = some e := by
  induction roots generalizing b with
  | nil => exact Or.inr he
  | cons root roots ih =>
    simp only [rootsCollected, List.mem_append]
    rcases ih he with ⟨c, hc, rfl⟩ | he
    · exact Or.inl ⟨c, Or.inr hc, rfl⟩
    · unfold Page.collectRoot at he
      split at he
      · exact Or.inr he
      · next hmark =>
        rcases RestoreTable.get_foldl_set he with hm | he
        · obtain ⟨c, hc, rfl⟩ := List.mem_map.1 hm
          rw [if_neg hmark]
          exact Or.inl ⟨c, Or.inl hc, rfl⟩
        · exact Or.inr he

theorem isSome_foldl_set {entries : List RestoreEntry} {r : RestoreTable} {id : String}
    (h : id ∈ entries.map RestoreEntry.segmentId ∨ (r.get id).isSome) :
    ((entries.foldl RestoreTable.set r).get id).isSome := by
  induction entries generalizing r with
  | nil => exact h.resolve_left List.not_mem_nil
  | cons e entries ih =>
    apply ih
    rw [RestoreTable.get_set]
    rcases h with h | h
    · rw [List.map_cons, List.mem_cons] at h
      rcases h with rfl | h
      · exact Or.inr (by simp)
      · exact Or.inl h
    · by_cases hid : id = e.segmentId
      · exact Or.inr (by simp [hid])
      · exact Or.inr (by rw [if_neg hid]; exact h)

/-- What the flush collects gets an entry, and an identifier keeps having one. -/
theorem isSome_foldl_collectRoot (results : List PageTranslateSegmentResult) {roots : List NodeId}
    {id : String} (hb : Marked d b.doc)
    (h : (∃ c ∈ rootsCollected results b roots, c.segment.id = id) ∨ (b.restore.get id).isSome) :
    ((roots.foldl (Page.collectRoot results) b).restore.get id).isSome := by
  induction roots generalizing b with
  | nil =>
    rcases h with ⟨c, hc, -⟩ | h
    · cases hc
    · exact h
  | cons root roots ih =>
    apply ih (hb.collectRoot results root)
    simp only [rootsCollected, List.mem_append] at h
    unfold Page.collectRoot
    rcases h with ⟨c, hc | hc, rfl⟩ | h
    · refine Or.inr ?_
      split at hc
      · cases hc
      · next hmark =>
        rw [if_neg hmark]
        apply isSome_foldl_set
        rw [← (collects_of_mem hc).segmentId, List.map_map]
        exact Or.inl (List.mem_map_of_mem hc)
    · exact Or.inl ⟨c, hc, rfl⟩
    · refine Or.inr ?_
      split
      · exact h
      · exact isSome_foldl_set (Or.inr h)

end Roots

/-- The flush drops the batch, or collects at its roots and then awaits the translator or writes the
page. -/
theorem Page.flush_cases (p : Page) :
    (p.flush = { p with buffer := [], timer := false } ∧ p.flushCollected = []) ∨
      (¬ (p.mode = .original ∨ p.applying = true) ∧
        ∃ b, b = (addedRoots p.doc p.buffer).foldl (collectRoot p.results) p.firstBatch ∧
          p.flushCollected = rootsCollected p.results p.firstBatch (addedRoots p.doc p.buffer) ∧
          (p.flush = { p with
              buffer := []
              timer := false
              doc := b.doc
              restore := b.restore
              applying := true }.translateSegments .batch b.newSegments p.targetLang ∨
            p.flush = { { p with
              buffer := []
              timer := false
              doc := b.doc
              restore := b.restore
              applying := true }.applyToDom with applying := false })) := by
  by_cases hg : p.mode = .original ∨ p.applying = true
  · refine Or.inl ⟨?_, ?_⟩
    · unfold flush
      dsimp only
      rw [if_pos hg]
    · unfold flushCollected
      rw [if_pos hg]
  · have hcollected : p.flushCollected =
        rootsCollected p.results p.firstBatch (addedRoots p.doc p.buffer) := by
      unfold flushCollected
      rw [if_neg hg]
    by_cases hroots : addedRoots p.doc p.buffer = []
    · refine Or.inl ⟨?_, by rw [hcollected, hroots]; rfl⟩
      unfold flush
      dsimp only
      rw [if_neg hg, if_pos hroots]
    · refine Or.inr ⟨hg, _, rfl, hcollected, ?_⟩
      unfold flush
      dsimp only
      rw [if_neg hg, if_neg hroots]
      split
      · exact Or.inl rfl
      · exact Or.inr rfl

end LanguageLlm.PageTranslate
