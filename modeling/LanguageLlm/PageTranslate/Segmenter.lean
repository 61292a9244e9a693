import Mathlib.Algebra.Group.Nat.Defs
import LanguageLlm.Lib.OrderedMap
import LanguageLlm.PageTranslate.Document

/-!
# Segments and the restore table

`segmenter.ts` and `hash.ts`: the text nodes of a page become segments whose identifiers are hashes
of their path and text, and the restore table keeps the original text by segment identifier.
-/

namespace LanguageLlm.PageTranslate

open Lib

/-! ## Text -/

/-- The UTF-16 code units of a string. -/
def codeUnits (s : String) : List Nat :=
  s.toList.flatMap fun c =>
    if c.toNat < 0x10000 then [c.toNat]
    else [0xD800 + (c.toNat - 0x10000) / 0x400, 0xDC00 + (c.toNat - 0x10000) % 0x400]

/-- `fnv1a`, with the 32-bit arithmetic of `Math.imul`. -/
def fnv1a (text : String) : String :=
  let hash := (codeUnits text).foldl (fun hash u => (hash ^^^ u) * 0x01000193 % 2 ^ 32) 0x811c9dc5
  String.ofList (List.leftpad 8 '0' (Nat.toDigits 16 hash))

def segmentCacheKey (canonicalUrl modelId modelRevision sourceLang targetLang textHash : String) :
    String :=
  "|".intercalate [canonicalUrl, modelId, modelRevision, sourceLang, targetLang, textHash]

/-- The characters that `\s` matches and `trim` removes. -/
def isSpace (c : Char) : Bool :=
  let n := c.toNat
  (9 ≤ n && n ≤ 13) || n = 32 || n = 0xa0 || n = 0x1680 || (0x2000 ≤ n && n ≤ 0x200a) ||
    n = 0x2028 || n = 0x2029 || n = 0x202f || n = 0x205f || n = 0x3000 || n = 0xfeff

/-- `replace(/\s+/g, " ")`; `inSpace` says that the run of spaces before is replaced already. -/
def collapseSpaces (inSpace : Bool) : List Char → List Char
  | [] => []
  | c :: cs =>
    if isSpace c then
      if inSpace then collapseSpaces true cs else ' ' :: collapseSpaces true cs
    else c :: collapseSpaces false cs

def trim (cs : List Char) : List Char :=
  ((cs.dropWhile isSpace).reverse.dropWhile isSpace).reverse

/-- `originalText.replace(/\s+/g, " ").trim()`. -/
def trimmed (originalText : String) : String :=
  String.ofList (trim (collapseSpaces false originalText.toList))

/-! ## Segments -/

structure PageSegment where
  id : String
  path : String
  originalText : String
  textHash : String
  deriving DecidableEq

structure RestoreEntry where
  segmentId : String
  originalText : String
  path : String
  deriving DecidableEq

structure DomSegmentOptions where
  skipCodePre : Bool
  includeContentEditable : Bool
  minLength : Nat

def skipTags : List String :=
  ["SCRIPT", "STYLE", "NOSCRIPT", "TEXTAREA", "INPUT", "SELECT", "OPTION", "CODE", "PRE", "SVG",
    "MATH", "IFRAME"]

/-- `toUpperCase`, as far as the result can be one of `skipTags`: besides the ASCII letters, the
characters whose upper case is made of letters of those tags. -/
def toUpperCase (s : String) : String :=
  String.ofList <| s.toList.flatMap fun c =>
    match c with
    | 'ı' => ['I']
    | 'ſ' => ['S']
    | 'ﬅ' | 'ﬆ' => ['S', 'T']
    | c => [c.toUpper]

def shouldSkipElement (tagName : String) (opts : DomSegmentOptions) : Bool :=
  let tag := toUpperCase tagName
  if tag ∈ skipTags then
    !((tag = "CODE" || tag = "PRE") && opts.skipCodePre = false)
  else false

def makeSegment (path originalText : String) : Option PageSegment :=
  let trimmed := trimmed originalText
  if trimmed = "" then none
  else
    let textHash := fnv1a trimmed
    some
      { id := "seg_" ++ fnv1a (path ++ ":" ++ textHash)
        path
        originalText := trimmed
        textHash }

/-- A blank text makes no segment. -/
theorem trimmed_ne_of_makeSegment {path text : String} {segment : PageSegment}
    (h : makeSegment path text = some segment) : trimmed text ≠ "" := by
  intro hblank
  simp [makeSegment, hblank] at h

/-- A text node with the segment and the restore entry made of it. -/
structure Collected where
  node : TextNode
  segment : PageSegment
  entry : RestoreEntry

/-- `walk` of `collectTextSegments` at a text node. -/
def collectText (d : Document) (opts : DomSegmentOptions) (t : TextNode) : Option Collected :=
  let text := d.data t.id
  let path := t.absoluteNodePath
  match makeSegment path text with
  | some seg =>
    if opts.minLength ≤ (codeUnits seg.originalText).length then
      some { node := t, segment := seg,
             entry := { segmentId := seg.id, originalText := text, path } }
    else none
  | none => none

/-- `walk` of `collectTextSegments` returns at this element. -/
def skips (d : Document) (opts : DomSegmentOptions) (id : NodeId) (tagName : String) : Bool :=
  shouldSkipElement tagName opts ||
    (d.attributes id "contenteditable" = some "true" && !opts.includeContentEditable)

/-- `collectTextSegments` of an element, in the document or in a detached tree. -/
def collectTextSegments (d : Document) (root : NodeId) (opts : DomSegmentOptions) :
    List Collected :=
  match d.tree.locate root with
  | some (above, chain, childNodes) =>
    if chain.getLast?.any fun a => skips d opts a.id a.tagName then []
    else (childNodes.walk (skips d opts) above 0).filterMap (collectText d opts)
  | none => []

/-- A text node that makes a segment, with what is kept of it. -/
structure Collects (d : Document) (c : Collected) : Prop where
  path : c.entry.path = c.node.absoluteNodePath
  originalText : c.entry.originalText = d.data c.node.id
  segmentId : c.entry.segmentId = c.segment.id
  segment : makeSegment c.entry.path c.entry.originalText = some c.segment

theorem collectText_spec {d : Document} {opts : DomSegmentOptions} {t : TextNode} {c : Collected}
    (h : collectText d opts t = some c) : c.node = t ∧ Collects d c := by
  unfold collectText at h
  dsimp only at h
  split at h
  · next seg hseg =>
    split at h <;> cases h
    exact ⟨rfl, rfl, rfl, rfl, hseg⟩
  · cases h

theorem collects_of_mem {d : Document} {root : NodeId} {opts : DomSegmentOptions} {c : Collected}
    (h : c ∈ collectTextSegments d root opts) : Collects d c := by
  unfold collectTextSegments at h
  split at h
  · split at h
    · cases h
    · obtain ⟨t, -, ht⟩ := List.mem_filterMap.1 h
      exact (collectText_spec ht).2
  · cases h

/-- Collecting from the body collects text nodes of the body. -/
theorem mem_texts_of_collect {d : Document} {opts : DomSegmentOptions} {c : Collected}
    (h : c ∈ collectTextSegments d d.tree.bodyId opts) : c.node ∈ d.texts := by
  unfold collectTextSegments at h
  rw [d.tree.locate_body] at h
  dsimp only at h
  split at h
  · cases h
  · obtain ⟨t, ht, hc⟩ := List.mem_filterMap.1 h
    rw [(collectText_spec hc).1]
    have hbody : d.tree.body.locate d.tree.bodyId [] d.tree.bodyIndex =
        some ([⟨d.tree.bodyId, "BODY", d.tree.bodyIndex⟩], d.tree.childNodes) := by
      simp [Tree.body, Nodes.locate]
    exact Nodes.mem_of_locate hbody (Nodes.mem_walk_iff.1 ht).1

/-! ## The restore table -/

/-- `RestoreTable`: every entry stands under its segment identifier. -/
structure RestoreTable where
  byId : OrderedMap String RestoreEntry
  keyed : ∀ {id e}, byId.get? id = some e → e.segmentId = id

namespace RestoreTable

/-- The table without entries. -/
def empty : RestoreTable := ⟨.empty, fun h => by simp at h⟩

def set (r : RestoreTable) (entry : RestoreEntry) : RestoreTable where
  byId := r.byId.set entry.segmentId entry
  keyed := by
    intro id e h
    rw [OrderedMap.get?_set] at h
    split at h
    · next hk => cases h; exact hk.symm
    · exact r.keyed h

/-- The constructor. -/
def new (entries : List RestoreEntry) : RestoreTable := entries.foldl set empty

def get (r : RestoreTable) (id : String) : Option RestoreEntry := r.byId.get? id

def originals (r : RestoreTable) : OrderedMap String String :=
  .ofList (r.byId.entries.map fun p => (p.1, p.2.originalText))

def originalsByPath (r : RestoreTable) : OrderedMap String String :=
  .ofList (r.byId.values.map fun e => (e.path, e.originalText))

/-- The entry that counts for a path: the last one. -/
def entryAt (r : RestoreTable) (path : String) : Option RestoreEntry :=
  r.byId.values.reverse.find? fun e => e.path = path

theorem get?_originalsByPath (r : RestoreTable) (path : String) :
    r.originalsByPath.get? path = (r.entryAt path).map RestoreEntry.originalText :=
  OrderedMap.get?_ofList_map _ RestoreEntry.path RestoreEntry.originalText path

theorem originals_entries (r : RestoreTable) :
    r.originals.entries = r.byId.entries.map fun p => (p.1, p.2.originalText) := by
  refine OrderedMap.entries_ofList ?_
  rw [List.map_map]
  exact r.byId.nodup

theorem entryAt_spec {r : RestoreTable} {path : String} {e : RestoreEntry}
    (h : r.entryAt path = some e) : r.get e.segmentId = some e ∧ e.path = path := by
  unfold entryAt at h
  have hm := List.mem_of_find?_eq_some h
  have hp := List.find?_some h
  simp only [decide_eq_true_eq] at hp
  rw [List.mem_reverse, OrderedMap.mem_values_iff] at hm
  obtain ⟨k, hk⟩ := hm
  refine ⟨?_, hp⟩
  rw [r.keyed hk]
  exact hk

/-- A path with an entry has one that counts. -/
theorem entryAt_of_get {r : RestoreTable} {id : String} {e : RestoreEntry}
    (h : r.get id = some e) : ∃ e', r.entryAt e.path = some e' := by
  rw [← Option.isSome_iff_exists]
  unfold entryAt
  rw [List.find?_isSome]
  exact ⟨e, List.mem_reverse.2 (r.byId.mem_values_iff.2 ⟨id, h⟩), by simp⟩

theorem get_set (r : RestoreTable) (entry : RestoreEntry) (id : String) :
    (r.set entry).get id = if id = entry.segmentId then some entry else r.get id :=
  OrderedMap.get?_set ..

theorem get_foldl_set {entries : List RestoreEntry} {r : RestoreTable} {id : String}
    {e : RestoreEntry} (h : (entries.foldl set r).get id = some e) :
    e ∈ entries ∨ r.get id = some e := by
  induction entries generalizing r with
  | nil => exact Or.inr h
  | cons x entries ih =>
    rcases ih h with hm | hg
    · exact Or.inl (List.mem_cons_of_mem _ hm)
    · rw [get_set] at hg
      split at hg
      · cases hg; exact Or.inl List.mem_cons_self
      · exact Or.inr hg

/-- The entries of a new table are among the given ones. -/
theorem mem_of_get_new {entries : List RestoreEntry} {id : String} {e : RestoreEntry}
    (h : (new entries).get id = some e) : e ∈ entries := by
  rcases get_foldl_set h with hm | hg
  · exact hm
  · simp [empty, get] at hg

end RestoreTable

/-- The table of a collection has entries at the path of a text node for that node only. -/
theorem collected_of_get {d : Document} {opts : DomSegmentOptions} {t : TextNode} {id : String}
    {e : RestoreEntry} (ht : t ∈ d.texts)
    (hget : (RestoreTable.new ((collectTextSegments d d.tree.bodyId opts).map
      Collected.entry)).get id = some e) (hpath : e.path = t.absoluteNodePath) :
    ∃ c ∈ collectTextSegments d d.tree.bodyId opts, c.node = t ∧ c.entry = e := by
  obtain ⟨c, hc, rfl⟩ := List.mem_map.1 (RestoreTable.mem_of_get_new hget)
  exact ⟨c, hc, d.tree.texts_path_inj (mem_texts_of_collect hc) ht
    ((collects_of_mem hc).path.symm.trans hpath), rfl⟩

theorem collected_of_entryAt {d : Document} {opts : DomSegmentOptions} {t : TextNode}
    {e : RestoreEntry} (ht : t ∈ d.texts)
    (he : (RestoreTable.new ((collectTextSegments d d.tree.bodyId opts).map
      Collected.entry)).entryAt t.absoluteNodePath = some e) :
    ∃ c ∈ collectTextSegments d d.tree.bodyId opts, c.node = t ∧ c.entry = e := by
  obtain ⟨hget, hpath⟩ := RestoreTable.entryAt_spec he
  exact collected_of_get ht hget hpath

end LanguageLlm.PageTranslate
