import Mathlib.Data.List.Sort

/-!
# Graphemes

`graphemes.ts` and the furigana of `japanese.ts`, for any segmenter whose segments join to the text.
`splitHighlightSurfaces` and `toRubyPairs` cut a text at spans and skip those that begin before the
last cut; `graphemes_lossless` says that nothing of the text is lost.
-/

namespace LanguageLlm.LanguageKits

/-- `Intl.Segmenter` on texts of code units: a function whose segments join to the text. -/
structure Segmenter (α : Type) where
  segments : List α → List (List α)
  flatten_segments : ∀ text, (segments text).flatten = text

structure GraphemeSpan where
  start : Nat
  stop : Nat
  deriving DecidableEq

structure GraphemeSlice (α : Type) where
  text : List α
  start : Nat
  stop : Nat

structure FuriganaAnnotation (α : Type) where
  span : GraphemeSpan
  reading : List α

/-- A base and its reading, where it has one. -/
structure RubyPair (α : Type) where
  base : List α
  reading : Option (List α)

/-! ## The code -/

section Code

variable {α : Type} [DecidableEq α] (S : Segmenter α)

/-- `graphemes.slice(start, end).join("")`. -/
def joinSlice (graphemes : List (List α)) (start stop : Nat) : List α :=
  ((graphemes.take stop).drop start).flatten

/-- The loops of `findGraphemeSpan` and `attachFurigana`: the first place at which the graphemes of
the needle stand. -/
def findNeedle (graphemes needle : List (List α)) : Option GraphemeSpan :=
  let places := List.range (graphemes.length + 1 - needle.length)
  let found := places.find? fun i =>
    (List.range needle.length).all fun j => graphemes[i + j]? = needle[j]?
  found.map fun i => { start := i, stop := i + needle.length }

namespace Segmenter

def graphemeLength (text : List α) : Nat := (S.segments text).length

def sliceGraphemes (text : List α) (start : Int) (stop : Option Int) : List α :=
  let graphemes := S.segments text
  let last := stop.getD graphemes.length
  joinSlice graphemes (max 0 start).toNat (max 0 last).toNat

def findGraphemeSpan (text surface : List α) : Option GraphemeSpan :=
  if surface = [] then none
  else
    let graphemes := S.segments text
    let needle := S.segments surface
    if needle.length = 0 then none else findNeedle graphemes needle

/-- The loop of `splitHighlightSurfaces` from a cursor, and what is pushed after it. -/
def splitFrom (text : List α) (cursor : Nat) : List GraphemeSpan → List (GraphemeSlice α)
  | [] =>
    if cursor < S.graphemeLength text then
      [{ text := S.sliceGraphemes text cursor none
         start := cursor
         stop := S.graphemeLength text }]
    else []
  | span :: spans =>
    if span.start < cursor then splitFrom text cursor spans
    else
      let gap : List (GraphemeSlice α) :=
        if cursor < span.start then
          [{ text := S.sliceGraphemes text cursor (some span.start)
             start := cursor
             stop := span.start }]
        else []
      let piece : GraphemeSlice α :=
        { text := S.sliceGraphemes text span.start (some span.stop)
          start := span.start
          stop := span.stop }
      gap ++ piece :: splitFrom text span.stop spans

def splitHighlightSurfaces (text : List α) (surfaces : List (List α)) :
    List (GraphemeSlice α) :=
  let spans := (surfaces.filterMap fun s => S.findGraphemeSpan text s).insertionSort
    fun a b => a.start ≤ b.start
  S.splitFrom text 0 spans

def attachFurigana (text surface reading : List α) : Option ( FuriganaAnnotation α) :=
  let graphemes := S.segments text
  let needle := S.segments surface
  if needle.length = 0 then none
  else (findNeedle graphemes needle).map fun span => { span, reading }

/-- The loop of `toRubyPairs` from a cursor, and what is pushed after it. -/
def rubyFrom (graphemes : List (List α)) (cursor : Nat) :
    List ( FuriganaAnnotation α) → List (RubyPair α)
  | [] =>
    if cursor < graphemes.length then
      [{ base := joinSlice graphemes cursor graphemes.length, reading := none }]
    else []
  | ann :: anns =>
    if ann.span.start < cursor then rubyFrom graphemes cursor anns
    else
      let gap : List (RubyPair α) :=
        if cursor < ann.span.start then
          [{ base := joinSlice graphemes cursor ann.span.start, reading := none }]
        else []
      let pair : RubyPair α :=
        { base := joinSlice graphemes ann.span.start ann.span.stop, reading := some ann.reading }
      gap ++ pair :: rubyFrom graphemes ann.span.stop anns

def toRubyPairs (text : List α) (annotations : List ( FuriganaAnnotation α)) : List (RubyPair α) :=
  let sorted := annotations.insertionSort fun a b => a.span.start ≤ b.span.start
  rubyFrom (S.segments text) 0 sorted

end Segmenter

end Code

/-! ## Cuts -/

section Cuts

variable {α : Type} {graphemes : List (List α)} {a b : Nat}

/-- What stands before a cut and the slice after it. -/
theorem joinSlice_append (hab : a ≤ b) :
    joinSlice graphemes 0 a ++ joinSlice graphemes a b = joinSlice graphemes 0 b := by
  rw [joinSlice, joinSlice, joinSlice, List.drop_zero, List.drop_zero, ← List.flatten_append]
  congr 1
  conv_rhs => rw [← List.take_append_drop a (graphemes.take b), List.take_take, Nat.min_eq_left hab]

/-- Behind the end there is nothing to add. -/
theorem joinSlice_of_length_le (h : graphemes.length ≤ a) :
    joinSlice graphemes 0 a = graphemes.flatten := by
  rw [joinSlice, List.drop_zero, List.take_of_length_le h]

end Cuts

/-! ## The search -/

section Search

variable {α : Type} [DecidableEq α] {graphemes needle : List (List α)} {i : Nat}

/-- The graphemes of the needle stand at a place. -/
def OccursAt (graphemes needle : List (List α)) (i : Nat) : Prop := needle <+: graphemes.drop i

theorem occursAt_iff :
    OccursAt graphemes needle i ↔
      ((List.range needle.length).all fun j => graphemes[i + j]? = needle[j]?) = true := by
  rw [OccursAt, List.prefix_iff_getElem?, List.all_eq_true]
  constructor
  · intro hget j hj
    have hlt := List.mem_range.1 hj
    rw [decide_eq_true_eq, List.getElem?_eq_getElem hlt, ← hget j hlt, List.getElem?_drop]
  · intro hall j hj
    have hj' := of_decide_eq_true (hall j (List.mem_range.2 hj))
    rw [List.getElem?_drop, hj', List.getElem?_eq_getElem hj]

omit [DecidableEq α] in
/-- A needle that is not empty ends before the end of the text. -/
theorem OccursAt.lt (hne : needle ≠ []) (h : OccursAt graphemes needle i) :
    i < graphemes.length + 1 - needle.length := by
  have hlength := h.length_le
  have hpos := List.length_pos_of_ne_nil hne
  rw [List.length_drop] at hlength
  omega

/-- The search finds the least place. -/
theorem findNeedle_eq_some_iff (hne : needle ≠ []) {span : GraphemeSpan} :
    findNeedle graphemes needle = some span ↔
      span.stop = span.start + needle.length ∧ OccursAt graphemes needle span.start ∧
        ∀ j < span.start, ¬ OccursAt graphemes needle j := by
  simp only [findNeedle, Option.map_eq_some_iff, List.find?_range_eq_some, ← occursAt_iff,
    Bool.not_eq_true']
  constructor
  · rintro ⟨i, ⟨hi, -, hleast⟩, rfl⟩
    refine ⟨rfl, hi, fun j hj hoccurs => ?_⟩
    have hnot := hleast j hj
    rw [occursAt_iff.1 hoccurs] at hnot
    cases hnot
  · rintro ⟨hstop, hoccurs, hleast⟩
    refine ⟨span.start, ⟨hoccurs, List.mem_range.2 (hoccurs.lt hne), fun j hj => ?_⟩, ?_⟩
    · exact Bool.eq_false_iff.2 fun hall => hleast j hj (occursAt_iff.2 hall)
    · rw [← hstop]

theorem findNeedle_eq_none_iff (hne : needle ≠ []) :
    findNeedle graphemes needle = none ↔ ∀ i, ¬ OccursAt graphemes needle i := by
  simp only [findNeedle, Option.map_eq_none_iff, List.find?_eq_none, List.mem_range,
    ← occursAt_iff]
  exact ⟨fun h i hoccurs => h i (hoccurs.lt hne) hoccurs, fun h i _ => h i⟩

end Search

/-! ## The pieces -/

section Pieces

variable {α : Type} [DecidableEq α] {S : Segmenter α} {text surface : List α} {a b cursor : Nat}

/-- The pieces are ranges of graphemes that follow one another from `a` to `b`, each with its
text. -/
def Covers (graphemes : List (List α)) : Nat → List (GraphemeSlice α) → Nat → Prop
  | a, [], b => a = b
  | a, piece :: pieces, b =>
    piece.start = a ∧ piece.start < piece.stop ∧
      piece.text = joinSlice graphemes piece.start piece.stop ∧ Covers graphemes piece.stop pieces b

omit [DecidableEq α] in
/-- The texts of the pieces join to that of the whole range. -/
theorem Covers.flatMap_text {graphemes : List (List α)} {pieces : List (GraphemeSlice α)}
    (h : Covers graphemes a pieces b) :
    joinSlice graphemes 0 a ++ pieces.flatMap GraphemeSlice.text = joinSlice graphemes 0 b := by
  induction pieces generalizing a with
  | nil =>
    obtain rfl : a = b := h
    exact List.append_nil _
  | cons piece pieces ih =>
    obtain ⟨rfl, hlt, htext, hrest⟩ := h
    rw [List.flatMap_cons, htext, ← List.append_assoc, joinSlice_append hlt.le]
    exact ih hrest

omit [DecidableEq α] in
theorem sliceGraphemes_some (a b : Nat) :
    S.sliceGraphemes text a (some (b : Int)) = joinSlice (S.segments text) a b := by
  simp [Segmenter.sliceGraphemes]

omit [DecidableEq α] in
theorem sliceGraphemes_none (a : Nat) :
    S.sliceGraphemes text a none = joinSlice (S.segments text) a (S.segments text).length := by
  simp [Segmenter.sliceGraphemes]

omit [DecidableEq α] in
/-- From any cursor, spans in the text give pieces up to its end. -/
theorem covers_splitFrom {spans : List GraphemeSpan}
    (hspans : ∀ span ∈ spans, span.start < span.stop ∧ span.stop ≤ S.graphemeLength text)
    (hcursor : cursor ≤ S.graphemeLength text) :
    Covers (S.segments text) cursor (S.splitFrom text cursor spans) (S.graphemeLength text) := by
  induction spans generalizing cursor with
  | nil =>
    rw [Segmenter.splitFrom]
    split
    · next hlt => exact ⟨rfl, hlt, sliceGraphemes_none cursor, rfl⟩
    · next hge => exact Nat.le_antisymm hcursor (Nat.le_of_not_lt hge)
  | cons span spans ih =>
    obtain ⟨⟨hlt, hstop⟩, hrest⟩ := List.forall_mem_cons.1 hspans
    rw [Segmenter.splitFrom]
    split
    · -- the span begins before the last cut and is skipped
      exact ih hrest hcursor
    · next hge =>
      have hpiece : Covers (S.segments text) span.start
          ({ text := S.sliceGraphemes text span.start (some (span.stop : Int))
             start := span.start
             stop := span.stop } :: S.splitFrom text span.stop spans) (S.graphemeLength text) :=
        ⟨rfl, hlt, sliceGraphemes_some span.start span.stop, ih hrest hstop⟩
      split
      · next hgap => exact ⟨rfl, hgap, sliceGraphemes_some cursor span.start, hpiece⟩
      · next hgap =>
        rw [Nat.le_antisymm (Nat.le_of_not_lt hge) (Nat.le_of_not_lt hgap)]
        exact hpiece

/-- A span that is found lies in the text. -/
theorem findGraphemeSpan_bounds {span : GraphemeSpan}
    (h : S.findGraphemeSpan text surface = some span) :
    span.start < span.stop ∧ span.stop ≤ S.graphemeLength text := by
  rw [Segmenter.findGraphemeSpan] at h
  split at h
  · cases h
  · simp only at h
    split at h
    · cases h
    · next hlength =>
      have hne : S.segments surface ≠ [] := fun hnil => hlength (by rw [hnil]; rfl)
      obtain ⟨hstop, hoccurs, -⟩ := (findNeedle_eq_some_iff hne).1 h
      have hlt := hoccurs.lt hne
      have hpos := List.length_pos_of_ne_nil hne
      rw [Segmenter.graphemeLength]
      omega

theorem covers_splitHighlightSurfaces (surfaces : List (List α)) :
    Covers (S.segments text) 0 (S.splitHighlightSurfaces text surfaces)
      (S.graphemeLength text) := by
  refine covers_splitFrom (fun span hspan => ?_) (Nat.zero_le _)
  rw [List.mem_insertionSort] at hspan
  obtain ⟨surface, -, hfound⟩ := List.mem_filterMap.1 hspan
  exact findGraphemeSpan_bounds hfound

omit [DecidableEq α] in
/-- What is pushed from a cursor and the text before it are the whole text. -/
theorem flatMap_rubyFrom {graphemes : List (List α)} {anns : List ( FuriganaAnnotation α)}
    (hanns : ∀ ann ∈ anns, ann.span.start ≤ ann.span.stop) :
    joinSlice graphemes 0 cursor ++
      (Segmenter.rubyFrom graphemes cursor anns).flatMap RubyPair.base = graphemes.flatten := by
  induction anns generalizing cursor with
  | nil =>
    rw [Segmenter.rubyFrom]
    split
    · next hlt =>
      rw [List.flatMap_singleton, joinSlice_append hlt.le, joinSlice_of_length_le (Nat.le_refl _)]
    · next hge =>
      rw [List.flatMap_nil, List.append_nil, joinSlice_of_length_le (Nat.le_of_not_lt hge)]
  | cons ann anns ih =>
    obtain ⟨hle, hrest⟩ := List.forall_mem_cons.1 hanns
    rw [Segmenter.rubyFrom]
    split
    · exact ih hrest
    · next hge =>
      have hpair : joinSlice graphemes 0 ann.span.start ++
          (joinSlice graphemes ann.span.start ann.span.stop ++
            (Segmenter.rubyFrom graphemes ann.span.stop anns).flatMap RubyPair.base) =
          graphemes.flatten := by
        rw [← List.append_assoc, joinSlice_append hle, ih hrest]
      simp only [List.flatMap_append, List.flatMap_cons]
      split
      · next hgap =>
        rw [List.flatMap_singleton, ← List.append_assoc, joinSlice_append hgap.le, hpair]
      · next hgap =>
        rw [List.flatMap_nil, List.nil_append,
          Nat.le_antisymm (Nat.le_of_not_lt hge) (Nat.le_of_not_lt hgap), hpair]

end Pieces

/-! ## Nothing is lost -/

section Lossless

variable {α : Type} [DecidableEq α] {S : Segmenter α} {text surface : List α}

/-- What is found is the least place of the needle, and nothing is found exactly when it stands
nowhere. -/
def FindsLeast (graphemes needle : List (List α)) (found : Option GraphemeSpan) : Prop :=
  (∀ span, found = some span ↔
    span.stop = span.start + needle.length ∧ OccursAt graphemes needle span.start ∧
      ∀ j < span.start, ¬ OccursAt graphemes needle j) ∧
  (found = none ↔ ∀ i, ¬ OccursAt graphemes needle i)

theorem findsLeast_findNeedle {graphemes needle : List (List α)} (hne : needle ≠ []) :
    FindsLeast graphemes needle (findNeedle graphemes needle) :=
  ⟨fun _ => findNeedle_eq_some_iff hne, findNeedle_eq_none_iff hne⟩

theorem findGraphemeSpan_eq (hsurface : surface ≠ []) :
    S.findGraphemeSpan text surface = findNeedle (S.segments text) (S.segments surface) ∧
      S.segments surface ≠ [] := by
  have hne : S.segments surface ≠ [] := by
    intro hnil
    have hflatten := S.flatten_segments surface
    rw [hnil] at hflatten
    exact hsurface hflatten.symm
  have hlength : ¬ (S.segments surface).length = 0 := mt List.length_eq_zero_iff.1 hne
  refine ⟨?_, hne⟩
  rw [Segmenter.findGraphemeSpan, if_neg hsurface]
  exact if_neg hlength

theorem attachFurigana_eq (hne : S.segments surface ≠ []) (reading : List α) :
    S.attachFurigana text surface reading =
      (findNeedle (S.segments text) (S.segments surface)).map fun span => { span, reading } := by
  have hlength : ¬ (S.segments surface).length = 0 := mt List.length_eq_zero_iff.1 hne
  exact if_neg hlength

omit [DecidableEq α] in
/-- The graphemes of a text up to its end. -/
theorem joinSlice_length :
    joinSlice (S.segments text) 0 (S.graphemeLength text) = text :=
  (joinSlice_of_length_le (Nat.le_refl _)).trans (S.flatten_segments text)

omit [DecidableEq α] in
theorem joinSlice_zero (graphemes : List (List α)) : joinSlice graphemes 0 0 = [] := rfl

variable (S text)

/-- The pieces of any surfaces and the bases of any annotations are the text, cut at graphemes; a
surface that is not empty is found at its first place, and one without graphemes is not found. -/
theorem graphemes_lossless :
    (∀ surfaces,
      Covers (S.segments text) 0 (S.splitHighlightSurfaces text surfaces)
        (S.graphemeLength text) ∧
      (S.splitHighlightSurfaces text surfaces).flatMap GraphemeSlice.text = text) ∧
    (∀ annotations : List ( FuriganaAnnotation α),
      (∀ ann ∈ annotations, ann.span.start ≤ ann.span.stop) →
        (S.toRubyPairs text annotations).flatMap RubyPair.base = text) ∧
    (∀ surface, surface ≠ [] →
      FindsLeast (S.segments text) (S.segments surface) (S.findGraphemeSpan text surface)) ∧
    (∀ surface reading, S.segments surface ≠ [] →
      FindsLeast (S.segments text) (S.segments surface)
        ((S.attachFurigana text surface reading).map FuriganaAnnotation.span) ∧
      ∀ ann ∈ S.attachFurigana text surface reading, ann.reading = reading) ∧
    S.findGraphemeSpan text [] = none ∧
    ∀ surface reading, S.segments surface = [] → S.attachFurigana text surface reading = none := by
  refine ⟨fun surfaces => ?_, fun annotations hanns => ?_, fun surface hsurface => ?_,
    fun surface reading hne => ?_, rfl, fun surface reading hnil => ?_⟩
  · have hcovers : Covers (S.segments text) 0 (S.splitHighlightSurfaces text surfaces)
        (S.graphemeLength text) := covers_splitHighlightSurfaces surfaces
    refine ⟨hcovers, ?_⟩
    have hjoin := hcovers.flatMap_text
    rwa [joinSlice_zero, List.nil_append, joinSlice_length] at hjoin
  · have hsorted : ∀ ann ∈ annotations.insertionSort fun a b => a.span.start ≤ b.span.start,
        ann.span.start ≤ ann.span.stop :=
      fun ann hann => hanns ann ((List.mem_insertionSort _).1 hann)
    have hjoin : joinSlice (S.segments text) 0 0 ++
        (S.toRubyPairs text annotations).flatMap RubyPair.base = (S.segments text).flatten :=
      flatMap_rubyFrom hsorted
    rwa [joinSlice_zero, List.nil_append, S.flatten_segments] at hjoin
  · obtain ⟨heq, hne⟩ : S.findGraphemeSpan text surface = _ ∧ _ := findGraphemeSpan_eq hsurface
    rw [heq]
    exact findsLeast_findNeedle hne
  · rw [attachFurigana_eq hne, Option.map_map]
    constructor
    · have hspan : ( FuriganaAnnotation.span ∘ fun span => { span, reading }) = id := rfl
      rw [hspan, Option.map_id_fun, id]
      exact findsLeast_findNeedle hne
    · intro ann hann
      obtain ⟨span, -, rfl⟩ := Option.map_eq_some_iff.1 hann
      rfl
  · exact if_pos (by rw [hnil]; rfl)

end Lossless

/-- The segmenter of texts in which every code unit is a grapheme. -/
def unitSegmenter : Segmenter Char where
  segments text := text.map fun c => [c]
  flatten_segments text := by
    induction text with
    | nil => rfl
    | cons c text ih => rw [List.map_cons, List.flatten_cons, ih]; rfl

theorem unitSegmenter_lossless :
    (unitSegmenter.toRubyPairs "abc".toList
      [⟨⟨1, 2⟩, ['x']⟩, ⟨⟨0, 2⟩, ['y']⟩, ⟨⟨5, 9⟩, ['z']⟩]).flatMap RubyPair.base = "abc".toList ∧
    FindsLeast (unitSegmenter.segments "abcbc".toList) (unitSegmenter.segments "bc".toList)
      (unitSegmenter.findGraphemeSpan "abcbc".toList "bc".toList) :=
  ⟨(graphemes_lossless unitSegmenter "abc".toList).2.1 _ (by decide),
    (graphemes_lossless unitSegmenter "abcbc".toList).2.2.1 _ (by decide)⟩

/-- The empty list of graphemes stands everywhere, but the empty surface is not searched for. -/
theorem not_findsLeast_empty : ¬ ∀ (S : Segmenter Char) (text surface : List Char),
    FindsLeast (S.segments text) (S.segments surface) (S.findGraphemeSpan text surface) := by
  intro h
  have hnone := (h unitSegmenter ['a'] []).2.1 rfl
  exact hnone 0 List.nil_prefix

end LanguageLlm.LanguageKits
