import LanguageLlm.JsText

/-!
# Dictionaries that are read back

Records of CC-CEDICT, written in its format and read with `parseCcedictText`. Between them may stand
comments, blank lines and lines that are not of the format; `parseCcedictText_render` says that
exactly the records come back, in their order.
-/

namespace LanguageLlm.LanguageKits

open Lib (intercalate_cons)
open PageTranslate (isSpace trim)

/-- A record of the dictionary. -/
structure CedictRecord where
  traditional : List Char
  simplified : List Char
  pinyin : List Char
  glosses : List (List Char)

/-- A text without spaces around it, not empty, without a separator and in one line. -/
structure PlainField (sep : Char) (field : List Char) : Prop where
  trimmed : trim field = field
  ne_nil : field ≠ []
  not_mem : sep ∉ field
  inLine : ∀ c ∈ field, isLineTerminator c = false

/-- A form: a word without spaces. -/
def IsForm (form : List Char) : Prop := form ≠ [] ∧ ∀ c ∈ form, isSpace c = false

namespace CedictRecord

/-- The records that the format can hold. -/
structure Admissible (r : CedictRecord) : Prop where
  traditional : IsForm r.traditional
  simplified : IsForm r.simplified
  not_comment : r.traditional.head? ≠ some '#'
  pinyin : PlainField ']' r.pinyin
  glosses_ne_nil : r.glosses ≠ []
  glosses : ∀ gloss ∈ r.glosses, PlainField '/' gloss

/-- `Traditional Simplified [pin1 yin1] /gloss 1/gloss 2/`. -/
def render (r : CedictRecord) : List Char :=
  r.traditional ++ ([' '] ++ (r.simplified ++ ([' '] ++ '[' :: (r.pinyin ++
    ']' :: ([' '] ++ '/' :: (['/'].intercalate r.glosses ++ '/' :: []))))))

/-- The entry of a record. -/
def entry (r : CedictRecord) : LexiconEntry :=
  let simplified := String.ofList r.simplified
  let pinyin := String.ofList r.pinyin
  { id := "ccedict:" ++ simplified ++ ":" ++ pinyin
    lemmaForm := simplified
    language := "zh"
    readings := some [pinyin]
    pronunciations := some [{ value := pinyin, system := "pinyin-numbered" }]
    senses := [{ id := "0", glosses := r.glosses.map String.ofList }]
    source := "cc-cedict"
    license := "CC BY-SA 4.0"
    attribution := "CC-CEDICT / MDBG"
    raw := .obj [("traditional", .str (String.ofList r.traditional)),
      ("simplified", .str simplified), ("pinyin", .str pinyin)] }

end CedictRecord

/-- A comment, a blank line or one that is not of the format with a gloss. -/
def NoRecord (line : List Char) : Prop :=
  trim line = [] ∨ (trim line).head? = some '#' ∨
    ∀ traditional simplified pinyin glosses,
      CcedictShape (trim line) traditional simplified pinyin glosses →
        ∀ gloss ∈ glosses.splitOn '/', trim gloss = []

/-- A line of a dictionary. -/
inductive CedictLine where
  | record (r : CedictRecord)
  | other (line : List Char)

namespace CedictLine

def text : CedictLine → List Char
  | record r => r.render
  | other line => line

def record? : CedictLine → Option CedictRecord
  | record r => some r
  | other _ => none

def Ok : CedictLine → Prop
  | record r => r.Admissible
  | other line => '\n' ∉ line ∧ NoRecord line

end CedictLine

/-- The text of a dictionary, with line feeds or carriage returns and line feeds. -/
def renderText (crlf : Bool) (lines : List CedictLine) : List Char :=
  (if crlf then ['\r', '\n'] else ['\n']).intercalate (lines.map CedictLine.text)

/-! ## One line -/

section Line

variable {r : CedictRecord} {line : List Char}

theorem contentOf_congr {line' : List Char} (h : trim line = trim line') :
    contentOf line = contentOf line' := by
  rw [contentOf, h, contentOf]

/-- A line is read without the spaces around it. -/
theorem parseCcedictLine_congr {line' : List Char} (h : trim line = trim line') :
    parseCcedictLine line = parseCcedictLine line' := by
  rw [parseCcedictLine, contentOf_congr h, parseCcedictLine]

theorem mem_intercalate {c : Char} {parts : List (List Char)} (h : c ∈ ['/'].intercalate parts) :
    c = '/' ∨ ∃ part ∈ parts, c ∈ part := by
  cases parts with
  | nil => cases h
  | cons part parts =>
    rw [intercalate_cons, List.mem_append, List.mem_flatMap] at h
    rcases h with h | ⟨next, hnext, h⟩
    · exact Or.inr ⟨part, List.mem_cons_self, h⟩
    · rcases List.mem_cons.1 h with rfl | h
      · exact Or.inl rfl
      · exact Or.inr ⟨next, List.mem_cons_of_mem _ hnext, h⟩

theorem plus_space : Plus isSpace [' '] :=
  ⟨List.cons_ne_nil _ _, List.forall_mem_singleton.2 rfl⟩

theorem IsForm.plus {form : List Char} (h : IsForm form) : Plus (fun c => !isSpace c) form :=
  ⟨h.1, fun c hc => by simp [h.2 c hc]⟩

/-- A record has the shape that the expression matches. -/
theorem shape_render (hr : r.Admissible) :
    CcedictShape r.render r.traditional r.simplified r.pinyin (['/'].intercalate r.glosses) := by
  refine ⟨[' '], [' '], [' '], [], rfl, hr.traditional.plus, plus_space, hr.simplified.plus,
    plus_space, ⟨hr.pinyin.ne_nil, fun c hc => ?_⟩, plus_space, ⟨?_, fun c hc => ?_⟩, nofun⟩
  · rw [decide_eq_true_eq]
    rintro rfl
    exact hr.pinyin.not_mem hc
  · obtain ⟨gloss, glosses, hglosses⟩ := List.exists_cons_of_ne_nil hr.glosses_ne_nil
    have hgloss := (hr.glosses gloss (by simp [hglosses])).ne_nil
    rw [hglosses, intercalate_cons]
    simp [hgloss]
  · rcases mem_intercalate hc with rfl | ⟨gloss, hgloss, hc⟩
    · rfl
    · simp [(hr.glosses gloss hgloss).inLine c hc]

theorem head?_render (hr : r.Admissible) : r.render.head? = r.traditional.head? :=
  List.head?_append_of_ne_nil _ hr.traditional.1

theorem trim_render (hr : r.Admissible) : trim r.render = r.render := by
  refine trim_eq_self_iff.2 ⟨fun c hc => ?_, fun c hc => ?_⟩
  · rw [head?_render hr] at hc
    exact hr.traditional.2 c (List.mem_of_mem_head? hc)
  · have hlast : r.render.getLast? = some '/' := by
      simp [CedictRecord.render, List.getLast?_append, List.getLast?_cons]
    rw [hlast] at hc
    obtain rfl := Option.some.inj hc
    rfl

theorem contentOf_render (hr : r.Admissible) : contentOf r.render = some r.render := by
  rw [contentOf, trim_render hr]
  split
  · next hnil =>
    have hhead := head?_render hr
    rw [hnil] at hhead
    exact absurd (List.head?_eq_none_iff.1 hhead.symm) hr.traditional.1
  · next hcomment =>
    have hhead := head?_render hr
    rw [hcomment] at hhead
    exact absurd hhead.symm hr.not_comment
  · rfl

/-- The glosses that are joined are split again. -/
theorem split_glosses (hr : r.Admissible) :
    (((['/'].intercalate r.glosses).splitOn '/').map trim).filter (fun g => g ≠ []) =
      r.glosses := by
  rw [List.splitOn_intercalate '/' (fun gloss h => (hr.glosses gloss h).not_mem) hr.glosses_ne_nil]
  have htrim : r.glosses.map trim = r.glosses :=
    (List.map_congr_left fun gloss h => (hr.glosses gloss h).trimmed).trans (List.map_id _)
  rw [htrim, List.filter_eq_self]
  intro gloss h
  exact decide_eq_true (hr.glosses gloss h).ne_nil

theorem parseCcedictLine_render (hr : r.Admissible) : parseCcedictLine r.render = some r.entry := by
  have hne : r.glosses.map String.ofList ≠ [] := by simpa using hr.glosses_ne_nil
  simp only [parseCcedictLine, contentOf_render hr, ccedictMatch_iff.2 (shape_render hr),
    Option.bind_eq_bind, Option.bind_some, split_glosses hr, hr.pinyin.trimmed, if_neg hne]
  rfl

theorem parseCcedictLine_noRecord (h : NoRecord line) : parseCcedictLine line = none := by
  rw [parseCcedictLine, contentOf]
  rcases h with hblank | hcomment | hshape
  · rw [hblank]
    rfl
  · obtain ⟨rest, hrest⟩ := List.head?_eq_some_iff.1 hcomment
    rw [hrest]
    rfl
  · split
    · rfl
    · rfl
    · simp only [Option.bind_eq_bind, Option.bind_some]
      cases hmatch : ccedictMatch (trim line) with
      | none => rfl
      | some groups =>
        obtain ⟨traditional, simplified, pinyin, glosses⟩ := groups
        have hblank := hshape _ _ _ _ (ccedictMatch_iff.1 hmatch)
        have hnone : ((glosses.splitOn '/').map trim).filter (fun g => g ≠ []) = [] := by
          rw [List.filter_eq_nil_iff]
          intro g hg
          obtain ⟨gloss, hgloss, rfl⟩ := List.mem_map.1 hg
          simpa using hblank gloss hgloss
        simp only [Option.bind_some, hnone, List.map_nil, if_true]

end Line

/-! ## The text -/

section Text

variable {line rest : List Char}

/-- A carriage return before a line feed is not part of the line. -/
theorem splitLines_crlf (h : '\n' ∉ line) :
    splitLines (line ++ '\r' :: '\n' :: rest) = line :: splitLines rest := by
  induction line with
  | nil => rw [List.nil_append, splitLines]
  | cons c line ih =>
    have hc : '\n' ≠ c := List.ne_of_not_mem_cons h
    have hline : '\n' ∉ line := List.not_mem_of_not_mem_cons h
    rw [List.cons_append, splitLines, ih hline]
    · intro cs hcr hcs
      cases line with
      | nil => cases hcs
      | cons d line =>
        rw [List.cons_append, List.cons.injEq] at hcs
        exact hline (hcs.1 ▸ List.mem_cons_self)
    · intro hcn
      exact hc hcn.symm

/-- Lines read one by one. -/
def parseLines (cs : List Char) : List LexiconEntry := (splitLines cs).filterMap parseCcedictLine

/-- A line is read apart from the lines after it, whatever stands at its end. -/
theorem parseLines_append (h : '\n' ∉ line) :
    parseLines (line ++ '\n' :: rest) = (parseCcedictLine line).toList ++ parseLines rest := by
  have hcons : ∀ l, (l :: splitLines rest).filterMap parseCcedictLine =
      (parseCcedictLine l).toList ++ parseLines rest := by
    intro l
    rw [List.filterMap_cons]
    cases parseCcedictLine l <;> rfl
  by_cases hlast : line.getLast? = some '\r'
  · obtain ⟨before, rfl⟩ := List.getLast?_eq_some_iff.1 hlast
    have hbefore : '\n' ∉ before := fun hmem => h (List.mem_append_left _ hmem)
    have hspaces : ∀ c ∈ ['\r'], isSpace c = true := List.forall_mem_singleton.2 rfl
    rw [List.append_assoc, List.singleton_append, parseLines, splitLines_crlf hbefore, hcons,
      parseCcedictLine_congr (trim_append_spaces hspaces)]
  · rw [parseLines, splitLines_append h hlast, hcons]

theorem parseLines_intercalate (crlf : Bool) {lines : List (List Char)} (hne : lines ≠ [])
    (h : ∀ line ∈ lines, '\n' ∉ line) :
    parseLines ((if crlf then ['\r', '\n'] else ['\n']).intercalate lines) =
      lines.filterMap parseCcedictLine := by
  induction lines with
  | nil => exact absurd rfl hne
  | cons line lines ih =>
    obtain ⟨hline, hlines⟩ := List.forall_mem_cons.1 h
    have hcons : (line :: lines).filterMap parseCcedictLine =
        (parseCcedictLine line).toList ++ lines.filterMap parseCcedictLine := by
      rw [List.filterMap_cons]
      cases parseCcedictLine line <;> rfl
    cases lines with
    | nil => rw [List.intercalate_singleton, parseLines, splitLines_line hline]
    | cons next lines =>
      rw [List.intercalate_cons_cons, hcons, ← ih (List.cons_ne_nil _ _) hlines]
      cases crlf with
      | false =>
        let rest := ['\n'].intercalate (next :: lines)
        have happend : parseLines (line ++ '\n' :: rest) =
            (parseCcedictLine line).toList ++ parseLines rest := parseLines_append hline
        simpa [rest] using happend
      | true =>
        have hspaces : ∀ c ∈ ['\r'], isSpace c = true := List.forall_mem_singleton.2 rfl
        have hcr : '\n' ∉ line ++ ['\r'] := by simpa using hline
        rw [← parseCcedictLine_congr (trim_append_spaces hspaces)]
        let rest := ['\r', '\n'].intercalate (next :: lines)
        have happend : parseLines ((line ++ ['\r']) ++ '\n' :: rest) =
            (parseCcedictLine (line ++ ['\r'])).toList ++ parseLines rest :=
          parseLines_append hcr
        simpa [rest] using happend

/-- A field in one line has no line feed. -/
theorem not_mem_of_inLine {field : List Char} (h : ∀ c ∈ field, isLineTerminator c = false) :
    '\n' ∉ field := by
  intro hmem
  have hn : isLineTerminator '\n' = false := h _ hmem
  cases hn

theorem not_mem_of_isForm {form : List Char} (h : IsForm form) : '\n' ∉ form := by
  intro hmem
  have hn : isSpace '\n' = false := h.2 _ hmem
  cases hn

theorem not_mem_render {r : CedictRecord} (hr : r.Admissible) : '\n' ∉ r.render := by
  have hglosses : '\n' ∉ ['/'].intercalate r.glosses := by
    intro hmem
    rcases mem_intercalate hmem with hslash | ⟨gloss, hgloss, hmem⟩
    · cases hslash
    · exact not_mem_of_inLine (hr.glosses gloss hgloss).inLine hmem
  simp [CedictRecord.render, not_mem_of_isForm hr.traditional, not_mem_of_isForm hr.simplified,
    not_mem_of_inLine hr.pinyin.inLine, hglosses]

theorem CedictLine.Ok.not_mem {l : CedictLine} (h : l.Ok) : '\n' ∉ l.text := by
  cases l with
  | record r => exact not_mem_render h
  | other line => exact h.1

theorem CedictLine.Ok.parse {l : CedictLine} (h : l.Ok) :
    parseCcedictLine l.text = l.record?.map CedictRecord.entry := by
  cases l with
  | record r => exact parseCcedictLine_render h
  | other line => exact parseCcedictLine_noRecord h.2

/-- The records of a dictionary come back, each as its entry and in their order. -/
theorem parseCcedictText_render {lines : List CedictLine} (h : ∀ l ∈ lines, l.Ok) (crlf : Bool) :
    parseCcedictText (String.ofList (renderText crlf lines)) =
      (lines.filterMap CedictLine.record?).map CedictRecord.entry := by
  rw [parseCcedictText, String.toList_ofList, renderText, List.map_filterMap]
  change parseLines _ = _
  by_cases hne : lines.map CedictLine.text = []
  · obtain rfl := List.map_eq_nil_iff.1 hne
    cases crlf <;> rfl
  · rw [parseLines_intercalate crlf hne, List.filterMap_map]
    · exact List.filterMap_congr fun l hl => (h l hl).parse
    · intro line hline
      obtain ⟨l, hl, rfl⟩ := List.mem_map.1 hline
      exact (h l hl).not_mem

end Text

/-- A record with brackets in its forms and its glosses. -/
def bracketRecord : CedictRecord where
  traditional := "[一]".toList
  simplified := "]一[".toList
  pinyin := "yi1 [x".toList
  glosses := ["one] [".toList, "[1]".toList]

theorem forall_eq_false {p : Char → Bool} {cs : List Char} (h : cs.any p = false) :
    ∀ c ∈ cs, p c = false := by
  intro c hc
  exact Bool.eq_false_iff.2 (List.any_eq_false.1 h c hc)

theorem admissible_bracketRecord : bracketRecord.Admissible where
  traditional := ⟨by decide, forall_eq_false rfl⟩
  simplified := ⟨by decide, forall_eq_false rfl⟩
  not_comment := by decide
  pinyin := ⟨by decide, by decide, by decide, forall_eq_false rfl⟩
  glosses_ne_nil := by decide
  glosses := List.forall_mem_cons.2 ⟨⟨by decide, by decide, by decide, forall_eq_false rfl⟩,
    List.forall_mem_singleton.2 ⟨by decide, by decide, by decide, forall_eq_false rfl⟩⟩

theorem parseCcedictText_bracketRecord :
    parseCcedictText (String.ofList (renderText true
      [.other "# comment".toList, .record bracketRecord, .other []])) = [bracketRecord.entry] := by
  have hcomment : (CedictLine.other "# comment".toList).Ok :=
    ⟨by decide, Or.inr (Or.inl (by decide))⟩
  have hrecord : (CedictLine.record bracketRecord).Ok := admissible_bracketRecord
  have hblank : (CedictLine.other []).Ok := ⟨by decide, Or.inl (by decide)⟩
  exact parseCcedictText_render (List.forall_mem_cons.2 ⟨hcomment, List.forall_mem_cons.2
    ⟨hrecord, List.forall_mem_singleton.2 hblank⟩⟩) true

/-- A record whose simplified form is empty does not come back. -/
theorem not_parseCcedictText_emptyForm : ¬ ∀ r : CedictRecord,
    (∀ c ∈ r.traditional, isSpace c = false) → (∀ c ∈ r.simplified, isSpace c = false) →
    r.traditional.head? ≠ some '#' → PlainField ']' r.pinyin → r.glosses ≠ [] →
    (∀ gloss ∈ r.glosses, PlainField '/' gloss) →
      parseCcedictText (String.ofList (renderText false [.record r])) = [r.entry] := by
  intro h
  have hentry := h ⟨['一'], [], ['y'], [['o']]⟩ (forall_eq_false rfl) nofun (by decide)
    ⟨by decide, by decide, by decide, forall_eq_false rfl⟩ (by decide)
    (List.forall_mem_singleton.2 ⟨by decide, by decide, by decide, forall_eq_false rfl⟩)
  have hnone : parseCcedictText (String.ofList
      (renderText false [.record ⟨['一'], [], ['y'], [['o']]⟩])) = [] := by
    decide +kernel
  rw [hnone] at hentry
  cases hentry

end LanguageLlm.LanguageKits
