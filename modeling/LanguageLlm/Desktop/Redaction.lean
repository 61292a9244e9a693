import Mathlib.Data.List.Chain
import LanguageLlm.Lib.Runs
import LanguageLlm.Desktop.Handlers

/-!
# Redaction of log lines

`redact_sensitive` collapses the value after the first occurrence of each of some keys, and then
replaces the words that are long hexadecimal numbers. `no_secret_survives_iff` says in which lines
no token is left.
-/

namespace LanguageLlm.Desktop

open Lib

/-! ## The code -/

def sensitiveKeys : List String :=
  ["bootstrapToken", "bootstrap_token", "sessionToken", "session_token", "Authorization", "Bearer "]

/-- `[',', '"', '\n', ' ']`: where the value of a key ends. -/
def isDelimiter (c : Char) : Bool := c = ',' || c.toNat = 0x22 || c = '\n' || c = ' '

/-- The other characters, of which the value consists. -/
def isValueChar (c : Char) : Bool := !isDelimiter c

/-- `is_ascii_hexdigit`. -/
def isHexDigit (c : Char) : Bool :=
  let n := c.toNat
  (0x30 ≤ n && n ≤ 0x39) || (0x61 ≤ n && n ≤ 0x66) || (0x41 ≤ n && n ≤ 0x46)

/-- What a value is replaced by. -/
def stars : List Char := [':', '*', '*', '*']

/-- The replacement of the value after the first occurrence of a key, when there is one. -/
def redactKey (out key : List Char) : List Char :=
  match findFirst key out with
  | none => out
  | some (before, rest) =>
    if rest.takeWhile isValueChar = [] then out
    else before ++ (key ++ (stars ++ rest.dropWhile isValueChar))

/-- `split_whitespace`. -/
def splitWhitespace (text : List Char) : List (List Char) :=
  (text.splitOnP isWhitespace).filter fun word => word ≠ []

/-- A word of the line as it is written back. -/
def redactToken (token : List Char) : List Char :=
  if 32 ≤ token.length ∧ token.all isHexDigit = true then "[redacted-hex]".toList else token

/-- The second pass: the words, each with a space after it, without the spaces at the end. -/
def redactHex (out : List Char) : List Char :=
  ((splitWhitespace out).flatMap fun token => redactToken token ++ [' ']).rdropWhile isWhitespace

def redactSensitive (text : String) : String :=
  String.ofList (redactHex ((sensitiveKeys.map String.toList).foldl redactKey text.toList))

example : redactSensitive "sessionToken:0123 next aabbccddeeff00112233445566778899" =
    "sessionToken:*** next [redacted-hex]" := by decide +kernel

structure LogBuffer where
  lines : List String
  capacity : Nat

/-- `LogBuffer::new`. -/
def LogBuffer.new (capacity : Nat) : LogBuffer where
  lines := []
  capacity := max capacity 64

/-- `LogBuffer::push`. -/
def LogBuffer.push (b : LogBuffer) (line : String) : LogBuffer :=
  let lines := b.lines ++ [line]
  { b with lines := lines.drop (lines.length - b.capacity) }

/-- The first line of an export. -/
def exportHeader : String := "# Language-LLM diagnostics export (redacted)"

/-- The text that `export_logs_redacted` writes. -/
def exportLogsRedacted (b : LogBuffer) : String :=
  exportHeader ++ "\n" ++
    if b.lines = [] then "(no buffered log lines)\n"
    else String.join (b.lines.map fun line => redactSensitive line ++ "\n")

/-- `logTail` of `get_diagnostics`. -/
def logTail (b : LogBuffer) : List String :=
  ((b.lines.reverse.take 100).map redactSensitive).reverse

/-! ## The second pass -/

/-- White space, or an end of the line, on both sides. -/
def Bare (before after : List Char) : Prop :=
  (∀ c ∈ before.getLast?, isWhitespace c = true) ∧ ∀ c ∈ after.head?, isWhitespace c = true

/-- The digits stand in a maximal run with some other character beside it. -/
def Exposed (text digits : List Char) : Prop :=
  ∃ before run after, text = before ++ (run ++ after) ∧ MaxRun isHexDigit before run after ∧
    ¬ Bare before after ∧ digits <:+: run

theorem not_isWhitespace_of_isHexDigit {c : Char} (h : isHexDigit c = true) :
    isWhitespace c = false := by
  simp only [isHexDigit, Bool.or_eq_true, Bool.and_eq_true, decide_eq_true_eq] at h
  simp only [isWhitespace, Bool.or_eq_false_iff, Bool.and_eq_false_iff, decide_eq_false_iff_not]
  omega

theorem isDelimiter_of_isHexDigit {c : Char} (h : isHexDigit c = true) : isDelimiter c = false := by
  rw [isDelimiter]
  simp only [isHexDigit, Bool.or_eq_true, Bool.and_eq_true, decide_eq_true_eq] at h
  simp only [Bool.or_eq_false_iff, decide_eq_false_iff_not]
  refine ⟨⟨⟨?_, by omega⟩, ?_⟩, ?_⟩ <;> rintro rfl <;> exact absurd h (by decide)

theorem unstarred_of_isHexDigit {c : Char} (h : isHexDigit c = true) : c ∉ stars := by
  intro hc
  have hall : ∀ c ∈ stars, (!isHexDigit c) = true := List.all_eq_true.1 (by decide)
  have hfalse := hall c hc
  rw [h] at hfalse
  cases hfalse

theorem isHexDigit_eq_false {c : Char} (h : isWhitespace c = true) : isHexDigit c = false := by
  by_contra hhex
  rw [not_isWhitespace_of_isHexDigit (by simpa using hhex)] at h
  cases h

variable {digits : List Char}

theorem infix_rdropWhile_iff {text : List Char} (hdigits : digits ≠ [])
    (hhex : ∀ c ∈ digits, isHexDigit c = true) :
    digits <:+: text.rdropWhile isWhitespace ↔ digits <:+: text := by
  constructor
  · intro h
    exact h.trans (List.rdropWhile_prefix ..).isInfix
  · intro h
    rw [← @List.rdropWhile_append_rtakeWhile _ isWhitespace text] at h
    have hspaces : ∀ c ∈ text.rtakeWhile isWhitespace, isWhitespace c = true :=
      fun c hc => List.mem_rtakeWhile_imp hc
    generalize text.rtakeWhile isWhitespace = spaces at h hspaces
    cases spaces with
    | nil => rwa [List.append_nil] at h
    | cons c spaces =>
      have hc : c ∉ digits := by
        intro hc
        have hfalse := not_isWhitespace_of_isHexDigit (hhex c hc)
        rw [hspaces c List.mem_cons_self] at hfalse
        cases hfalse
      rcases infix_append_cons hc h with h | h
      · exact h
      · -- the digits are not among the spaces
        cases digits with
        | nil => exact absurd rfl hdigits
        | cons d digits =>
          have hfalse := not_isWhitespace_of_isHexDigit (hhex d List.mem_cons_self)
          rw [hspaces d (List.mem_cons_of_mem _ (h.subset List.mem_cons_self))] at hfalse
          cases hfalse

/-- What is left of a long number after the second pass stands in a word with other characters. -/
theorem infix_redactHex_iff {text : List Char} (hlong : 32 ≤ digits.length)
    (hhex : ∀ c ∈ digits, isHexDigit c = true) :
    digits <:+: redactHex text ↔
      ∃ word ∈ text.splitOnP isWhitespace, digits <:+: word ∧ ¬ word.all isHexDigit = true := by
  have hne : digits ≠ [] := by
    rintro rfl
    simp at hlong
  have hspace : ' ' ∉ digits := fun h => absurd (hhex ' ' h) (by decide)
  rw [redactHex, infix_rdropWhile_iff hne hhex,
    ← List.flatMap_map redactToken (fun part => part ++ [' ']), infix_flatMap_separated hne hspace]
  constructor
  · rintro ⟨part, hpart, hwithin⟩
    obtain ⟨word, hword, rfl⟩ := List.mem_map.1 hpart
    refine ⟨word, (List.mem_filter.1 hword).1, ?_⟩
    rw [redactToken] at hwithin
    split at hwithin
    · have hle := hwithin.length_le
      have hshort : "[redacted-hex]".toList.length = 14 := by decide
      omega
    · next hkept => exact ⟨hwithin, fun hall => hkept ⟨le_trans hlong hwithin.length_le, hall⟩⟩
  · rintro ⟨word, hword, hwithin, hall⟩
    have hword' : word ≠ [] := by
      rintro rfl
      exact hne (List.infix_nil.1 hwithin)
    refine ⟨redactToken word,
      List.mem_map.2 ⟨word, List.mem_filter.2 ⟨hword, decide_eq_true hword'⟩, rfl⟩, ?_⟩
    rw [redactToken, if_neg]
    · exact hwithin
    · exact fun h => hall h.2

theorem redactHex_exposed_iff {text : List Char} (hlong : 32 ≤ digits.length)
    (hhex : ∀ c ∈ digits, isHexDigit c = true) :
    digits <:+: redactHex text ↔ Exposed text digits := by
  rw [infix_redactHex_iff hlong hhex]
  constructor
  · rintro ⟨word, hword, ⟨s, t, hst⟩, hall⟩
    obtain ⟨before, after, rfl, hrun⟩ := mem_splitOnP_iff.1 hword
    obtain ⟨b, x, y, a, rfl, rfl, hmax⟩ := MaxRun.exists_of_all hhex s t
    have hword' : word = b ++ ((x ++ digits ++ y) ++ a) := by rw [← hst]; simp
    rw [hword'] at hrun hall
    refine ⟨before ++ b, x ++ digits ++ y, a ++ after, by rw [hword']; simp, ⟨hmax.all, ?_, ?_⟩, ?_,
      ⟨x, y, rfl⟩⟩
    · intro c hc
      rcases mem_getLast?_append hc with hc | ⟨-, hc⟩
      · exact hmax.left c hc
      · exact isHexDigit_eq_false (by simpa using hrun.left c hc)
    · intro c hc
      rcases mem_head?_append hc with hc | ⟨-, hc⟩
      · exact hmax.right c hc
      · exact isHexDigit_eq_false (by simpa using hrun.right c hc)
    · -- otherwise the word is the number
      rintro ⟨hleft, hright⟩
      have hb : b = [] := by
        refine eq_nil_of_getLast? (fun c hc => hrun.all c (List.mem_append_left _ hc)) ?_
        intro c hlast
        rw [hleft c (getLast?_of_append hlast)]
        rfl
      have ha : a = [] := by
        refine eq_nil_of_head?
          (fun c hc => hrun.all c (List.mem_append_right _ (List.mem_append_right _ hc))) ?_
        intro c hhead
        rw [hright c (head?_of_append hhead)]
        rfl
      rw [hb, ha, List.nil_append, List.append_nil] at hall
      exact hall (List.all_eq_true.2 hmax.all)
  · rintro ⟨before, run, after, rfl, hmax, hbare, hwithin⟩
    have hplain : ∀ c ∈ run, (!isWhitespace c) = true := fun c hc => by
      rw [not_isWhitespace_of_isHexDigit (hmax.all c hc)]
      rfl
    obtain ⟨b, x, y, a, rfl, rfl, hword⟩ := MaxRun.exists_of_all hplain before after
    refine ⟨x ++ run ++ y, mem_splitOnP_iff.2 ⟨b, a, by simp, hword⟩, hwithin.trans ⟨x, y, rfl⟩,
      fun hall => hbare ?_⟩
    have hhex' := List.all_eq_true.1 hall
    have hx : x = [] :=
      eq_nil_of_getLast?
        (fun c hc => hhex' c (List.mem_append_left _ (List.mem_append_left _ hc)))
        fun c hlast => hmax.left c (getLast?_of_append hlast)
    have hy : y = [] :=
      eq_nil_of_head? (fun c hc => hhex' c (List.mem_append_right _ hc))
        fun c hhead => hmax.right c (head?_of_append hhead)
    rw [hx, hy, List.append_nil, List.nil_append]
    exact ⟨fun c hc => by simpa using hword.left c hc, fun c hc => by simpa using hword.right c hc⟩

/-! ## The values that are collapsed

The characters of the line, each with a mark that says whether it belongs to a collapsed value. -/

/-- The marks of a word none of whose characters is collapsed. -/
def plain (word : List Char) : List (Char × Bool) := word.map fun c => (c, false)

/-- The value after the first occurrence of a key that is not collapsed, up to a delimiter. -/
def coverKey (line : List (Char × Bool)) (key : List Char) : List (Char × Bool) :=
  match findFirst (plain key) line with
  | none => line
  | some (before, rest) =>
    before ++ (plain key ++ ((rest.takeWhile fun x => isValueChar x.1).map (fun x => (x.1, true)) ++
      rest.dropWhile fun x => isValueChar x.1))

/-- The line with the values of all keys marked. -/
def covered (line : List Char) : List (Char × Bool) :=
  (sensitiveKeys.map String.toList).foldl coverKey (plain line)

/-- The text with each collapsed value replaced; `inside` says that the value before is. -/
def render : Bool → List (Char × Bool) → List Char
  | _, [] => []
  | _, (c, false) :: l => c :: render false l
  | true, (_, true) :: l => render true l
  | false, (_, true) :: l => stars ++ render true l

theorem map_fst_plain (word : List Char) : (plain word).map Prod.fst = word := by
  rw [plain, List.map_map]
  exact List.map_id word

theorem map_fst_coverKey (line : List (Char × Bool)) (key : List Char) :
    (coverKey line key).map Prod.fst = line.map Prod.fst := by
  rw [coverKey]
  split
  · rfl
  · next before rest hfind =>
    rw [eq_of_findFirst hfind]
    have hvalue : ((rest.takeWhile fun x => isValueChar x.1).map fun x => (x.1, true)).map
      Prod.fst =
        (rest.takeWhile fun x => isValueChar x.1).map Prod.fst := by
      rw [List.map_map]
      rfl
    simp only [List.map_append, hvalue]
    rw [← List.map_append, List.takeWhile_append_dropWhile]

/-- The marks are marks of the line. -/
theorem map_fst_covered (line : List Char) : (covered line).map Prod.fst = line := by
  have hfold : ∀ (keys : List (List Char)) (l : List (Char × Bool)),
      (keys.foldl coverKey l).map Prod.fst = l.map Prod.fst := by
    intro keys
    induction keys with
    | nil => exact fun l => rfl
    | cons key keys ih =>
      intro l
      rw [List.foldl_cons, ih, map_fst_coverKey]
  rw [covered, hfold, map_fst_plain]

/-! ### Rendering -/

theorem render_plain_append {word : List Char} (hword : word ≠ [])
    (before after : List (Char × Bool)) (inside : Bool) :
    render inside (before ++ (plain word ++ after)) = render inside before ++
      (word ++ render false after) := by
  induction before generalizing inside with
  | nil =>
    cases word with
    | nil => exact absurd rfl hword
    | cons c word =>
      clear hword
      have hword : ∀ (word : List Char), render false (plain word ++ after) = word ++
          render false after := by
        intro word
        induction word with
        | nil => rfl
        | cons c word ih =>
          change c :: render false (plain word ++ after) = _
          rw [ih]
          rfl
      cases inside
      · change c :: render false (plain word ++ after) = _
        rw [hword]
        rfl
      · change c :: render false (plain word ++ after) = _
        rw [hword]
        rfl
  | cons x before ih =>
    obtain ⟨c, mark⟩ := x
    cases mark
    · cases inside
      · change c :: render false (before ++ (plain word ++ after)) = _
        rw [ih]
        rfl
      · change c :: render false (before ++ (plain word ++ after)) = _
        rw [ih]
        rfl
    · cases inside
      · change stars ++ render true (before ++ (plain word ++ after)) = _
        rw [ih]
        rfl
      · change render true (before ++ (plain word ++ after)) = _
        rw [ih]
        rfl

/-- A word without the characters of the replacement. -/
def Unstarred (word : List Char) : Prop := ∀ c ∈ word, c ∉ stars

theorem prefix_render_iff {word : List Char} (hword : Unstarred word) (l : List (Char × Bool)) :
    word <+: render false l ↔ plain word <+: l := by
  induction word generalizing l with
  | nil => exact ⟨fun _ => List.nil_prefix, fun _ => List.nil_prefix⟩
  | cons w word ih =>
    have ih' := ih fun d hd => hword d (List.mem_cons_of_mem _ hd)
    cases l with
    | nil => simp [render, plain]
    | cons x l =>
      obtain ⟨c, mark⟩ := x
      cases mark
      · change w :: word <+: c :: render false l ↔ (w, false) :: plain word <+: (c, false) :: l
        rw [List.cons_prefix_cons, List.cons_prefix_cons, ih']
        simp
      · change w :: word <+: ':' :: _ ↔ (w, false) :: plain word <+: (c, true) :: l
        rw [List.cons_prefix_cons, List.cons_prefix_cons]
        constructor
        · rintro ⟨rfl, -⟩
          exact absurd List.mem_cons_self (hword _ List.mem_cons_self)
        · rintro ⟨hmark, -⟩
          cases hmark

/-- The first occurrence of a word in the text is its first occurrence among the characters that are
not collapsed. -/
theorem findFirst_render {w : Char} {word : List Char} (hword : Unstarred (w :: word))
    (l : List (Char × Bool)) (inside : Bool) :
    findFirst (w :: word) (render inside l) =
      (findFirst (plain (w :: word)) l).map fun r => (render inside r.1, render false r.2) := by
  have hstars : ∀ c ∈ stars, w ≠ c := fun c hc h => hword w List.mem_cons_self (h ▸ hc)
  induction l generalizing inside with
  | nil => cases inside <;> rfl
  | cons x l ih =>
    obtain ⟨c, mark⟩ := x
    cases mark
    · have hrender : ∀ l', render inside ((c, false) :: l') = c :: render false l' := by
        cases inside <;> exact fun l' => rfl
      by_cases hprefix : plain (w :: word) <+: (c, false) :: l
      · obtain ⟨rest, hrest⟩ := hprefix
        have htext := render_plain_append (List.cons_ne_nil w word) [] rest inside
        rw [List.nil_append] at htext
        rw [← hrest, htext, findFirst_append]
        cases inside <;> exact findFirst_append _ _
      · have htext : ¬ w :: word <+: c :: render false l :=
          fun h => hprefix ((prefix_render_iff hword _).1 h)
        rw [hrender, findFirst_cons htext, findFirst_cons hprefix, ih, Option.map_map,
          Option.map_map]
        rfl
    · have hmark : (w, false) ≠ (c, true) := by simp
      change _ = (findFirst ((w, false) :: plain word) ((c, true) :: l)).map _
      rw [findFirst_cons_of_ne hmark, Option.map_map]
      cases inside
      · change findFirst (w :: word) (':' :: '*' :: '*' :: '*' :: render true l) = _
        rw [findFirst_cons_of_ne (hstars _ (by decide)),
          findFirst_cons_of_ne (hstars _ (by decide)),
          findFirst_cons_of_ne (hstars _ (by decide)),
            findFirst_cons_of_ne (hstars _ (by decide)), ih,
          Option.map_map, Option.map_map, Option.map_map, Option.map_map]
        rfl
      · change findFirst (w :: word) (render true l) = _
        rw [ih]
        rfl

/-- The value in the text is the value among the marked characters. -/
theorem render_value {l : List (Char × Bool)}
    (hinner : ∀ x ∈ l, x.2 = true → isValueChar x.1 = true) (inside : Bool) :
    (render inside l).takeWhile isValueChar = render inside (l.takeWhile fun x => isValueChar x.1) ∧
      (render inside l).dropWhile isValueChar =
        render false (l.dropWhile fun x => isValueChar x.1) := by
  induction l generalizing inside with
  | nil => cases inside <;> exact ⟨rfl, rfl⟩
  | cons x l ih =>
    obtain ⟨c, mark⟩ := x
    have ih' := ih fun x hx => hinner x (List.mem_cons_of_mem _ hx)
    rw [List.takeWhile_cons, List.dropWhile_cons]
    cases mark
    · have hrender : ∀ l', render inside ((c, false) :: l') = c :: render false l' := by
        cases inside <;> exact fun l' => rfl
      rw [hrender, List.takeWhile_cons, List.dropWhile_cons]
      by_cases hc : isValueChar c = true
      · simp only [if_pos hc]
        rw [hrender, (ih' false).1, (ih' false).2]
        exact ⟨rfl, rfl⟩
      · simp only [if_neg hc]
        exact ⟨by cases inside <;> rfl, rfl⟩
    · have hc : isValueChar c = true := hinner (c, true) List.mem_cons_self rfl
      simp only [if_pos hc]
      cases inside
      · have hstars : ∀ d ∈ stars, isValueChar d = true := List.all_eq_true.1 (by decide)
        change (stars ++ render true l).takeWhile _ = stars ++ render true _ ∧
          (stars ++ render true l).dropWhile _ = _
        rw [List.takeWhile_append_of_pos hstars, List.dropWhile_append_of_pos hstars, (ih' true).1,
          (ih' true).2]
        exact ⟨rfl, rfl⟩
      · exact ih' true

/-- Inside a value the characters of the value are not shown. -/
theorem render_collapsed (value after : List (Char × Bool)) :
    render true (value.map (fun x => (x.1, true)) ++ after) = render true after := by
  induction value with
  | nil => rfl
  | cons x value ih => exact ih

/-- A value ends before a delimiter: what follows is shown the same from inside and outside. -/
theorem render_delimited {l : List (Char × Bool)}
    (hinner : ∀ x ∈ l, x.2 = true → isValueChar x.1 = true) :
    render true (l.dropWhile fun x => isValueChar x.1) =
      render false (l.dropWhile fun x => isValueChar x.1) := by
  cases hdrop : l.dropWhile fun x => isValueChar x.1 with
  | nil => rfl
  | cons y after =>
    have hy := head?_dropWhile_false (p := fun x : Char × Bool => isValueChar x.1)
      (l := l) (a := y) (by rw [hdrop]; rfl)
    obtain ⟨c, mark⟩ := y
    cases mark with
    | false => rfl
    | true =>
      have hmem : (c, true) ∈ l := (List.dropWhile_suffix _).subset (hdrop ▸ List.mem_cons_self)
      rw [hinner _ hmem rfl] at hy
      cases hy

/-- What each mark says about its neighbours: a value begins after a character that is no digit, and
ends before a delimiter. -/
def Adjacent (x y : Char × Bool) : Prop :=
  (x.2 = false → y.2 = true → isHexDigit x.1 = false) ∧
    (x.2 = true → y.2 = false → isValueChar y.1 = false)

structure WellCovered (l : List (Char × Bool)) : Prop where
  inner : ∀ x ∈ l, x.2 = true → isValueChar x.1 = true
  chain : l.IsChain Adjacent

/-- What the keys have in common. -/
structure KeyShape (key : List Char) : Prop where
  nonempty : key ≠ []
  unstarred : Unstarred key
  last : ∀ c ∈ key.getLast?, isHexDigit c = false

theorem isChain_of_uniform {l : List (Char × Bool)} {mark : Bool} (h : ∀ x ∈ l, x.2 = mark) :
    l.IsChain Adjacent := by
  induction l with
  | nil => exact .nil
  | cons x l ih =>
    apply List.IsChain.cons (ih fun y hy => h y (List.mem_cons_of_mem _ hy))
    intro y hy
    have hx := h x List.mem_cons_self
    have hy' := h y (List.mem_cons_of_mem _ (List.mem_of_mem_head? hy))
    refine ⟨fun hx' hy'' => ?_, fun hx' hy'' => ?_⟩
    · rw [← hy', hy''] at hx
      rw [hx'] at hx
      cases hx
    · rw [← hy', hy''] at hx
      rw [hx'] at hx
      cases hx

theorem mem_plain {word : List Char} {x : Char × Bool} (hx : x ∈ plain word) :
    x.1 ∈ word ∧ x.2 = false := by
  obtain ⟨c, hc, rfl⟩ := List.mem_map.1 hx
  exact ⟨hc, rfl⟩

theorem wellCovered_plain (line : List Char) : WellCovered (plain line) := by
  refine ⟨fun x hx htrue => ?_, isChain_of_uniform fun x hx => (mem_plain hx).2⟩
  rw [(mem_plain hx).2] at htrue
  cases htrue

variable {key : List Char} {l : List (Char × Bool)}

/-- The replacement for one key is the collapse of the value. -/
theorem redactKey_render (hkey : KeyShape key) (hl : WellCovered l) :
    redactKey (render false l) key = render false (coverKey l key) := by
  obtain ⟨hne, hstars, -⟩ := hkey
  cases key with
  | nil => exact absurd rfl hne
  | cons w word =>
    rw [redactKey, findFirst_render hstars, coverKey]
    cases hfind : findFirst (plain (w :: word)) l with
    | none => rfl
    | some r =>
      obtain ⟨before, rest⟩ := r
      have hsplit := eq_of_findFirst hfind
      have hrest : ∀ x ∈ rest, x.2 = true → isValueChar x.1 = true := by
        intro x hx
        apply hl.inner
        rw [hsplit]
        exact List.mem_append_right _ (List.mem_append_right _ hx)
      obtain ⟨htake, hdrop⟩ := render_value hrest false
      simp only [Option.map_some]
      rw [htake, hdrop, render_plain_append hne]
      have happend : rest.takeWhile (fun x => isValueChar x.1) ++ rest.dropWhile
          (fun x => isValueChar x.1) = rest :=
        List.takeWhile_append_dropWhile
      cases hvalue : rest.takeWhile fun x => isValueChar x.1 with
      | nil =>
        -- a delimiter comes right after the key
        rw [hvalue, List.nil_append] at happend
        rw [happend, hsplit, render_plain_append hne]
        rfl
      | cons x value =>
        have hvalueNe : render false (x :: value) ≠ [] := by
          obtain ⟨c, mark⟩ := x
          cases mark <;> exact List.cons_ne_nil _ _
        rw [if_neg hvalueNe, List.map_cons]
        change _ = render false before ++
          (w :: word ++ (stars ++ render true (value.map (fun x => (x.1, true)) ++ _)))
        rw [render_collapsed, render_delimited hrest]

theorem WellCovered.coverKey (hkey : KeyShape key) (hl : WellCovered l) :
    WellCovered (coverKey l key) := by
  obtain ⟨hne, -, hlast⟩ := hkey
  rw [Desktop.coverKey]
  cases hfind : findFirst (plain key) l with
  | none => exact hl
  | some r =>
    obtain ⟨before, rest⟩ := r
    have hsplit := eq_of_findFirst hfind
    simp only
    have happend : rest.takeWhile (fun x => isValueChar x.1) ++ rest.dropWhile
        (fun x => isValueChar x.1) = rest :=
      List.takeWhile_append_dropWhile
    have hafter : ∀ y ∈ (rest.dropWhile fun x => isValueChar x.1).head?, isValueChar y.1 = false :=
      fun y hy => head?_dropWhile_false (p := fun x : Char × Bool => isValueChar x.1) hy
    have hvalue : ∀ x ∈ rest.takeWhile (fun x => isValueChar x.1), isValueChar x.1 = true :=
      fun x hx => List.mem_takeWhile_imp (p := fun x : Char × Bool => isValueChar x.1) hx
    generalize rest.takeWhile (fun x => isValueChar x.1) = value at happend hvalue
    generalize rest.dropWhile (fun x => isValueChar x.1) = after at happend hafter
    rw [← happend] at hsplit
    rw [hsplit] at hl
    obtain ⟨hinner, hchain⟩ := hl
    constructor
    · intro x hx htrue
      simp only [List.mem_append] at hx hinner
      rcases hx with hx | hx | hx | hx
      · exact hinner x (Or.inl hx) htrue
      · exact hinner x (Or.inr (Or.inl hx)) htrue
      · obtain ⟨y, hy, rfl⟩ := List.mem_map.1 hx
        exact hvalue y hy
      · exact hinner x (Or.inr (Or.inr (Or.inr hx))) htrue
    · rw [List.isChain_append] at hchain ⊢
      obtain ⟨hbefore, htail, hcross⟩ := hchain
      have hchainAfter : after.IsChain Adjacent := (htail.right_of_append).right_of_append
      have hmarks : ∀ x ∈ value.map (fun x => (x.1, true)), x.2 = true := by simp
      have hchainValue := isChain_of_uniform hmarks
      refine ⟨hbefore, ?_, ?_⟩
      · refine (isChain_of_uniform fun x hx => (mem_plain hx).2).append
          (hchainValue.append hchainAfter ?_) ?_
        · intro x hx y hy
          refine ⟨fun hfalse => ?_, fun _ _ => hafter y hy⟩
          obtain ⟨z, -, rfl⟩ := List.mem_map.1 (List.mem_of_mem_getLast? hx)
          cases hfalse
        · intro x hx y hy
          obtain ⟨c, hc, rfl⟩ : ∃ c, c ∈ key.getLast? ∧ (c, false) = x := by
            rw [plain, List.getLast?_map] at hx
            exact Option.map_eq_some_iff.1 hx
          exact ⟨fun _ _ => hlast c hc, nofun⟩
      · intro x hx y hy
        refine hcross x hx y ?_
        rcases mem_head?_append hy with hy | ⟨hnil, -⟩
        · exact head?_of_append hy
        · exact absurd (List.map_eq_nil_iff.1 hnil) hne

theorem keyShape {key : List Char} (h : key ∈ sensitiveKeys.map String.toList) : KeyShape key := by
  have hall : ∀ key ∈ sensitiveKeys.map String.toList,
      (!key.isEmpty && key.all (fun c => !stars.contains c) && key.getLast?.all fun c =>
        !isHexDigit c) = true :=
    List.all_eq_true.1 (by decide)
  have hkey := hall key h
  simp only [Bool.and_eq_true] at hkey
  obtain ⟨⟨hne, hstars⟩, hlast⟩ := hkey
  refine ⟨by simpa using hne, fun c hc => ?_, fun c hc => ?_⟩
  · have hfree := List.all_eq_true.1 hstars c hc
    simpa using hfree
  · rw [Option.mem_def.1 hc] at hlast
    simpa using hlast

/-- The first pass is the collapse of all values. -/
theorem render_covered (line : List Char) :
    (sensitiveKeys.map String.toList).foldl redactKey line = render false (covered line) ∧
      WellCovered (covered line) := by
  have hfold : ∀ keys : List (List Char), (∀ key ∈ keys, KeyShape key) → ∀ l, WellCovered l →
      keys.foldl redactKey (render false l) = render false (keys.foldl coverKey l) ∧
        WellCovered (keys.foldl coverKey l) := by
    intro keys
    induction keys with
    | nil => exact fun _ l hl => ⟨rfl, hl⟩
    | cons key keys ih =>
      intro hkeys l hl
      have hkey := hkeys key List.mem_cons_self
      rw [List.foldl_cons, List.foldl_cons, redactKey_render hkey hl]
      exact ih (fun key' hkey' => hkeys key' (List.mem_cons_of_mem _ hkey')) _ (hl.coverKey hkey)
  have hplain : render false (plain line) = line := by
    induction line with
    | nil => rfl
    | cons c line ih => exact congrArg (List.cons c) ih
  have h := hfold _ (fun key hkey => keyShape hkey) (plain line) (wellCovered_plain line)
  rw [hplain] at h
  exact h

/-! ## What is left -/

/-- Digits outside all values, in a run with some other character beside it. -/
def ExposedMarked (l : List (Char × Bool)) (digits : List Char) : Prop :=
  ∃ before run after, l = before ++ (plain run ++ after) ∧
    MaxRun isHexDigit (before.map Prod.fst) run (after.map Prod.fst) ∧
    ¬ Bare (before.map Prod.fst) (after.map Prod.fst) ∧ digits <:+: run

/-- The neighbours of digits that are not collapsed are not collapsed either. -/
theorem neighbours_render {before after : List (Char × Bool)} {run : List Char} (hrun : run ≠ [])
    (hhex : ∀ c ∈ run, isHexDigit c = true) (hl : WellCovered (before ++ (plain run ++ after))) :
    (render false before).getLast? = (before.map Prod.fst).getLast? ∧
      (render false after).head? = (after.map Prod.fst).head? := by
  have hchain := List.isChain_append.1 hl.chain
  constructor
  · cases before using List.reverseRecOn with
    | nil => rfl
    | append_singleton before x _ =>
      obtain ⟨c, mark⟩ := x
      cases mark
      · have hrender := render_plain_append (List.cons_ne_nil c []) before [] false
        change render false (before ++ [(c, false)]) = render false before ++ [c] at hrender
        rw [hrender]
        simp
      · -- a value would end before a digit
        obtain ⟨d, hd, hhead⟩ := exists_head? hrun
        have hmem : (d, false) ∈ (plain run ++ after).head? := by
          apply head?_of_append
          rw [plain, List.head?_map, Option.mem_def.1 hhead]
          rfl
        have hfalse := (hchain.2.2 (c, true) (by simp) _ hmem).2 rfl rfl
        rw [isValueChar, isDelimiter_of_isHexDigit (hhex d hd)] at hfalse
        cases hfalse
  · cases after with
    | nil => rfl
    | cons x after =>
      obtain ⟨c, mark⟩ := x
      cases mark
      · rfl
      · -- a value would begin after a digit
        obtain ⟨d, hd, hlast⟩ := exists_getLast? hrun
        have hmem : (d, false) ∈ (plain run).getLast? := by
          rw [plain, List.getLast?_map, Option.mem_def.1 hlast]
          rfl
        have hfalse := ((List.isChain_append.1 hchain.2.1).2.2 _ hmem (c, true) rfl).1 rfl rfl
        rw [hhex d hd] at hfalse
        cases hfalse

/-- A word without the characters of the replacement stands in the text where it stands outside all
values. -/
theorem exists_plain_of_render {run : List Char} (hrun : run ≠ []) (hstars : Unstarred run)
    {l : List (Char × Bool)}
    {inside : Bool} {b a : List Char} (h : render inside l = b ++ (run ++ a)) :
    ∃ before after, l = before ++ (plain run ++ after) ∧ render inside before = b ∧
      render false after = a := by
  induction l generalizing inside b with
  | nil =>
    exfalso
    have hnil : render inside [] = [] := by cases inside <;> rfl
    rw [hnil] at h
    have hne := (List.append_eq_nil_iff.1 (List.append_eq_nil_iff.1 h.symm).2).1
    exact hrun hne
  | cons x l ih =>
    obtain ⟨c, mark⟩ := x
    cases mark
    · have hrender : ∀ l', render inside ((c, false) :: l') = c :: render false l' := by
        cases inside <;> exact fun l' => rfl
      rw [hrender] at h
      cases b with
      | nil =>
        rw [List.nil_append] at h
        obtain ⟨after, hafter⟩ := (prefix_render_iff hstars ((c, false) :: l)).1 ⟨a, h.symm⟩
        have htext := render_plain_append hrun [] after false
        rw [List.nil_append, hafter] at htext
        have hcancel : run ++ render false after = run ++ a := htext.symm.trans h
        exact ⟨[], after, hafter.symm, by cases inside <;> rfl, List.append_cancel_left hcancel⟩
      | cons d b =>
        obtain ⟨rfl, hrest⟩ := List.cons.inj h
        obtain ⟨before, after, rfl, rfl, rfl⟩ := ih hrest
        exact ⟨(c, false) :: before, after, rfl, hrender before, rfl⟩
    · cases inside
      · change stars ++ render true l = _ at h
        rcases List.append_eq_append_iff.1 h with ⟨e, rfl, he⟩ | ⟨e, hb, he⟩
        · obtain ⟨before, after, rfl, rfl, rfl⟩ := ih he
          exact ⟨(c, true) :: before, after, rfl, rfl, rfl⟩
        · cases e with
          | nil =>
            rw [List.append_nil] at hb
            obtain ⟨before, after, rfl, hbefore, rfl⟩ := ih (b := []) he.symm
            refine ⟨(c, true) :: before, after, rfl, ?_, rfl⟩
            change stars ++ render true before = b
            rw [hbefore, List.append_nil, hb]
          | cons d e =>
            cases run with
            | nil => exact absurd rfl hrun
            | cons w run =>
              obtain ⟨rfl, -⟩ : w = d ∧ run ++ a = e ++ render true l := List.cons.inj he
              exact absurd (hb ▸ List.mem_append_right b List.mem_cons_self)
                (hstars w List.mem_cons_self)
      · obtain ⟨before, after, rfl, rfl, rfl⟩ := ih h
        exact ⟨(c, true) :: before, after, rfl, rfl, rfl⟩

theorem exposed_render_iff {l : List (Char × Bool)} {digits : List Char} (hl : WellCovered l)
    (hdigits : digits ≠ []) :
    Exposed (render false l) digits ↔ ExposedMarked l digits := by
  constructor
  · rintro ⟨b, run, a, hsplit, hmax, hbare, hwithin⟩
    have hrun : run ≠ [] := by
      rintro rfl
      exact hdigits (List.infix_nil.1 hwithin)
    have hstars : Unstarred run := fun c hc => unstarred_of_isHexDigit (hmax.all c hc)
    obtain ⟨before, after, rfl, rfl, rfl⟩ := exists_plain_of_render hrun hstars hsplit
    obtain ⟨hlast, hhead⟩ := neighbours_render hrun hmax.all hl
    refine ⟨before, run, after, rfl, ⟨hmax.all, ?_, ?_⟩, ?_, hwithin⟩
    · rw [← hlast]
      exact hmax.left
    · rw [← hhead]
      exact hmax.right
    · rw [Bare, ← hlast, ← hhead]
      exact hbare
  · rintro ⟨before, run, after, rfl, hmax, hbare, hwithin⟩
    have hrun : run ≠ [] := by
      rintro rfl
      exact hdigits (List.infix_nil.1 hwithin)
    obtain ⟨hlast, hhead⟩ := neighbours_render hrun hmax.all hl
    refine ⟨render false before, run, render false after, render_plain_append hrun _ _ _,
      ⟨hmax.all, ?_, ?_⟩, ?_, hwithin⟩
    · rw [hlast]
      exact hmax.left
    · rw [hhead]
      exact hmax.right
    · rw [Bare, hlast, hhead]
      exact hbare

/-- Neighbouring digits have one mark. -/
theorem uniform_of_hex {run : List (Char × Bool)} (hhex : ∀ x ∈ run, isHexDigit x.1 = true)
    (hchain : run.IsChain Adjacent) : (∀ x ∈ run, x.2 = true) ∨ ∀ x ∈ run, x.2 = false := by
  induction run with
  | nil => exact Or.inl nofun
  | cons x run ih =>
    obtain ⟨hhead, htail⟩ := List.isChain_cons.1 hchain
    have hx := hhex x List.mem_cons_self
    have hrun := fun y hy => hhex y (List.mem_cons_of_mem _ hy)
    have hmark : ∀ y ∈ run.head?, y.2 = x.2 := by
      intro y hy
      obtain ⟨hbegin, hend⟩ := hhead y hy
      cases hx2 : x.2 with
      | true =>
        by_contra hy2
        have hfalse := hend hx2 (by simpa using hy2)
        rw [isValueChar, isDelimiter_of_isHexDigit (hrun y (List.mem_of_mem_head? hy))] at hfalse
        cases hfalse
      | false =>
        by_contra hy2
        have hfalse := hbegin hx2 (by simpa using hy2)
        rw [hx] at hfalse
        cases hfalse
    cases run with
    | nil => cases hx2 : x.2 <;> simp [hx2]
    | cons y run =>
      have hy := hmark y rfl
      rcases ih hrun htail with hall | hall
      · left
        rw [List.forall_mem_cons]
        exact ⟨hy.symm.trans (hall y List.mem_cons_self), hall⟩
      · right
        rw [List.forall_mem_cons]
        exact ⟨hy.symm.trans (hall y List.mem_cons_self), hall⟩

theorem eq_plain {run : List (Char × Bool)} (h : ∀ x ∈ run, x.2 = false) :
    run = plain (run.map Prod.fst) := by
  induction run with
  | nil => rfl
  | cons x run ih =>
    obtain ⟨c, mark⟩ := x
    have hmark : mark = false := h (c, mark) List.mem_cons_self
    subst hmark
    exact congrArg (List.cons (c, false)) (ih fun y hy => h y (List.mem_cons_of_mem _ hy))

/-- No maximal run of at least 32 digits of the line is left. -/
def NoSecretSurvives (line : String) : Prop :=
  ∀ before run after, line.toList = before ++ (run ++ after) → MaxRun isHexDigit before run after →
    32 ≤ run.length →
    ¬ run <:+: (redactSensitive line).toList

/-- Every maximal run of at least 32 digits of the line belongs to a collapsed value, or stands
alone between white space. -/
def SecretsCovered (line : String) : Prop :=
  ∀ before run after, covered line.toList = before ++ (run ++ after) →
    MaxRun isHexDigit (before.map Prod.fst) (run.map Prod.fst) (after.map Prod.fst) →
      32 ≤ run.length →
    (∀ x ∈ run, x.2 = true) ∨ Bare (before.map Prod.fst) (after.map Prod.fst)

/-- What the redaction leaves of a long number. -/
theorem infix_redactSensitive_iff {line : String} {digits : List Char} (hlong : 32 ≤ digits.length)
    (hhex : ∀ c ∈ digits, isHexDigit c = true) :
    digits <:+: (redactSensitive line).toList ↔ ExposedMarked (covered line.toList) digits := by
  obtain ⟨hrender, hcovered⟩ := render_covered line.toList
  have hne : digits ≠ [] := by
    rintro rfl
    simp at hlong
  rw [redactSensitive, String.toList_ofList, redactHex_exposed_iff hlong hhex, hrender,
    exposed_render_iff hcovered hne]

/-- A number that is left comes from a run of the line that is not covered. -/
theorem exposed_of_not_covered {line : String} {digits : List Char} (hlong : 32 ≤ digits.length)
    (hcovered : SecretsCovered line) : ¬ ExposedMarked (covered line.toList) digits := by
  rintro ⟨before, run, after, hsplit, hmax, hbare, hwithin⟩
  have hle := hwithin.length_le
  have hlength : (plain run).length = run.length := List.length_map _
  have hrun : MaxRun isHexDigit (before.map Prod.fst) ((plain run).map Prod.fst)
      (after.map Prod.fst) := by
    rw [map_fst_plain]
    exact hmax
  rcases hcovered before (plain run) after hsplit hrun (by omega) with hall | hbare'
  · cases run with
    | nil =>
      rw [List.length_nil] at hle
      omega
    | cons c run =>
      have htrue := hall (c, false) List.mem_cons_self
      cases htrue
  · exact hbare hbare'

/-- No token survives in the lines whose tokens are covered, and only in these. -/
theorem noSecretSurvives_iff (line : String) : NoSecretSurvives line ↔ SecretsCovered line := by
  constructor
  · intro h before run after hsplit hmax hlong
    obtain ⟨-, hcovered⟩ := render_covered line.toList
    rw [hsplit] at hcovered
    have hhex : ∀ x ∈ run, isHexDigit x.1 = true :=
      fun x hx => hmax.all x.1 (List.mem_map_of_mem hx)
    rcases uniform_of_hex hhex hcovered.chain.right_of_append.left_of_append with hall | hall
    · exact Or.inl hall
    · right
      by_contra hbare
      have hlong' : 32 ≤ (run.map Prod.fst).length := by rwa [List.length_map]
      apply h (before.map Prod.fst) (run.map Prod.fst) (after.map Prod.fst) _ hmax hlong'
      · rw [infix_redactSensitive_iff hlong' hmax.all]
        refine ⟨before, run.map Prod.fst, after, ?_, hmax, hbare, List.infix_refl _⟩
        rw [hsplit, ← eq_plain hall]
      · rw [← map_fst_covered line.toList, hsplit, List.map_append, List.map_append]
  · intro h before run after hsplit hmax hlong hwithin
    rw [infix_redactSensitive_iff hlong hmax.all] at hwithin
    exact exposed_of_not_covered hlong h hwithin

/-! ## Exported logs -/

/-- The buffer after some lines were logged. -/
def LogBuffer.log (b : LogBuffer) (lines : List String) : LogBuffer := lines.foldl LogBuffer.push b

/-- What the buffer holds was logged. -/
theorem LogBuffer.mem_log {b : LogBuffer} {lines : List String} {line : String}
    (h : line ∈ (b.log lines).lines) :
    line ∈ b.lines ∨ line ∈ lines := by
  induction lines generalizing b with
  | nil => exact Or.inl h
  | cons first lines ih =>
    rcases ih h with hline | hline
    · rw [LogBuffer.push] at hline
      rcases List.mem_append.1 (List.mem_of_mem_drop hline) with hline | hline
      · exact Or.inl hline
      · exact Or.inr (List.mem_singleton.1 hline ▸ List.mem_cons_self)
    · exact Or.inr (List.mem_cons_of_mem _ hline)

/-- A text whose words are all short holds no long number. -/
theorem not_infix_of_short {text digits : List Char} (hlong : 32 ≤ digits.length)
    (hhex : ∀ c ∈ digits, isHexDigit c = true)
    (hshort : ((text.splitOnP isWhitespace).all fun word => word.length < 32) = true) :
    ¬ digits <:+: text := by
  intro h
  obtain ⟨word, hword, hwithin⟩ :=
    exists_splitOnP_of_infix (fun c hc => not_isWhitespace_of_isHexDigit (hhex c hc)) h
  have hle := hwithin.length_le
  have hlt := List.all_eq_true.1 hshort word hword
  rw [decide_eq_true_eq] at hlt
  omega

/-- The text of an export: the first line, and then the lines of the buffer. -/
theorem toList_exportLogsRedacted (b : LogBuffer) :
    (exportLogsRedacted b).toList = exportHeader.toList ++ '\n' ::
      if b.lines = [] then "(no buffered log lines)\n".toList
      else (b.lines.map fun line => (redactSensitive line).toList).flatMap fun part => part ++
        ['\n'] := by
  have hbreak : "\n".toList = ['\n'] := rfl
  rw [exportLogsRedacted, String.toList_append, String.toList_append, hbreak, List.append_assoc,
    List.singleton_append]
  congr 2
  split
  · rfl
  · rw [String.toList_join, List.flatMap_map, List.flatMap_map]
    simp only [String.toList_append, hbreak]

/-- A long number in the export comes from a line. -/
theorem infix_exportLogsRedacted {b : LogBuffer} {digits : List Char} (hlong : 32 ≤ digits.length)
    (hhex : ∀ c ∈ digits, isHexDigit c = true) :
    digits <:+: (exportLogsRedacted b).toList ↔
      ∃ line ∈ b.lines, digits <:+: (redactSensitive line).toList := by
  have hbreak : '\n' ∉ digits := fun h => absurd (hhex '\n' h) (by decide)
  have hne : digits ≠ [] := by
    rintro rfl
    simp at hlong
  rw [toList_exportLogsRedacted]
  constructor
  · intro h
    rcases infix_append_cons hbreak h with h | h
    · exact absurd h (not_infix_of_short hlong hhex (by decide +kernel))
    · split at h
      · exact absurd h (not_infix_of_short hlong hhex (by decide +kernel))
      · obtain ⟨part, hpart, hwithin⟩ := (infix_flatMap_separated hne hbreak).1 h
        obtain ⟨line, hline, rfl⟩ := List.mem_map.1 hpart
        exact ⟨line, hline, hwithin⟩
  · rintro ⟨line, hline, hwithin⟩
    rw [if_neg (List.ne_nil_of_mem hline)]
    apply infix_append_cons_of_right
    exact (infix_flatMap_separated hne hbreak).2 ⟨_, List.mem_map_of_mem hline, hwithin⟩

/-- No token that was logged, a maximal run of at least 32 digits of a logged line, stands in the
export or in the tail of the diagnostics. -/
def NothingExported (capacity : Nat) (lines : List String) : Prop :=
  let b := (LogBuffer.new capacity).log lines
  ∀ line ∈ lines, ∀ before token after, line.toList = before ++ (token ++ after) →
    MaxRun isHexDigit before token after →
    32 ≤ token.length →
    ¬ token <:+: (exportLogsRedacted b).toList ∧ ∀ shown ∈ logTail b, ¬ token <:+: shown.toList

/-- No token survives in a line exactly when its tokens are covered, and none is exported exactly
when this is so for every line that the buffer holds. -/
theorem no_secret_survives_iff (text : String) (capacity : Nat) (lines : List String) :
    (NoSecretSurvives text ↔ SecretsCovered text) ∧
      (NothingExported capacity lines ↔
        ∀ line ∈ ((LogBuffer.new capacity).log lines).lines, SecretsCovered line) := by
  refine ⟨noSecretSurvives_iff text, ⟨fun h line hline => ?_, ?_⟩⟩
  · have hlogged : line ∈ lines := by
      rcases LogBuffer.mem_log hline with hnew | hlogged
      · cases hnew
      · exact hlogged
    rw [← noSecretSurvives_iff]
    intro before token after hsplit hmax hlong hwithin
    apply (h line hlogged before token after hsplit hmax hlong).1
    exact (infix_exportLogsRedacted hlong hmax.all).2 ⟨line, hline, hwithin⟩
  · intro h line hline before token after hsplit hmax hlong
    have hnone : ∀ kept ∈ ((LogBuffer.new capacity).log lines).lines,
        ¬ token <:+: (redactSensitive kept).toList := by
      intro kept hkept hwithin
      rw [infix_redactSensitive_iff hlong hmax.all] at hwithin
      exact exposed_of_not_covered hlong (h kept hkept) hwithin
    constructor
    · intro hexport
      obtain ⟨kept, hkept, hwithin⟩ := (infix_exportLogsRedacted hlong hmax.all).1 hexport
      exact hnone kept hkept hwithin
    · intro shown hshown
      obtain ⟨kept, hkept, rfl⟩ := List.mem_map.1 (List.mem_reverse.1 hshown)
      exact hnone kept (List.mem_reverse.1 (List.mem_of_mem_take hkept))

/-- A session token in JSON: a quote comes right after the key, so no value is collapsed. -/
theorem not_no_secret_survives : ¬ ((∀ line, NoSecretSurvives line) ∧
    ∀ capacity lines, NothingExported capacity lines) := by
  rintro ⟨h, -⟩
  let token := "0123456789abcdef0123456789abcdef".toList
  have hhex : ∀ c ∈ token, isHexDigit c = true := List.all_eq_true.1 (by decide +kernel)
  have hmax : MaxRun isHexDigit "sessionToken\":\"".toList token ['"'] := by
    refine ⟨hhex, fun c hc => ?_, fun c hc => ?_⟩
    · have hlast : "sessionToken\":\"".toList.getLast? = some '"' := by decide +kernel
      rw [hlast] at hc
      cases hc
      rfl
    · cases hc
      rfl
  apply h "sessionToken\":\"0123456789abcdef0123456789abcdef\"" _ token _ (by decide +kernel)
    hmax (by decide +kernel)
  have hkept : (redactSensitive "sessionToken\":\"0123456789abcdef0123456789abcdef\"").toList =
      "sessionToken\":\"".toList ++ token ++ ['"'] := by decide +kernel
  rw [hkept]
  exact List.infix_append _ _ _

end LanguageLlm.Desktop
