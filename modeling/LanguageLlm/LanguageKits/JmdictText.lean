import LanguageLlm.LanguageKits.CedictRoundTrip
import LanguageLlm.LanguageKits.JmdictXml
import LanguageLlm.Lyrics.Resolve

/-!
# JMdict in lines of text

`parseJmdictTextLine` of `adapters/jmdict.ts` and `parseJmdictTextDump` of `adapters/import.ts`, for
lines such as `食べる [たべる] /(v1)/to eat/`. `parseJmdictTextDump_render` says that records which
are written so come back, whatever stands between them.
-/

namespace LanguageLlm.LanguageKits

open Lib Lib.Matcher
open Lyrics (isWordChar)
open PageTranslate (isSpace trim)

/-! ## The adapter -/

/-- `.` -/
def inLine (c : Char) : Bool := !isLineTerminator c

/-- `\[(.+?)\]\s+`. -/
def bracketed : Matcher (List Char) := do
  let _ ← one (· == '[')
  let reading ← lazy inLine 1 none
  let _ ← one (· == ']')
  let _ ← greedy isSpace 1 none
  pure reading

/-- `\/(.+)\/\s*$`. -/
def slashed : Matcher (List Char) := do
  let _ ← one (· == '/')
  let rest ← greedy inLine 1 none
  let _ ← one (· == '/')
  let _ ← greedy isSpace 0 none
  ending
  pure rest

/-- `^(.+?)\s+(?:\[(.+?)\]\s+)?\/(.+)\/\s*$`, without its first sign. -/
def jmdictText : Matcher (List Char × Option (List Char) × List Char) := do
  let lemmaForm ← lazy inLine 1 none
  let _ ← greedy isSpace 1 none
  let reading ← opt bracketed
  let rest ← slashed
  pure (lemmaForm, reading, rest)

/-- `/^\([^)]+\)$/`. -/
def isParenthesized (part : List Char) : Bool :=
  match part with
  | '(' :: rest => rest.getLast? = some ')' && rest.dropLast ≠ [] && !rest.dropLast.contains ')'
  | _ => false

/-- `/^&\w+;$/`. -/
def isEntity (part : List Char) : Bool :=
  match part with
  | '&' :: rest => rest.getLast? = some ';' && rest.dropLast ≠ [] && rest.dropLast.all isWordChar
  | _ => false

def isPos (part : List Char) : Bool := isParenthesized part || isEntity part

/-- The name of a part of speech. -/
def posOf (part : List Char) : List Char :=
  stripJmdictEntity (part.filter fun c => c ≠ '(' && c ≠ ')')

def parseJmdictTextLine (line : List Char) : Option LexiconEntry := do
  let trimmed ← contentOf line
  let ((m₁, m₂, rest), _) ← jmdictText.first ⟨none, trimmed⟩
  let lemmaForm := String.ofList (trim m₁)
  let reading := m₂.map trim
  let parts := ((rest.splitOn '/').map trim).filter fun part => part ≠ []
  let pos := ((parts.filter isPos).map posOf).map String.ofList
  let glosses := (parts.filter fun part => !isPos part).map String.ofList
  if glosses = [] then none
  else
    some
      { id := "jmdict-text:" ++ lemmaForm ++ ":" ++ String.ofList (reading.getD [])
        lemmaForm
        language := "ja"
        readings := (reading.filter fun r => r ≠ []).map fun r => [String.ofList r]
        pronunciations := none
        senses := [{ id := "0", glosses, pos := if pos = [] then none else some pos }]
        source := "jmdict"
        license := "CC BY-SA 4.0 / EDRDG"
        attribution := "JMdict / EDRDG"
        raw := .null }

def parseJmdictTextDump (text : String) : List LexiconEntry :=
  (splitLines text.toList).filterMap parseJmdictTextLine

/-! ## Records -/

/-- A part between two slashes: the name of a part of speech in parentheses or as an entity, or a
gloss. -/
inductive EdictPart where
  | tag (name : List Char)
  | entity (name : List Char)
  | gloss (text : List Char)

namespace EdictPart

def text : EdictPart → List Char
  | tag name => '(' :: (name ++ [')'])
  | entity name => '&' :: (name ++ [';'])
  | gloss text => text

def pos? : EdictPart → Option (List Char)
  | tag name | entity name => some name
  | gloss _ => none

def gloss? : EdictPart → Option (List Char)
  | tag _ | entity _ => none
  | gloss text => some text

def Admissible : EdictPart → Prop
  | tag name => name ≠ [] ∧ (∀ c ∈ name, inLine c = true ∧ c ≠ '/' ∧ c ≠ '(' ∧ c ≠ ')') ∧
    name.head? ≠ some '&' ∧ name.getLast? ≠ some ';'
  | entity name => name ≠ [] ∧ ∀ c ∈ name, isWordChar c = true
  | gloss text => PlainField '/' text ∧ isPos text = false

end EdictPart

structure EdictRecord where
  lemmaForm : List Char
  reading : Option (List Char)
  parts : List EdictPart

namespace EdictRecord

def pos (r : EdictRecord) : List (List Char) := r.parts.filterMap EdictPart.pos?

def glosses (r : EdictRecord) : List (List Char) := r.parts.filterMap EdictPart.gloss?

/-- The records that the format can hold. -/
structure Admissible (r : EdictRecord) : Prop where
  lemmaForm : PlainField '[' r.lemmaForm
  not_slash : '/' ∉ r.lemmaForm
  not_comment : r.lemmaForm.head? ≠ some '#'
  reading : ∀ reading ∈ r.reading, PlainField ']' reading
  parts : ∀ part ∈ r.parts, part.Admissible
  glosses_ne_nil : r.glosses ≠ []

/-- `/part/part/`. -/
def renderParts (r : EdictRecord) : List Char :=
  '/' :: (['/'].intercalate (r.parts.map EdictPart.text) ++ ['/'])

/-- `lemma [reading] /part/part/`. -/
def render (r : EdictRecord) : List Char :=
  r.lemmaForm ++ ' ' :: (match r.reading with
    | some reading => '[' :: (reading ++ ']' :: ' ' :: r.renderParts)
    | none => r.renderParts)

/-- The entry of a record. -/
def entry (r : EdictRecord) : LexiconEntry :=
  { id := "jmdict-text:" ++ String.ofList r.lemmaForm ++ ":" ++ String.ofList (r.reading.getD [])
    lemmaForm := String.ofList r.lemmaForm
    language := "ja"
    readings := r.reading.map fun reading => [String.ofList reading]
    pronunciations := none
    senses := [{
      id := "0"
      glosses := r.glosses.map String.ofList
      pos := if r.pos = [] then none else some (r.pos.map String.ofList) }]
    source := "jmdict"
    license := "CC BY-SA 4.0 / EDRDG"
    attribution := "JMdict / EDRDG"
    raw := .null }

end EdictRecord

/-- A line of a dump. -/
inductive EdictLine where
  | record (r : EdictRecord)
  | other (line : List Char)

namespace EdictLine

def text : EdictLine → List Char
  | record r => r.render
  | other line => line

def record? : EdictLine → Option EdictRecord
  | record r => some r
  | other _ => none

/-- What is no record is blank, a comment or a line without a slash. -/
def Ok : EdictLine → Prop
  | record r => r.Admissible
  | other line => '\n' ∉ line ∧ (trim line = [] ∨ (trim line).head? = some '#' ∨ '/' ∉ line)

end EdictLine

/-! ## The expression -/

section Expression

variable {α : Type} {prev : Option Char} {cs body lemmaForm reading : List Char}

theorem mem_slashed {rest : List Char} {c c' : Cursor} :
    (rest, c') ∈ slashed c ↔ ∃ tail, c.rest = '/' :: (rest ++ '/' :: tail) ∧ rest ≠ [] ∧
      (∀ x ∈ rest, inLine x = true) ∧ (∀ x ∈ tail, isSpace x = true) ∧
        c' = ⟨tail.getLast?.or (some '/'), []⟩ := by
  simp only [slashed, mem_bind, mem_one, mem_greedy, mem_ending, beq_iff_eq, mem_pure,
    Prod.mk.injEq]
  constructor
  · rintro ⟨_, c₁, ⟨rfl, -, hopen⟩, run, c₂, ⟨hrun, hin, -, hpos, -⟩, _, c₃, ⟨rfl, hprev, hclose⟩,
      tail, c₄, ⟨htail, hspaces, hprev', -⟩, _, c₅, ⟨hend, -, rfl⟩, rfl, rfl⟩
    obtain ⟨prev, behind⟩ := c'
    dsimp only at hend hprev' htail
    subst hend
    rw [List.append_nil] at htail
    refine ⟨tail, ?_, List.ne_nil_of_length_pos hpos, hin, hspaces, ?_⟩
    · rw [hopen, hrun, hclose, htail]
    · rw [hprev', hprev]
  · rintro ⟨tail, htext, hne, hin, hspaces, rfl⟩
    obtain ⟨prev, text⟩ := c
    dsimp only at htext
    subst htext
    refine ⟨_, ⟨some '/', _⟩, ⟨rfl, rfl, rfl⟩, rest, ⟨rest.getLast?.or (some '/'), '/' :: tail⟩,
      ⟨rfl, hin, rfl, List.length_pos_of_ne_nil hne, by rintro _ ⟨⟩⟩, _, ⟨some '/', tail⟩,
      ⟨rfl, rfl, rfl⟩, tail, ⟨tail.getLast?.or (some '/'), []⟩, ⟨(List.append_nil _).symm, hspaces,
        rfl, Nat.zero_le _, by rintro _ ⟨⟩⟩, (), _, ⟨rfl, trivial, rfl⟩, rfl, rfl⟩

/-- Up to the last slash of the text, which ends it. -/
theorem slashed_first (hne : body ≠ []) (h : ∀ c ∈ body, inLine c = true) :
    slashed.first ⟨prev, '/' :: (body ++ ['/'])⟩ = some (body, ⟨some '/', []⟩) := by
  refine first_of_unique (mem_slashed.2 ⟨[], rfl, hne, h, nofun, rfl⟩) ?_
  rintro ⟨rest, c'⟩ hmem
  obtain ⟨tail, htext, -, -, hspaces, rfl⟩ := mem_slashed.1 hmem
  have hbody : body ++ ['/'] = rest ++ '/' :: tail := (List.cons.inj htext).2
  have hnil : tail = [] := by
    by_contra htail
    have hlast := congrArg List.getLast? hbody
    rw [List.getLast?_concat, List.getLast?_append_cons,
      List.getLast?_cons_of_ne_nil htail] at hlast
    have hslash := hspaces _ (List.mem_of_getLast? hlast.symm)
    cases hslash
  subst hnil
  rw [List.append_cancel_right_eq] at hbody
  rw [hbody]
  rfl

theorem slashed_eq_nil (h : cs.head? ≠ some '/') : slashed ⟨prev, cs⟩ = [] := by
  cases cs with
  | nil => rfl
  | cons x cs =>
    refine bind_one_neg (beq_eq_false_iff_ne.2 ?_)
    rintro rfl
    exact h rfl

theorem bracketed_eq_nil (h : cs.head? ≠ some '[') : bracketed ⟨prev, cs⟩ = [] := by
  cases cs with
  | nil => rfl
  | cons x cs =>
    refine bind_one_neg (beq_eq_false_iff_ne.2 ?_)
    rintro rfl
    exact h rfl

/-- Behind the lemma: `\s+(?:\[(.+?)\]\s+)?\/(.+)\/\s*$`. -/
def behindLemma (f : Option (List Char) → List Char → α) : Matcher α := do
  let reading ← opt bracketed
  let rest ← slashed
  pure (f reading rest)

theorem behindLemma_eq_nil {f : Option (List Char) → List Char → α}
    (h : cs.head? ≠ some '[' ∧ cs.head? ≠ some '/') : behindLemma f ⟨prev, cs⟩ = [] := by
  rw [behindLemma, bind_opt, bind_of_nil (bracketed_eq_nil h.1), bind_of_nil (slashed_eq_nil h.2),
    List.append_nil]

theorem first_bind_pure {β : Type} {m : Matcher β} {g : β → α} {b : β} {c c' : Cursor}
    (h : m.first c = some (b, c')) : (m >>= fun b => pure (g b)).first c = some (g b, c') := by
  obtain ⟨rs, hrs⟩ := List.head?_eq_some_iff.1 h
  rw [first, bind_apply, hrs]
  rfl

/-- One space before what does not begin with one. -/
theorem bind_space {f : List Char → Matcher α} {y : Char} (hy : isSpace y = false)
    (hf : ∀ a prev x xs, isSpace x = true → f a ⟨prev, x :: xs⟩ = []) :
    (greedy isSpace 1 none >>= f) ⟨prev, ' ' :: y :: cs⟩ = f [' '] ⟨some ' ', y :: cs⟩ := by
  have hrun : (greedy isSpace 1 none >>= f) ⟨prev, [' '] ++ y :: cs⟩ = _ :=
    bind_greedy (List.forall_mem_singleton.2 rfl) (fun x hx => Option.some.inj hx ▸ hy) hf
  exact hrun

theorem behindLemma_none {f : Option (List Char) → List Char → α} (hne : body ≠ [])
    (h : ∀ c ∈ body, inLine c = true) :
    (behindLemma f).first ⟨prev, '/' :: (body ++ ['/'])⟩ =
      some (f none body, ⟨some '/', []⟩) := by
  have hnot : ('/' :: (body ++ ['/'])).head? ≠ some '[' := by
    rw [List.head?_cons]
    decide
  rw [first, behindLemma, bind_opt, bind_of_nil (bracketed_eq_nil hnot), List.nil_append]
  exact first_bind_pure (slashed_first hne h)

theorem behindLemma_some {f : Option (List Char) → List Char → α} {x : Char}
    (hreading : ∀ c ∈ x :: reading, inLine c = true) (hbracket : ']' ∉ reading) (hne : body ≠ [])
    (h : ∀ c ∈ body, inLine c = true) :
    (behindLemma f).first
        ⟨prev, '[' :: x :: (reading ++ ']' :: ' ' :: '/' :: (body ++ ['/']))⟩ =
      some (f (some (x :: reading)) body, ⟨some '/', []⟩) := by
  have hfirst : ∀ prev,
      slashed.first ⟨prev, '/' :: (body ++ ['/'])⟩ = some (body, ⟨some '/', []⟩) :=
    fun _ => slashed_first hne h
  have hall : (bracketed >>= fun reading => slashed >>= fun rest => pure (f (some reading) rest) :
      Matcher α).first ⟨prev, '[' :: x :: (reading ++ ']' :: ' ' :: '/' :: (body ++ ['/']))⟩ =
        some (f (some (x :: reading)) body, ⟨some '/', []⟩) := by
    simp only [bracketed, bind_assoc]
    rw [first, bind_one_pos (by decide), ← first]
    refine first_bind_lazy_one hreading (fun a b hab hb => ?_) ?_
    · obtain ⟨y, b, rfl⟩ := List.exists_cons_of_ne_nil hb
      refine bind_one_neg (beq_eq_false_iff_ne.2 ?_)
      rintro rfl
      exact hbracket (hab ▸ List.mem_append_right _ List.mem_cons_self)
    · have hslash : ∀ prev y ys, isSpace y = true →
          (pure (x :: reading) >>= fun reading => slashed >>= fun rest =>
            pure (f (some reading) rest) : Matcher α) ⟨prev, y :: ys⟩ = [] := by
        intro prev y ys hy
        refine (List.flatMap_singleton ..).trans (bind_of_nil (slashed_eq_nil ?_))
        rintro ⟨⟩
        cases hy
      rw [Cursor.skip, first, bind_one_pos (by decide), bind_space rfl fun _ => hslash]
      refine (congrArg List.head? (List.flatMap_singleton ..)).trans ?_
      exact first_bind_pure (hfirst _)
  rw [first, behindLemma, bind_opt, List.head?_append]
  rw [first] at hall
  rw [hall, Option.some_or]

/-- Inside of the lemma it does not go on. -/
theorem gap_eq_nil {f : Option (List Char) → List Char → α} {b tail : List Char} (hb : b ≠ [])
    (hlast : ∀ c ∈ b.getLast?, isSpace c = false) (hbracket : '[' ∉ b) (hslash : '/' ∉ b) :
    (greedy isSpace 1 none >>= fun _ => behindLemma f) ⟨prev, b ++ tail⟩ = [] := by
  have hnotSpaces : ¬ ∀ c ∈ b, isSpace c = true := by
    intro hall
    have hc := List.getLast?_eq_some_getLast hb
    have hspace := hlast _ hc
    rw [hall _ (List.mem_of_getLast? hc)] at hspace
    cases hspace
  rw [List.eq_nil_iff_forall_not_mem]
  intro r hr
  obtain ⟨a, ⟨prev', behind⟩, hspaces, hbehind⟩ := mem_bind.1 hr
  obtain ⟨htext, hall, -, -, -⟩ := mem_greedy.1 hspaces
  rcases List.append_eq_append_iff.1 htext with ⟨a', rfl, -⟩ | ⟨c, rfl, rfl⟩
  · exact hnotSpaces fun c hc => hall c (List.mem_append_left _ hc)
  · cases c with
    | nil =>
      rw [List.append_nil] at hnotSpaces
      exact hnotSpaces hall
    | cons y c =>
      rw [behindLemma_eq_nil] at hbehind
      · cases hbehind
      · rw [List.cons_append, List.head?_cons]
        constructor
        · rintro ⟨⟩
          exact hbracket (List.mem_append_right _ List.mem_cons_self)
        · rintro ⟨⟩
          exact hslash (List.mem_append_right _ List.mem_cons_self)

/-- A line without a slash. -/
theorem jmdictText_eq_nil (h : '/' ∉ cs) : jmdictText ⟨prev, cs⟩ = [] := by
  rw [List.eq_nil_iff_forall_not_mem]
  intro r hr
  simp only [jmdictText, mem_bind, mem_lazy, mem_greedy, mem_opt] at hr
  obtain ⟨form, c₁, ⟨hform, -⟩, gap, c₂, ⟨hgap, -⟩, reading, c₃, hreading, rest, c₄, hrest, -⟩ := hr
  obtain ⟨tail, htext, -⟩ := mem_slashed.1 hrest
  have hmem : '/' ∈ c₂.rest := by
    rcases hreading with ⟨a, -, hbracketed⟩ | hnone
    · simp only [bracketed, mem_bind, mem_one, mem_lazy, mem_greedy] at hbracketed
      obtain ⟨_, c₅, ⟨-, -, hopen⟩, run, c₆, ⟨hrun, -⟩, _, c₇, ⟨-, -, hclose⟩, spaces, c₈,
        ⟨hspaces, -⟩, hpure⟩ := hbracketed
      obtain ⟨-, rfl⟩ := Prod.mk.inj (List.mem_singleton.1 hpure)
      rw [hopen, hrun, hclose, hspaces, htext]
      simp
    · obtain ⟨-, rfl⟩ := Prod.mk.inj hnone
      rw [htext]
      exact List.mem_cons_self
  refine h ?_
  rw [hform, hgap]
  simp [hmem]

end Expression

/-! ## One line -/

section Line

variable {r : EdictRecord} {part : EdictPart} {line : List Char}

theorem toNat_of_isWordChar {c : Char} (h : isWordChar c = true) :
    48 ≤ c.toNat ∧ c.toNat ≤ 122 := by
  rw [isWordChar, Bool.or_eq_true, decide_eq_true_eq] at h
  rcases h with h | rfl
  · have hparts : c.isAlphanum = ((decide (c.val ≥ 'A'.val ∧ c.val ≤ 'Z'.val) ||
        (decide (c.val ≥ 'a'.val) && decide (c.val ≤ 'z'.val))) ||
        (decide (c.val ≥ '0'.val) && decide (c.val ≤ '9'.val))) := rfl
    simp only [hparts, Bool.or_eq_true, Bool.and_eq_true, decide_eq_true_eq, ge_iff_le,
      UInt32.le_iff_toNat_le] at h
    change 48 ≤ c.val.toNat ∧ c.val.toNat ≤ 122
    have hbounds : 'A'.val.toNat = 65 ∧ 'Z'.val.toNat = 90 ∧ 'a'.val.toNat = 97 ∧
        'z'.val.toNat = 122 ∧ '0'.val.toNat = 48 ∧ '9'.val.toNat = 57 := by
      decide
    omega
  · decide

theorem ne_of_isWordChar {c d : Char} (h : isWordChar c = true) (hd : d.toNat < 48) : c ≠ d := by
  rintro rfl
  have hc := toNat_of_isWordChar h
  omega

theorem not_isLineTerminator {c : Char} (h : isWordChar c = true) : isLineTerminator c = false := by
  have hc := toNat_of_isWordChar h
  have hn : c ≠ '\n' := ne_of_isWordChar h (by decide)
  have hr : c ≠ '\r' := ne_of_isWordChar h (by decide)
  simp only [isLineTerminator, hn, hr, decide_false, Bool.false_or, Bool.or_eq_false_iff,
    decide_eq_false_iff_not]
  omega

/-- A text between two characters. -/
theorem plainField_between {sep open' close : Char} {name : List Char}
    (hopen : isSpace open' = false ∧ isLineTerminator open' = false ∧ open' ≠ sep)
    (hclose : isSpace close = false ∧ isLineTerminator close = false ∧ close ≠ sep)
    (hname : ∀ c ∈ name, isLineTerminator c = false ∧ c ≠ sep) :
    PlainField sep (open' :: (name ++ [close])) where
  trimmed := by
    refine trim_eq_self_iff.2 ⟨fun c hc => ?_, fun c hc => ?_⟩
    · obtain rfl := Option.some.inj hc
      exact hopen.1
    · rw [← List.cons_append, List.getLast?_concat] at hc
      obtain rfl := Option.some.inj hc
      exact hclose.1
  ne_nil := List.cons_ne_nil _ _
  not_mem hmem := by
    rcases List.mem_cons.1 hmem with rfl | hmem
    · exact hopen.2.2 rfl
    · rcases List.mem_append.1 hmem with hmem | hmem
      · exact (hname _ hmem).2 rfl
      · exact hclose.2.2 (List.mem_singleton.1 hmem).symm
  inLine c hc := by
    rcases List.mem_cons.1 hc with rfl | hc
    · exact hopen.2.1
    · rcases List.mem_append.1 hc with hc | hc
      · exact (hname c hc).1
      · rw [List.mem_singleton.1 hc]
        exact hclose.2.1

theorem EdictPart.Admissible.plain (h : part.Admissible) : PlainField '/' part.text := by
  cases part with
  | tag name =>
    refine plainField_between ⟨rfl, rfl, by decide⟩ ⟨rfl, rfl, by decide⟩ fun c hc => ?_
    obtain ⟨hin, hslash, -⟩ := h.2.1 c hc
    exact ⟨by simpa [inLine] using hin, hslash⟩
  | entity name =>
    refine plainField_between ⟨rfl, rfl, by decide⟩ ⟨rfl, rfl, by decide⟩ fun c hc => ?_
    exact ⟨not_isLineTerminator (h.2 c hc), ne_of_isWordChar (h.2 c hc) (by decide)⟩
  | gloss text => exact h.1

/-- A part of speech is told from a gloss, and its name is read. -/
theorem EdictPart.Admissible.isPos (h : part.Admissible) :
    LanguageKits.isPos part.text = part.pos?.isSome ∧
      ∀ name ∈ part.pos?, posOf part.text = name := by
  cases part with
  | tag name =>
    obtain ⟨hne, hname, hhead, hlast⟩ := h
    have hparen : ')' ∉ name := fun hmem => (hname _ hmem).2.2.2 rfl
    have hkept : name.filter (fun c => c ≠ '(' && c ≠ ')') = name := by
      refine List.filter_eq_self.2 fun c hc => ?_
      obtain ⟨-, -, hopen, hclose⟩ := hname c hc
      simp [hopen, hclose]
    constructor
    · simp [LanguageKits.isPos, isParenthesized, EdictPart.text, EdictPart.pos?, hne, hparen]
    · rintro _ ⟨⟩
      have hfilter : ('(' :: (name ++ [')'])).filter (fun c => c ≠ '(' && c ≠ ')') = name := by
        rw [List.filter_cons_of_neg (by decide), List.filter_append, hkept,
          List.filter_cons_of_neg (by decide), List.filter_nil, List.append_nil]
      rw [EdictPart.text, posOf, hfilter, stripJmdictEntity, if_neg hhead, if_neg hlast]
  | entity name =>
    obtain ⟨hne, hname⟩ := h
    constructor
    · have hword : name.all isWordChar = true := List.all_eq_true.2 hname
      simp [LanguageKits.isPos, isEntity, EdictPart.text, EdictPart.pos?, hne, hword]
    · rintro _ ⟨⟩
      have hfilter : ('&' :: (name ++ [';'])).filter (fun c => c ≠ '(' && c ≠ ')') =
          '&' :: (name ++ [';']) := by
        refine List.filter_eq_self.2 fun c hc => ?_
        have hne : c ≠ '(' ∧ c ≠ ')' := by
          rcases List.mem_cons.1 hc with rfl | hc
          · decide
          · rcases List.mem_append.1 hc with hc | hc
            · exact ⟨ne_of_isWordChar (hname c hc) (by decide),
                ne_of_isWordChar (hname c hc) (by decide)⟩
            · rw [List.mem_singleton.1 hc]
              decide
        simp [hne.1, hne.2]
      rw [EdictPart.text, posOf, hfilter, stripJmdictEntity_entity]
  | gloss text => exact ⟨h.2, by rintro _ ⟨⟩⟩

/-- The text of the parts. -/
def EdictRecord.body (r : EdictRecord) : List Char :=
  ['/'].intercalate (r.parts.map EdictPart.text)

theorem parts_ne_nil (hr : r.Admissible) : r.parts ≠ [] := by
  intro hnil
  refine hr.glosses_ne_nil ?_
  rw [EdictRecord.glosses, hnil, List.filterMap_nil]

theorem body_spec (hr : r.Admissible) : r.body ≠ [] ∧ ∀ c ∈ r.body, inLine c = true := by
  constructor
  · obtain ⟨part, parts, hparts⟩ := List.exists_cons_of_ne_nil (parts_ne_nil hr)
    have hpart := (hr.parts part (hparts ▸ List.mem_cons_self)).plain.ne_nil
    rw [EdictRecord.body, hparts, List.map_cons, Lib.intercalate_cons]
    exact fun hnil => hpart (List.append_eq_nil_iff.1 hnil).1
  · intro c hc
    rcases mem_intercalate hc with rfl | ⟨text, htext, hc⟩
    · rfl
    · obtain ⟨part, hpart, rfl⟩ := List.mem_map.1 htext
      rw [inLine, (hr.parts part hpart).plain.inLine c hc]
      rfl

/-- The parts that are joined are split again. -/
theorem split_body (hr : r.Admissible) :
    ((r.body.splitOn '/').map trim).filter (fun part => part ≠ []) =
      r.parts.map EdictPart.text := by
  have hplain : ∀ text ∈ r.parts.map EdictPart.text, PlainField '/' text := by
    intro text htext
    obtain ⟨part, hpart, rfl⟩ := List.mem_map.1 htext
    exact (hr.parts part hpart).plain
  have hne : r.parts.map EdictPart.text ≠ [] := fun h => parts_ne_nil hr (List.map_eq_nil_iff.1 h)
  rw [EdictRecord.body, List.splitOn_intercalate '/' (fun text h => (hplain text h).not_mem) hne]
  have htrim : (r.parts.map EdictPart.text).map trim = r.parts.map EdictPart.text :=
    (List.map_congr_left fun text h => (hplain text h).trimmed).trans (List.map_id _)
  rw [htrim, List.filter_eq_self]
  intro text h
  exact decide_eq_true (hplain text h).ne_nil

/-- Behind the lemma and a space come the reading and the parts. -/
theorem render_spec (hr : r.Admissible) :
    ∃ y tail, r.render = r.lemmaForm ++ ' ' :: y :: tail ∧ isSpace y = false ∧
      ∀ prev (lemmaForm : List Char),
        (behindLemma fun reading rest => (lemmaForm, reading, rest)).first ⟨prev, y :: tail⟩ =
          some ((lemmaForm, r.reading, r.body), ⟨some '/', []⟩) := by
  obtain ⟨hne, hbody⟩ := body_spec hr
  cases hreading : r.reading with
  | none =>
    refine ⟨'/', r.body ++ ['/'], ?_, rfl, fun prev lemmaForm => behindLemma_none hne hbody⟩
    rw [EdictRecord.render, hreading]
    rfl
  | some reading =>
    have hplain := hr.reading reading hreading
    obtain ⟨x, behind, rfl⟩ := List.exists_cons_of_ne_nil hplain.ne_nil
    have hin : ∀ c ∈ x :: behind, inLine c = true := by
      intro c hc
      rw [inLine, hplain.inLine c hc]
      rfl
    refine ⟨'[', x :: (behind ++ ']' :: ' ' :: '/' :: (r.body ++ ['/'])), ?_, rfl,
      fun prev lemmaForm => behindLemma_some hin (List.not_mem_of_not_mem_cons hplain.not_mem) hne
        hbody⟩
    rw [EdictRecord.render, hreading]
    rfl

theorem jmdictText_render (hr : r.Admissible) :
    jmdictText.first ⟨none, r.render⟩ =
      some ((r.lemmaForm, r.reading, r.body), ⟨some '/', []⟩) := by
  obtain ⟨x, lemmaForm, hlemma⟩ := List.exists_cons_of_ne_nil hr.lemmaForm.ne_nil
  have hin : ∀ c ∈ x :: lemmaForm, inLine c = true := by
    intro c hc
    rw [inLine, hr.lemmaForm.inLine c (hlemma ▸ hc)]
    rfl
  obtain ⟨y, tail, htail, hy, hbehind⟩ := render_spec hr
  rw [hlemma, List.cons_append] at htail
  have hall : (lazy inLine 1 none >>= fun lemmaForm => greedy isSpace 1 none >>= fun _ =>
      behindLemma fun reading rest => (lemmaForm, reading, rest)).first ⟨none, r.render⟩ =
        some ((r.lemmaForm, r.reading, r.body), ⟨some '/', []⟩) := by
    rw [htail, hlemma]
    refine first_bind_lazy_one hin (fun a b hab hb => ?_) ?_
    · have hsub : ∀ c ∈ b, c ∈ r.lemmaForm := by
        intro c hc
        rw [hlemma, hab]
        exact List.mem_cons_of_mem _ (List.mem_append_right _ hc)
      have hlast : b.getLast? = r.lemmaForm.getLast? := by
        rw [hlemma, hab, ← List.cons_append, List.getLast?_append_of_ne_nil _ hb]
      refine gap_eq_nil hb (fun c hc => ?_) (fun hmem => hr.lemmaForm.not_mem (hsub _ hmem))
        fun hmem => hr.not_slash (hsub _ hmem)
      exact (trim_eq_self_iff.1 hr.lemmaForm.trimmed).2 c (hlast ▸ hc)
    · rw [first, Cursor.skip, bind_space hy]
      · exact hbehind _ _
      · intro a prev z zs hz
        refine behindLemma_eq_nil ⟨?_, ?_⟩
        · rintro ⟨⟩
          cases hz
        · rintro ⟨⟩
          cases hz
  exact hall

theorem parts_spec {parts : List EdictPart} (h : ∀ part ∈ parts, part.Admissible) :
    ((parts.map EdictPart.text).filter isPos).map posOf = parts.filterMap EdictPart.pos? ∧
      (parts.map EdictPart.text).filter (fun part => !isPos part) =
        parts.filterMap EdictPart.gloss? := by
  induction parts with
  | nil => exact ⟨rfl, rfl⟩
  | cons part parts ih =>
    obtain ⟨hpart, hparts⟩ := List.forall_mem_cons.1 h
    obtain ⟨hpos, hglosses⟩ := ih hparts
    obtain ⟨his, hname⟩ := hpart.isPos
    rw [List.map_cons, List.filterMap_cons, List.filterMap_cons, ← hpos, ← hglosses]
    cases part with
    | tag name =>
      rw [List.filter_cons_of_pos his, List.filter_cons_of_neg (by simp [his, EdictPart.pos?]),
        List.map_cons, hname name rfl]
      exact ⟨rfl, rfl⟩
    | entity name =>
      rw [List.filter_cons_of_pos his, List.filter_cons_of_neg (by simp [his, EdictPart.pos?]),
        List.map_cons, hname name rfl]
      exact ⟨rfl, rfl⟩
    | gloss text =>
      have hnot : isPos text = false := his
      rw [EdictPart.text, List.filter_cons_of_neg (by simp [hnot]),
        List.filter_cons_of_pos (by simp [hnot])]
      exact ⟨rfl, rfl⟩

theorem contentOf_edict (hr : r.Admissible) : contentOf r.render = some r.render := by
  have hhead : r.render.head? = r.lemmaForm.head? :=
    List.head?_append_of_ne_nil _ hr.lemmaForm.ne_nil
  have hlast : r.render.getLast? = some '/' := by
    rw [EdictRecord.render, EdictRecord.renderParts]
    cases r.reading <;> simp [List.getLast?_append, List.getLast?_cons]
  have htrim : trim r.render = r.render := by
    refine trim_eq_self_iff.2 ⟨fun c hc => ?_, fun c hc => ?_⟩
    · rw [hhead] at hc
      exact (trim_eq_self_iff.1 hr.lemmaForm.trimmed).1 c hc
    · rw [hlast] at hc
      obtain rfl := Option.some.inj hc
      rfl
  rw [contentOf, htrim]
  split
  · next hnil =>
    rw [hnil] at hlast
    cases hlast
  · next hcomment =>
    rw [hcomment] at hhead
    exact absurd hhead.symm hr.not_comment
  · rfl

theorem parseJmdictTextLine_render (hr : r.Admissible) :
    parseJmdictTextLine r.render = some r.entry := by
  obtain ⟨hpos, hglosses⟩ : _ = r.pos ∧ _ = r.glosses := parts_spec hr.parts
  have hne : r.glosses.map String.ofList ≠ [] := by simpa using hr.glosses_ne_nil
  have hreading : r.reading.map trim = r.reading ∧
      r.reading.filter (fun reading => reading ≠ []) = r.reading := by
    cases hsome : r.reading with
    | none => exact ⟨rfl, rfl⟩
    | some reading =>
      have hplain := hr.reading reading hsome
      exact ⟨congrArg some hplain.trimmed, Option.filter_some_pos (decide_eq_true hplain.ne_nil)⟩
  simp only [parseJmdictTextLine, contentOf_edict hr, jmdictText_render hr, Option.bind_eq_bind,
    Option.bind_some, split_body hr, hpos, hglosses, hr.lemmaForm.trimmed, hreading.1, hreading.2]
  rw [if_neg hne]
  simp only [EdictRecord.entry, List.map_eq_nil_iff]

theorem parseJmdictTextLine_trim (line : List Char) :
    parseJmdictTextLine (trim line) = parseJmdictTextLine line := by
  rw [parseJmdictTextLine, contentOf_congr (trim_trim line), parseJmdictTextLine]

theorem parseJmdictTextLine_other (h : (EdictLine.other line).Ok) :
    parseJmdictTextLine line = none := by
  rw [parseJmdictTextLine, contentOf]
  rcases h.2 with hblank | hcomment | hslash
  · rw [hblank]
    rfl
  · obtain ⟨rest, hrest⟩ := List.head?_eq_some_iff.1 hcomment
    rw [hrest]
    rfl
  · split
    · rfl
    · rfl
    · have hnone : jmdictText.first ⟨none, trim line⟩ = none :=
        first_eq_none.2 (jmdictText_eq_nil fun hmem => hslash ((trim_sublist line).mem hmem))
      simp only [Option.bind_eq_bind, Option.bind_some, hnone, Option.bind_none]

end Line

/-! ## The text -/

section Text

variable {line rest : List Char}

theorem map_trim_splitLines (h : '\n' ∉ line) :
    (splitLines (line ++ '\n' :: rest)).map trim = trim line :: (splitLines rest).map trim := by
  by_cases hlast : line.getLast? = some '\r'
  · obtain ⟨before, rfl⟩ := List.getLast?_eq_some_iff.1 hlast
    have hbefore : '\n' ∉ before := fun hmem => h (List.mem_append_left _ hmem)
    rw [List.append_assoc, List.singleton_append, splitLines_crlf hbefore, List.map_cons,
      trim_append_spaces (List.forall_mem_singleton.2 rfl)]
  · rw [splitLines_append h hlast, List.map_cons]

/-- Lines that are joined are split again, up to the spaces around them. -/
theorem map_trim_intercalate (crlf : Bool) {lines : List (List Char)} (hne : lines ≠ [])
    (h : ∀ line ∈ lines, '\n' ∉ line) :
    (splitLines ((if crlf then ['\r', '\n'] else ['\n']).intercalate lines)).map trim =
      lines.map trim := by
  induction lines with
  | nil => exact absurd rfl hne
  | cons line lines ih =>
    obtain ⟨hline, hlines⟩ := List.forall_mem_cons.1 h
    cases lines with
    | nil => rw [List.intercalate_singleton, splitLines_line hline]
    | cons next lines =>
      have hcr : '\n' ∉ line ++ ['\r'] := by simpa using hline
      rw [List.intercalate_cons_cons, List.map_cons, ← ih (List.cons_ne_nil _ _) hlines]
      cases crlf with
      | false => simpa using map_trim_splitLines hline
      | true =>
        rw [← trim_append_spaces (show ∀ c ∈ ['\r'], isSpace c = true from
          List.forall_mem_singleton.2 rfl), ← map_trim_splitLines hcr]
        simp

theorem parseJmdictTextLine_line {l : EdictLine} (h : l.Ok) :
    parseJmdictTextLine l.text = l.record?.map EdictRecord.entry := by
  cases l with
  | record r => exact parseJmdictTextLine_render h
  | other line => exact parseJmdictTextLine_other h

theorem not_mem_text {l : EdictLine} (h : l.Ok) : '\n' ∉ l.text := by
  cases l with
  | other line => exact h.1
  | record r =>
    have hr : r.Admissible := h
    have hlemma : '\n' ∉ r.lemmaForm := not_mem_of_inLine hr.lemmaForm.inLine
    have hparts : '\n' ∉ r.renderParts := by
      have hbody : '\n' ∉ r.body := by
        intro hmem
        have hin := (body_spec hr).2 _ hmem
        cases hin
      simpa [EdictRecord.renderParts, EdictRecord.body] using hbody
    rw [EdictLine.text, EdictRecord.render]
    cases hreading : r.reading with
    | none => simp [hlemma, hparts]
    | some reading =>
      have hline := not_mem_of_inLine (hr.reading reading hreading).inLine
      simp [hlemma, hparts, hline]

/-- The records of a dump come back, each as its entry and in their order, from lines that end with
line feeds or with carriage returns and line feeds. -/
theorem parseJmdictTextDump_render {lines : List EdictLine} (h : ∀ l ∈ lines, l.Ok) (crlf : Bool) :
    parseJmdictTextDump (String.ofList ((if crlf then ['\r', '\n'] else ['\n']).intercalate
        (lines.map EdictLine.text))) =
      (lines.filterMap EdictLine.record?).map EdictRecord.entry := by
  have hlines : lines.filterMap (fun l => parseJmdictTextLine l.text) =
      (lines.filterMap EdictLine.record?).map EdictRecord.entry := by
    rw [List.map_filterMap]
    exact List.filterMap_congr fun l hl => parseJmdictTextLine_line (h l hl)
  have htrim : ∀ ls : List (List Char),
      ls.filterMap parseJmdictTextLine = (ls.map trim).filterMap parseJmdictTextLine := by
    intro ls
    rw [List.filterMap_map]
    exact List.filterMap_congr fun line _ => (parseJmdictTextLine_trim line).symm
  rw [parseJmdictTextDump, String.toList_ofList, htrim, ← hlines]
  by_cases hne : lines = []
  · subst hne
    cases crlf <;> rfl
  · rw [map_trim_intercalate crlf (fun hnil => hne (List.map_eq_nil_iff.1 hnil)), ← htrim,
      List.filterMap_map]
    · rfl
    · intro line hline
      obtain ⟨l, hl, rfl⟩ := List.mem_map.1 hline
      exact not_mem_text (h l hl)

end Text

/-- A record with a reading, parts of speech of both kinds and a gloss in parentheses. -/
def taberuRecord : EdictRecord where
  lemmaForm := "食べる".toList
  reading := some "たべる".toList
  parts := [.tag "v1".toList, .entity "vt".toList, .gloss "to eat (food)".toList]

theorem admissible_taberuRecord : taberuRecord.Admissible where
  lemmaForm := ⟨by decide, by decide, by decide, forall_eq_false rfl⟩
  not_slash := by decide
  not_comment := by decide
  reading reading h := by
    obtain rfl := Option.some.inj h
    exact ⟨by decide, by decide, by decide, forall_eq_false rfl⟩
  parts := by
    have htag : "v1".toList.all
        (fun c => inLine c = true ∧ c ≠ '/' ∧ c ≠ '(' ∧ c ≠ ')') = true := by decide
    have hentity : "vt".toList.all isWordChar = true := by decide
    refine List.forall_mem_cons.2 ⟨⟨by decide, ?_, by decide, by decide⟩,
      List.forall_mem_cons.2 ⟨⟨by decide, List.all_eq_true.1 hentity⟩,
        List.forall_mem_singleton.2 ⟨?_, by decide⟩⟩⟩
    · exact fun c hc => of_decide_eq_true (List.all_eq_true.1 htag c hc)
    · exact ⟨by decide, by decide, by decide, forall_eq_false rfl⟩
  glosses_ne_nil := by decide

theorem parseJmdictTextDump_taberu :
    parseJmdictTextDump (String.ofList (['\r', '\n'].intercalate
      ["# JMdict".toList, taberuRecord.render, []])) = [taberuRecord.entry] := by
  have hcomment : (EdictLine.other "# JMdict".toList).Ok :=
    ⟨by decide, Or.inr (Or.inl (by decide))⟩
  have hrecord : (EdictLine.record taberuRecord).Ok := admissible_taberuRecord
  have hblank : (EdictLine.other []).Ok := ⟨by decide, Or.inl (by decide)⟩
  exact parseJmdictTextDump_render (List.forall_mem_cons.2 ⟨hcomment, List.forall_mem_cons.2
    ⟨hrecord, List.forall_mem_singleton.2 hblank⟩⟩) true

end LanguageLlm.LanguageKits
