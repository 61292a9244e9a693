import Mathlib.Data.List.Basic

/-!
# Regular expressions that backtrack

An expression is the list of its matches at a place of a text, in the order in which backtracking
tries them; the first one counts. Captures are the values of the matcher, and a sequence is `bind`.

* `mem_lazy`, `mem_greedy`: what a repetition of a class can match. `first_bind_lazy` says when the
  shortest one that works is known.
* `tokens_found`, `tokens_char`: a text is read match by match, the characters between the matches
  one by one. `matchAll`, `replaceAll` and `search` are read off these tokens.
-/

namespace LanguageLlm.Lib

/-- A place in a text: the character before it, if there is one, and what comes behind. -/
structure Cursor where
  prev : Option Char
  rest : List Char
  deriving DecidableEq

/-- The place behind some characters. -/
def Cursor.skip (c : Cursor) (run rest : List Char) : Cursor := ⟨run.getLast?.or c.prev, rest⟩

/-- An expression with captures in `α`. -/
def Matcher (α : Type) : Type := Cursor → List (α × Cursor)

namespace Matcher

variable {α β : Type}

instance : Monad Matcher where
  pure a := fun c => [(a, c)]
  bind m f := fun c => (m c).flatMap fun r => f r.1 r.2

/-- The match that counts. -/
def first (m : Matcher α) (c : Cursor) : Option (α × Cursor) := (m c).head?

/-! ## Expressions -/

/-- One character of a class. -/
def one (p : Char → Bool) : Matcher Char := fun c =>
  match c.rest with
  | [] => []
  | x :: xs => if p x then [(x, ⟨some x, xs⟩)] else []

/-- A word, character by character; `same` says which characters count as equal. -/
def word (same : Char → Char → Bool) : List Char → Matcher Unit
  | [] => pure ()
  | x :: xs => do
    let _ ← one (same x)
    word same xs

/-- The characters of a class at the beginning of a text with what follows, the fewest first. -/
def runs (p : Char → Bool) : List Char → List (List Char × List Char)
  | [] => [([], [])]
  | x :: xs =>
    ([], x :: xs) :: if p x then (runs p xs).map fun r => (x :: r.1, r.2) else []

/-- A repetition may have this length. -/
def fits (least : Nat) (most : Option Nat) (n : Nat) : Bool := least ≤ n && most.all (n ≤ ·)

@[simp]
theorem fits_none (n : Nat) : fits 0 none n = true := by simp [fits]

/-- At least `least` characters of a class, and at most `most` if that is given: as few as possible
first. -/
def lazy (p : Char → Bool) (least : Nat) (most : Option Nat) : Matcher (List Char) := fun c =>
  ((runs p c.rest).filter fun r => fits least most r.1.length).map fun r => (r.1, c.skip r.1 r.2)

/-- The same, as many as possible first. -/
def greedy (p : Char → Bool) (least : Nat) (most : Option Nat) : Matcher (List Char) := fun c =>
  (lazy p least most c).reverse

/-- An expression that may be left out. -/
def opt (m : Matcher α) : Matcher (Option α) := fun c =>
  (m c).map (fun r => (some r.1, r.2)) ++ [(none, c)]

/-- A place where `w` says one of the two characters at it belongs to a word and the other does
not. -/
def boundary (w : Char → Bool) : Matcher Unit := fun c =>
  if c.prev.any w ≠ c.rest.head?.any w then [((), c)] else []

/-- The end of the text. -/
def ending : Matcher Unit := fun c => if c.rest = [] then [((), c)] else []

/-! ## Their matches -/

variable {m : Matcher α} {f : α → Matcher β} {c : Cursor} {p : Char → Bool} {x : Char}
  {xs : List Char} {prev : Option Char} {least : Nat} {most : Option Nat}

theorem bind_apply (m : Matcher α) (f : α → Matcher β) (c : Cursor) :
    (m >>= f) c = (m c).flatMap fun r => f r.1 r.2 := rfl

theorem bind_assoc {γ : Type} {g : β → Matcher γ} :
    m >>= f >>= g = m >>= fun a => f a >>= g := by
  funext c
  simp only [bind_apply, List.flatMap_assoc]

@[simp]
theorem mem_pure {a : α} {r : α × Cursor} : r ∈ (pure a : Matcher α) c ↔ r = (a, c) :=
  List.mem_singleton

@[simp]
theorem mem_bind {r : β × Cursor} :
    r ∈ (m >>= f) c ↔ ∃ a c', (a, c') ∈ m c ∧ r ∈ f a c' := by
  rw [bind_apply, List.mem_flatMap]
  constructor
  · intro h
    obtain ⟨⟨a, c'⟩, ha, hr⟩ := h
    exact ⟨a, c', ha, hr⟩
  · intro h
    obtain ⟨a, c', ha, hr⟩ := h
    exact ⟨(a, c'), ha, hr⟩

@[simp]
theorem mem_one {r : Char × Cursor} :
    r ∈ one p c ↔ p r.1 = true ∧ r.2.prev = some r.1 ∧ c.rest = r.1 :: r.2.rest := by
  obtain ⟨y, prev', rest'⟩ := r
  obtain ⟨prev, _ | ⟨x, xs⟩⟩ := c
  · simp [one]
  · by_cases hp : p x = true
    · simp only [one, hp, if_true, List.mem_singleton, Prod.mk.injEq, Cursor.mk.injEq,
        List.cons.injEq]
      constructor
      · rintro ⟨rfl, rfl, rfl⟩
        exact ⟨hp, rfl, rfl, rfl⟩
      · rintro ⟨-, rfl, rfl, rfl⟩
        exact ⟨rfl, rfl, rfl⟩
    · simp only [one, hp, Bool.false_eq_true, if_false, List.not_mem_nil, false_iff]
      rintro ⟨hy, -, heq⟩
      cases heq
      exact hp hy

theorem one_pos (hp : p x = true) : one p ⟨prev, x :: xs⟩ = [(x, ⟨some x, xs⟩)] := if_pos hp

theorem one_neg (hp : p x = false) : one p ⟨prev, x :: xs⟩ = [] := by
  simp [one, hp]

theorem bind_one_pos {f : Char → Matcher β} (hp : p x = true) :
    (one p >>= f) ⟨prev, x :: xs⟩ = f x ⟨some x, xs⟩ := by
  rw [bind_apply, one_pos hp, List.flatMap_singleton]

theorem bind_one_neg {f : Char → Matcher β} (hp : p x = false) :
    (one p >>= f) ⟨prev, x :: xs⟩ = [] := by
  rw [bind_apply, one_neg hp, List.flatMap_nil]

/-- What begins with a character does not look back. -/
theorem bind_one_prev {f : Char → Matcher β} (prev' : Option Char) (cs : List Char) :
    (one p >>= f) ⟨prev, cs⟩ = (one p >>= f) ⟨prev', cs⟩ := by
  cases cs <;> rfl

theorem mem_runs {l run rest : List Char} :
    (run, rest) ∈ runs p l ↔ l = run ++ rest ∧ ∀ x ∈ run, p x = true := by
  induction l generalizing run with
  | nil =>
    simp only [runs, List.mem_singleton, Prod.mk.injEq]
    constructor
    · rintro ⟨rfl, rfl⟩
      exact ⟨rfl, List.forall_mem_nil _⟩
    · intro h
      obtain ⟨hnil, -⟩ := h
      exact List.append_eq_nil_iff.1 hnil.symm
  | cons x l ih =>
    rw [runs, List.mem_cons, Prod.mk.injEq]
    cases run with
    | nil =>
      constructor
      · rintro (⟨-, rfl⟩ | h)
        · exact ⟨rfl, List.forall_mem_nil _⟩
        · split at h
          · simp at h
          · cases h
      · rintro ⟨rfl, -⟩
        exact Or.inl ⟨rfl, rfl⟩
    | cons y run =>
      have hne : ¬ (y :: run = [] ∧ rest = x :: l) := fun h => List.cons_ne_nil y run h.1
      rw [or_iff_right hne]
      by_cases hp : p x = true
      · rw [if_pos hp, List.mem_map]
        constructor
        · rintro ⟨⟨a, b⟩, hab, heq⟩
          obtain ⟨⟨rfl, rfl⟩, rfl⟩ : (x = y ∧ a = run) ∧ b = rest := by simpa using heq
          obtain ⟨rfl, hall⟩ := ih.1 hab
          exact ⟨rfl, List.forall_mem_cons.2 ⟨hp, hall⟩⟩
        · rintro ⟨heq, hall⟩
          obtain ⟨rfl, rfl⟩ : x = y ∧ l = run ++ rest := by simpa using heq
          exact ⟨(run, rest), ih.2 ⟨rfl, (List.forall_mem_cons.1 hall).2⟩, rfl⟩
      · rw [if_neg hp]
        constructor
        · intro h
          cases h
        · rintro ⟨heq, hall⟩
          obtain ⟨rfl, rfl⟩ : x = y ∧ l = run ++ rest := by simpa using heq
          exact absurd (List.forall_mem_cons.1 hall).1 hp

/-- What a repetition can match. -/
theorem mem_lazy {run : List Char} {c' : Cursor} :
    (run, c') ∈ lazy p least most c ↔ c.rest = run ++ c'.rest ∧ (∀ x ∈ run, p x = true) ∧
      c'.prev = run.getLast?.or c.prev ∧ least ≤ run.length ∧ ∀ n ∈ most, run.length ≤ n := by
  simp only [lazy, fits, List.mem_map, List.mem_filter, Bool.and_eq_true, decide_eq_true_eq,
    Option.all_eq_true]
  constructor
  · rintro ⟨⟨a, b⟩, ⟨hab, hle⟩, heq⟩
    obtain ⟨rfl, rfl⟩ := Prod.mk.inj heq
    obtain ⟨hl, hall⟩ := mem_runs.1 hab
    exact ⟨hl, hall, rfl, hle⟩
  · rintro ⟨hl, hall, hprev, hle⟩
    refine ⟨(run, c'.rest), ⟨mem_runs.2 ⟨hl, hall⟩, hle⟩, ?_⟩
    rw [Cursor.skip, ← hprev]

theorem mem_greedy {run : List Char} {c' : Cursor} :
    (run, c') ∈ greedy p least most c ↔ c.rest = run ++ c'.rest ∧ (∀ x ∈ run, p x = true) ∧
      c'.prev = run.getLast?.or c.prev ∧ least ≤ run.length ∧ ∀ n ∈ most, run.length ≤ n := by
  rw [greedy, List.mem_reverse, mem_lazy]

@[simp]
theorem mem_opt {r : Option α × Cursor} :
    r ∈ opt m c ↔ (∃ a, r.1 = some a ∧ (a, r.2) ∈ m c) ∨ r = (none, c) := by
  obtain ⟨a, c'⟩ := r
  simp only [opt, List.mem_append, List.mem_map, List.mem_singleton, Prod.mk.injEq, Prod.exists]
  constructor
  · rintro (⟨b, c'', hb, rfl, rfl⟩ | h)
    · exact Or.inl ⟨b, rfl, hb⟩
    · exact Or.inr h
  · rintro (⟨b, rfl, hb⟩ | h)
    · exact Or.inl ⟨b, c', hb, rfl, rfl⟩
    · exact Or.inr h

@[simp]
theorem mem_ending {r : Unit × Cursor} : r ∈ ending c ↔ c.rest = [] ∧ r = ((), c) := by
  rw [ending]
  split
  · next h => simp [h]
  · next h => simp [h]

theorem bind_opt {f : Option α → Matcher β} :
    (opt m >>= f) c = (m >>= fun a => f (some a)) c ++ f none c := by
  rw [bind_apply, opt, List.flatMap_append, List.flatMap_map, List.flatMap_singleton, bind_apply]

theorem bind_boundary_pos {w : Char → Bool} {f : Unit → Matcher β}
    (h : c.prev.any w ≠ c.rest.head?.any w) : (boundary w >>= f) c = f () c := by
  rw [bind_apply, boundary, if_pos h, List.flatMap_singleton]

/-- At a boundary or not, what fails behind it fails. -/
theorem bind_boundary_eq_nil {w : Char → Bool} {f : Unit → Matcher β} (h : f () c = []) :
    (boundary w >>= f) c = [] := by
  rw [bind_apply, boundary]
  split_ifs
  · rw [List.flatMap_singleton, h]
  · rfl

/-! ## Runs that end where the class ends -/

section Runs

variable {run rest : List Char}

/-- Only the whole run counts where nothing goes on with a character of the class. -/
theorem flatMap_runs {γ : Type} {g : List Char × List Char → List γ} (hrun : ∀ x ∈ run, p x = true)
    (hstop : ∀ x ∈ rest.head?, p x = false) (hg : ∀ a x xs, p x = true → g (a, x :: xs) = []) :
    (runs p (run ++ rest)).flatMap g = g (run, rest) ∧
      (runs p (run ++ rest)).reverse.flatMap g = g (run, rest) := by
  induction run generalizing g with
  | nil =>
    have hruns : runs p rest = [([], rest)] := by
      cases rest with
      | nil => rfl
      | cons x xs => rw [runs, hstop x rfl, if_neg (by decide)]
    simp [hruns]
  | cons x run ih =>
    obtain ⟨hx, hrun⟩ := List.forall_mem_cons.1 hrun
    obtain ⟨hlazy, hgreedy⟩ := ih (g := fun r => g (x :: r.1, r.2)) hrun fun a y ys hy =>
      hg (x :: a) y ys hy
    have hnil : g ([], x :: (run ++ rest)) = [] := hg [] x _ hx
    rw [List.cons_append, runs, if_pos hx]
    constructor
    · rw [List.flatMap_cons, hnil, List.nil_append, List.flatMap_map, hlazy]
    · rw [List.reverse_cons, List.flatMap_append, List.flatMap_singleton, hnil, List.append_nil,
        ← List.map_reverse, List.flatMap_map, hgreedy]

/-- A repetition before something else takes the run of its class, and does not match when that has
the wrong length. -/
theorem bind_greedy {f : List Char → Matcher β} (hrun : ∀ x ∈ run, p x = true)
    (hstop : ∀ x ∈ rest.head?, p x = false)
    (hf : ∀ a prev x xs, p x = true → f a ⟨prev, x :: xs⟩ = []) :
    (greedy p least most >>= f) ⟨prev, run ++ rest⟩ =
      if fits least most run.length then f run ⟨run.getLast?.or prev, rest⟩ else [] := by
  let g := fun r : List Char × List Char =>
    if fits least most r.1.length then f r.1 ⟨r.1.getLast?.or prev, r.2⟩ else []
  have hg : ∀ a x xs, p x = true → g (a, x :: xs) = [] := by
    intro a x xs hx
    simp only [g, hf a _ x xs hx, ite_self]
  have hfilter : ∀ l : List (List Char × List Char),
      ((l.filter fun r => fits least most r.1.length).map fun r =>
        (r.1, Cursor.skip ⟨prev, run ++ rest⟩ r.1 r.2)).flatMap (fun r => f r.1 r.2) =
        l.flatMap g := by
    intro l
    induction l with
    | nil => rfl
    | cons r l ih =>
      rw [List.flatMap_cons, ← ih, List.filter_cons]
      cases hr : fits least most r.1.length with
      | true =>
        simp only [g, hr, if_true, List.map_cons, List.flatMap_cons]
        rfl
      | false => simp only [g, hr, Bool.false_eq_true, if_false, List.nil_append]
  rw [bind_apply, greedy, lazy, ← List.map_reverse, ← List.filter_reverse, hfilter,
    (flatMap_runs hrun hstop hg).2]

end Runs

/-! ## Words -/

theorem bind_word_cons {same : Char → Char → Bool} {w : List Char} {f : Unit → Matcher β} :
    word same (x :: w) >>= f = one (same x) >>= fun _ => word same w >>= f := bind_assoc

/-- A word takes its characters. -/
theorem bind_word {same : Char → Char → Bool} (hrefl : ∀ x, same x x = true) {w rest : List Char}
    {f : Unit → Matcher β} :
    (word same w >>= f) ⟨prev, w ++ rest⟩ = f () ⟨w.getLast?.or prev, rest⟩ := by
  induction w generalizing prev with
  | nil => exact List.flatMap_singleton ..
  | cons x w ih =>
    rw [bind_word_cons, List.cons_append, bind_one_pos (hrefl x), ih, List.getLast?_cons]
    cases w.getLast? <;> rfl

/-- A word needs its first character. -/
theorem bind_word_neg {same : Char → Char → Bool} {y : Char} {w : List Char}
    {f : Unit → Matcher β} (h : same x y = false) :
    (word same (x :: w) >>= f) ⟨prev, y :: xs⟩ = [] := by
  rw [bind_word_cons, bind_one_neg h]

theorem word_apply {same : Char → Char → Bool} (hrefl : ∀ x, same x x = true) (w rest : List Char) :
    word same w ⟨prev, w ++ rest⟩ = [((), ⟨w.getLast?.or prev, rest⟩)] := by
  have hbind : (word same w >>= pure) ⟨prev, w ++ rest⟩ = [((), ⟨w.getLast?.or prev, rest⟩)] :=
    bind_word hrefl
  rw [bind_apply] at hbind
  exact (List.flatMap_singleton' _).symm.trans hbind

/-- A word that does not stand here. -/
theorem word_eq_nil {w cs : List Char} (h : ¬ w <+: cs) : word (· == ·) w ⟨prev, cs⟩ = [] := by
  induction w generalizing prev cs with
  | nil => exact absurd List.nil_prefix h
  | cons x w ih =>
    cases cs with
    | nil => rfl
    | cons y cs =>
      rw [word]
      by_cases hxy : x = y
      · subst hxy
        have hrest : ¬ w <+: cs := fun hw => h (List.cons_prefix_cons.2 ⟨rfl, hw⟩)
        rw [bind_one_pos (beq_self_eq_true x), ih hrest]
      · exact bind_one_neg (beq_eq_false_iff_ne.2 hxy)

/-! ## The first match -/

theorem first_eq_none : m.first c = none ↔ m c = [] := List.head?_eq_none_iff

/-- The repetitions of a class in front of a run of it: first those that end inside the run. -/
theorem findSome_runs {γ : Type} {g : List Char × List Char → Option γ} {run rest : List Char}
    (hp : ∀ x ∈ run, p x = true) (hpart : ∀ a b, run = a ++ b → b ≠ [] → g (a, b ++ rest) = none)
    {r : γ} (h : g (run, rest) = some r) : (runs p (run ++ rest)).findSome? g = some r := by
  induction run generalizing g with
  | nil =>
    cases rest with
    | nil => rw [List.nil_append, runs, List.findSome?_cons, h]
    | cons y rest => rw [List.nil_append, runs, List.findSome?_cons, h]
  | cons x run ih =>
    obtain ⟨hx, hrun⟩ := List.forall_mem_cons.1 hp
    have hnone : g ([], x :: (run ++ rest)) = none := hpart [] (x :: run) rfl nofun
    rw [List.cons_append, runs, if_pos hx, List.findSome?_cons, hnone, List.findSome?_map]
    refine ih hrun (fun a b hab hb => hpart (x :: a) b ?_ hb) h
    rw [hab, List.cons_append]

/-- A lazy repetition goes on until what follows it matches. -/
theorem first_bind_lazy {f : List Char → Matcher β} {run rest : List Char}
    (hp : ∀ x ∈ run, p x = true)
    (hpart : ∀ a b, run = a ++ b → b ≠ [] →
      f a (Cursor.skip ⟨prev, run ++ rest⟩ a (b ++ rest)) = [])
    {r : β × Cursor} (h : (f run).first (Cursor.skip ⟨prev, run ++ rest⟩ run rest) = some r) :
    (lazy p 0 none >>= f).first ⟨prev, run ++ rest⟩ = some r := by
  have hall : ∀ l : List (List Char × List Char),
      (l.filter fun r => fits 0 none r.1.length) = l := by
    intro l
    rw [List.filter_eq_self]
    intro r _
    exact fits_none _
  rw [first, bind_apply, List.head?_flatMap, lazy, hall, List.findSome?_map]
  refine findSome_runs hp (fun a b hab hb => ?_) h
  exact List.head?_eq_none_iff.2 (hpart a b hab hb)

/-- The same for a repetition of at least one character. -/
theorem first_bind_lazy_one {f : List Char → Matcher β} {run rest : List Char}
    (hp : ∀ y ∈ x :: run, p y = true)
    (hpart : ∀ a b, run = a ++ b → b ≠ [] →
      f (x :: a) (Cursor.skip ⟨prev, x :: (run ++ rest)⟩ (x :: a) (b ++ rest)) = [])
    {r : β × Cursor}
    (h : (f (x :: run)).first (Cursor.skip ⟨prev, x :: (run ++ rest)⟩ (x :: run) rest) = some r) :
    (lazy p 1 none >>= f).first ⟨prev, x :: (run ++ rest)⟩ = some r := by
  obtain ⟨hx, hrun⟩ := List.forall_mem_cons.1 hp
  have hlong : ∀ l : List (List Char × List Char),
      (l.map fun r => (x :: r.1, r.2)).filter (fun r => fits 1 none r.1.length) =
        l.map fun r => (x :: r.1, r.2) := by
    intro l
    rw [List.filter_eq_self]
    intro r hr
    obtain ⟨s, -, rfl⟩ := List.mem_map.1 hr
    simp [fits]
  have hshort : fits 1 none ([] : List Char).length = false := rfl
  rw [first, bind_apply, List.head?_flatMap, lazy, runs, if_pos hx, List.filter_cons_of_neg,
    hlong, List.findSome?_map, List.findSome?_map]
  · refine findSome_runs hrun (fun a b hab hb => ?_) h
    exact List.head?_eq_none_iff.2 (hpart a b hab hb)
  · rw [hshort]
    decide

/-- The only match counts. -/
theorem first_of_unique {r : α × Cursor} (h : r ∈ m c) (hunique : ∀ r' ∈ m c, r' = r) :
    m.first c = some r := by
  obtain ⟨r', rs, hcons⟩ := List.exists_cons_of_ne_nil (List.ne_nil_of_mem h)
  rw [first, hcons, List.head?_cons, hunique r' (hcons ▸ List.mem_cons_self)]

end Matcher

/-! ## Reading a text -/

/-- A text that was searched for all matches: a character between them, or a match. -/
inductive Token (α : Type) where
  | char (x : Char)
  | found (a : α)

section Tokens

variable {α : Type}

def Token.found? : Token α → Option α
  | .char _ => none
  | .found a => some a

def Token.replaced (f : α → List Char) : Token α → List Char
  | .char x => [x]
  | .found a => f a

open Matcher

/-- The text from a place on. Behind an empty match the search goes on one character later. -/
def tokensFuel (m : Matcher α) : Nat → Cursor → List (Token α)
  | 0, _ => []
  | fuel + 1, c =>
    match m.first c, c.rest with
    | some (a, _), [] => [.found a]
    | some (a, c'), x :: xs =>
      if c'.rest.length < c.rest.length then .found a :: tokensFuel m fuel c'
      else .found a :: .char x :: tokensFuel m fuel ⟨some x, xs⟩
    | none, [] => []
    | none, x :: xs => .char x :: tokensFuel m fuel ⟨some x, xs⟩

def tokens (m : Matcher α) (c : Cursor) : List (Token α) := tokensFuel m (c.rest.length + 1) c

/-- `text.matchAll(m)`. -/
def matchAll (m : Matcher α) (text : List Char) : List α :=
  (tokens m ⟨none, text⟩).filterMap Token.found?

/-- `text.replace(m, f)` for an expression with the global flag. -/
def replaceAll (m : Matcher α) (f : α → List Char) (text : List Char) : List Char :=
  (tokens m ⟨none, text⟩).flatMap (Token.replaced f)

/-- `text.match(m)` for an expression without it. -/
def search (m : Matcher α) (text : List Char) : Option α := (matchAll m text).head?

variable {m : Matcher α} {a : α} {c c' : Cursor} {prev : Option Char} {x : Char}
  {run rest text : List Char}

theorem tokensFuel_eq {fuel n : Nat} (h : c.rest.length < fuel) (h' : c.rest.length < n) :
    tokensFuel m fuel c = tokensFuel m n c := by
  induction fuel generalizing n c with
  | zero => omega
  | succ fuel ih =>
    obtain ⟨n, rfl⟩ : ∃ k, n = k + 1 := ⟨n - 1, by omega⟩
    obtain ⟨prev, rest⟩ := c
    cases rest with
    | nil => cases hm : m.first ⟨prev, []⟩ <;> simp [tokensFuel, hm]
    | cons x xs =>
      rw [List.length_cons] at h h'
      have hnext := ih (c := ⟨some x, xs⟩) (n := n) (by dsimp only; omega)
        (by dsimp only; omega)
      cases hm : m.first ⟨prev, x :: xs⟩ with
      | none => simp only [tokensFuel, hm, hnext]
      | some r =>
        obtain ⟨a, c'⟩ := r
        by_cases hlt : c'.rest.length < (x :: xs).length
        · rw [List.length_cons] at hlt
          simp only [tokensFuel, hm, List.length_cons, hlt, if_true,
            ih (c := c') (n := n) (by omega) (by omega)]
        · simp only [tokensFuel, hm, hlt, if_false, hnext]

theorem tokens_found (h : m.first c = some (a, c')) (hlt : c'.rest.length < c.rest.length) :
    tokens m c = .found a :: tokens m c' := by
  obtain ⟨prev, rest⟩ := c
  cases rest with
  | nil => exact absurd hlt (Nat.not_lt_zero _)
  | cons x xs =>
    rw [tokens, tokensFuel]
    simp only [h]
    rw [if_pos hlt, tokensFuel_eq hlt (Nat.lt_succ_self _), tokens]

theorem tokens_char {xs : List Char} (h : m ⟨prev, x :: xs⟩ = []) :
    tokens m ⟨prev, x :: xs⟩ = .char x :: tokens m ⟨some x, xs⟩ := by
  simp only [tokens, tokensFuel, first_eq_none.2 h, List.length_cons]

theorem tokens_nil (h : m ⟨prev, []⟩ = []) : tokens m ⟨prev, []⟩ = [] := by
  simp only [tokens, tokensFuel, first_eq_none.2 h]

/-- Where no match begins, the characters are read one by one. -/
theorem tokens_skip (h : ∀ a x b, run = a ++ x :: b → ∀ prev, m ⟨prev, x :: (b ++ rest)⟩ = []) :
    tokens m ⟨prev, run ++ rest⟩ =
      run.map .char ++ tokens m ⟨run.getLast?.or prev, rest⟩ := by
  induction run generalizing prev with
  | nil => rfl
  | cons x run ih =>
    have hrun : ∀ a y b, run = a ++ y :: b → ∀ prev, m ⟨prev, y :: (b ++ rest)⟩ = [] :=
      fun a y b hab => h (x :: a) y b (by rw [hab, List.cons_append])
    rw [List.cons_append, tokens_char (h [] x run rfl prev), ih hrun, List.map_cons,
      List.cons_append, List.getLast?_cons]
    cases run.getLast? <;> rfl

theorem tokens_run (h : ∀ x ∈ run, ∀ prev xs, m ⟨prev, x :: xs⟩ = []) :
    tokens m ⟨prev, run ++ rest⟩ =
      run.map .char ++ tokens m ⟨run.getLast?.or prev, rest⟩ :=
  tokens_skip fun a x b hab prev => h x (by simp [hab]) prev _

/-- The expression does not look at the character before it. -/
def Forward (m : Matcher α) : Prop := ∀ prev prev' cs, m ⟨prev, cs⟩ = m ⟨prev', cs⟩

theorem forward_bind_one {p : Char → Bool} (f : Char → Matcher α) : Forward (one p >>= f) :=
  fun _ prev' cs => bind_one_prev prev' cs

theorem Forward.tokens_eq (h : Forward m) (prev prev' : Option Char) :
    tokens m ⟨prev, rest⟩ = tokens m ⟨prev', rest⟩ := by
  have hfirst : m.first ⟨prev, rest⟩ = m.first ⟨prev', rest⟩ := congrArg List.head? (h ..)
  cases rest with
  | nil => simp only [tokens, tokensFuel, hfirst]
  | cons x xs => simp only [tokens, tokensFuel, hfirst]

@[simp]
theorem filterMap_chars (text : List Char) :
    (text.map (Token.char (α := α))).filterMap Token.found? = [] := by
  rw [List.filterMap_map]
  exact List.filterMap_eq_nil_iff.2 fun _ _ => rfl

@[simp]
theorem flatMap_chars (f : α → List Char) (text : List Char) :
    (text.map Token.char).flatMap (Token.replaced f) = text := by
  rw [List.flatMap_map]
  exact List.flatMap_singleton' text

/-- What is found is a match somewhere. -/
theorem exists_of_found {fuel : Nat} (h : .found a ∈ tokensFuel m fuel c) :
    ∃ c₁ c₂, (a, c₂) ∈ m c₁ := by
  induction fuel generalizing c with
  | zero => cases h
  | succ fuel ih =>
    obtain ⟨prev, rest⟩ := c
    cases hm : m.first ⟨prev, rest⟩ with
    | none =>
      cases rest with
      | nil => simp [tokensFuel, hm] at h
      | cons x xs =>
        rw [tokensFuel] at h
        simp only [hm, List.mem_cons, reduceCtorEq, false_or] at h
        exact ih h
    | some r =>
      obtain ⟨b, c'⟩ := r
      have hb : (b, c') ∈ m ⟨prev, rest⟩ := List.mem_of_mem_head? hm
      cases rest with
      | nil =>
        simp only [tokensFuel, hm, List.mem_singleton, Token.found.injEq] at h
        exact ⟨_, _, h ▸ hb⟩
      | cons x xs =>
        rw [tokensFuel] at h
        simp only [hm] at h
        split at h
        · simp only [List.mem_cons, Token.found.injEq] at h
          rcases h with rfl | h
          · exact ⟨_, _, hb⟩
          · exact ih h
        · simp only [List.mem_cons, Token.found.injEq, reduceCtorEq, false_or] at h
          rcases h with rfl | h
          · exact ⟨_, _, hb⟩
          · exact ih h

theorem exists_of_mem_matchAll (h : a ∈ matchAll m text) : ∃ c₁ c₂, (a, c₂) ∈ m c₁ := by
  obtain ⟨t, ht, hfound⟩ := List.mem_filterMap.1 h
  cases t with
  | char x => cases hfound
  | found b =>
    cases hfound
    exact exists_of_found ht

/-- A text without matches is read character by character. -/
theorem tokens_of_none (h : (tokens m ⟨prev, text⟩).filterMap Token.found? = []) :
    tokens m ⟨prev, text⟩ = text.map .char := by
  induction text generalizing prev with
  | nil =>
    cases hm : m ⟨prev, []⟩ with
    | nil => exact tokens_nil hm
    | cons r rs =>
      have hfirst : m.first ⟨prev, []⟩ = some (r.1, r.2) := by rw [first, hm, List.head?_cons]
      simp [tokens, tokensFuel, hfirst, Token.found?] at h
  | cons x xs ih =>
    cases hm : m ⟨prev, x :: xs⟩ with
    | nil =>
      rw [tokens_char hm] at h ⊢
      rw [ih h, List.map_cons]
    | cons r rs =>
      have hfirst : m.first ⟨prev, x :: xs⟩ = some (r.1, r.2) := by rw [first, hm, List.head?_cons]
      rw [tokens, tokensFuel] at h
      simp only [hfirst] at h
      split at h
      · cases h
      · cases h

theorem replaceAll_of_none {f : α → List Char} (h : matchAll m text = []) :
    replaceAll m f text = text := by
  rw [replaceAll, tokens_of_none h, flatMap_chars]

/-- What matches at the beginning of a text is found. -/
theorem search_ne_none (h : m ⟨none, text⟩ ≠ []) : search m text ≠ none := by
  obtain ⟨r, rs, hr⟩ := List.exists_cons_of_ne_nil h
  have hfirst : m.first ⟨none, text⟩ = some (r.1, r.2) := by rw [first, hr, List.head?_cons]
  rw [search, matchAll, tokens, tokensFuel]
  cases text with
  | nil => simp [hfirst, Token.found?]
  | cons x xs =>
    simp only [hfirst]
    split_ifs
    · simp [Token.found?]
    · simp [Token.found?]

/-- A text in which no match can begin. -/
theorem matchAll_eq_nil (h : ∀ x ∈ text, ∀ prev xs, m ⟨prev, x :: xs⟩ = [])
    (hnil : ∀ prev, m ⟨prev, []⟩ = []) : matchAll m text = [] := by
  have htokens : tokens m ⟨none, text ++ []⟩ = text.map .char := by
    rw [tokens_run h, tokens_nil (hnil _), List.append_nil]
  rw [List.append_nil] at htokens
  rw [matchAll, htokens, filterMap_chars]

/-! ## Replacing a word -/

section Word

variable {w cs : List Char} {f : Unit → List Char}

theorem forward_word {same : Char → Char → Bool} (hw : w ≠ []) : Forward (word same w) := by
  cases w with
  | nil => exact absurd rfl hw
  | cons x w => exact forward_bind_one _

theorem replaceAll_word_nil (hw : w ≠ []) : replaceAll (word (· == ·) w) f [] = [] := by
  have hnot : ¬ w <+: [] := fun h => hw (List.prefix_nil.1 h)
  rw [replaceAll, tokens_nil (word_eq_nil hnot), List.flatMap_nil]

theorem replaceAll_word_append (hw : w ≠ []) :
    replaceAll (word (· == ·) w) f (w ++ rest) = f () ++ replaceAll (word (· == ·) w) f rest := by
  have hfirst : (word (· == ·) w).first ⟨none, w ++ rest⟩ =
      some ((), ⟨w.getLast?.or none, rest⟩) := by
    rw [first, word_apply (fun x => beq_self_eq_true x), List.head?_cons]
  have hlt : rest.length < (w ++ rest).length := by
    have hpos := List.length_pos_of_ne_nil hw
    rw [List.length_append]
    omega
  rw [replaceAll, tokens_found hfirst hlt, List.flatMap_cons,
    (forward_word hw).tokens_eq _ none, ← replaceAll]
  rfl

theorem replaceAll_word_cons (hw : w ≠ []) (h : ¬ w <+: x :: cs) :
    replaceAll (word (· == ·) w) f (x :: cs) = x :: replaceAll (word (· == ·) w) f cs := by
  rw [replaceAll, tokens_char (word_eq_nil h), List.flatMap_cons,
    (forward_word hw).tokens_eq _ none, ← replaceAll]
  rfl

end Word

end Tokens

end LanguageLlm.Lib
