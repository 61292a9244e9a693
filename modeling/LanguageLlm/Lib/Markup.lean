import LanguageLlm.Lib.Regex

/-!
# Texts with tags

A tree of elements and the text that it is written as. Two expressions find elements in such a
text without parsing it:

* `simpleElement`, `<name>([^<]*)</name>`, finds the elements without attributes that hold nothing
  but characters (`matchAll_simpleElement`);
* `wholeElement`, `<name[\s>][\s\S]*?</name>`, finds the elements, as long as none of them stands in
  another (`matchAll_wholeElement`).
-/

namespace LanguageLlm.Lib

/-- Nodes in a row: characters, an element with its children, an element that ends with its tag, and
what else may stand in angle brackets. -/
inductive Markup where
  | nil
  | text (cs : List Char) (rest : Markup)
  | element (name attrs : List Char) (children rest : Markup)
  | empty (name attrs : List Char) (rest : Markup)
  | note (body : List Char) (rest : Markup)

/-- What a name cannot hold. -/
def endsName (space : Char → Bool) (c : Char) : Bool :=
  space c || ['<', '>', '/', '!', '?'].contains c

structure IsName (space : Char → Bool) (name : List Char) : Prop where
  ne_nil : name ≠ []
  inside : ∀ c ∈ name, endsName space c = false

/-- Attributes, with the space before them. -/
structure IsAttrs (space : Char → Bool) (attrs : List Char) : Prop where
  start : ∀ c ∈ attrs.head?, space c = true
  not_mem : '<' ∉ attrs

namespace Markup

def write : Markup → List Char
  | nil => []
  | text cs rest => cs ++ rest.write
  | element name attrs children rest =>
    '<' :: (name ++ (attrs ++ '>' :: (children.write ++
      '<' :: '/' :: (name ++ '>' :: rest.write))))
  | empty name attrs rest => '<' :: (name ++ (attrs ++ '/' :: '>' :: rest.write))
  | note body rest => '<' :: (body ++ '>' :: rest.write)

/-- A comment, a declaration or an instruction. -/
structure IsNote (body : List Char) : Prop where
  start : body.head? = some '!' ∨ body.head? = some '?'
  not_mem : '<' ∉ body

def WellFormed (space : Char → Bool) : Markup → Prop
  | nil => True
  | text cs rest => '<' ∉ cs ∧ rest.WellFormed space
  | element name attrs children rest =>
    IsName space name ∧ IsAttrs space attrs ∧ children.WellFormed space ∧ rest.WellFormed space
  | empty name attrs rest => IsName space name ∧ IsAttrs space attrs ∧ rest.WellFormed space
  | note body rest => IsNote body ∧ rest.WellFormed space

/-- The characters of nodes that are nothing else. -/
def plain? : Markup → Option (List Char)
  | nil => some []
  | text cs rest => rest.plain?.map (cs ++ ·)
  | element .. | empty .. | note .. => none

/-- The contents of the elements of a name that have no attributes and hold characters only, in the
order of the text. -/
def contents (name : List Char) : Markup → List (List Char)
  | nil => []
  | text _ rest | empty _ _ rest | note _ rest => rest.contents name
  | element name' attrs children rest =>
    (if name' = name ∧ attrs = [] then children.plain?.toList else []) ++
      (children.contents name ++ rest.contents name)

/-- The elements of a name that are not part of another one of it. -/
def elements (name : List Char) : Markup → List Markup
  | nil => []
  | text _ rest | empty _ _ rest | note _ rest => rest.elements name
  | element name' attrs children rest =>
    (if name' = name then [element name attrs children nil] else children.elements name) ++
      rest.elements name

/-- No element of the name is part of another, and none ends with its tag. -/
def Flat (name : List Char) : Markup → Prop
  | nil => True
  | text _ rest | note _ rest => rest.Flat name
  | empty name' _ rest => name' ≠ name ∧ rest.Flat name
  | element name' _ children rest =>
    (name' = name → children.elements name = []) ∧ children.Flat name ∧ rest.Flat name

section Decidable

variable (space : Char → Bool)

instance (name : List Char) : Decidable (IsName space name) :=
  decidable_of_iff (name ≠ [] ∧ name.any (endsName space) = false)
    ⟨fun h => ⟨h.1, by simpa using h.2⟩, fun h => ⟨h.ne_nil, by simpa using h.inside⟩⟩

instance (attrs : List Char) : Decidable (IsAttrs space attrs) :=
  decidable_of_iff (attrs.head?.all space = true ∧ '<' ∉ attrs)
    ⟨fun h => ⟨(Option.all_eq_true ..).1 h.1, h.2⟩,
      fun h => ⟨(Option.all_eq_true ..).2 h.start, h.not_mem⟩⟩

instance (body : List Char) : Decidable (IsNote body) :=
  decidable_of_iff ((body.head? = some '!' ∨ body.head? = some '?') ∧ '<' ∉ body)
    ⟨fun h => ⟨h.1, h.2⟩, fun h => ⟨h.start, h.not_mem⟩⟩

instance decidableWellFormed : (m : Markup) → Decidable (m.WellFormed space)
  | nil => .isTrue trivial
  | text _ rest =>
    have := decidableWellFormed rest
    inferInstanceAs (Decidable (_ ∧ _))
  | element _ _ children rest =>
    have := decidableWellFormed children
    have := decidableWellFormed rest
    inferInstanceAs (Decidable (_ ∧ _ ∧ _ ∧ _))
  | empty _ _ rest =>
    have := decidableWellFormed rest
    inferInstanceAs (Decidable (_ ∧ _ ∧ _))
  | note _ rest =>
    have := decidableWellFormed rest
    inferInstanceAs (Decidable (_ ∧ _))

instance decidableFlat (name : List Char) : (m : Markup) → Decidable (m.Flat name)
  | nil => .isTrue trivial
  | text _ rest => decidableFlat name rest
  | note _ rest => decidableFlat name rest
  | empty _ _ rest =>
    have := decidableFlat name rest
    inferInstanceAs (Decidable (_ ∧ _))
  | element _ _ children rest =>
    have := decidableFlat name children
    have := decidableFlat name rest
    inferInstanceAs (Decidable ((_ → _ = []) ∧ _ ∧ _))

end Decidable

/-- Nodes that are added in front of others. -/
theorem contents_foldr {α : Type} {name : List Char} {f : α → Markup → Markup}
    {g : α → List (List Char)} (h : ∀ a rest, (f a rest).contents name = g a ++ rest.contents name)
    (l : List α) (rest : Markup) :
    (l.foldr f rest).contents name = l.flatMap g ++ rest.contents name := by
  induction l with
  | nil => rfl
  | cons a l ih => rw [List.foldr_cons, h, ih, List.flatMap_cons, List.append_assoc]

end Markup

/-! ## Two expressions -/

open Matcher

/-- `<name>([^<]*)</name>`. -/
def simpleElement (name : List Char) : Matcher (List Char) := do
  let _ ← word (· == ·) ('<' :: (name ++ ['>']))
  let content ← greedy (· != '<') 0 none
  let _ ← word (· == ·) ('<' :: '/' :: (name ++ ['>']))
  pure content

/-- `<name[\s>][\s\S]*?</name>`, with the text that it matches. -/
def wholeElement (space : Char → Bool) (name : List Char) : Matcher (List Char) := do
  let _ ← word (· == ·) ('<' :: name)
  let c ← one fun c => space c || c == '>'
  let inner ← lazy (fun _ => true) 0 none
  let _ ← word (· == ·) ('<' :: '/' :: (name ++ ['>']))
  pure ('<' :: (name ++ c :: (inner ++ '<' :: '/' :: (name ++ ['>']))))

/-! ## Searching for what begins with a character -/

section Starts

variable {α β : Type} {m : Matcher α} {x : Char} {prev : Option Char} {cs run rest : List Char}

/-- A match begins with this character. -/
structure StartsWith (x : Char) (m : Matcher α) : Prop where
  forward : Forward m
  neg : ∀ prev y ys, y ≠ x → m ⟨prev, y :: ys⟩ = []
  nil : ∀ prev, m ⟨prev, []⟩ = []

theorem bind_of_nil {f : α → Matcher β} {c : Cursor} (h : m c = []) : (m >>= f) c = [] := by
  rw [bind_apply, h, List.flatMap_nil]

theorem startsWith_word (w : List Char) (f : Unit → Matcher β) :
    StartsWith x (word (· == ·) (x :: w) >>= f) := by
  rw [bind_word_cons]
  refine ⟨forward_bind_one _, fun prev y ys hne => ?_, fun _ => rfl⟩
  exact bind_one_neg (beq_eq_false_iff_ne.2 hne.symm)

namespace StartsWith

variable (h : StartsWith x m)

include h

theorem matchAll_nil : matchAll m [] = [] := by
  rw [matchAll, tokens_nil (h.nil none), List.filterMap_nil]

theorem matchAll_cons {y : Char} (hnil : m ⟨none, y :: cs⟩ = []) :
    matchAll m (y :: cs) = matchAll m cs := by
  rw [matchAll, tokens_char hnil, h.forward.tokens_eq _ none]
  rfl

theorem matchAll_skip (hrun : x ∉ run) : matchAll m (run ++ rest) = matchAll m rest := by
  induction run with
  | nil => rfl
  | cons y run ih =>
    have hy : x ≠ y := List.ne_of_not_mem_cons hrun
    rw [List.cons_append, h.matchAll_cons (h.neg none y _ hy.symm),
      ih (List.not_mem_of_not_mem_cons hrun)]

theorem matchAll_found {a : α} {c : Cursor} (hfirst : m.first ⟨none, cs⟩ = some (a, c))
    (hlt : c.rest.length < cs.length) : matchAll m cs = a :: matchAll m c.rest := by
  rw [matchAll, tokens_found hfirst hlt, List.filterMap_cons,
    h.forward.tokens_eq c.prev none]
  rfl

end StartsWith

end Starts

/-! ## Names -/

section Names

variable {space : Char → Bool} {name name' attrs more u v : List Char} {c d : Char}

theorem endsName_of_space (h : space c = true) : endsName space c = true := by
  rw [endsName, h, Bool.true_or]

theorem endsName_of_mem (h : c ∈ ['<', '>', '/', '!', '?']) : endsName space c = true := by
  rw [endsName, List.contains_iff_mem.2 h, Bool.or_true]

theorem name_cons_eq (hname : ∀ x ∈ name, endsName space x = false)
    (hname' : ∀ x ∈ name', endsName space x = false) (hc : endsName space c = true)
    (hd : endsName space d = true) (h : name ++ c :: u = name' ++ d :: v) :
    name = name' ∧ c = d ∧ u = v := by
  induction name generalizing name' with
  | nil =>
    cases name' with
    | nil => exact ⟨rfl, List.cons.inj h⟩
    | cons x name' =>
      obtain ⟨rfl, -⟩ := List.cons.inj h
      rw [hname' c List.mem_cons_self] at hc
      cases hc
  | cons x name ih =>
    cases name' with
    | nil =>
      obtain ⟨rfl, -⟩ := List.cons.inj h
      rw [hname x List.mem_cons_self] at hd
      cases hd
    | cons y name' =>
      rw [List.cons_append, List.cons_append] at h
      obtain ⟨rfl, hbehind⟩ := List.cons.inj h
      obtain ⟨rfl, hrest⟩ :=
        ih (List.forall_mem_cons.1 hname).2 (List.forall_mem_cons.1 hname').2 hbehind
      exact ⟨rfl, hrest⟩

theorem IsName.not_mem (h : IsName space name) (hc : endsName space c = true) : c ∉ name := by
  intro hmem
  rw [h.inside c hmem] at hc
  cases hc

/-- No name stands before what ends one. -/
theorem IsName.not_prefix (h : IsName space name) (hd : endsName space d = true) :
    ¬ name ++ u <+: d :: v := by
  obtain ⟨x, name, rfl⟩ := List.exists_cons_of_ne_nil h.ne_nil
  intro hstarts
  obtain ⟨rfl, -⟩ := List.cons_prefix_cons.1 hstarts
  exact h.not_mem hd List.mem_cons_self

/-- A name is read up to its attributes or the end of its tag. -/
theorem IsName.opening (h : IsName space name) (h' : IsName space name') (ha : IsAttrs space attrs)
    (hc : endsName space c = true) (hd : endsName space d = true)
    (hstarts : name ++ [c] <+: name' ++ (attrs ++ d :: more)) :
    name = name' ∧ (attrs = [] ∧ c = d ∨ space c = true) := by
  obtain ⟨rest, hrest⟩ := hstarts
  rw [List.append_assoc, List.singleton_append] at hrest
  cases attrs with
  | nil =>
    obtain ⟨rfl, rfl, -⟩ := name_cons_eq h.inside h'.inside hc hd hrest
    exact ⟨rfl, Or.inl ⟨rfl, rfl⟩⟩
  | cons a attrs =>
    have hspace : space a = true := ha.start a rfl
    obtain ⟨rfl, rfl, -⟩ := name_cons_eq h.inside h'.inside hc (endsName_of_space hspace) hrest
    exact ⟨rfl, Or.inr hspace⟩

end Names

/-! ## Elements of characters -/

section Simple

variable {space : Char → Bool} {name name' attrs content pre run more rest tail cs : List Char}
  {c : Char} {prev : Option Char} {m : Markup}

theorem startsWith_simpleElement (name : List Char) : StartsWith '<' (simpleElement name) :=
  startsWith_word _ _

theorem simpleElement_eq_nil (h : ¬ name ++ ['>'] <+: cs) :
    simpleElement name ⟨prev, '<' :: cs⟩ = [] :=
  bind_of_nil (word_eq_nil fun hstarts => h (List.cons_prefix_cons.1 hstarts).2)

/-- Behind the opening tag come the characters up to the next tag. -/
theorem simpleElement_opened (hpre : '<' ∉ pre) :
    simpleElement name ⟨prev, '<' :: (name ++ '>' :: (pre ++ '<' :: more))⟩ =
      (do
        let _ ← word (· == ·) ('<' :: '/' :: (name ++ ['>']))
        pure pre : Matcher (List Char)) ⟨pre.getLast?.or (some '>'), '<' :: more⟩ := by
  have hopen : '<' :: (name ++ '>' :: (pre ++ '<' :: more)) =
      ('<' :: (name ++ ['>'])) ++ (pre ++ '<' :: more) := by simp
  have hlast : ('<' :: (name ++ ['>'])).getLast? = some '>' := by simp [List.getLast?_cons]
  rw [hopen, simpleElement, bind_word fun x => beq_self_eq_true x, hlast, Option.some_or,
    bind_greedy]
  · rw [fits_none, if_pos rfl]
  · intro x hx
    rw [bne_iff_ne]
    rintro rfl
    exact hpre hx
  · intro x hx
    obtain rfl := Option.some.inj hx
    rfl
  · intro a prev x xs hx
    rw [bne_iff_ne] at hx
    exact bind_word_neg (beq_eq_false_iff_ne.2 hx.symm)

theorem simpleElement_found (hcontent : '<' ∉ content) :
    simpleElement name
        ⟨prev, '<' :: (name ++ '>' :: (content ++ '<' :: '/' :: (name ++ '>' :: rest)))⟩ =
      [(content, ⟨some '>', rest⟩)] := by
  have hclose : '<' :: '/' :: (name ++ '>' :: rest) =
      ('<' :: '/' :: (name ++ ['>'])) ++ rest := by simp
  have hlast : ('<' :: '/' :: (name ++ ['>'])).getLast? = some '>' := by simp [List.getLast?_cons]
  rw [simpleElement_opened hcontent, hclose, bind_word fun x => beq_self_eq_true x, hlast]
  rfl

theorem simpleElement_of_tag (hpre : '<' ∉ pre) (hc : c ≠ '/') :
    simpleElement name ⟨prev, '<' :: (name ++ '>' :: (pre ++ '<' :: c :: more))⟩ = [] := by
  rw [simpleElement_opened hpre]
  refine bind_of_nil (word_eq_nil fun hstarts => hc ?_)
  exact (List.cons_prefix_cons.1 (List.cons_prefix_cons.1 hstarts).2).1.symm

namespace Markup

theorem plain?_spec (name : List Char) (hm : m.WellFormed space) :
    (∀ cs, m.plain? = some cs → m.write = cs ∧ '<' ∉ cs ∧ m.contents name = []) ∧
      (m.plain? = none →
        ∃ pre c more, m.write = pre ++ '<' :: c :: more ∧ '<' ∉ pre ∧ c ≠ '/') := by
  induction m with
  | nil => exact ⟨fun cs h => Option.some.inj h ▸ ⟨rfl, List.not_mem_nil, rfl⟩, nofun⟩
  | text cs rest ih =>
    obtain ⟨hcs, hrest⟩ := hm
    obtain ⟨hsome, hnone⟩ := ih hrest
    constructor
    · intro all h
      obtain ⟨behind, hbehind, rfl⟩ := Option.map_eq_some_iff.1 h
      obtain ⟨hwrite, hlt, hcontents⟩ := hsome behind hbehind
      refine ⟨?_, ?_, hcontents⟩
      · rw [write, hwrite]
      · rw [List.mem_append, not_or]
        exact ⟨hcs, hlt⟩
    · intro h
      obtain ⟨pre, c, more, hwrite, hpre, hc⟩ := hnone (Option.map_eq_none_iff.1 h)
      refine ⟨cs ++ pre, c, more, ?_, ?_, hc⟩
      · rw [write, hwrite, List.append_assoc]
      · rw [List.mem_append, not_or]
        exact ⟨hcs, hpre⟩
  | element name' attrs children rest =>
    refine ⟨nofun, fun _ => ?_⟩
    obtain ⟨x, name', rfl⟩ := List.exists_cons_of_ne_nil hm.1.ne_nil
    refine ⟨[], x, _, rfl, List.not_mem_nil, ?_⟩
    rintro rfl
    exact hm.1.not_mem (by simp [endsName]) List.mem_cons_self
  | empty name' attrs rest =>
    refine ⟨nofun, fun _ => ?_⟩
    obtain ⟨x, name', rfl⟩ := List.exists_cons_of_ne_nil hm.1.ne_nil
    refine ⟨[], x, _, rfl, List.not_mem_nil, ?_⟩
    rintro rfl
    exact hm.1.not_mem (by simp [endsName]) List.mem_cons_self
  | note body rest =>
    refine ⟨nofun, fun _ => ?_⟩
    obtain ⟨x, body, rfl⟩ : ∃ x body', body = x :: body' := by
      cases body with
      | nil => rcases hm.1.start with h | h <;> cases h
      | cons x body => exact ⟨x, body, rfl⟩
    refine ⟨[], x, _, rfl, List.not_mem_nil, ?_⟩
    rintro rfl
    rcases hm.1.start with h | h <;> cases h

/-- A tag that does not open an element of the name is skipped. -/
theorem matchAll_simpleElement_tag (hrun : '<' ∉ run) (h : ¬ name ++ ['>'] <+: run ++ cs) :
    matchAll (simpleElement name) ('<' :: (run ++ cs)) = matchAll (simpleElement name) cs := by
  have hstart := startsWith_simpleElement name
  rw [hstart.matchAll_cons (simpleElement_eq_nil h), hstart.matchAll_skip hrun]

theorem not_mem_tag (hname : IsName space name) (hattrs : IsAttrs space attrs) (hpre : '<' ∉ pre) :
    '<' ∉ name ++ (attrs ++ pre) := by
  simp [hname.not_mem (endsName_of_mem (show '<' ∈ _ by decide)), hattrs.not_mem, hpre]

theorem IsNote.cons (h : IsNote cs) : ∃ c rest, cs = c :: rest ∧ (c = '!' ∨ c = '?') := by
  cases cs with
  | nil => rcases h.start with h | h <;> cases h
  | cons c rest => exact ⟨c, rest, rfl, h.start.imp Option.some.inj Option.some.inj⟩

/-- The element is found if it has no attributes and holds characters only; else the search goes on
inside of it. -/
theorem matchAll_simpleElement_open (hgt : space '>' = false) (hname : IsName space name)
    (hname' : IsName space name') (hattrs : IsAttrs space attrs) (hm : m.WellFormed space)
    (hchildren : ∀ tail, matchAll (simpleElement name) (m.write ++ tail) =
      m.contents name ++ matchAll (simpleElement name) tail)
    (hclose : matchAll (simpleElement name) ('<' :: '/' :: (name' ++ '>' :: rest)) =
      matchAll (simpleElement name) rest) :
    matchAll (simpleElement name)
        ('<' :: (name' ++ (attrs ++ '>' :: (m.write ++ '<' :: '/' :: (name' ++ '>' :: rest))))) =
      (if name' = name ∧ attrs = [] then m.plain?.toList else []) ++
        (m.contents name ++ matchAll (simpleElement name) rest) := by
  have hstart := startsWith_simpleElement name
  obtain ⟨hsome, hnone⟩ := plain?_spec name hm
  have hinside : ∀ {run : List Char}, '<' ∉ run →
      simpleElement name
        ⟨none, '<' :: (run ++ (m.write ++ '<' :: '/' :: (name' ++ '>' :: rest)))⟩ = [] →
      matchAll (simpleElement name)
          ('<' :: (run ++ (m.write ++ '<' :: '/' :: (name' ++ '>' :: rest)))) =
        m.contents name ++ matchAll (simpleElement name) rest := by
    intro run hrun hnil
    rw [hstart.matchAll_cons hnil, hstart.matchAll_skip hrun, hchildren, hclose]
  by_cases hthis : name' = name ∧ attrs = []
  · obtain ⟨rfl, rfl⟩ := hthis
    rw [if_pos ⟨rfl, rfl⟩, List.nil_append]
    cases hplain : m.plain? with
    | some content =>
      obtain ⟨rfl, hlt, hcontents⟩ := hsome content hplain
      have hfirst : (simpleElement name').first
          ⟨none, '<' :: (name' ++ '>' :: (m.write ++ '<' :: '/' :: (name' ++ '>' :: rest)))⟩ =
            some (m.write, ⟨some '>', rest⟩) := by
        rw [first, simpleElement_found hlt, List.head?_cons]
      rw [hstart.matchAll_found hfirst, hcontents]
      · rfl
      · simp only [List.length_cons, List.length_append]
        omega
    | none =>
      obtain ⟨pre, c, more, hpre, hlt, hc⟩ := hnone hplain
      have htag : '<' ∉ name' ++ ['>'] := by
        simp [hname.not_mem (endsName_of_mem (show '<' ∈ _ by decide))]
      have hopen := hinside htag (by
        rw [hpre]
        simpa using simpleElement_of_tag hlt hc)
      simpa using hopen
  · rw [if_neg hthis, List.nil_append]
    have htag : '<' ∉ name' ++ (attrs ++ ['>']) := not_mem_tag hname' hattrs (by decide)
    have hopen := hinside htag (by
      refine simpleElement_eq_nil fun h => hthis ?_
      have h' : name ++ ['>'] <+:
          name' ++ (attrs ++ '>' :: (m.write ++ '<' :: '/' :: (name' ++ '>' :: rest))) := by
        simpa using h
      obtain ⟨rfl, ⟨rfl, -⟩ | hspace⟩ := hname.opening hname' hattrs
        (endsName_of_mem (by decide)) (endsName_of_mem (by decide)) h'
      · exact ⟨rfl, rfl⟩
      · rw [hgt] at hspace
        cases hspace)
    simpa using hopen

/-- The elements of characters are found, whatever text follows. -/
theorem matchAll_simpleElement (hgt : space '>' = false) (hname : IsName space name)
    (hm : m.WellFormed space) :
    matchAll (simpleElement name) (m.write ++ tail) =
      m.contents name ++ matchAll (simpleElement name) tail := by
  have hstart := startsWith_simpleElement name
  induction m generalizing tail with
  | nil => rfl
  | text cs rest ih =>
    rw [write, List.append_assoc, hstart.matchAll_skip hm.1, ih hm.2, contents]
  | empty name' attrs rest ih =>
    obtain ⟨hname', hattrs, hrest⟩ := hm
    have hstarts : ¬ name ++ ['>'] <+: name' ++ (attrs ++ '/' :: '>' :: (rest.write ++ tail)) := by
      intro h
      obtain ⟨-, ⟨-, hslash⟩ | hspace⟩ := hname.opening hname' hattrs
        (endsName_of_mem (by decide)) (endsName_of_mem (by decide)) h
      · cases hslash
      · rw [hgt] at hspace
        cases hspace
    have htag : matchAll (simpleElement name)
        ('<' :: ((name' ++ (attrs ++ ['/', '>'])) ++ (rest.write ++ tail))) = _ :=
      matchAll_simpleElement_tag (not_mem_tag hname' hattrs (by decide)) (by simpa using hstarts)
    rw [contents, ← ih hrest, ← htag]
    simp [write]
  | note body rest ih =>
    obtain ⟨hbody, hrest⟩ := hm
    have hstarts : ¬ name ++ ['>'] <+: (body ++ ['>']) ++ (rest.write ++ tail) := by
      obtain ⟨c, inner, rfl, hc⟩ := hbody.cons
      refine hname.not_prefix (endsName_of_mem ?_)
      rcases hc with rfl | rfl
      · decide
      · decide
    have htag := matchAll_simpleElement_tag (by simp [hbody.not_mem]) hstarts
    rw [contents, ← ih hrest, ← htag]
    simp [write]
  | element name' attrs children rest ihchildren ihrest =>
    obtain ⟨hname', hattrs, hchildren, hrest⟩ := hm
    have hstarts : ¬ name ++ ['>'] <+: ('/' :: (name' ++ ['>'])) ++ (rest.write ++ tail) :=
      hname.not_prefix (endsName_of_mem (by decide))
    have hlt : '<' ∉ name' := hname'.not_mem (endsName_of_mem (by decide))
    have hclose := matchAll_simpleElement_tag (by simp [hlt]) hstarts
    have hopen := matchAll_simpleElement_open hgt hname hname' hattrs hchildren
      (fun _ => ihchildren hchildren) (by simpa using hclose)
    rw [contents, List.append_assoc, List.append_assoc, ← ihrest hrest, ← hopen]
    simp [write]

end Markup

end Simple

/-! ## Whole elements -/

section Whole

variable {space : Char → Bool} {name name' attrs run rest tail cs ds w : List Char} {c : Char}
  {prev : Option Char} {m : Markup}

/-- The word begins nowhere in the text, whatever it would reach of the tail. -/
def Avoids (w cs tail : List Char) : Prop := ∀ a b, cs = a ++ b → b ≠ [] → ¬ w <+: b ++ tail

theorem Avoids.append (hcs : Avoids w cs (ds ++ tail)) (hds : Avoids w ds tail) :
    Avoids w (cs ++ ds) tail := by
  intro a b heq hb
  rcases List.append_eq_append_iff.1 heq with ⟨a', rfl, rfl⟩ | ⟨c, rfl, rfl⟩
  · exact hds a' b rfl hb
  · rw [List.append_assoc]
    cases c with
    | nil => exact hds [] ds rfl hb
    | cons x c => exact hcs a (x :: c) rfl nofun

theorem avoids_of_not_mem (h : '<' ∉ cs) : Avoids ('<' :: w) cs tail := by
  rintro a b rfl hb hstarts
  obtain ⟨x, b, rfl⟩ := List.exists_cons_of_ne_nil hb
  obtain ⟨rfl, -⟩ := List.cons_prefix_cons.1 hstarts
  exact h (List.mem_append_right _ List.mem_cons_self)

theorem avoids_tag (hrun : '<' ∉ run) (h : ¬ w <+: run ++ tail) :
    Avoids ('<' :: w) ('<' :: run) tail := by
  have hfirst : Avoids ('<' :: w) ['<'] (run ++ tail) := by
    intro a b heq hb hstarts
    have hb' : b = ['<'] := by
      cases a with
      | nil => exact heq.symm
      | cons x a =>
        have hnil := (List.cons.inj heq).2
        exact absurd (List.append_eq_nil_iff.1 hnil.symm).2 hb
    subst hb'
    exact h (List.cons_prefix_cons.1 hstarts).2
  exact hfirst.append (avoids_of_not_mem hrun)

/-- The text of nodes without an element of the name has no closing tag of it. -/
theorem Markup.avoids_write (hname : IsName space name) (hm : m.WellFormed space)
    (hnone : m.elements name = []) : Avoids ('<' :: '/' :: (name ++ ['>'])) m.write tail := by
  have hslash : ∀ {c : Char} {u v : List Char}, c ≠ '/' → ¬ '/' :: u <+: c :: v := fun hc h =>
    hc (List.cons_prefix_cons.1 h).1.symm
  have hopening : ∀ {name' v : List Char}, IsName space name' →
      ¬ '/' :: (name ++ ['>']) <+: name' ++ v := by
    intro name' v hname'
    obtain ⟨x, name', rfl⟩ := List.exists_cons_of_ne_nil hname'.ne_nil
    rw [List.cons_append]
    refine hslash ?_
    rintro rfl
    exact hname'.not_mem (endsName_of_mem (by decide)) List.mem_cons_self
  induction m generalizing tail with
  | nil =>
    intro a b heq hb
    exact absurd (List.append_eq_nil_iff.1 heq.symm).2 hb
  | text cs rest ih => exact (avoids_of_not_mem hm.1).append (ih hm.2 hnone)
  | empty name' attrs rest ih =>
    obtain ⟨hname', hattrs, hrest⟩ := hm
    have htag : Avoids ('<' :: '/' :: (name ++ ['>'])) ('<' :: (name' ++ (attrs ++ ['/', '>'])))
        (rest.write ++ tail) := by
      refine avoids_tag (not_mem_tag hname' hattrs (by decide)) ?_
      rw [List.append_assoc]
      exact hopening hname'
    have hall := htag.append (ih hrest hnone)
    simpa [write] using hall
  | note body rest ih =>
    obtain ⟨hbody, hrest⟩ := hm
    have htag : Avoids ('<' :: '/' :: (name ++ ['>'])) ('<' :: (body ++ ['>']))
        (rest.write ++ tail) := by
      refine avoids_tag (by simp [hbody.not_mem]) ?_
      obtain ⟨c, inner, rfl, hc⟩ := hbody.cons
      refine hslash ?_
      rcases hc with rfl | rfl
      · decide
      · decide
    have hall := htag.append (ih hrest hnone)
    simpa [write] using hall
  | element name' attrs children rest ihchildren ihrest =>
    obtain ⟨hname', hattrs, hchildren, hrest⟩ := hm
    obtain ⟨hthis, hrestNone⟩ := List.append_eq_nil_iff.1 hnone
    have hne : name' ≠ name := by
      rintro rfl
      rw [if_pos rfl] at hthis
      cases hthis
    rw [if_neg hne] at hthis
    have hopen : Avoids ('<' :: '/' :: (name ++ ['>'])) ('<' :: (name' ++ (attrs ++ ['>'])))
        ((children.write ++ ('<' :: '/' :: (name' ++ ['>']) ++ rest.write)) ++ tail) := by
      refine avoids_tag (not_mem_tag hname' hattrs (by decide)) ?_
      rw [List.append_assoc]
      exact hopening hname'
    have hclose : Avoids ('<' :: '/' :: (name ++ ['>'])) ('<' :: '/' :: (name' ++ ['>']))
        (rest.write ++ tail) := by
      have hlt : '<' ∉ name' := hname'.not_mem (endsName_of_mem (by decide))
      refine avoids_tag (by simp [hlt]) fun hstarts => hne ?_
      obtain ⟨behind, heq⟩ := (List.cons_prefix_cons.1 hstarts).2
      have heq' : name ++ '>' :: behind = name' ++ '>' :: (rest.write ++ tail) := by
        simpa using heq
      exact (name_cons_eq hname.inside hname'.inside (endsName_of_mem (by decide))
        (endsName_of_mem (by decide)) heq').1.symm
    have hall := hopen.append
      ((ihchildren hchildren hthis).append (hclose.append (ihrest hrest hrestNone)))
    simpa [write] using hall

theorem startsWith_wholeElement : StartsWith '<' (wholeElement space name) := startsWith_word _ _

theorem wholeElement_eq_nil
    (h : ∀ c, space c = true ∨ c = '>' → ¬ name ++ [c] <+: cs) :
    wholeElement space name ⟨prev, '<' :: cs⟩ = [] := by
  by_cases hname : name <+: cs
  · obtain ⟨behind, rfl⟩ := hname
    have htext : '<' :: (name ++ behind) = ('<' :: name) ++ behind := rfl
    rw [wholeElement, htext, bind_word fun x => beq_self_eq_true x]
    cases behind with
    | nil => rfl
    | cons c behind =>
      refine bind_one_neg (Bool.eq_false_iff.2 fun hc => ?_)
      rw [Bool.or_eq_true, beq_iff_eq] at hc
      exact h c hc ⟨behind, by rw [List.append_assoc, List.singleton_append]⟩
  · exact bind_of_nil (word_eq_nil fun hstarts => hname (List.cons_prefix_cons.1 hstarts).2)

/-- A tag that does not open an element of the name is skipped. -/
theorem matchAll_wholeElement_tag (hrun : '<' ∉ run)
    (h : ∀ c, space c = true ∨ c = '>' → ¬ name ++ [c] <+: run ++ cs) :
    matchAll (wholeElement space name) ('<' :: (run ++ cs)) =
      matchAll (wholeElement space name) cs := by
  have hstart : StartsWith '<' (wholeElement space name) := startsWith_wholeElement
  rw [hstart.matchAll_cons (wholeElement_eq_nil h), hstart.matchAll_skip hrun]

namespace Markup

/-- The first closing tag ends the element. -/
theorem wholeElement_found (hname : IsName space name) (hattrs : IsAttrs space attrs)
    (hm : m.WellFormed space) (hnone : m.elements name = []) :
    (wholeElement space name).first ⟨none, '<' :: (name ++ (attrs ++
        '>' :: (m.write ++ '<' :: '/' :: (name ++ '>' :: rest))))⟩ =
      some ((element name attrs m nil).write, ⟨some '>', rest⟩) := by
  obtain ⟨c, inner, hinner, hc, hlt⟩ : ∃ c inner, attrs ++ ['>'] = c :: inner ∧
      (space c || c == '>') = true ∧ '<' ∉ inner := by
    cases attrs with
    | nil => exact ⟨'>', [], rfl, by simp, List.not_mem_nil⟩
    | cons c attrs =>
      refine ⟨c, attrs ++ ['>'], rfl, ?_, ?_⟩
      · rw [hattrs.start c rfl, Bool.true_or]
      · simp [List.not_mem_of_not_mem_cons hattrs.not_mem]
  let close := '<' :: '/' :: (name ++ ['>'])
  have htext : '<' :: (name ++ (attrs ++ '>' :: (m.write ++ '<' :: '/' :: (name ++ '>' :: rest)))) =
      ('<' :: name) ++ (c :: ((inner ++ m.write) ++ (close ++ rest))) := by
    have hhead : attrs ++ '>' :: (m.write ++ '<' :: '/' :: (name ++ '>' :: rest)) =
        (attrs ++ ['>']) ++ (m.write ++ '<' :: '/' :: (name ++ '>' :: rest)) := by simp
    rw [hhead, hinner]
    simp [close]
  have hwrite : (element name attrs m nil).write =
      '<' :: (name ++ c :: ((inner ++ m.write) ++ close)) := by
    have hhead : (element name attrs m nil).write =
        '<' :: (name ++ ((attrs ++ ['>']) ++ (m.write ++ close))) := by
      simp [write, close]
    rw [hhead, hinner]
    simp
  have havoids : Avoids close (inner ++ m.write) (close ++ rest) :=
    (avoids_of_not_mem hlt).append (avoids_write hname hm hnone)
  have hlast : close.getLast? = some '>' := by simp [close, List.getLast?_cons]
  rw [htext, hwrite, wholeElement, first, bind_word fun x => beq_self_eq_true x, bind_one_pos hc,
    ← first]
  refine first_bind_lazy (fun _ _ => rfl) (fun a b hab hb => ?_) ?_
  · exact bind_of_nil (word_eq_nil (havoids a b hab hb))
  · rw [Cursor.skip, first, bind_word fun x => beq_self_eq_true x, hlast]
    rfl

theorem wellFormed_of_mem {node : Markup} (hm : m.WellFormed space)
    (hnode : node ∈ m.elements name) : node.WellFormed space := by
  induction m with
  | nil => cases hnode
  | text cs rest ih => exact ih hm.2 hnode
  | note body rest ih => exact ih hm.2 hnode
  | empty name' attrs rest ih => exact ih hm.2.2 hnode
  | element name' attrs children rest ihchildren ihrest =>
    obtain ⟨hname', hattrs, hchildren, hrest⟩ := hm
    rw [elements, List.mem_append] at hnode
    rcases hnode with hnode | hnode
    · split at hnode
      · next hthis =>
        obtain rfl := List.mem_singleton.1 hnode
        exact ⟨hthis ▸ hname', hattrs, hchildren, trivial⟩
      · exact ihchildren hchildren hnode
    · exact ihrest hrest hnode

/-- The elements are found, whatever text follows. -/
theorem matchAll_wholeElement (hname : IsName space name) (hm : m.WellFormed space)
    (hflat : m.Flat name) :
    matchAll (wholeElement space name) (m.write ++ tail) =
      (m.elements name).map write ++ matchAll (wholeElement space name) tail := by
  have hends : ∀ c, space c = true ∨ c = '>' → endsName space c = true := by
    rintro c (hc | rfl)
    · exact endsName_of_space hc
    · exact endsName_of_mem (by decide)
  induction m generalizing tail with
  | nil => rfl
  | text cs rest ih =>
    rw [write, List.append_assoc, startsWith_wholeElement.matchAll_skip hm.1, ih hm.2 hflat,
      elements]
  | empty name' attrs rest ih =>
    obtain ⟨hname', hattrs, hrest⟩ := hm
    have htag : matchAll (wholeElement space name)
        ('<' :: ((name' ++ (attrs ++ ['/', '>'])) ++ (rest.write ++ tail))) =
          matchAll (wholeElement space name) (rest.write ++ tail) := by
      refine matchAll_wholeElement_tag (not_mem_tag hname' hattrs (by decide)) fun c hc h => ?_
      have h' : name ++ [c] <+: name' ++ (attrs ++ '/' :: '>' :: (rest.write ++ tail)) := by
        simpa using h
      have hopening := hname.opening hname' hattrs (hends c hc) (endsName_of_mem (by decide)) h'
      exact hflat.1 hopening.1.symm
    rw [elements, ← ih hrest hflat.2, ← htag]
    simp [write]
  | note body rest ih =>
    obtain ⟨hbody, hrest⟩ := hm
    have htag : matchAll (wholeElement space name)
        ('<' :: ((body ++ ['>']) ++ (rest.write ++ tail))) =
          matchAll (wholeElement space name) (rest.write ++ tail) := by
      refine matchAll_wholeElement_tag (by simp [hbody.not_mem]) fun c _ => ?_
      obtain ⟨d, inner, rfl, hd⟩ := hbody.cons
      refine hname.not_prefix (endsName_of_mem ?_)
      rcases hd with rfl | rfl
      · decide
      · decide
    rw [elements, ← ih hrest hflat, ← htag]
    simp [write]
  | element name' attrs children rest ihchildren ihrest =>
    obtain ⟨hname', hattrs, hchildren, hrest⟩ := hm
    obtain ⟨hnested, hflatChildren, hflatRest⟩ := hflat
    rw [elements, List.map_append, List.append_assoc, ← ihrest hrest hflatRest]
    by_cases hthis : name' = name
    · subst hthis
      have hfirst : (wholeElement space name').first ⟨none, '<' :: (name' ++ (attrs ++
          '>' :: (children.write ++ '<' :: '/' :: (name' ++ '>' :: (rest.write ++ tail)))))⟩ =
            some ((element name' attrs children nil).write, ⟨some '>', rest.write ++ tail⟩) :=
        wholeElement_found hname' hattrs hchildren (hnested rfl)
      have hfound := startsWith_wholeElement.matchAll_found hfirst (by
        simp only [List.length_cons, List.length_append]
        omega)
      rw [if_pos rfl]
      simpa [write] using hfound
    · have hlt : '<' ∉ name' := hname'.not_mem (endsName_of_mem (by decide))
      have hclose : matchAll (wholeElement space name)
          ('<' :: (('/' :: (name' ++ ['>'])) ++ (rest.write ++ tail))) =
            matchAll (wholeElement space name) (rest.write ++ tail) :=
        matchAll_wholeElement_tag (by simp [hlt]) fun c _ =>
          hname.not_prefix (endsName_of_mem (by decide))
      have hopen : matchAll (wholeElement space name) ('<' :: ((name' ++ (attrs ++ ['>'])) ++
          (children.write ++ '<' :: (('/' :: (name' ++ ['>'])) ++ (rest.write ++ tail))))) =
            matchAll (wholeElement space name)
              (children.write ++ '<' :: (('/' :: (name' ++ ['>'])) ++ (rest.write ++ tail))) := by
        refine matchAll_wholeElement_tag (not_mem_tag hname' hattrs (by decide)) fun c hc h => ?_
        have h' : name ++ [c] <+: name' ++ (attrs ++ '>' :: (children.write ++
            '<' :: (('/' :: (name' ++ ['>'])) ++ (rest.write ++ tail)))) := by
          simpa using h
        exact hthis
          (hname.opening hname' hattrs (hends c hc) (endsName_of_mem (by decide)) h').1.symm
      rw [if_neg hthis, ← hclose, ← ihchildren hchildren hflatChildren, ← hopen]
      simp [write]

end Markup

end Whole

end LanguageLlm.Lib
