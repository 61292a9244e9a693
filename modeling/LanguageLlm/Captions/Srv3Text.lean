import LanguageLlm.Captions.Parser

/-!
# The text of an srv3 paragraph

`stripXml` decodes `&amp;` before the other entities, so that an entity of the text itself is
decoded with those that escaping made. `srv3_decodes_iff` says which texts come back.
-/

namespace LanguageLlm.Captions

open Lib Lib.Matcher PageTranslate Protocol
open Lyrics (hasPart isWordChar)

/-! ## Escaping -/

/-- The entity of a character, behind its ampersand. -/
def entityTail : Char → List Char
  | '&' => "amp;".toList
  | '<' => "lt;".toList
  | '>' => "gt;".toList
  | '"' => "quot;".toList
  | '\'' => "#39;".toList
  | _ => []

/-- The characters that are escaped. -/
def special (c : Char) : Bool := c = '&' || c = '<' || c = '>' || c = '"' || c = '\''

/-- The characters of a class are escaped. -/
def escapeOnly (p : Char → Bool) (t : List Char) : List Char :=
  t.flatMap fun c => if p c then '&' :: entityTail c else [c]

/-- XML escaping. -/
def escape (t : List Char) : List Char := escapeOnly special t

/-- `replaceEntity` for the entity of a character. -/
def decodeOne (c : Char) (s : List Char) : List Char :=
  replaceAll (word (· == ·) ('&' :: entityTail c)) (fun _ => [c]) s

section DecodeOne

variable {c x : Char} {cs w rest : List Char} {p : Char → Bool}

@[simp]
theorem decodeOne_nil : decodeOne c [] = [] := replaceAll_word_nil (List.cons_ne_nil _ _)

@[simp]
theorem decodeOne_entity :
    decodeOne c ('&' :: (entityTail c ++ rest)) = c :: decodeOne c rest := by
  rw [decodeOne, ← List.cons_append, replaceAll_word_append (List.cons_ne_nil _ _)]
  rfl

theorem decodeOne_cons (h : ¬ '&' :: entityTail c <+: x :: cs) :
    decodeOne c (x :: cs) = x :: decodeOne c cs := replaceAll_word_cons (List.cons_ne_nil _ _) h

/-- Only an ampersand begins an entity. -/
theorem decodeOne_of_ne (h : x ≠ '&') : decodeOne c (x :: cs) = x :: decodeOne c cs :=
  decodeOne_cons fun hp => h (List.cons_prefix_cons.1 hp).1.symm

theorem decodeOne_append (h : ∀ x ∈ w, x ≠ '&') :
    decodeOne c (w ++ rest) = w ++ decodeOne c rest := by
  induction w with
  | nil => rfl
  | cons x w ih =>
    obtain ⟨hx, hw⟩ := List.forall_mem_cons.1 h
    rw [List.cons_append, decodeOne_of_ne hx, ih hw, List.cons_append]

/-- A text is empty, begins with the entity, or begins with a character that is kept. -/
theorem decode_induction {P : List Char → Prop} (nil : P [])
    (entity : ∀ rest, P rest → P ('&' :: (entityTail c ++ rest)))
    (cons : ∀ x cs, ¬ '&' :: entityTail c <+: x :: cs → P cs → P (x :: cs)) (s : List Char) :
    P s := by
  induction hn : s.length using Nat.strong_induction_on generalizing s with
  | _ n ih =>
    subst hn
    cases s with
    | nil => exact nil
    | cons x cs =>
      by_cases h : '&' :: entityTail c <+: x :: cs
      · obtain ⟨rest, hrest⟩ := h
        rw [List.cons_append] at hrest
        rw [← hrest]
        refine entity rest (ih rest.length ?_ rest rfl)
        rw [← hrest, List.length_cons, List.length_append]
        omega
      · exact cons x cs h (ih cs.length (Nat.lt_succ_self _) cs rfl)

theorem hasPart_cons {part : List Char} :
    hasPart (x :: cs) part = (part.isPrefixOf (x :: cs) || hasPart cs part) := by
  simp [hasPart]

/-- Decoding does not make a text longer, and makes one with the entity shorter. -/
theorem length_decodeOne (hc : entityTail c ≠ []) (s : List Char) :
    (decodeOne c s).length ≤ s.length ∧
      (hasPart s ('&' :: entityTail c) = true → (decodeOne c s).length < s.length) := by
  have hpos := List.length_pos_of_ne_nil hc
  induction s using decode_induction (c := c) with
  | nil => exact ⟨by simp, by simp [hasPart]⟩
  | entity rest ih =>
    rw [decodeOne_entity, List.length_cons, List.length_cons, List.length_append]
    omega
  | cons x cs h ih =>
    have hnot : ('&' :: entityTail c).isPrefixOf (x :: cs) = false :=
      Bool.eq_false_iff.2 fun hp => h (List.isPrefixOf_iff_prefix.1 hp)
    rw [decodeOne_cons h, List.length_cons, List.length_cons, hasPart_cons, hnot, Bool.false_or]
    exact ⟨Nat.succ_le_succ ih.1, fun hpart => Nat.succ_lt_succ (ih.2 hpart)⟩

/-- A text without the entity stays. -/
theorem decodeOne_eq_self {s : List Char} (h : hasPart s ('&' :: entityTail c) = false) :
    decodeOne c s = s := by
  induction s with
  | nil => exact decodeOne_nil
  | cons x cs ih =>
    rw [hasPart_cons, Bool.or_eq_false_iff] at h
    have hnot : ¬ '&' :: entityTail c <+: x :: cs := fun hp =>
      Bool.false_ne_true (h.1.symm.trans (List.isPrefixOf_iff_prefix.2 hp))
    rw [decodeOne_cons hnot, ih h.2]

@[simp]
theorem escapeOnly_nil : escapeOnly p [] = [] := rfl

theorem escapeOnly_pos (h : p x = true) :
    escapeOnly p (x :: cs) = '&' :: (entityTail x ++ escapeOnly p cs) := by
  simp [escapeOnly, h]

theorem escapeOnly_neg (h : p x = false) : escapeOnly p (x :: cs) = x :: escapeOnly p cs := by
  simp [escapeOnly, h]

theorem escapeOnly_append (s t : List Char) :
    escapeOnly p (s ++ t) = escapeOnly p s ++ escapeOnly p t := List.flatMap_append

theorem escapeOnly_eq_self {s : List Char} (h : ∀ y ∈ s, p y = false) : escapeOnly p s = s := by
  induction s with
  | nil => rfl
  | cons y s ih =>
    obtain ⟨hy, hs⟩ := List.forall_mem_cons.1 h
    rw [escapeOnly_neg hy, ih hs]

/-- Plain characters at the beginning of an escaped text are those of the text. -/
theorem prefix_of_escapeOnly {t : List Char} (hw : ∀ y ∈ w, special y = false)
    (h : w <+: escapeOnly p t) : w <+: t := by
  induction w generalizing t with
  | nil => exact List.nil_prefix
  | cons y w ih =>
    obtain ⟨hy, hw⟩ := List.forall_mem_cons.1 hw
    cases t with
    | nil => exact absurd (List.prefix_nil.1 h) (List.cons_ne_nil _ _)
    | cons x t =>
      cases hp : p x with
      | true =>
        rw [escapeOnly_pos hp] at h
        rw [(List.cons_prefix_cons.1 h).1] at hy
        cases hy
      | false =>
        rw [escapeOnly_neg hp] at h
        obtain ⟨rfl, hrest⟩ := List.cons_prefix_cons.1 h
        exact List.cons_prefix_cons.2 ⟨rfl, ih hw hrest⟩

/-- An entity has one ampersand, and its first letter says which it is. -/
theorem entityTail_spec (hc : special c = true) (hx : special x = true) (rest : List Char) :
    (∀ y ∈ entityTail x, special y = false) ∧
      (('&' :: entityTail c <+: '&' :: (entityTail x ++ rest)) → c = x) := by
  have hcases : ∀ y, special y = true → y = '&' ∨ y = '<' ∨ y = '>' ∨ y = '"' ∨ y = '\'' := by
    intro y hy
    simpa [special, or_assoc] using hy
  constructor
  · have hplain : (entityTail x).all (fun y => !special y) = true := by
      rcases hcases x hx with rfl | rfl | rfl | rfl | rfl
      all_goals rfl
    intro y hy
    simpa using List.all_eq_true.1 hplain y hy
  · intro h
    obtain ⟨-, h⟩ := List.cons_prefix_cons.1 h
    rcases hcases c hc with rfl | rfl | rfl | rfl | rfl
    all_goals rcases hcases x hx with rfl | rfl | rfl | rfl | rfl
    all_goals first | rfl | exact absurd (List.cons_prefix_cons.1 h).1 (by decide)

/-- An entity of another character stays. -/
theorem decodeOne_other (hc : special c = true) (hx : special x = true) (hne : c ≠ x) :
    decodeOne c ('&' :: (entityTail x ++ rest)) = '&' :: (entityTail x ++ decodeOne c rest) := by
  obtain ⟨hplain, hentity⟩ := entityTail_spec hc hx rest
  have hamp : ∀ y ∈ entityTail x, y ≠ '&' := by
    rintro y hy rfl
    exact absurd (hplain _ hy) (by decide)
  rw [decodeOne_cons fun h => hne (hentity h), decodeOne_append hamp]

/-- The first replacement takes the escaping of the ampersands back. -/
theorem decodeOne_amp (h : ∀ x, p x = true → special x = true) (hamp : p '&' = true)
    (t : List Char) :
    decodeOne '&' (escapeOnly p t) = escapeOnly (fun x => p x && x ≠ '&') t := by
  induction t with
  | nil => exact decodeOne_nil
  | cons x t ih =>
    by_cases hx : x = '&'
    · subst hx
      rw [escapeOnly_pos hamp, decodeOne_entity, ih, escapeOnly_neg (by simp)]
    · cases hp : p x with
      | true =>
        rw [escapeOnly_pos hp, decodeOne_other rfl (h x hp) (Ne.symm hx), ih,
          escapeOnly_pos (by simp [hp, hx])]
      | false => rw [escapeOnly_neg hp, decodeOne_of_ne hx, ih, escapeOnly_neg (by simp [hp])]

/-- A later one takes back the escaping of its character, and decodes the text itself. -/
theorem decodeOne_escapeOnly (h : ∀ x, p x = true → special x = true) (hamp : p '&' = false)
    (hc : p c = true) (t : List Char) :
    decodeOne c (escapeOnly p t) = escapeOnly (fun x => p x && x ≠ c) (decodeOne c t) := by
  have hcamp : c ≠ '&' := by
    rintro rfl
    rw [hamp] at hc
    cases hc
  induction t using decode_induction (c := c) with
  | nil => simp
  | entity rest ih =>
    have htail : escapeOnly p (entityTail c) = entityTail c := by
      refine escapeOnly_eq_self fun y hy => Bool.eq_false_iff.2 fun hpy => ?_
      exact Bool.false_ne_true
        (((entityTail_spec (h c hc) (h c hc) []).1 y hy).symm.trans (h y hpy))
    rw [escapeOnly_neg hamp, escapeOnly_append, htail, decodeOne_entity, ih, decodeOne_entity,
      escapeOnly_neg (by simp)]
  | cons x t hnot ih =>
    rw [decodeOne_cons hnot]
    by_cases hx : x = c
    · subst hx
      rw [escapeOnly_pos hc, decodeOne_entity, ih, escapeOnly_neg (by simp)]
    · cases hp : p x with
      | true =>
        rw [escapeOnly_pos hp, decodeOne_other (h c hc) (h x hp) (Ne.symm hx), ih,
          escapeOnly_pos (by simp [hp, hx])]
      | false =>
        have hkept : ¬ '&' :: entityTail c <+: x :: escapeOnly p t := by
          intro hentity
          obtain ⟨rfl, htail⟩ := List.cons_prefix_cons.1 hentity
          exact hnot (List.cons_prefix_cons.2 ⟨rfl, prefix_of_escapeOnly
            (entityTail_spec (h c hc) (h c hc) []).1 htail⟩)
        rw [escapeOnly_neg hp, decodeOne_cons hkept, ih, escapeOnly_neg (by simp [hp])]

end DecodeOne

/-! ## The text -/

/-- The text has one of the entities in it that are decoded after the ampersands. -/
def HasEntity (t : List Char) : Prop :=
  hasPart t "&lt;".toList ∨ hasPart t "&gt;".toList ∨ hasPart t "&quot;".toList ∨
    hasPart t "&#39;".toList

/-- The entities of the text itself. -/
def decodeRest (t : List Char) : List Char :=
  decodeOne '\'' (decodeOne '"' (decodeOne '>' (decodeOne '<' t)))

theorem ne_of_mem_escape {t : List Char} {x : Char} (h : x ∈ escape t) : x ≠ '<' := by
  obtain ⟨c, -, hx⟩ := List.mem_flatMap.1 h
  cases hc : special c with
  | true =>
    rw [hc, if_pos rfl, List.mem_cons] at hx
    rcases hx with rfl | hx
    · decide
    · rintro rfl
      exact absurd ((entityTail_spec hc hc []).1 _ hx) (by decide)
  | false =>
    rw [hc, if_neg (by decide), List.mem_singleton] at hx
    rintro rfl
    rw [← hx] at hc
    cases hc

theorem lineBreak_neg {x : Char} (hx : x ≠ '<') (prev : Option Char) (xs : List Char) :
    lineBreak ⟨prev, x :: xs⟩ = [] := by
  have hsame : sameLetter '<' x = false := sameLetter_of_ne (by decide) hx
  exact bind_word_neg hsame

/-- Without a `<` there is no tag to remove. -/
theorem stripXml_of_not_mem {s : List Char} (h : '<' ∉ s) :
    stripXml s = decodeRest (decodeOne '&' s) := by
  have hne : ∀ x ∈ s, x ≠ '<' := fun x hx hlt => h (hlt ▸ hx)
  have hbreak : matchAll lineBreak s = [] :=
    matchAll_eq_nil (fun x hx prev xs => lineBreak_neg (hne x hx) prev xs) fun _ => rfl
  rw [stripXml, replaceAll_of_none hbreak, replaceAll_of_none (matchAll_anyTag h)]
  rfl

/-- Escaping is taken back, and the entities of the text are decoded with it. -/
theorem stripXml_escape (t : List Char) : stripXml (escape t) = decodeRest t := by
  let p₁ : Char → Bool := fun x => special x && x ≠ '&'
  let p₂ : Char → Bool := fun x => p₁ x && x ≠ '<'
  let p₃ : Char → Bool := fun x => p₂ x && x ≠ '>'
  let p₄ : Char → Bool := fun x => p₃ x && x ≠ '"'
  have h₁ : ∀ x, p₁ x = true → special x = true := fun x hx => (Bool.and_eq_true_iff.1 hx).1
  have h₂ : ∀ x, p₂ x = true → special x = true := fun x hx => h₁ x (Bool.and_eq_true_iff.1 hx).1
  have h₃ : ∀ x, p₃ x = true → special x = true := fun x hx => h₂ x (Bool.and_eq_true_iff.1 hx).1
  have h₄ : ∀ x, p₄ x = true → special x = true := fun x hx => h₃ x (Bool.and_eq_true_iff.1 hx).1
  have hnone : ∀ s, escapeOnly (fun x => p₄ x && x ≠ '\'') s = s := by
    intro s
    refine escapeOnly_eq_self fun y _ => ?_
    simp only [p₄, p₃, p₂, p₁, special]
    by_contra hy
    simp only [Bool.not_eq_false, Bool.and_eq_true, Bool.or_eq_true, decide_eq_true_eq] at hy
    tauto
  rw [stripXml_of_not_mem fun h => ne_of_mem_escape h rfl, escape,
    decodeOne_amp (fun _ h => h) rfl, decodeRest, decodeOne_escapeOnly h₁ rfl rfl,
    decodeOne_escapeOnly h₂ rfl rfl, decodeOne_escapeOnly h₃ rfl rfl,
    decodeOne_escapeOnly h₄ rfl rfl, hnone, decodeRest]

theorem decodeRest_eq_self {t : List Char} (h : ¬ HasEntity t) : decodeRest t = t := by
  simp only [HasEntity, not_or, Bool.not_eq_true] at h
  rw [decodeRest, decodeOne_eq_self (c := '<') h.1, decodeOne_eq_self (c := '>') h.2.1,
    decodeOne_eq_self (c := '"') h.2.2.1, decodeOne_eq_self (c := '\'') h.2.2.2]

/-- The first replacement that finds an entity makes the text shorter, and none makes it longer. -/
theorem length_decodeRest {t : List Char} (h : HasEntity t) :
    (decodeRest t).length < t.length := by
  have hlt := length_decodeOne (c := '<') (by decide)
  have hgt := length_decodeOne (c := '>') (by decide)
  have hquot := length_decodeOne (c := '"') (by decide)
  have hapos := length_decodeOne (c := '\'') (by decide)
  have hle := (hlt t).1
  have hle₂ := (hgt (decodeOne '<' t)).1
  have hle₃ := (hquot (decodeOne '>' (decodeOne '<' t))).1
  have hle₄ := (hapos (decodeOne '"' (decodeOne '>' (decodeOne '<' t)))).1
  rw [decodeRest]
  cases h₁ : hasPart t ('&' :: entityTail '<') with
  | true =>
    have hshort := (hlt t).2 h₁
    omega
  | false =>
    rw [decodeOne_eq_self h₁] at hle₂ hle₃ hle₄ ⊢
    cases h₂ : hasPart t ('&' :: entityTail '>') with
    | true =>
      have hshort := (hgt t).2 h₂
      omega
    | false =>
      rw [decodeOne_eq_self h₂] at hle₃ hle₄ ⊢
      cases h₃ : hasPart t ('&' :: entityTail '"') with
      | true =>
        have hshort := (hquot t).2 h₃
        omega
      | false =>
        rw [decodeOne_eq_self h₃] at hle₄ ⊢
        refine (hapos t).2 ?_
        rcases h with h | h | h | h
        · exact absurd (h.symm.trans h₁) (by decide)
        · exact absurd (h.symm.trans h₂) (by decide)
        · exact absurd (h.symm.trans h₃) (by decide)
        · exact h

/-- A text with single spaces between its words and none around them. -/
def Normalized (t : List Char) : Prop := trim (collapseSpaces false t) = t

theorem length_normalized (t : List Char) :
    (trim (collapseSpaces false t)).length ≤ t.length := by
  have hcollapse : ∀ (s : List Char) (inSpace : Bool),
      (collapseSpaces inSpace s).length ≤ s.length := by
    intro s
    induction s with
    | nil => exact fun _ => le_rfl
    | cons x s ih =>
      intro inSpace
      rw [collapseSpaces]
      split_ifs
      · exact (ih true).trans (Nat.le_succ _)
      · exact Nat.succ_le_succ (ih true)
      · exact Nat.succ_le_succ (ih false)
  exact (trim_sublist _).length_le.trans (hcollapse t false)

/-- The text of a paragraph is the one that was escaped exactly when it has no entity in it. -/
theorem paragraphText_escape_iff {t : List Char} (h : Normalized t) :
    paragraphText (escape t) = t ↔ ¬ HasEntity t := by
  rw [paragraphText, stripXml_escape]
  constructor
  · intro heq hentity
    have hlength := congrArg List.length heq
    have hshort := length_decodeRest hentity
    have hnormal := length_normalized (decodeRest t)
    omega
  · intro hentity
    rw [decodeRest_eq_self hentity]
    exact h

/-! ## The document -/

/-- No paragraph begins in the text. -/
def NoParagraph (l : List Char) : Prop :=
  ∀ a c b, l = a ++ '<' :: c :: b → sameLetter 'p' c = false

theorem noParagraph_iff {l : List Char} : NoParagraph l ↔ ∀ tail ∈ l.tails,
    tail.head? = some '<' → tail.tail.head?.all (fun c => !sameLetter 'p' c) = true := by
  constructor
  · intro h tail htail hhead
    obtain ⟨a, rfl⟩ := (List.mem_tails _ _).1 htail
    rcases tail with _ | ⟨y, _ | ⟨c, b⟩⟩
    · cases hhead
    · rfl
    · cases hhead
      simpa using h a c b rfl
  · intro h a c b hab
    have hall := h ('<' :: c :: b) ((List.mem_tails _ _).2 ⟨a, hab.symm⟩) rfl
    simpa using hall

theorem paragraph_neg {x : Char} (hx : x ≠ '<') (prev : Option Char) (xs : List Char) :
    paragraph ⟨prev, x :: xs⟩ = [] := bind_word_neg (sameLetter_of_ne (by decide) hx)

theorem paragraph_lt {c : Char} (hc : sameLetter 'p' c = false) (prev : Option Char)
    (xs : List Char) : paragraph ⟨prev, '<' :: c :: xs⟩ = [] := by
  have hlt : sameLetter '<' '<' = true := rfl
  have hword : (word sameLetter ['p'] >>= fun _ => paragraphBody) ⟨some '<', c :: xs⟩ = [] :=
    bind_word_neg hc
  exact (congrFun bind_word_cons _).trans ((bind_one_pos hlt).trans hword)

section Document

variable {before after attrs inner rest : List Char} {prev : Option Char}

/-- In front of a text that does not go on with a paragraph name, nothing is found. -/
theorem tokens_before (h : NoParagraph before)
    (hrest : ∀ c ∈ rest.head?, sameLetter 'p' c = false) :
    tokens paragraph ⟨prev, before ++ rest⟩ =
      before.map .char ++ tokens paragraph ⟨before.getLast?.or prev, rest⟩ := by
  refine tokens_skip fun a x b hab prev => ?_
  by_cases hx : x = '<'
  · subst hx
    cases b with
    | nil =>
      cases rest with
      | nil => rfl
      | cons c rest => exact paragraph_lt (hrest c rfl) prev rest
    | cons c b => exact paragraph_lt (h a c b hab) prev _
  · exact paragraph_neg hx prev _

/-- A paragraph is found with its attributes and what is between its tags. -/
theorem first_paragraph (hattrs : ∀ x ∈ attrs, x ≠ '>') (hspace : attrs.head? = some ' ')
    (hinner : ∀ x ∈ inner, x ≠ '<') :
    paragraph.first ⟨prev, "<p".toList ++ (attrs ++ '>' :: (inner ++ ("</p>".toList ++ after)))⟩ =
      some ((attrs, inner), ⟨some '>', after⟩) := by
  have hgreater : ∀ x ∈ attrs, (x != '>') = true := fun x hx => bne_iff_ne.2 (hattrs x hx)
  have hboundary : (some 'p').any isWordChar ≠
      (attrs ++ '>' :: (inner ++ ("</p>".toList ++ after))).head?.any isWordChar := by
    have hhead : (attrs ++ '>' :: (inner ++ ("</p>".toList ++ after))).head? = some ' ' := by
      cases attrs with
      | nil => cases hspace
      | cons x attrs => exact hspace
    rw [hhead]
    decide
  rw [first, paragraph, bind_word sameLetter_refl, paragraphBody, bind_boundary_pos hboundary,
    bind_greedy hgreater (by simp) fun a prev x xs hx => bind_one_neg (beq_eq_false_iff_ne.2
      (bne_iff_ne.1 hx)), if_pos (fits_none _), bind_one_pos rfl]
  refine first_bind_lazy (fun _ _ => rfl) (fun a b hab hb => ?_) ?_
  · -- the closing tag does not begin inside the text
    obtain ⟨x, b, rfl⟩ := List.exists_cons_of_ne_nil hb
    have hx : x ≠ '<' := hinner x (hab ▸ List.mem_append_right a List.mem_cons_self)
    exact bind_word_neg (sameLetter_of_ne (by decide) hx)
  · rw [first, Cursor.skip, bind_word sameLetter_refl]
    rfl

/-- The attributes of a paragraph. -/
def attributes (t d : Nat) : List Char :=
  " t=\"".toList ++ (Nat.toDigits 10 t ++ '"' :: (" d=\"".toList ++ (Nat.toDigits 10 d ++ ['"'])))

/-- A document with one paragraph. -/
def document (before : List Char) (t d : Nat) (text after : List Char) : List Char :=
  before ++ ("<p".toList ++ (attributes t d ++ '>' :: (escape text ++ "</p>".toList))) ++ after

/-- The paragraph is the only match. -/
theorem matchAll_document {t d : Nat} {text : List Char} (hbefore : NoParagraph before)
    (hafter : NoParagraph after) :
    matchAll paragraph (document before t d text after) = [(attributes t d, escape text)] := by
  have hattrs : ∀ x ∈ attributes t d, x ≠ '>' := by
    intro x hx
    have hnot : ∀ n, '>' ∉ Nat.toDigits 10 n := fun n hn =>
      absurd (isDigit_toDigits hn) (by decide)
    rintro rfl
    simp [attributes, hnot] at hx
  let body := "<p".toList ++ (attributes t d ++ '>' :: (escape text ++ ("</p>".toList ++ after)))
  have hdocument : document before t d text after = before ++ body := by
    simp [document, body]
  have hfirst : paragraph.first ⟨before.getLast?.or none, body⟩ =
      some ((attributes t d, escape text), ⟨some '>', after⟩) :=
    first_paragraph hattrs rfl fun x hx => ne_of_mem_escape hx
  have hlt : after.length < body.length := by
    simp only [body, List.length_append, List.length_cons]
    omega
  have hafter' : tokens paragraph ⟨some '>', after ++ []⟩ = after.map .char := by
    rw [tokens_before hafter (by simp), tokens_nil rfl, List.append_nil]
  rw [List.append_nil] at hafter'
  rw [hdocument, Lib.matchAll, tokens_before hbefore (by intro c hc; cases hc; rfl),
    tokens_found hfirst hlt, hafter', List.filterMap_append, filterMap_chars, List.filterMap_cons,
    filterMap_chars]
  rfl

theorem numberAttribute_neg {name : String} {n x : Char} (hname : name.toList = [n])
    (hx : sameLetter n x = false) (prev : Option Char) (xs : List Char) :
    numberAttribute name ⟨prev, x :: xs⟩ = [] := by
  rw [numberAttribute, hname]
  exact bind_boundary_eq_nil (bind_word_neg hx)

/-- The number that an attribute is read as. -/
theorem search_attribute {name : String} {n : Char} {run digits rest : List Char}
    (hname : name.toList = [n]) (hn : isWordChar n = true)
    (hrun : ∀ x ∈ run, sameLetter n x = false) (hlast : run.getLast? = some ' ')
    (hdigits : ∀ x ∈ digits, x.isDigit = true) (hne : digits ≠ []) :
    search (numberAttribute name) (run ++ n :: '=' :: '"' :: (digits ++ '"' :: rest)) =
      some digits := by
  have hquote : ∀ x : Char, x.isDigit = true → (x == '"') = false := by
    intro x hx
    rw [beq_eq_false_iff_ne]
    rintro rfl
    cases hx
  have hfits : fits 1 none digits.length = true := by
    have hpos := List.length_pos_of_ne_nil hne
    simpa [fits] using Nat.succ_le_of_lt hpos
  let body := n :: '=' :: '"' :: (digits ++ '"' :: rest)
  have hboundary : (some ' ').any isWordChar ≠ body.head?.any isWordChar := by
    have hspace : isWordChar ' ' = false := by decide
    simp [body, hn, hspace]
  have hfirst : (numberAttribute name).first ⟨some ' ', body⟩ =
      some (digits, ⟨some '"', rest⟩) := by
    have hword : ∀ f : Unit → Matcher (List Char),
        (word sameLetter [n, '=', '"'] >>= f) ⟨some ' ', body⟩ =
          f () ⟨some '"', digits ++ '"' :: rest⟩ := fun f =>
      bind_word sameLetter_refl (w := [n, '=', '"'])
    rw [first, numberAttribute, hname, bind_boundary_pos hboundary]
    refine (congrArg List.head? (hword _)).trans ?_
    rw [bind_greedy hdigits (by simp) fun a prev x xs hx => bind_one_neg (hquote x hx),
      if_pos hfits, bind_one_pos rfl]
    rfl
  have hlt : rest.length < body.length := by
    simp only [body, List.length_cons, List.length_append]
    omega
  have hskip : tokens (numberAttribute name) ⟨none, run ++ body⟩ =
      run.map .char ++ tokens (numberAttribute name) ⟨run.getLast?.or none, body⟩ :=
    tokens_run fun x hx prev xs => numberAttribute_neg hname (hrun x hx) prev xs
  rw [hlast, Option.some_or, tokens_found hfirst hlt] at hskip
  rw [search, Lib.matchAll, hskip, List.filterMap_append, filterMap_chars, List.filterMap_cons]
  rfl

end Document

/-! ## The paragraph -/

section Paragraph

variable {S : Source} {t d : Nat} {before after : List Char}

/-- The number of an attribute that is written in digits. -/
theorem attrNumber_attribute {name : String} {n : Char} {run rest : List Char} {k : Nat}
    (hname : name.toList = [n]) (hn : isWordChar n = true)
    (hrun : ∀ x ∈ run, sameLetter n x = false) (hlast : run.getLast? = some ' ') :
    S.attrNumber (run ++ n :: '=' :: '"' :: (Nat.toDigits 10 k ++ '"' :: rest)) name =
      some (S.engine.rounding.round k) := by
  have hdigits : ∀ x ∈ Nat.toDigits 10 k, x.isDigit = true := fun x hx => isDigit_toDigits hx
  rw [Source.attrNumber, search_attribute hname hn hrun hlast hdigits Nat.toDigits_ne_nil,
    Option.map_some, Source.number, Rounding.number_digits hdigits Nat.toDigits_ne_nil,
    Nat.ofDigitChars_ten_toDigits]

theorem attrNumber_start :
    S.attrNumber (attributes t d) "t" = some (S.engine.rounding.round t) := by
  have hattributes : attributes t d = [' '] ++ 't' :: '=' :: '"' :: (Nat.toDigits 10 t ++ '"' ::
      (" d=\"".toList ++ (Nat.toDigits 10 d ++ ['"']))) := by
    simp [attributes]
  rw [hattributes]
  exact attrNumber_attribute rfl (by decide) (List.forall_mem_singleton.2 rfl) rfl

theorem attrNumber_duration :
    S.attrNumber (attributes t d) "d" = some (S.engine.rounding.round d) := by
  let run := " t=\"".toList ++ (Nat.toDigits 10 t ++ ['"', ' '])
  have hattributes : attributes t d =
      run ++ 'd' :: '=' :: '"' :: (Nat.toDigits 10 d ++ '"' :: []) := by
    simp [attributes, run]
  have hrun : ∀ x ∈ run, sameLetter 'd' x = false := by
    intro x hx
    have hswap : sameLetter 'd' x = sameLetter x 'd' := Bool.beq_comm
    simp only [run, List.mem_append] at hx
    rcases hx with hx | hx | hx
    · have hall : " t=\"".toList.all (fun y => !sameLetter 'd' y) = true := by decide
      simpa using List.all_eq_true.1 hall x hx
    · have hdigit := isDigit_toDigits hx
      have hrange := toNat_of_isDigit hdigit
      rw [hswap]
      refine sameLetter_of_ne (by omega) ?_
      rintro rfl
      cases hdigit
    · rcases List.mem_pair.1 hx with rfl | rfl
      all_goals rfl
  have hlast : run.getLast? = some ' ' := by
    rw [List.getLast?_append_of_ne_nil _ (by simp), List.getLast?_append_of_ne_nil _ (by simp)]
    rfl
  rw [hattributes]
  exact attrNumber_attribute rfl (by decide) hrun hlast

/-- Trimming the document shortens what is around the paragraph. -/
theorem trim_document (text : List Char) :
    trim (document before t d text after) =
      document (before.dropWhile isSpace) t d text (after.rdropWhile isSpace) := by
  refine trim_append_append (List.append_ne_nil_of_left_ne_nil (by decide) _)
    (trim_eq_self_iff.2 ⟨?_, ?_⟩)
  · intro c hc
    cases hc
    rfl
  · have hlast :
      ("<p".toList ++ (attributes t d ++ '>' :: (escape text ++ "</p>".toList))).getLast? =
        some '>' := by
      rw [List.getLast?_append_of_ne_nil _ (by simp), List.getLast?_append_of_ne_nil _ (by simp),
        ← List.cons_append, List.getLast?_append_of_ne_nil _ (by simp)]
      rfl
    intro c hc
    rw [hlast] at hc
    cases hc
    rfl

/-- The document has one paragraph, with the text that is decoded. -/
theorem paragraphs_document (text : List Char) (hbefore : NoParagraph before)
    (hafter : NoParagraph after) :
    S.paragraphs (trim (document before t d text after)) =
      [(S.engine.rounding.round t, S.engine.rounding.round d,
        paragraphText (escape text))].filter fun p => p.2.2 ≠ [] := by
  have hbefore' : NoParagraph (before.dropWhile isSpace) := by
    intro a c b hab
    obtain ⟨spaces, hspaces⟩ := List.dropWhile_suffix isSpace (l := before)
    exact hbefore (spaces ++ a) c b (by rw [← hspaces, hab, List.append_assoc])
  have hafter' : NoParagraph (after.rdropWhile isSpace) := by
    intro a c b hab
    obtain ⟨spaces, hspaces⟩ := List.rdropWhile_prefix isSpace after
    exact hafter a c (b ++ spaces) (by rw [← hspaces, hab]; simp)
  rw [trim_document, Source.paragraphs, matchAll_document hbefore' hafter', List.map_cons,
    attrNumber_start, attrNumber_duration]
  rfl

end Paragraph

/-- The document gives one cue, with the text that was escaped and the two times. -/
def Decodes (S : Source) (body text : List Char) (t d : Nat) : Prop :=
  ∃ c, (S.parseSrv3Timedtext body).cues = [c] ∧ c.text = String.ofList text ∧
    c.startMs = .number (S.engine.rounding.round t) ∧
    c.endMs = .number (S.add (S.engine.rounding.round t) (S.engine.rounding.round d))

theorem decodes_iff_text {S : Source} {before after text : List Char} {t d : Nat}
    (hbefore : NoParagraph before) (hafter : NoParagraph after) (hne : text ≠ []) :
    Decodes S (document before t d text after) text t d ↔ paragraphText (escape text) = text := by
  rw [Decodes, Source.parseSrv3Timedtext, paragraphs_document text hbefore hafter]
  constructor
  · intro ⟨c, hcues, htext, _⟩
    by_cases hnil : paragraphText (escape text) = []
    · simp [Source.timelineFromCues, hnil] at hcues
    · simp only [Source.timelineFromCues, ne_eq, hnil, not_false_eq_true, decide_true,
        List.filter_cons_of_pos, List.filter_nil, List.mapIdx_cons, List.mapIdx_nil,
        List.cons.injEq, and_true] at hcues
      rw [← hcues] at htext
      exact String.ofList_injective htext
  · intro heq
    rw [heq, List.filter_cons_of_pos (by simpa using hne)]
    exact ⟨_, rfl, rfl, rfl, rfl⟩

/-- The text comes back exactly when it has none of the entities in it. -/
theorem srv3_decodes_iff (S : Source) (before after text : List Char) (t d : Nat)
    (hbefore : NoParagraph before) (hafter : NoParagraph after) (hne : text ≠ [])
    (htext : Normalized text) :
    Decodes S (document before t d text after) text t d ↔ ¬ HasEntity text := by
  rw [decodes_iff_text hbefore hafter hne, paragraphText_escape_iff htext]

theorem srv3_decodes_iff_amp :
    Decodes ⟨⟨.double, fun _ => "", fun _ => none⟩, "v", .autoCaption⟩
      (document "<body>".toList 500 1000 "a & b".toList "</body>".toList) "a & b".toList 500
      1000 := by
  refine (srv3_decodes_iff _ _ _ _ _ _ (noParagraph_iff.2 ?_) (noParagraph_iff.2 ?_) ?_ ?_).2 ?_
  · decide
  · decide
  · decide
  · exact show trim (collapseSpaces false "a & b".toList) = "a & b".toList by decide
  · rintro (h | h | h | h)
    all_goals exact absurd h (by decide)

/-- A text with the entity of a character, such as one about HTML. -/
theorem not_decodes_lt :
    ¬ ∀ (S : Source) (text : List Char) (t d : Nat), text ≠ [] → Normalized text →
      Decodes S (document [] t d text []) text t d := by
  intro h
  have hno : NoParagraph [] := noParagraph_iff.2 (by decide)
  have hnormalized : Normalized "&lt;".toList :=
    show trim (collapseSpaces false "&lt;".toList) = "&lt;".toList by decide
  have hdecodes := h ⟨⟨.double, fun _ => "", fun _ => none⟩, "v", .autoCaption⟩ "&lt;".toList 0 1000
    (by decide) hnormalized
  have htext := (decodes_iff_text hno hno (by decide)).1 hdecodes
  exact (paragraphText_escape_iff hnormalized).1 htext (Or.inl (by decide))

end LanguageLlm.Captions
