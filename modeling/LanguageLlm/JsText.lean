import Mathlib.Data.List.DropRight
import LanguageLlm.LanguageKits.Adapters
import LanguageLlm.Lib.Digits
import LanguageLlm.Lib.Regex
import LanguageLlm.Lib.Words

/-!
# Texts of JavaScript

What `trim` and `split` do to texts that are put together from parts.
-/

namespace LanguageLlm

open PageTranslate LanguageKits Lib Lib.Matcher

/-! ## Classes of expressions -/

/-- Equal up to case, which without the Unicode flag means that of ASCII letters. -/
def sameLetter (a b : Char) : Bool := a.toLower == b.toLower

/-- A letter in lower case is the character or comes 32 places after it. -/
theorem toLower_cases (x : Char) :
    x.toLower = x ∨ 65 ≤ x.toNat ∧ x.toNat ≤ 90 ∧ x.toLower.toNat = x.toNat + 32 := by
  have htoLower : x.toLower = dite (x.val ≥ 'A'.val ∧ x.val ≤ 'Z'.val) _ _ := rfl
  by_cases h : x.val ≥ 'A'.val ∧ x.val ≤ 'Z'.val
  · right
    have hA : 65 ≤ x.toNat := UInt32.le_iff_toNat_le.1 h.1
    have hZ : x.toNat ≤ 90 := UInt32.le_iff_toNat_le.1 h.2
    refine ⟨hA, hZ, ?_⟩
    have hsum : (x.val + 32).toNat = x.toNat + 32 := by
      rw [UInt32.toNat_add]
      exact Nat.mod_eq_of_lt (Nat.lt_of_le_of_lt (Nat.add_le_add_right hZ 32) (by omega))
    rw [htoLower, dif_pos h]
    exact hsum
  · left
    rw [htoLower, dif_neg h]

theorem sameLetter_refl (x : Char) : sameLetter x x = true := beq_self_eq_true x.toLower

/-- A character that is not a letter equals itself only. -/
theorem sameLetter_of_ne {a x : Char} (ha : a.toNat < 65) (hx : x ≠ a) :
    sameLetter a x = false := by
  rw [sameLetter, beq_eq_false_iff_ne]
  rcases toLower_cases a with hlower | ⟨hA, -, -⟩
  · rw [hlower]
    rcases toLower_cases x with hx' | ⟨hA, -, hlow⟩
    · rw [hx']
      exact hx.symm
    · rintro rfl
      omega
  · omega

/-- `<[^>]+>`. -/
def anyTag : Matcher Unit := do
  let _ ← one (· == '<')
  let _ ← greedy (· != '>') 1 none
  let _ ← one (· == '>')

/-- Without a `<` there is no tag. -/
theorem matchAll_anyTag {s : List Char} (h : '<' ∉ s) : matchAll anyTag s = [] := by
  refine matchAll_eq_nil (fun x hx prev xs => bind_one_neg (beq_eq_false_iff_ne.2 ?_)) fun _ => rfl
  rintro rfl
  exact h hx

/-! ## Trimming -/

section Trim

variable {cs spaces : List Char}

theorem trim_eq (cs : List Char) : trim cs = (cs.dropWhile isSpace).rdropWhile isSpace := rfl

theorem trim_sublist (cs : List Char) : (trim cs).Sublist cs :=
  (List.rdropWhile_prefix isSpace _).sublist.trans (List.dropWhile_sublist isSpace)

/-- A text is trimmed when it neither begins nor ends with a space. -/
theorem trim_eq_self_iff : trim cs = cs ↔
    (∀ c ∈ cs.head?, isSpace c = false) ∧ ∀ c ∈ cs.getLast?, isSpace c = false := by
  have hlast : cs.rdropWhile isSpace = cs ↔ ∀ c ∈ cs.getLast?, isSpace c = false := by
    rw [List.rdropWhile_eq_self_iff]
    constructor
    · intro h c hc
      obtain ⟨hne, rfl⟩ := List.mem_getLast?_eq_getLast hc
      simpa using h hne
    · intro h hne
      simpa using h _ (List.getLast?_eq_some_getLast hne)
  rw [← hlast, trim_eq]
  cases cs with
  | nil => simp
  | cons x cs =>
    cases hx : isSpace x with
    | false => simp [hx]
    | true =>
      refine iff_of_false (fun h => ?_) (fun h => ?_)
      · have hle := (List.rdropWhile_prefix isSpace (l := (x :: cs).dropWhile isSpace)).length_le
        rw [h, List.dropWhile_cons_of_pos hx] at hle
        have hdrop := (List.dropWhile_sublist isSpace (l := cs)).length_le
        rw [List.length_cons] at hle
        omega
      · simp [hx] at h

/-- A trimmed text does not end with a space. -/
theorem getLast?_ne_of_trim (h : trim cs = cs) {c : Char} (hc : isSpace c = true) :
    cs.getLast? ≠ some c := by
  intro hlast
  rw [(trim_eq_self_iff.1 h).2 c hlast] at hc
  cases hc

theorem trim_trim (cs : List Char) : trim (trim cs) = trim cs := by
  refine trim_eq_self_iff.2 ⟨fun c hc => ?_, fun c hc => ?_⟩
  · obtain ⟨rest, hrest⟩ := List.rdropWhile_prefix isSpace (cs.dropWhile isSpace)
    have hhead : c ∈ (cs.dropWhile isSpace).head? := by
      rw [trim_eq] at hc
      cases ht : (cs.dropWhile isSpace).rdropWhile isSpace with
      | nil =>
        rw [ht] at hc
        cases hc
      | cons x xs =>
        rw [ht] at hc hrest
        rw [← hrest]
        exact hc
    have hnot := List.head?_dropWhile_not isSpace cs
    rw [hhead] at hnot
    simpa using hnot
  · obtain ⟨hne, rfl⟩ := List.mem_getLast?_eq_getLast hc
    have hnot := List.rdropWhile_last_not isSpace (cs.dropWhile isSpace) hne
    exact Bool.eq_false_iff.2 hnot

theorem trim_of_forall (h : ∀ c ∈ cs, isSpace c = false) : trim cs = cs :=
  trim_eq_self_iff.2 ⟨fun c hc => h c (List.mem_of_mem_head? hc),
    fun c hc => h c (List.mem_of_getLast? hc)⟩

theorem trim_eq_nil_iff : trim cs = [] ↔ ∀ c ∈ cs, isSpace c = true := by
  rw [trim_eq, List.rdropWhile_eq_nil_iff]
  constructor
  · intro h c hc
    cases hd : cs.dropWhile isSpace with
    | nil => exact List.dropWhile_eq_nil_iff.1 hd c hc
    | cons x xs =>
      have hx : isSpace x = false := by
        have hhead := List.head_dropWhile_not isSpace (l := cs) (by rw [hd]; nofun)
        simpa [hd] using hhead
      rw [h x (hd ▸ List.mem_cons_self)] at hx
      cases hx
  · intro h c hc
    exact h c ((List.dropWhile_sublist _).mem hc)

theorem trim_append_spaces (h : ∀ c ∈ spaces, isSpace c = true) :
    trim (cs ++ spaces) = trim cs := by
  rw [trim_eq, trim_eq, List.dropWhile_append]
  cases hd : cs.dropWhile isSpace with
  | nil =>
    have hspaces : spaces.dropWhile isSpace = [] := List.dropWhile_eq_nil_iff.2 h
    simp [hspaces]
  | cons x xs =>
    simp only [List.isEmpty_cons, Bool.false_eq_true, if_false]
    rw [List.rdropWhile, List.reverse_append, List.dropWhile_append_of_pos, List.rdropWhile]
    intro c hc
    exact h c (List.mem_reverse.1 hc)

theorem trim_spaces_append (h : ∀ c ∈ spaces, isSpace c = true) :
    trim (spaces ++ cs) = trim cs := by
  rw [trim_eq, List.dropWhile_append_of_pos h, ← trim_eq]

/-- Around a text that neither begins nor ends with a space, the spaces go. -/
theorem trim_append_append {before mid after : List Char} (hne : mid ≠ []) (h : trim mid = mid) :
    trim (before ++ mid ++ after) =
      before.dropWhile isSpace ++ mid ++ after.rdropWhile isSpace := by
  obtain ⟨hhead, hlast⟩ := trim_eq_self_iff.1 h
  have hdrop : ∀ l : List Char, l ≠ [] → (∀ c ∈ l.head?, isSpace c = false) →
      ∀ before : List Char, (before ++ l).dropWhile isSpace = before.dropWhile isSpace ++ l := by
    intro l hl hl' before
    obtain ⟨c, cs, rfl⟩ := List.exists_cons_of_ne_nil hl
    have hc : isSpace c = false := hl' c rfl
    rw [List.dropWhile_append]
    cases hd : before.dropWhile isSpace with
    | nil => simp [hc]
    | cons x xs => simp
  have hbody : (mid ++ after).head? = mid.head? := List.head?_append_of_ne_nil _ hne
  have hfront : (before ++ (mid ++ after)).dropWhile isSpace =
      before.dropWhile isSpace ++ (mid ++ after) := by
    refine hdrop _ (fun hnil => hne (List.append_eq_nil_iff.1 hnil).1) ?_ before
    rwa [hbody]
  let front := before.dropWhile isSpace ++ mid
  have hfrontLast : front.reverse.head? = mid.getLast? := by
    rw [List.head?_reverse, List.getLast?_append_of_ne_nil _ hne]
  have hback : (after.reverse ++ front.reverse).dropWhile isSpace =
      after.reverse.dropWhile isSpace ++ front.reverse := by
    refine hdrop _ (fun hnil => hne ?_) ?_ after.reverse
    · exact (List.append_eq_nil_iff.1 (List.reverse_eq_nil_iff.1 hnil)).2
    · rwa [hfrontLast]
  rw [trim_eq, List.append_assoc, hfront, ← List.append_assoc, List.rdropWhile,
    List.reverse_append, hback, List.reverse_append, List.reverse_reverse, List.rdropWhile]

end Trim

/-! ## Spaces between words -/

section Words

variable {cs : List Char}

theorem isSpace_space : isSpace ' ' = true := rfl

/-- Behind a space, the words stand with one space between them, and another may follow. -/
theorem collapseSpaces_true (cs : List Char) :
    ∃ spaces, (∀ c ∈ spaces, isSpace c = true) ∧
      collapseSpaces true cs = [' '].intercalate (words isSpace cs) ++ spaces := by
  induction cs with
  | nil => exact ⟨[], nofun, rfl⟩
  | cons c cs ih =>
    obtain ⟨spaces, hspaces, hcs⟩ := ih
    cases hc : isSpace c with
    | true =>
      refine ⟨spaces, hspaces, ?_⟩
      rw [collapseSpaces, if_pos hc, if_pos rfl, words_cons_of_pos hc, hcs]
    | false =>
      have hstep : collapseSpaces true (c :: cs) = c :: collapseSpaces false cs := by
        rw [collapseSpaces, hc, if_neg (by decide)]
      have hword : words isSpace [c] = [[c]] :=
        words_of_forall_neg (List.forall_mem_singleton.2 hc) (by simp)
      cases cs with
      | nil =>
        refine ⟨[], nofun, ?_⟩
        rw [hstep, hword, List.append_nil]
        rfl
      | cons d cs =>
        cases hd : isSpace d with
        | true =>
          have hrest : collapseSpaces false (d :: cs) = ' ' :: collapseSpaces true (d :: cs) := by
            simp [collapseSpaces, hd]
          have hsplit : words isSpace (c :: d :: cs) = [c] :: words isSpace (d :: cs) := by
            have happend : words isSpace (c :: d :: cs) = words isSpace [c] ++ words isSpace cs :=
              words_append_cons (a := [c]) hd
            rw [happend, hword, words_cons_of_pos hd, List.singleton_append]
          rw [hstep, hrest, hsplit, hcs]
          cases words isSpace (d :: cs) with
          | nil => exact ⟨' ' :: spaces, List.forall_mem_cons.2 ⟨rfl, hspaces⟩, rfl⟩
          | cons word rest =>
            refine ⟨spaces, hspaces, ?_⟩
            rw [List.intercalate_cons_cons]
            simp
        | false =>
          have hrest : collapseSpaces false (d :: cs) = collapseSpaces true (d :: cs) := by
            simp [collapseSpaces, hd]
          obtain ⟨word, rest, hwords, hcons⟩ := words_cons_cons (l := cs) hc hd
          refine ⟨spaces, hspaces, ?_⟩
          rw [hstep, hrest, hcs, hwords, hcons]
          cases rest <;> simp

/-- A text without the spaces that a page does not show is its words. -/
theorem trim_collapseSpaces (cs : List Char) :
    trim (collapseSpaces false cs) = [' '].intercalate (words isSpace cs) := by
  obtain ⟨spaces, hspaces, hcs⟩ := collapseSpaces_true cs
  have htrim : trim (collapseSpaces true cs) = [' '].intercalate (words isSpace cs) := by
    rw [hcs, trim_append_spaces hspaces, trim_eq_self_iff]
    exact ends_intercalate fun word hword => word_of_mem hword
  cases cs with
  | nil => rfl
  | cons c cs =>
    cases hc : isSpace c with
    | true =>
      have hfirst : collapseSpaces false (c :: cs) = [' '] ++ collapseSpaces true (c :: cs) := by
        simp [collapseSpaces, hc]
      rw [hfirst, trim_spaces_append (List.forall_mem_singleton.2 rfl), htrim]
    | false =>
      have hfirst : collapseSpaces false (c :: cs) = collapseSpaces true (c :: cs) := by
        simp [collapseSpaces, hc]
      rw [hfirst, htrim]

theorem trimmed_eq (text : String) :
    trimmed text = String.ofList ([' '].intercalate (words isSpace text.toList)) := by
  rw [trimmed, trim_collapseSpaces]

theorem words_trimmed (text : String) :
    words isSpace (trimmed text).toList = words isSpace text.toList := by
  rw [trimmed_eq, String.toList_ofList, words_intercalate_words isSpace_space]

theorem trimmed_trimmed (text : String) : trimmed (trimmed text) = trimmed text := by
  rw [trimmed_eq (trimmed text), words_trimmed, ← trimmed_eq]

end Words

/-! ## Lines -/

section Lines

variable {line rest : List Char}

theorem splitLines_line (h : '\n' ∉ line) : splitLines line = [line] := by
  induction line with
  | nil => rfl
  | cons c line ih =>
    have hc : '\n' ≠ c := List.ne_of_not_mem_cons h
    have hline : '\n' ∉ line := List.not_mem_of_not_mem_cons h
    rw [splitLines, ih hline]
    · intro cs _ hcs
      rw [hcs] at hline
      exact hline List.mem_cons_self
    · intro hcn
      exact hc hcn.symm

/-- The first line, without the line feed behind it. -/
theorem splitLines_append (h : '\n' ∉ line) (hlast : line.getLast? ≠ some '\r') :
    splitLines (line ++ '\n' :: rest) = line :: splitLines rest := by
  induction line with
  | nil => rw [List.nil_append, splitLines]
  | cons c line ih =>
    have hc : '\n' ≠ c := List.ne_of_not_mem_cons h
    have hline : '\n' ∉ line := List.not_mem_of_not_mem_cons h
    have hlast' : line.getLast? ≠ some '\r' := by
      intro hl
      cases line with
      | nil => cases hl
      | cons d line => exact hlast (by rw [List.getLast?_cons_cons, hl])
    rw [List.cons_append, splitLines, ih hline hlast']
    · intro cs hcr hcs
      cases line with
      | nil => exact hlast (by rw [hcr]; rfl)
      | cons d line =>
        rw [List.cons_append, List.cons.injEq] at hcs
        exact hline (hcs.1 ▸ List.mem_cons_self)
    · intro hcn
      exact hc hcn.symm

end Lines

theorem isSpace_of_isDigit {c : Char} (h : c.isDigit = true) : isSpace c = false := by
  have hrange := toNat_of_isDigit h
  simp only [isSpace, Bool.or_eq_false_iff, Bool.and_eq_false_iff, decide_eq_false_iff_not]
  omega

end LanguageLlm
