import Mathlib.Tactic.IntervalCases
import LanguageLlm.JsText

/-!
# Tone marks

`numberedToToneMarked` of `chinese.ts` marks the first vowel of a fixed order. The rule of pinyin
goes by the places of the vowels; `followsRule_iff` says on which syllables the two are the same.
-/

namespace LanguageLlm.LanguageKits

open PageTranslate (isSpace trim)

/-! ## The code -/

/-- `TONE_MAP`. -/
def toneMap : Char → Option (List Char)
  | 'a' => some ['a', 'ā', 'á', 'ǎ', 'à']
  | 'e' => some ['e', 'ē', 'é', 'ě', 'è']
  | 'i' => some ['i', 'ī', 'í', 'ǐ', 'ì']
  | 'o' => some ['o', 'ō', 'ó', 'ǒ', 'ò']
  | 'u' => some ['u', 'ū', 'ú', 'ǔ', 'ù']
  | 'v' => some ['ü', 'ǖ', 'ǘ', 'ǚ', 'ǜ']
  | 'ü' => some ['ü', 'ǖ', 'ǘ', 'ǚ', 'ǜ']
  | _ => none

/-- `[a-züv]` in either case. -/
def isPinyinLetter (c : Char) : Bool := c.isAlpha || c = 'ü' || c = 'Ü'

/-- The groups of `/^([a-züv]+)([1-5])$/i`. -/
def numberedMatch (cs : List Char) : Option (List Char × Char) :=
  match cs.reverse with
  | [] => none
  | digit :: back =>
    if back ≠ [] ∧ back.all isPinyinLetter ∧ digit ∈ ['1', '2', '3', '4', '5'] then
      some (back.reverse, digit)
    else none

/-- `toLowerCase` on these letters. -/
def lowerLetter (c : Char) : Char := if c = 'Ü' then 'ü' else c.toLower

/-- The letters of a syllable in lower case, with `v` as `ü`. -/
def baseOf (syllable : List Char) : List Char :=
  (syllable.map lowerLetter).map fun c => if c = 'v' then 'ü' else c

/-- The vowels in the order in which the loop looks for them. -/
def vowelOrder : List Char := ['a', 'o', 'e', 'i', 'u', 'ü']

/-- The loop of `numberedToToneMarked`. -/
def markFirst (tone : Nat) (base : List Char) : List Char → List Char
  | [] => base
  | vowel :: order =>
    match base.idxOf? vowel with
    | none => markFirst tone base order
    | some idx =>
      match toneMap vowel with
      | none => markFirst tone base order
      | some tones => base.take idx ++ tones[tone]?.getD vowel :: base.drop (idx + 1)

def numberedToToneMarked (syllable : List Char) : List Char :=
  match numberedMatch (trim syllable) with
  | none => syllable
  | some (letters, digit) =>
    let base := baseOf letters
    let tone := digit.toNat - '0'.toNat
    if tone = 5 then base else markFirst tone base vowelOrder

example : numberedToToneMarked "Zhong1".toList = "zhōng".toList := by decide +kernel

/-! ## The rule -/

def isVowel (c : Char) : Bool := vowelOrder.contains c

/-- A vowel with the mark of a tone. -/
def toned (tone : Nat) (c : Char) : Char := ((toneMap c).bind fun tones => tones[tone]?).getD c

/-- No vowel stands behind a place. -/
def NoVowelAfter (w : List Char) (i : Nat) : Prop := ∀ c ∈ w.drop (i + 1), isVowel c = false

/-- The places where the rule puts the mark: `a` or `e`, or else the `o` of `ou`, or else the last
vowel. -/
def RulePlace (w : List Char) (i : Nat) : Prop :=
  if 'a' ∈ w ∨ 'e' ∈ w then w[i]? = some 'a' ∨ w[i]? = some 'e'
  else if ['o', 'u'] <:+: w then w[i]? = some 'o' ∧ w[i + 1]? = some 'u'
  else ∃ c, w[i]? = some c ∧ isVowel c = true ∧ NoVowelAfter w i

/-- A text is the syllable with the mark at a place of the rule and all other letters as they are,
or the syllable itself when it has no vowel. -/
def FollowsRule (w : List Char) (tone : Nat) (marked : List Char) : Prop :=
  (∃ i c, RulePlace w i ∧ w[i]? = some c ∧ marked = w.set i (toned tone c)) ∨
    (∀ c ∈ w, isVowel c = false) ∧ marked = w

/-! ## Which vowel is marked -/

variable {w : List Char} {tone i : Nat} {v : Char}

theorem mem_vowelOrder (h : isVowel v = true) : v ∈ vowelOrder := by
  simpa [isVowel] using h

theorem exists_toneMap : ∀ v ∈ vowelOrder, ∃ tones, toneMap v = some tones := by
  simp [vowelOrder, toneMap]

/-- A tone of the four changes a vowel. -/
theorem toned_ne (h1 : 1 ≤ tone) (h4 : tone ≤ 4) : ∀ v ∈ vowelOrder, toned tone v ≠ v := by
  interval_cases tone <;> simp [vowelOrder, toned, toneMap]

theorem idxOf?_eq (h : v ∈ w) : w.idxOf? v = some (w.idxOf v) := by
  induction w with
  | nil => cases h
  | cons c w ih =>
    rw [List.idxOf?_cons, List.idxOf_cons]
    by_cases hc : c = v
    · simp [hc]
    · have hbeq : (c == v) = false := beq_eq_false_iff_ne.2 hc
      rw [hbeq, ih (List.mem_of_ne_of_mem (Ne.symm hc) h)]
      rfl

/-- The loop marks the first place of the first vowel of the order that the syllable has. -/
theorem markFirst_eq {order : List Char} (horder : ∀ v ∈ order, v ∈ vowelOrder) :
    markFirst tone w order =
      (order.find? fun v => v ∈ w).elim w fun v => w.set (w.idxOf v) (toned tone v) := by
  induction order with
  | nil => rfl
  | cons v order ih =>
    obtain ⟨hv, horder⟩ := List.forall_mem_cons.1 horder
    rw [markFirst]
    by_cases hmem : v ∈ w
    · obtain ⟨tones, htones⟩ := exists_toneMap v hv
      have hlt : w.idxOf v < w.length := List.idxOf_lt_length_of_mem hmem
      rw [idxOf?_eq hmem, List.find?_cons_of_pos (by simpa using hmem)]
      simp only [htones, Option.elim_some, toned, Option.bind_some]
      rw [List.set_eq_take_append_cons_drop, if_pos hlt]
    · rw [List.idxOf?_eq_none_iff.2 hmem, List.find?_cons_of_neg (by simpa using hmem)]
      exact ih horder

/-- Marks at two places are told apart. -/
theorem set_toned_inj {i j : Nat} {c : Char} (hi : w[i]? = some v) (hv : toned tone v ≠ v)
    (h : w.set i (toned tone v) = w.set j (toned tone c)) : i = j := by
  by_contra hne
  have hget := congrArg (fun l => l[i]?) h
  obtain ⟨hlt, -⟩ := List.getElem?_eq_some_iff.1 hi
  simp only [List.getElem?_set_self hlt, List.getElem?_set_ne (Ne.symm hne), hi] at hget
  exact hv (Option.some.inj hget)

/-- The first vowel of the order that a syllable has. -/
def firstOfOrder (w : List Char) : Option Char := vowelOrder.find? fun v => v ∈ w

theorem firstOfOrder_eq_none_iff : firstOfOrder w = none ↔ ∀ c ∈ w, isVowel c = false := by
  rw [firstOfOrder, List.find?_eq_none]
  constructor
  · intro h c hc
    by_contra hvowel
    exact h c (mem_vowelOrder (by simpa using hvowel)) (by simpa using hc)
  · intro h v hv hmem
    have hc := h v (by simpa using hmem)
    simp [isVowel, hv] at hc

theorem firstOfOrder_mem (h : firstOfOrder w = some v) : v ∈ vowelOrder ∧ v ∈ w :=
  ⟨List.mem_of_find?_eq_some h, by simpa using List.find?_some h⟩

/-- The mark of the loop follows the rule when its place does. -/
theorem followsRule_markFirst_iff (h1 : 1 ≤ tone) (h4 : tone ≤ 4) :
    FollowsRule w tone (markFirst tone w vowelOrder) ↔
      ∀ v, firstOfOrder w = some v → RulePlace w (w.idxOf v) := by
  rw [markFirst_eq fun v hv => hv]
  change FollowsRule w tone ((firstOfOrder w).elim w _) ↔ _
  cases hfirst : firstOfOrder w with
  | none => exact iff_of_true (Or.inr ⟨firstOfOrder_eq_none_iff.1 hfirst, rfl⟩) nofun
  | some v =>
    obtain ⟨hv, hmem⟩ := firstOfOrder_mem hfirst
    have hget : w[w.idxOf v]? = some v := List.getElem?_idxOf hmem
    constructor
    · intro hrule v' hv'
      cases hv'
      rcases hrule with ⟨j, c, hplace, -, hset⟩ | ⟨hnone, -⟩
      · rw [set_toned_inj hget (toned_ne h1 h4 v hv) hset]
        exact hplace
      · rw [firstOfOrder_eq_none_iff.2 hnone] at hfirst
        cases hfirst
    · intro hplace
      exact Or.inl ⟨_, v, hplace v rfl, hget, rfl⟩

/-! ## Where the order agrees with the rule -/

/-- When the vowel that the loop marks stands where the rule puts the mark: an `a` always, an `e`
always (then there is no `o`), an `o` when there is no `e` and `u` or no vowel at all follows, and
`i`, `u` or `ü` when no vowel follows. -/
def OrderAgrees (w : List Char) : Prop :=
  match firstOfOrder w with
  | none | some 'a' | some 'e' => True
  | some 'o' => 'e' ∉ w ∧ (w[w.idxOf 'o' + 1]? = some 'u' ∨ NoVowelAfter w (w.idxOf 'o'))
  | some v => NoVowelAfter w (w.idxOf v)

theorem rulePlace_last_iff (ha : 'a' ∉ w) (he : 'e' ∉ w) (hou : ¬ ['o', 'u'] <:+: w) (hv : v ∈ w)
    (hvowel : isVowel v = true) : RulePlace w (w.idxOf v) ↔ NoVowelAfter w (w.idxOf v) := by
  rw [RulePlace, if_neg (not_or.2 ⟨ha, he⟩), if_neg hou, List.getElem?_idxOf hv]
  constructor
  · rintro ⟨c, -, -, hafter⟩
    exact hafter
  · intro hafter
    exact ⟨v, rfl, hvowel, hafter⟩

theorem ou_infix_iff : ['o', 'u'] <:+: w ↔ ∃ k, w[k]? = some 'o' ∧ w[k + 1]? = some 'u' := by
  constructor
  · rintro ⟨before, after, rfl⟩
    exact ⟨before.length, by simp, by simp⟩
  · rintro ⟨k, ho, hu⟩
    obtain ⟨hk, hgeto⟩ := List.getElem?_eq_some_iff.1 ho
    obtain ⟨hk', hgetu⟩ := List.getElem?_eq_some_iff.1 hu
    refine ⟨w.take k, w.drop (k + 2), ?_⟩
    have hdrop : w.drop k = 'o' :: 'u' :: w.drop (k + 2) := by
      rw [List.drop_eq_getElem_cons hk, hgeto, List.drop_eq_getElem_cons hk', hgetu]
    rw [List.append_assoc, List.cons_append, List.cons_append, List.nil_append, ← hdrop,
      List.take_append_drop]

/-- Where `ou` occurs and `u` does not follow the first `o`, a vowel does. -/
theorem not_noVowelAfter (hou : ['o', 'u'] <:+: w) (hnext : w[w.idxOf 'o' + 1]? ≠ some 'u') :
    ¬ NoVowelAfter w (w.idxOf 'o') := by
  intro hafter
  obtain ⟨k, ho, hu⟩ := ou_infix_iff.1 hou
  obtain ⟨hk, hget⟩ := List.getElem?_eq_some_iff.1 ho
  obtain ⟨_, -, hfirst⟩ :=
    List.idxOf?_eq_some_iff.1 (idxOf?_eq (List.mem_of_getElem hget))
  have hle : w.idxOf 'o' ≤ k := Nat.le_of_not_lt fun hlt => hfirst k hlt hget
  have hne : w.idxOf 'o' ≠ k := by
    intro heq
    rw [heq] at hnext
    exact hnext hu
  have hmem : 'o' ∈ w.drop (w.idxOf 'o' + 1) := by
    rw [List.mem_iff_getElem?]
    refine ⟨k - (w.idxOf 'o' + 1), ?_⟩
    rw [List.getElem?_drop, Nat.add_sub_cancel' (by omega), ho]
  simpa [isVowel, vowelOrder] using hafter 'o' hmem

theorem rulePlace_o_iff (ha : 'a' ∉ w) (ho : 'o' ∈ w) : RulePlace w (w.idxOf 'o') ↔
    'e' ∉ w ∧ (w[w.idxOf 'o' + 1]? = some 'u' ∨ NoVowelAfter w (w.idxOf 'o')) := by
  have hget : w[w.idxOf 'o']? = some 'o' := List.getElem?_idxOf ho
  by_cases he : 'e' ∈ w
  · refine iff_of_false ?_ fun h => h.1 he
    rw [RulePlace, if_pos (Or.inr he), hget]
    simp
  · rw [and_iff_right he]
    by_cases hou : ['o', 'u'] <:+: w
    · rw [RulePlace, if_neg (not_or.2 ⟨ha, he⟩), if_pos hou, and_iff_right hget]
      refine ⟨Or.inl, fun h => ?_⟩
      by_contra hnext
      exact not_noVowelAfter hou hnext (h.resolve_left hnext)
    · rw [rulePlace_last_iff ha he hou ho rfl]
      exact ⟨Or.inr, fun h => h.resolve_left fun hnext => hou (ou_infix_iff.2 ⟨_, hget, hnext⟩)⟩

/-- The vowels of the order before one that is found are not in the syllable. -/
theorem firstOfOrder_cases (h : firstOfOrder w = some v) :
    v = 'a' ∨ v = 'o' ∧ 'a' ∉ w ∨ v = 'e' ∧ 'a' ∉ w ∧ 'o' ∉ w ∨
      (v ≠ 'a' ∧ v ≠ 'o' ∧ v ≠ 'e') ∧ 'a' ∉ w ∧ 'e' ∉ w ∧ 'o' ∉ w := by
  have hmem : v ∈ w := (firstOfOrder_mem h).2
  simp only [firstOfOrder, vowelOrder, List.find?_cons] at h
  by_cases ha : 'a' ∈ w
  · simp only [ha, decide_true, Option.some.injEq] at h
    exact Or.inl h.symm
  by_cases ho : 'o' ∈ w
  · simp only [ha, ho, decide_true, decide_false, Option.some.injEq] at h
    exact Or.inr (Or.inl ⟨h.symm, ha⟩)
  by_cases he : 'e' ∈ w
  · simp only [ha, ho, he, decide_true, decide_false, Option.some.injEq] at h
    exact Or.inr (Or.inr (Or.inl ⟨h.symm, ha, ho⟩))
  · refine Or.inr (Or.inr (Or.inr ⟨?_, ha, he, ho⟩))
    exact ⟨ne_of_mem_of_not_mem hmem ha, ne_of_mem_of_not_mem hmem ho,
      ne_of_mem_of_not_mem hmem he⟩

theorem rulePlace_iff (h : firstOfOrder w = some v) :
    RulePlace w (w.idxOf v) ↔ OrderAgrees w := by
  obtain ⟨hv, hmem⟩ := firstOfOrder_mem h
  have hget : w[w.idxOf v]? = some v := List.getElem?_idxOf hmem
  rw [OrderAgrees, h]
  rcases firstOfOrder_cases h with rfl | ⟨rfl, ha⟩ | ⟨rfl, ha, ho⟩ | ⟨⟨hna, hno, hne⟩, ha, he, ho⟩
  · refine iff_of_true ?_ trivial
    rw [RulePlace, if_pos (Or.inl hmem)]
    exact Or.inl hget
  · exact rulePlace_o_iff ha hmem
  · refine iff_of_true ?_ trivial
    rw [RulePlace, if_pos (Or.inr hmem)]
    exact Or.inr hget
  · have hou : ¬ ['o', 'u'] <:+: w := fun hou => ho (hou.subset List.mem_cons_self)
    rw [rulePlace_last_iff ha he hou hmem (by simpa [isVowel] using hv)]
    split
    · next heq => cases heq
    · next heq => exact absurd (Option.some.inj heq) hna
    · next heq => exact absurd (Option.some.inj heq) hne
    · next heq => exact absurd (Option.some.inj heq) hno
    · next heq => rw [Option.some.inj heq]

/-! ## The syllables with a number -/

theorem numberedMatch_append {syllable : List Char} {digit : Char} (hne : syllable ≠ [])
    (hletters : ∀ c ∈ syllable, isPinyinLetter c = true)
    (hdigit : digit ∈ ['1', '2', '3', '4', '5']) :
    numberedMatch (syllable ++ [digit]) = some (syllable, digit) := by
  rw [numberedMatch, List.reverse_append, List.reverse_singleton, List.singleton_append]
  simp only
  rw [if_pos, List.reverse_reverse]
  refine ⟨by simpa using hne, ?_, hdigit⟩
  rw [List.all_reverse]
  exact List.all_eq_true.2 hletters

theorem isSpace_of_isPinyinLetter {c : Char} (h : isPinyinLetter c = true) : isSpace c = false := by
  have hisAlpha : c.isAlpha = (decide (c.val ≥ 'A'.val ∧ c.val ≤ 'Z'.val) ||
      (decide (c.val ≥ 'a'.val) && decide (c.val ≤ 'z'.val))) := rfl
  simp only [isPinyinLetter, hisAlpha, Bool.or_eq_true, decide_eq_true_eq, Bool.and_eq_true,
    ge_iff_le, UInt32.le_iff_toNat_le] at h
  rcases h with (hletter | rfl) | rfl
  · have hrange : (65 ≤ c.toNat ∧ c.toNat ≤ 90) ∨ (97 ≤ c.toNat ∧ c.toNat ≤ 122) := hletter
    simp only [isSpace, Bool.or_eq_false_iff, Bool.and_eq_false_iff, decide_eq_false_iff_not]
    omega
  · rfl
  · rfl

/-- The digit of a tone. -/
def toneDigit (tone : Nat) : Char := Char.ofNat (48 + tone)

/-- What the code makes of a syllable with the number of a tone. -/
theorem numberedToToneMarked_append {syllable : List Char} (hne : syllable ≠ [])
    (hletters : ∀ c ∈ syllable, isPinyinLetter c = true) (h1 : 1 ≤ tone) (h4 : tone ≤ 4) :
    numberedToToneMarked (syllable ++ [toneDigit tone]) =
      markFirst tone (baseOf syllable) vowelOrder := by
  have hdigit : toneDigit tone ∈ ['1', '2', '3', '4', '5'] ∧ isSpace (toneDigit tone) = false ∧
      (toneDigit tone).toNat - '0'.toNat = tone := by
    interval_cases tone <;> decide
  obtain ⟨hdigits, hspace, hnumber⟩ := hdigit
  have htrim : trim (syllable ++ [toneDigit tone]) = syllable ++ [toneDigit tone] := by
    refine trim_of_forall fun c hc => ?_
    rcases List.mem_append.1 hc with hc | hc
    · exact isSpace_of_isPinyinLetter (hletters c hc)
    · rw [List.mem_singleton.1 hc, hspace]
  have hfive : ¬ tone = 5 := by omega
  rw [numberedToToneMarked, htrim, numberedMatch_append hne hletters hdigits]
  simp only [hnumber, hfive, if_false]

end LanguageLlm.LanguageKits
