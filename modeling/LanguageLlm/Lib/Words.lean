import Mathlib.Algebra.GroupWithZero.Nat
import Mathlib.Data.List.Basic
import Mathlib.Data.List.Induction

/-!
# Words

The words of a list are the runs between its separators that are not empty. What reads a list word
by word does not see how many separators stand between two words.
-/

namespace LanguageLlm.Lib

variable {α β : Type} {p : α → Bool} {a b l word : List α} {c d sep : α}

/-- The runs of elements between separators. -/
def words (p : α → Bool) (l : List α) : List (List α) :=
  (l.splitOnP p).filter fun word => !word.isEmpty

@[simp]
theorem words_nil : words p [] = [] := rfl

theorem words_append_cons (hsep : p sep = true) :
    words p (a ++ sep :: b) = words p a ++ words p b := by
  rw [words, List.splitOnP_append_cons _ _ hsep, List.filter_append]
  rfl

theorem words_cons_of_pos (hsep : p sep = true) : words p (sep :: b) = words p b :=
  words_append_cons (a := []) hsep

theorem words_of_forall_neg (h : ∀ x ∈ l, p x = false) (hne : l ≠ []) : words p l = [l] := by
  rw [words, List.splitOnP_eq_singleton h, List.filter_cons_of_pos, List.filter_nil]
  simpa using hne

/-- An element in front of a word belongs to it. -/
theorem words_cons_cons (hc : p c = false) (hd : p d = false) :
    ∃ word rest, words p (d :: l) = word :: rest ∧ words p (c :: d :: l) = (c :: word) :: rest := by
  obtain ⟨run, runs, hruns⟩ := List.exists_cons_of_ne_nil (List.splitOnP_ne_nil p l)
  refine ⟨d :: run, runs.filter fun word => !word.isEmpty, ?_, ?_⟩
  · rw [words, List.splitOnP_cons_eq_if_modifyHead, if_neg (by simp [hd]), hruns]
    rfl
  · rw [words, List.splitOnP_cons_eq_if_modifyHead, if_neg (by simp [hc]),
      List.splitOnP_cons_eq_if_modifyHead, if_neg (by simp [hd]), hruns]
    rfl

/-- A word has elements, and none of them is a separator. -/
theorem word_of_mem (h : word ∈ words p l) : word ≠ [] ∧ ∀ x ∈ word, p x = false := by
  induction l generalizing word with
  | nil => cases h
  | cons c l ih =>
    cases hc : p c with
    | true =>
      rw [words_cons_of_pos hc] at h
      exact ih h
    | false =>
      cases l with
      | nil =>
        rw [words_of_forall_neg (by simpa using hc) (by simp), List.mem_singleton] at h
        subst h
        exact ⟨by simp, by simpa using hc⟩
      | cons d l =>
        cases hd : p d with
        | true =>
          have hsplit : words p (c :: d :: l) = words p [c] ++ words p l :=
            words_append_cons (a := [c]) hd
          rw [hsplit, words_of_forall_neg (by simpa using hc) (by simp), List.singleton_append,
            List.mem_cons] at h
          rcases h with rfl | h
          · exact ⟨by simp, by simpa using hc⟩
          · exact ih (by rwa [words_cons_of_pos hd])
        | false =>
          obtain ⟨first, rest, hwords, hcons⟩ := words_cons_cons (l := l) hc hd
          rw [hcons, List.mem_cons] at h
          rw [hwords] at ih
          rcases h with rfl | h
          · have hfirst := ih List.mem_cons_self
            exact ⟨by simp, List.forall_mem_cons.2 ⟨hc, hfirst.2⟩⟩
          · exact ih (List.mem_cons_of_mem _ h)

/-- The words of texts that are joined. -/
theorem words_intercalate (hsep : p sep = true) (l : List (List α)) :
    words p ([sep].intercalate l) = l.flatMap (words p) := by
  induction l with
  | nil => rfl
  | cons part l ih =>
    cases l with
    | nil => rw [List.intercalate_singleton, List.flatMap_singleton]
    | cons next l =>
      rw [List.intercalate_cons_cons, List.append_assoc, List.singleton_append,
        words_append_cons hsep, ih]
      rfl

/-- Words that are joined stay words. -/
theorem words_intercalate_words (hsep : p sep = true) (l : List α) :
    words p ([sep].intercalate (words p l)) = words p l := by
  have hword : ∀ word ∈ words p l, words p word = [word] := by
    intro word hmem
    obtain ⟨hne, hall⟩ := word_of_mem hmem
    exact words_of_forall_neg hall hne
  rw [words_intercalate hsep, List.flatMap_congr hword, List.flatMap_singleton']

/-- Joined words neither begin nor end with a separator. -/
theorem ends_intercalate {l : List (List α)} (h : ∀ w ∈ l, w ≠ [] ∧ ∀ x ∈ w, p x = false) :
    (∀ x ∈ ([sep].intercalate l).head?, p x = false) ∧
      ∀ x ∈ ([sep].intercalate l).getLast?, p x = false := by
  induction l with
  | nil => exact ⟨nofun, nofun⟩
  | cons word l ih =>
    obtain ⟨⟨hne, hword⟩, hl⟩ := List.forall_mem_cons.1 h
    cases l with
    | nil =>
      rw [List.intercalate_singleton]
      exact ⟨fun x hx => hword x (List.mem_of_head? hx),
        fun x hx => hword x (List.mem_of_getLast? hx)⟩
    | cons next l =>
      have hrest : [sep].intercalate (next :: l) ≠ [] := by
        have hnext := (List.forall_mem_cons.1 hl).1.1
        cases l with
        | nil => simpa using hnext
        | cons _ _ => simp [List.intercalate_cons_cons]
      rw [List.intercalate_cons_cons, List.append_assoc, List.head?_append_of_ne_nil _ hne,
        ← List.append_assoc, List.getLast?_append_of_ne_nil _ hrest]
      exact ⟨fun x hx => hword x (List.mem_of_head? hx), (ih hl).2⟩

/-! ## Reading a join from its end -/

/-- The last separator of a text is where a part without separators ends it. -/
theorem append_cons_inj {a' b' : List α} (hb : sep ∉ b) (hb' : sep ∉ b')
    (h : a ++ sep :: b = a' ++ sep :: b') : a = a' ∧ b = b' := by
  rcases List.append_eq_append_iff.1 h with ⟨gap, rfl, hgap⟩ | ⟨gap, rfl, hgap⟩ <;> cases gap with
  | nil => simpa [eq_comm] using hgap
  | cons c gap =>
    rw [List.cons_append, List.cons.injEq] at hgap
    simp [hgap.2] at hb hb'

theorem intercalate_cons (part : List α) (l : List (List α)) :
    [sep].intercalate (part :: l) = part ++ l.flatMap (sep :: ·) := by
  induction l generalizing part with
  | nil => simp
  | cons next l ih =>
    rw [List.intercalate_cons_cons, ih, List.flatMap_cons]
    simp

/-- When all parts but the first are without separators, a join tells its parts. -/
theorem intercalate_cons_inj {first first' : List α} {l l' : List (List α)}
    (hl : ∀ part ∈ l, sep ∉ part) (hl' : ∀ part ∈ l', sep ∉ part) (hlength : l.length = l'.length)
    (h : [sep].intercalate (first :: l) = [sep].intercalate (first' :: l')) :
    first = first' ∧ l = l' := by
  rw [intercalate_cons, intercalate_cons] at h
  induction l using List.reverseRecOn generalizing l' with
  | nil =>
    obtain rfl := List.length_eq_zero_iff.1 hlength.symm
    exact ⟨by simpa using h, rfl⟩
  | append_singleton l part ih =>
    rcases List.eq_nil_or_concat l' with rfl | ⟨l', part', rfl⟩
    · simp at hlength
    · rw [List.concat_eq_append] at hl' hlength h ⊢
      rw [List.length_append, List.length_append] at hlength
      simp only [List.flatMap_append, List.flatMap_singleton, ← List.append_assoc] at h
      obtain ⟨hfront, rfl⟩ := append_cons_inj (hl part (by simp)) (hl' part' (by simp)) h
      obtain ⟨rfl, rfl⟩ := ih (fun x hx => hl x (List.mem_append_left _ hx))
        (fun x hx => hl' x (List.mem_append_left _ hx)) (Nat.add_right_cancel hlength) hfront
      exact ⟨rfl, rfl⟩

/-! ## Joins of parts with separators -/

section Count

variable [DecidableEq α]

theorem append_cons_inj_of_count {a' b' : List α} (hcount : a.count sep = a'.count sep)
    (h : a ++ sep :: b = a' ++ sep :: b') : a = a' ∧ b = b' := by
  rcases List.append_eq_append_iff.1 h with ⟨gap, rfl, hgap⟩ | ⟨gap, rfl, hgap⟩ <;> cases gap with
  | nil => simpa [eq_comm] using hgap
  | cons c gap =>
    rw [List.cons_append, List.cons.injEq] at hgap
    simp [← hgap.1] at hcount

/-- A join tells its parts when it is known how many separators each has. -/
theorem intercalate_inj_of_count {l l' : List (List α)}
    (hcount : l.map (List.count sep) = l'.map (List.count sep))
    (h : [sep].intercalate l = [sep].intercalate l') : l = l' := by
  induction l generalizing l' with
  | nil => exact (List.map_eq_nil_iff.1 hcount.symm).symm
  | cons part l ih =>
    cases l' with
    | nil => cases hcount
    | cons part' l' =>
      rw [List.map_cons, List.map_cons, List.cons.injEq] at hcount
      obtain ⟨hpart, hl⟩ := hcount
      cases l with
      | nil =>
        obtain rfl := List.map_eq_nil_iff.1 hl.symm
        simpa using h
      | cons next l =>
        cases l' with
        | nil => cases hl
        | cons next' l' =>
          rw [List.intercalate_cons_cons, List.intercalate_cons_cons, List.append_assoc,
            List.append_assoc] at h
          obtain ⟨rfl, hrest⟩ := append_cons_inj_of_count hpart h
          rw [ih hl hrest]

/-- The separators of a join are those of the parts and those between them. -/
theorem count_intercalate {l : List (List α)} (hne : l ≠ []) :
    ([sep].intercalate l).count sep + 1 = (l.map (List.count sep)).sum + l.length := by
  induction l with
  | nil => exact absurd rfl hne
  | cons part l ih =>
    cases l with
    | nil => simp
    | cons next l =>
      have hrest := ih (List.cons_ne_nil _ _)
      rw [List.intercalate_cons_cons, List.count_append, List.count_append,
        List.count_singleton_self, List.map_cons, List.sum_cons, List.length_cons]
      omega

/-- A join, cut at its separators, is the pieces of its parts. -/
theorem splitOn_intercalate_flatMap {l : List (List α)} (hne : l ≠ []) :
    ([sep].intercalate l).splitOn sep = l.flatMap fun part => part.splitOn sep := by
  induction l with
  | nil => exact absurd rfl hne
  | cons part l ih =>
    cases l with
    | nil => simp
    | cons next l =>
      rw [List.intercalate_cons_cons, List.append_assoc, List.singleton_append, List.flatMap_cons,
        ← ih (List.cons_ne_nil _ _)]
      simp only [List.splitOn_eq_splitOnP]
      exact List.splitOnP_append_cons _ _ (beq_self_eq_true sep)

/-- Two joins are the same when their parts have the same pieces. -/
theorem intercalate_eq_iff {l l' : List (List α)} (hne : l ≠ []) (hne' : l' ≠ []) :
    [sep].intercalate l = [sep].intercalate l' ↔
      (l.flatMap fun part => part.splitOn sep) = l'.flatMap fun part => part.splitOn sep := by
  rw [← splitOn_intercalate_flatMap hne, ← splitOn_intercalate_flatMap hne']
  constructor
  · intro h
    rw [h]
  · intro h
    have hjoin : [sep].intercalate (([sep].intercalate l).splitOn sep) = [sep].intercalate l :=
      List.intercalate_splitOn sep
    rw [h, List.intercalate_splitOn] at hjoin
    exact hjoin.symm

end Count

end LanguageLlm.Lib
