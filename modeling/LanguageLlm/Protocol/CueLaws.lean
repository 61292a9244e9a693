import LanguageLlm.Protocol.CueMath

/-!
# Merging cues in steps

Cues may be merged with a small gap before they are merged with a larger one, and a timeline may be
merged piece by piece: `mergeAdjacentCues_steps` says that the result is the same.
-/

namespace LanguageLlm.Protocol

open Lib PageTranslate

section Steps

variable {τ : Type} [LinearOrder τ] {xs ys : List (SpokenCue τ)} {c : SpokenCue τ}

/-! ## Sorting -/

theorem orderedInsert_append (hc : ∀ b ∈ ys, c.startMs ≤ b.startMs) :
    (xs ++ ys).orderedInsert (fun a b : SpokenCue τ => a.startMs ≤ b.startMs) c =
      xs.orderedInsert (fun a b : SpokenCue τ => a.startMs ≤ b.startMs) c ++ ys := by
  induction xs with
  | nil =>
    cases ys with
    | nil => rfl
    | cons b ys =>
      have hb := hc b List.mem_cons_self
      rw [List.nil_append, List.orderedInsert_cons, if_pos hb]
      rfl
  | cons a xs ih =>
    rw [List.cons_append, List.orderedInsert_cons, List.orderedInsert_cons]
    split
    · rfl
    · rw [ih, List.cons_append]

/-- What starts earlier is sorted apart. -/
theorem sortedByStart_append (h : ∀ a ∈ xs, ∀ b ∈ ys, a.startMs ≤ b.startMs) :
    sortedByStart (xs ++ ys) = sortedByStart xs ++ sortedByStart ys := by
  induction xs with
  | nil => rfl
  | cons a xs ih =>
    obtain ⟨ha, hxs⟩ := List.forall_mem_cons.1 h
    have hsorted : sortedByStart (xs ++ ys) = sortedByStart xs ++ sortedByStart ys := ih hxs
    have hperm : ∀ b ∈ sortedByStart ys, a.startMs ≤ b.startMs := fun b hb =>
      ha b ((List.perm_insertionSort _ ys).mem_iff.1 hb)
    exact (congrArg _ hsorted).trans (orderedInsert_append hperm)

/-! ## Merging -/

theorem text_absorb (a b : SpokenCue τ) :
    (a.absorb b).text = String.ofList ([' '].intercalate
      (words isSpace a.text.toList ++ words isSpace b.text.toList)) := by
  have hself : (a.absorb b).text = trimmed (a.absorb b).text := by
    rw [SpokenCue.absorb, trimmed_trimmed]
  rw [hself, trimmed_eq, words_absorb]

theorem absorb_assoc (a b c : SpokenCue τ) : (a.absorb b).absorb c = a.absorb (b.absorb c) := by
  have htext : ((a.absorb b).absorb c).text = (a.absorb (b.absorb c)).text := by
    rw [text_absorb (a.absorb b) c, text_absorb a (b.absorb c), words_absorb, words_absorb,
      List.append_assoc]
  have hend : max (max a.endMs b.endMs) c.endMs = max a.endMs (max b.endMs c.endMs) :=
    max_assoc ..
  have hspeaker : ((a.speaker <|> b.speaker) <|> c.speaker) =
      (a.speaker <|> (b.speaker <|> c.speaker)) := by
    cases a.speaker <;> rfl
  have hall : (a.absorb b).absorb c =
      { a with
        endMs := max (max a.endMs b.endMs) c.endMs
        text := ((a.absorb b).absorb c).text
        speaker := (a.speaker <|> b.speaker) <|> c.speaker } := rfl
  rw [hall, hend, htext, hspeaker]
  rfl

variable [AddCommGroup τ]

theorem refines_adjacent [IsOrderedAddMonoid τ] {gap gap' : τ} (h : gap ≤ gap') :
    Refines (SpokenCue.adjacent gap) (SpokenCue.adjacent gap') SpokenCue.absorb where
  assoc := absorb_assoc
  first _ _ _ := rfl
  eager a b hjoins := by
    rw [SpokenCue.adjacent, decide_eq_true_eq] at hjoins ⊢
    exact hjoins.trans h
  behind a b c hjoins := by
    rw [SpokenCue.adjacent, decide_eq_true_eq] at hjoins ⊢
    refine le_trans (sub_le_sub_left ?_ _) hjoins
    exact le_max_right _ _

variable [OfNat τ 80]

/-- The merged cues are sorted, and each starts as one of the cues does. -/
theorem starts_mergeAdjacentCues (cues : List (SpokenCue τ)) (gap : τ) :
    (mergeAdjacentCues cues gap).Pairwise (fun a b => a.startMs ≤ b.startMs) ∧
      ∀ c ∈ mergeAdjacentCues cues gap, ∃ c' ∈ cues, c'.startMs = c.startMs := by
  have hsorted : (sortedByStart cues).Pairwise fun a b => a.startMs ≤ b.startMs :=
    List.pairwise_insertionSort (fun a b : SpokenCue τ => a.startMs ≤ b.startMs) cues
  have hsub := map_mergeRuns_sublist (SpokenCue.adjacent gap) SpokenCue.absorb
    (fun c : SpokenCue τ => c.startMs) (fun _ _ => rfl) (sortedByStart cues)
  constructor
  · exact List.pairwise_map.1 ((List.pairwise_map.2 hsorted).sublist hsub)
  · intro c hc
    obtain ⟨c', hc', heq⟩ := List.mem_map.1 (hsub.mem (List.mem_map_of_mem hc))
    exact ⟨c', (List.perm_insertionSort _ cues).mem_iff.1 hc', heq⟩

theorem sortedByStart_mergeAdjacentCues (cues : List (SpokenCue τ)) (gap : τ) :
    sortedByStart (mergeAdjacentCues cues gap) = mergeAdjacentCues cues gap :=
  sortedByStart_of_pairwise (starts_mergeAdjacentCues cues gap).1

variable [IsOrderedAddMonoid τ]

/-- Merging with one gap and then with another is merging with the larger one; and cues that start
before others may be merged with each other first, as the others may, with gaps that are not
larger. -/
theorem mergeAdjacentCues_steps (cues : List (SpokenCue τ)) (gap gap' : τ) :
    mergeAdjacentCues (mergeAdjacentCues cues gap) gap' = mergeAdjacentCues cues (max gap gap') ∧
      ∀ xs ys, (∀ a ∈ xs, ∀ b ∈ ys, a.startMs ≤ b.startMs) → gap ≤ gap' →
        mergeAdjacentCues (mergeAdjacentCues xs gap ++ mergeAdjacentCues ys gap) gap' =
          mergeAdjacentCues (xs ++ ys) gap' := by
  have hparts : ∀ xs ys : List (SpokenCue τ), (∀ a ∈ xs, ∀ b ∈ ys, a.startMs ≤ b.startMs) →
      gap ≤ gap' →
      mergeAdjacentCues (mergeAdjacentCues xs gap ++ mergeAdjacentCues ys gap) gap' =
        mergeAdjacentCues (xs ++ ys) gap' := by
    intro xs ys h hle
    have hmerged : ∀ a ∈ mergeAdjacentCues xs gap, ∀ b ∈ mergeAdjacentCues ys gap,
        a.startMs ≤ b.startMs := by
      intro a ha b hb
      obtain ⟨a', ha', hstart⟩ := (starts_mergeAdjacentCues xs gap).2 a ha
      obtain ⟨b', hb', hstart'⟩ := (starts_mergeAdjacentCues ys gap).2 b hb
      rw [← hstart, ← hstart']
      exact h a' ha' b' hb'
    rw [mergeAdjacentCues, sortedByStart_append hmerged, sortedByStart_mergeAdjacentCues,
      sortedByStart_mergeAdjacentCues, mergeAdjacentCues, mergeAdjacentCues,
      mergeRuns_append_mergeRuns (refines_adjacent hle), mergeAdjacentCues, sortedByStart_append h]
  refine ⟨?_, hparts⟩
  rcases le_total gap gap' with hle | hle
  · have hone := hparts cues [] (fun _ _ _ hb => absurd hb List.not_mem_nil) hle
    have hnil : mergeAdjacentCues ([] : List (SpokenCue τ)) gap = [] := rfl
    rw [hnil, List.append_nil, List.append_nil] at hone
    rwa [max_eq_right hle]
  · rw [max_eq_left hle, mergeAdjacentCues, sortedByStart_mergeAdjacentCues]
    refine mergeRuns_of_isChain ?_
    have hapart : (mergeAdjacentCues cues gap).IsChain fun a b => a.adjacent gap b = false :=
      isChain_mergeRuns fun _ _ _ => rfl
    refine hapart.imp fun a b hgap => ?_
    rw [SpokenCue.adjacent, decide_eq_false_iff_not, not_le] at hgap ⊢
    exact hle.trans_lt hgap

/-- Three cues, 20 ms and 100 ms apart. -/
def threeCues : List (SpokenCue ℤ) :=
  [⟨⟨"a", 0, 400, "so", .asr⟩, none⟩, ⟨⟨"b", 420, 700, "it  goes", .asr⟩, some "A"⟩,
    ⟨⟨"c", 800, 900, "on", .asr⟩, none⟩]

theorem mergeAdjacentCues_steps_three :
    mergeAdjacentCues (mergeAdjacentCues threeCues 30) 120 = mergeAdjacentCues threeCues 120 ∧
      mergeAdjacentCues (mergeAdjacentCues (threeCues.take 2) 30 ++
        mergeAdjacentCues (threeCues.drop 2) 30) 120 = mergeAdjacentCues threeCues 120 := by
  obtain ⟨htwice, hparts⟩ := mergeAdjacentCues_steps threeCues 30 120
  refine ⟨htwice, ?_⟩
  exact hparts (threeCues.take 2) (threeCues.drop 2) (by decide) (by decide)

end Steps

end LanguageLlm.Protocol
