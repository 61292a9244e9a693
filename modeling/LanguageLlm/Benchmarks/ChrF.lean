import LanguageLlm.Benchmarks.Metrics
import LanguageLlm.Lib.Bags

/-!
# chrF

The character n-gram score of `metrics.ts`. The n-grams of a text are a bag for every order, and a
pass of the loop adds the shares that the two bags have of each other (`Sums.add`). The sums stay
between zero and the number of the orders that count, so that the score is a mean of shares.
-/

namespace LanguageLlm.Benchmarks

open Lib
open PageTranslate (codeUnits)

/-! ## The score -/

def ngrams (text : List Nat) (n : Nat) : OrderedMap (List Nat) Nat :=
  if text.length < n then .empty
  else
    forLoop 0 (text.length - n + 1) (fun i map =>
      let g := (text.drop i).take n
      map.set g ((map.get? g).getD 0 + 1)) .empty

def totalCount (map : OrderedMap (List Nat) Nat) : Nat := map.values.sum

def intersectCount (a b : OrderedMap (List Nat) Nat) : Nat :=
  (a.entries.map fun e => ((b.get? e.1).map (min e.2)).getD 0).sum

/-- A division by zero gives `NaN` or an infinity, which are no rationals. -/
def quotient (a b : Rat) : Option Rat := if b = 0 then none else some (a / b)

/-- `total === 0 ? 0 : overlap / total`. -/
def ratio (overlap total : Nat) : Option Rat :=
  if total = 0 then some 0 else quotient overlap total

/-- The variables of the loop of `chrF`. -/
structure Sums where
  precisionSum : Rat
  recallSum : Rat
  used : Nat

/-- A pass of the loop of `chrF`. -/
def chrFOrder (ref hyp : List Nat) (s : Sums) (order : Nat) : Option Sums :=
  let refGrams := ngrams ref order
  let hypGrams := ngrams hyp order
  if refGrams.entries.length = 0 ∧ hypGrams.entries.length = 0 then some s
  else do
    let overlap := intersectCount refGrams hypGrams
    let hypTotal := totalCount hypGrams
    let refTotal := totalCount refGrams
    let precisionRatio ← ratio overlap hypTotal
    let recallRatio ← ratio overlap refTotal
    some
      { precisionSum := s.precisionSum + precisionRatio
        recallSum := s.recallSum + recallRatio
        used := s.used + 1 }

/-- `normalizeWhitespace(text).replace(/ /g, "")`, as code units. -/
def compared (toLowerCase : String → String) (text : String) : List Nat :=
  codeUnits (String.ofList ((normalizeWhitespace toLowerCase text).filter (· ≠ ' ')))

/-- `none` when a division by zero occurs. -/
def chrF (toLowerCase : String → String) (reference hypothesis : String) (n : Nat := 6) :
    Option Rat :=
  let ref := compared toLowerCase reference
  let hyp := compared toLowerCase hypothesis
  if ref.length = 0 ∧ hyp.length = 0 then some 1
  else if ref.length = 0 ∨ hyp.length = 0 then some 0
  else do
    let s ← (List.range' 1 n).foldlM (chrFOrder ref hyp)
      { precisionSum := 0, recallSum := 0, used := 0 }
    if s.used = 0 then some 0
    else do
      let precisionMean ← quotient s.precisionSum s.used
      let recallMean ← quotient s.recallSum s.used
      if precisionMean + recallMean = 0 then some 0
      else quotient (2 * precisionMean * recallMean) (precisionMean + recallMean)

/-! ## The bags of an order -/

/-- The n-grams of a text, from left to right. -/
def grams (text : List Nat) (n : Nat) : List (List Nat) :=
  (List.range (text.length + 1 - n)).map fun i => (text.drop i).take n

theorem ngrams_eq (text : List Nat) (n : Nat) : ngrams text n = tally (grams text n) := by
  unfold ngrams grams
  split
  · next h =>
    have hnone : text.length + 1 - n = 0 := by omega
    rw [hnone]
    rfl
  · next h =>
    have hcount : text.length - n + 1 = text.length + 1 - n := by omega
    rw [hcount, forLoop, Nat.sub_zero, tally, List.foldl_map, List.range_eq_range']
    rfl

theorem totalCount_ngrams (text : List Nat) (n : Nat) :
    totalCount (ngrams text n) = (grams text n : Multiset (List Nat)).card := by
  rw [totalCount, ngrams_eq, sum_values_tally, Multiset.coe_card]

theorem intersectCount_ngrams (ref hyp : List Nat) (n : Nat) :
    intersectCount (ngrams ref n) (ngrams hyp n) =
      ((grams ref n : Multiset (List Nat)) ∩ (grams hyp n : Multiset (List Nat))).card := by
  rw [intersectCount, ngrams_eq, ngrams_eq, sum_overlap_tally]

theorem size_ngrams (text : List Nat) (n : Nat) :
    (ngrams text n).entries.length = 0 ↔ (grams text n : Multiset (List Nat)) = 0 := by
  rw [List.length_eq_zero_iff, ngrams_eq, entries_tally_eq_nil, Multiset.coe_eq_zero]

/-- A text that is not empty has grams of the first order. -/
theorem grams_one_ne {text : List Nat} (h : text.length ≠ 0) :
    (grams text 1 : Multiset (List Nat)) ≠ 0 := by
  intro hzero
  have hlength := congrArg Multiset.card hzero
  rw [Multiset.coe_card, grams, List.length_map, List.length_range, Nat.add_sub_cancel] at hlength
  exact h hlength

/-! ## A pass -/

/-- The sums after an order with the bags `ref` and `hyp`. -/
def Sums.add (s : Sums) (ref hyp : Multiset (List Nat)) : Sums :=
  if ref = 0 ∧ hyp = 0 then s
  else
    { precisionSum := s.precisionSum + share hyp ref
      recallSum := s.recallSum + share ref hyp
      used := s.used + 1 }

theorem ratio_eq (overlap total : Nat) : ratio overlap total = some ((overlap : Rat) / total) := by
  unfold ratio
  split
  · next h => rw [h, Nat.cast_zero, div_zero]
  · next h => rw [quotient, if_neg (Nat.cast_ne_zero.2 h)]

theorem chrFOrder_eq (ref hyp : List Nat) (s : Sums) (order : Nat) :
    chrFOrder ref hyp s order = some (s.add (grams ref order) (grams hyp order)) := by
  unfold chrFOrder Sums.add
  simp only [size_ngrams, ratio_eq, totalCount_ngrams, intersectCount_ngrams]
  split
  · rfl
  · rw [share, share, Multiset.inter_comm (grams hyp order : Multiset (List Nat))]
    rfl

/-- The sums after the orders up to `n`. -/
def sums (ref hyp : List Nat) (n : Nat) : Sums :=
  (List.range' 1 n).foldl (fun s order => s.add (grams ref order) (grams hyp order))
    { precisionSum := 0, recallSum := 0, used := 0 }

/-- What `chrF` makes of its sums. -/
def Sums.score (s : Sums) : Rat := harmonicMean (s.precisionSum / s.used) (s.recallSum / s.used)

theorem score_eq (s : Sums) :
    (if s.used = 0 then some 0
      else do
        let precisionMean ← quotient s.precisionSum s.used
        let recallMean ← quotient s.recallSum s.used
        if precisionMean + recallMean = 0 then some 0
        else quotient (2 * precisionMean * recallMean) (precisionMean + recallMean)) =
      some s.score := by
  unfold Sums.score harmonicMean
  by_cases hused : s.used = 0
  · rw [if_pos hused, hused, Nat.cast_zero, div_zero, div_zero, add_zero, div_zero]
  · have hne : (s.used : Rat) ≠ 0 := Nat.cast_ne_zero.2 hused
    rw [if_neg hused, quotient, quotient, if_neg hne, if_neg hne]
    generalize s.precisionSum / s.used = p
    generalize s.recallSum / s.used = r
    change (if p + r = 0 then some 0 else quotient (2 * p * r) (p + r)) = _
    split
    · next hsum => rw [hsum, div_zero]
    · next hsum => rw [quotient, if_neg hsum, mul_assoc, two_mul]

/-- The similarity of two texts that are given by their code units. -/
def similarity (ref hyp : List Nat) (n : Nat) : Rat :=
  if ref.length = 0 ∧ hyp.length = 0 then 1
  else if ref.length = 0 ∨ hyp.length = 0 then 0
  else (sums ref hyp n).score

/-- No division by zero occurs. -/
theorem chrF_eq (toLowerCase : String → String) (reference hypothesis : String) (n : Nat) :
    chrF toLowerCase reference hypothesis n =
      some (similarity (compared toLowerCase reference) (compared toLowerCase hypothesis) n) := by
  unfold chrF similarity
  generalize compared toLowerCase reference = ref
  generalize compared toLowerCase hypothesis = hyp
  dsimp only
  split
  · rfl
  · split
    · rfl
    · have hloop : (List.range' 1 n).foldlM (chrFOrder ref hyp)
          { precisionSum := 0, recallSum := 0, used := 0 } = some (sums ref hyp n) := by
        rw [funext₂ (chrFOrder_eq ref hyp)]
        exact List.foldlM_pure
      rw [hloop]
      exact score_eq (sums ref hyp n)

/-! ## Bounds and symmetry -/

/-- The sums of shares lie between zero and the number of the orders. -/
structure Sums.Bounded (s : Sums) : Prop where
  precision_nonneg : 0 ≤ s.precisionSum
  precision_le : s.precisionSum ≤ s.used
  recall_nonneg : 0 ≤ s.recallSum
  recall_le : s.recallSum ≤ s.used

theorem Sums.Bounded.add {s : Sums} (h : s.Bounded) (ref hyp : Multiset (List Nat)) :
    (s.add ref hyp).Bounded := by
  unfold Sums.add
  split
  · exact h
  · constructor
    · exact add_nonneg h.precision_nonneg (share_nonneg hyp ref)
    · push_cast
      exact add_le_add h.precision_le (share_le_one hyp ref)
    · exact add_nonneg h.recall_nonneg (share_nonneg ref hyp)
    · push_cast
      exact add_le_add h.recall_le (share_le_one ref hyp)

theorem bounded_sums (ref hyp : List Nat) (n : Nat) : (sums ref hyp n).Bounded :=
  List.foldlRecOn _ _ ⟨le_rfl, Nat.cast_nonneg _, le_rfl, Nat.cast_nonneg _⟩
    fun _ hs order _ => hs.add (grams ref order) (grams hyp order)

theorem Sums.Bounded.score_mem {s : Sums} (h : s.Bounded) : 0 ≤ s.score ∧ s.score ≤ 1 := by
  have hused : (0 : Rat) ≤ s.used := Nat.cast_nonneg _
  have hprecision : 0 ≤ s.precisionSum / s.used := div_nonneg h.precision_nonneg hused
  have hrecall : 0 ≤ s.recallSum / s.used := div_nonneg h.recall_nonneg hused
  have hprecision' : s.precisionSum / s.used ≤ 1 := div_le_one_of_le₀ h.precision_le hused
  have hrecall' : s.recallSum / s.used ≤ 1 := div_le_one_of_le₀ h.recall_le hused
  exact ⟨harmonicMean_nonneg hprecision hrecall,
    harmonicMean_le_one hprecision hrecall hprecision' hrecall'⟩

/-- The sums for the other order of the texts. -/
def Sums.swap (s : Sums) : Sums :=
  { precisionSum := s.recallSum, recallSum := s.precisionSum, used := s.used }

theorem Sums.swap_add (s : Sums) (ref hyp : Multiset (List Nat)) :
    s.swap.add hyp ref = (s.add ref hyp).swap := by
  unfold Sums.add
  simp only [and_comm (a := hyp = 0)]
  split <;> rfl

theorem sums_swap (ref hyp : List Nat) (n : Nat) : sums hyp ref n = (sums ref hyp n).swap := by
  let zero : Sums := { precisionSum := 0, recallSum := 0, used := 0 }
  change (List.range' 1 n).foldl (fun s order => s.add (grams hyp order) (grams ref order))
    zero.swap = ((List.range' 1 n).foldl (fun s order => s.add (grams ref order) (grams hyp order))
      zero).swap
  exact List.foldl_hom Sums.swap fun s order => s.swap_add (grams ref order) (grams hyp order)

theorem Sums.score_swap (s : Sums) : s.swap.score = s.score := harmonicMean_comm _ _

/-! ## Equal texts -/

/-- Every order that counts has counted in full. -/
structure Sums.Full (s : Sums) : Prop where
  precision_eq : s.precisionSum = s.used
  recall_eq : s.recallSum = s.used

theorem Sums.Full.add {s : Sums} (h : s.Full) (bag : Multiset (List Nat)) :
    (s.add bag bag).Full := by
  unfold Sums.add
  split
  · exact h
  · next hne =>
    have hshare : share bag bag = 1 := share_self fun hzero => hne ⟨hzero, hzero⟩
    constructor
    · push_cast
      rw [h.precision_eq, hshare]
    · push_cast
      rw [h.recall_eq, hshare]

theorem full_sums (text : List Nat) (n : Nat) : (sums text text n).Full :=
  List.foldlRecOn _ _ ⟨rfl, rfl⟩ fun _ hs order _ => hs.add (grams text order)

theorem Sums.used_le_add (s : Sums) (ref hyp : Multiset (List Nat)) :
    s.used ≤ (s.add ref hyp).used := by
  unfold Sums.add
  split
  · exact Nat.le_refl _
  · exact Nat.le_succ _

/-- The first order counts. -/
theorem used_sums_ne_zero {ref : List Nat} (hyp : List Nat) {n : Nat} (href : ref.length ≠ 0)
    (hn : 1 ≤ n) : (sums ref hyp n).used ≠ 0 := by
  obtain ⟨n, rfl⟩ := Nat.exists_eq_add_of_le' hn
  rw [sums, List.range'_succ, List.foldl_cons]
  refine Nat.one_le_iff_ne_zero.1 (List.foldlRecOn (motive := fun s : Sums => 1 ≤ s.used) _ _ ?_ ?_)
  · rw [Sums.add, if_neg fun h => grams_one_ne href h.1]
  · intro s hs order _
    exact hs.trans (s.used_le_add (grams ref order) (grams hyp order))

theorem Sums.Full.score_eq_one {s : Sums} (h : s.Full) (hused : s.used ≠ 0) : s.score = 1 := by
  have hne : (s.used : Rat) ≠ 0 := Nat.cast_ne_zero.2 hused
  rw [Sums.score, h.precision_eq, h.recall_eq, div_self hne, harmonicMean_one]

/-! ## The score is a similarity -/

section

variable (ref hyp : List Nat)

theorem similarity_mem (n : Nat) : 0 ≤ similarity ref hyp n ∧ similarity ref hyp n ≤ 1 := by
  unfold similarity
  split
  · exact ⟨zero_le_one, le_rfl⟩
  · split
    · exact ⟨le_rfl, zero_le_one⟩
    · exact (bounded_sums ref hyp n).score_mem

theorem similarity_comm (n : Nat) : similarity ref hyp n = similarity hyp ref n := by
  unfold similarity
  rw [sums_swap ref hyp, Sums.score_swap]
  simp only [and_comm, or_comm]

theorem similarity_self (text : List Nat) {n : Nat} (hn : 1 ≤ n) : similarity text text n = 1 := by
  unfold similarity
  split
  · rfl
  · next hboth =>
    have hne : text.length ≠ 0 := fun hzero => hboth ⟨hzero, hzero⟩
    rw [if_neg (not_or.2 ⟨hne, hne⟩)]
    exact (full_sums text n).score_eq_one (used_sums_ne_zero text hne hn)

end

/-- The score is defined, lies between zero and one, does not depend on the order of the texts, and
is one for texts that are equal after normalisation. -/
theorem chrF_similarity (toLowerCase : String → String) (r h : String) {n : Nat} (hn : 1 ≤ n) :
    (∃ score, chrF toLowerCase r h n = some score ∧ 0 ≤ score ∧ score ≤ 1) ∧
      chrF toLowerCase r h n = chrF toLowerCase h r n ∧
      (compared toLowerCase r = compared toLowerCase h → chrF toLowerCase r h n = some 1) := by
  refine ⟨⟨_, chrF_eq toLowerCase r h n, similarity_mem _ _ n⟩, ?_, fun heq => ?_⟩
  · rw [chrF_eq, chrF_eq, similarity_comm]
  · rw [chrF_eq, heq, similarity_self _ hn]

/-- Spaces do not count. -/
theorem chrF_similarity_spaces :
    (∃ score, chrF id "a b" " ab" 2 = some score ∧ 0 ≤ score ∧ score ≤ 1) ∧
      chrF id "a b" " ab" 2 = chrF id " ab" "a b" 2 ∧ chrF id "a b" " ab" 2 = some 1 := by
  obtain ⟨hmem, hcomm, heq⟩ := chrF_similarity id "a b" " ab" (n := 2) (by decide)
  exact ⟨hmem, hcomm, heq (by decide)⟩

/-- An order of which one text has no grams counts. -/
example : chrF id "ab" "a" 2 = some (1 / 3) := by decide +kernel

end LanguageLlm.Benchmarks
