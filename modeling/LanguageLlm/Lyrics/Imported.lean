import LanguageLlm.Lyrics.Parse

/-!
# Imported lyrics

Which files give a timeline that the players can use. The starts of an LRC file are digits, and they
are sorted; those of a plain text count on. The begin clocks of a TTML file are read as they stand
(`importedLyrics_usable_iff`).
-/

namespace LanguageLlm.Lyrics.Import

open Lib Lib.Matcher LanguageKits PageTranslate Protocol Rounding

/-- Finite integer times, the end after the start, and the starts in order. -/
structure Usable (timeline : TimelineOf JsNumber) : Prop where
  times : ∀ c ∈ timeline.cues, ∃ first last : Int, c.startMs = .fin first ∧ c.endMs = .fin last ∧
    0 ≤ first ∧ first < last
  sorted : timeline.cues.Pairwise fun a b => a.startMs.le b.startMs = true

/-! ## Starts -/

/-- The least that a line is shown, the last one longer than the others. -/
def shownMs (starts : List JsNumber) (i : Nat) : Nat := if i + 1 < starts.length then 200 else 3000

/-- Starts that make a usable timeline: finite, not negative and in order, and small enough that a
line can end after its start. -/
structure Playable (R : Rounding) (starts : List JsNumber) : Prop where
  finite : ∀ s ∈ starts, ∃ q : Rat, s = .fin q ∧ 0 ≤ q
  sorted : starts.Pairwise fun a b => a.le b = true
  ends : ∀ i s, starts[i]? = some s → ∃ q : Rat, R.add s (.fin (shownMs starts i)) = .fin q ∧
    (s.lt (.fin q) = true ∨ ∃ next, starts[i + 1]? = some next ∧ s.lt next = true)

/-- Natural numbers in order that doubles have. -/
theorem playable_of_nat {R : Rounding} {starts : List JsNumber}
    (hnat : ∀ s ∈ starts, ∃ n : Nat, s = .fin n ∧ n + 3000 ≤ 2 ^ 53)
    (hsorted : starts.Pairwise fun a b => a.le b = true) : Playable R starts where
  finite s hs := by
    obtain ⟨n, rfl, -⟩ := hnat s hs
    exact ⟨n, rfl, Nat.cast_nonneg n⟩
  sorted := hsorted
  ends i s hs := by
    obtain ⟨n, rfl, hn⟩ := hnat s (List.mem_of_getElem? hs)
    have hshown : 200 ≤ shownMs starts i ∧ shownMs starts i ≤ 3000 := by
      unfold shownMs
      split_ifs <;> omega
    refine ⟨(n + shownMs starts i : Nat), add_nat (by omega), Or.inl ?_⟩
    rw [JsNumber.lt_fin, Nat.cast_lt]
    omega

/-! ## The timeline of lines -/

section Timeline

variable {R : Rounding} {lines : List ParsedLine} {numberText : JsNumber → String}
  {videoId : String} {provenance : Provenance}

/-- Lines with integer starts, if they are finite. -/
def IntegerStarts (lines : List ParsedLine) : Prop :=
  ∀ l ∈ lines, ∀ q, l.startMs = .fin q → ∃ n : Int, q = n

theorem map_startMs_cues :
    (linesToTimeline R numberText videoId lines provenance).cues.map CueOf.startMs =
      lines.map ParsedLine.startMs := by
  refine List.ext_getElem? fun i => ?_
  rw [linesToTimeline, List.getElem?_map, List.getElem?_mapIdx, List.getElem?_map]
  cases lines[i]? <;> rfl

/-- The times of the cues, line by line. -/
theorem forall_cues {P : JsNumber → JsNumber → Prop} :
    (∀ c ∈ (linesToTimeline R numberText videoId lines provenance).cues,
      P c.startMs c.endMs) ↔
      ∀ i l, lines[i]? = some l → P l.startMs (endOf R lines i l) := by
  constructor
  · intro h i l hl
    refine h (cueOfLine R numberText videoId lines provenance i l)
      (List.mem_of_getElem? (i := i) ?_)
    rw [linesToTimeline, List.getElem?_mapIdx, hl]
    rfl
  · intro h c hc
    obtain ⟨i, hi⟩ := List.mem_iff_getElem?.1 hc
    rw [linesToTimeline, List.getElem?_mapIdx, Option.map_eq_some_iff] at hi
    obtain ⟨l, hl, rfl⟩ := hi
    exact h i l hl

theorem shownMs_eq (i : Nat) :
    shownMs (lines.map ParsedLine.startMs) i = if (lines[i + 1]?).isSome then 200 else 3000 := by
  rw [shownMs, List.length_map]
  cases hnext : lines[i + 1]? with
  | none => rw [if_neg (not_lt.2 (List.getElem?_eq_none_iff.1 hnext)), Option.isSome_none]; rfl
  | some next => rw [if_pos (List.getElem?_eq_some_iff.1 hnext).1, Option.isSome_some]; rfl

/-- What is added to a start that is not negative is finite or too large. -/
theorem add_cases {a b : Rat} (h : 0 ≤ a + b) :
    (∃ q, R.add (.fin a) (.fin b) = .fin q) ∨ R.add (.fin a) (.fin b) = .infinite false := by
  have hnonneg := R.nonneg (a + b) h
  rw [add]
  cases hround : R.round (a + b) with
  | nan => rw [hround] at hnonneg; cases hnonneg
  | infinite negative =>
    rw [hround] at hnonneg
    cases negative with
    | false => exact Or.inr rfl
    | true => cases hnonneg
  | fin q => exact Or.inl ⟨q, rfl⟩

theorem max_fin (a b : Rat) : (JsNumber.fin a).max (.fin b) = .fin (max a b) := by
  rw [JsNumber.max, if_neg (by simp)]
  simp only [JsNumber.lt_fin]
  split_ifs with h
  · rw [max_eq_right h.le]
  · rw [max_eq_left (not_lt.1 h)]

/-- The end of a line with a finite start is an integer after it exactly when the starts say so. -/
theorem endOf_iff {i first : Nat} {l : ParsedLine} (hl : l.startMs = .fin first)
    (hnext : ∀ next, lines[i + 1]? = some next → ∃ n : Nat, next.startMs = .fin n) :
    (∃ last : Int, endOf R lines i l = .fin last ∧ (first : Int) < last) ↔
      ∃ q : Rat, R.add l.startMs (.fin (shownMs (lines.map ParsedLine.startMs) i)) = .fin q ∧
        (l.startMs.lt (.fin q) = true ∨
          ∃ next, (lines.map ParsedLine.startMs)[i + 1]? = some next ∧
            l.startMs.lt next = true) := by
  rw [shownMs_eq, List.getElem?_map, hl, endOf]
  cases hn : lines[i + 1]? with
  | none =>
    simp only [Option.isSome_none, Bool.false_eq_true, if_false, Option.map_none, reduceCtorEq,
      false_and, exists_false, or_false, hl, JsNumber.lt_fin]
    constructor
    · rintro ⟨last, hend, hlt⟩
      exact ⟨last, by simpa using hend, by exact_mod_cast hlt⟩
    · rintro ⟨q, hadd, hlt⟩
      obtain ⟨m, rfl⟩ := R.whole (first + 3000 : Nat) q (by simpa [add] using hadd)
      exact ⟨m, by simpa using hadd, by exact_mod_cast hlt⟩
  | some next =>
    obtain ⟨n, hstart⟩ := hnext next hn
    simp only [Option.isSome_some, if_true, Nat.cast_ofNat, Option.map_some, Option.some.injEq,
      hl, hstart, JsNumber.lt_fin, exists_eq_left']
    constructor
    · rintro ⟨last, hend, hlt⟩
      have hsum : (0 : Rat) ≤ first + 200 := by positivity
      rcases add_cases (R := R) hsum with ⟨q, hadd⟩ | hadd
      · rw [hadd, max_fin, JsNumber.fin.injEq] at hend
        have hlt' : (first : Rat) < max (n : Rat) q := by
          rw [hend]
          exact_mod_cast hlt
        exact ⟨q, hadd, (lt_max_iff.1 hlt').symm⟩
      · rw [hadd] at hend
        cases hend
    · rintro ⟨q, hadd, hlt⟩
      obtain ⟨m, rfl⟩ := R.whole (first + 200 : Nat) q (by simpa [add] using hadd)
      refine ⟨max n m, ?_, ?_⟩
      · have hadd' : R.add (.fin first) (.fin 200) = .fin m := by simpa using hadd
        rw [hadd', max_fin]
        push_cast
        rfl
      · have hlt' : (first : Rat) < max (n : Rat) m := lt_max_iff.2 hlt.symm
        exact_mod_cast hlt'

/-- Finite starts that are not negative are natural numbers. -/
theorem exists_nat (h : IntegerStarts lines) {l : ParsedLine} (hl : l ∈ lines)
    (hfinite : ∃ q : Rat, l.startMs = .fin q ∧ 0 ≤ q) : ∃ n : Nat, l.startMs = .fin n := by
  obtain ⟨q, hq, hnonneg⟩ := hfinite
  obtain ⟨n, rfl⟩ := h l hl q hq
  refine ⟨n.toNat, ?_⟩
  rw [hq, ← Int.cast_natCast, Int.toNat_of_nonneg (by exact_mod_cast hnonneg)]

theorem usable_iff_playable (h : IntegerStarts lines) :
    Usable (linesToTimeline R numberText videoId lines provenance) ↔
      Playable R (lines.map ParsedLine.startMs) := by
  have hcues := @forall_cues R lines numberText videoId provenance fun s e => ∃ first last : Int,
    s = .fin first ∧ e = .fin last ∧ 0 ≤ first ∧ first < last
  have hnat : (∀ l ∈ lines, ∃ q : Rat, l.startMs = .fin q ∧ 0 ≤ q) → ∀ i next,
      lines[i + 1]? = some next → ∃ n : Nat, next.startMs = .fin n :=
    fun hfinite i next hnext => exists_nat h (List.mem_of_getElem? hnext)
      (hfinite next (List.mem_of_getElem? hnext))
  constructor
  · intro husable
    have htimes := hcues.1 husable.times
    have hfinite : ∀ l ∈ lines, ∃ q : Rat, l.startMs = .fin q ∧ 0 ≤ q := by
      intro l hl
      obtain ⟨i, hi⟩ := List.mem_iff_getElem?.1 hl
      obtain ⟨first, last, hfirst, -, hpos, -⟩ := htimes i l hi
      exact ⟨first, hfirst, by exact_mod_cast hpos⟩
    refine ⟨?_, ?_, ?_⟩
    · intro s hs
      obtain ⟨l, hl, rfl⟩ := List.mem_map.1 hs
      exact hfinite l hl
    · rw [← @map_startMs_cues R lines numberText videoId provenance, List.pairwise_map]
      exact husable.sorted
    · intro i s hs
      rw [List.getElem?_map, Option.map_eq_some_iff] at hs
      obtain ⟨l, hl, rfl⟩ := hs
      obtain ⟨n, hn⟩ := exists_nat h (List.mem_of_getElem? hl) (hfinite l (List.mem_of_getElem? hl))
      obtain ⟨first, last, hfirst, hend, hpos, hlt⟩ := htimes i l hl
      refine (endOf_iff hn (hnat hfinite i)).1 ⟨last, hend, ?_⟩
      rw [hn] at hfirst
      have heq : (n : Rat) = first := JsNumber.fin.inj hfirst
      have hcast : (n : Int) = first := by exact_mod_cast heq
      rw [hcast]
      exact hlt
  · intro hplayable
    have hfinite : ∀ l ∈ lines, ∃ q : Rat, l.startMs = .fin q ∧ 0 ≤ q :=
      fun l hl => hplayable.finite _ (List.mem_map_of_mem hl)
    refine ⟨hcues.2 fun i l hl => ?_, ?_⟩
    · obtain ⟨n, hn⟩ := exists_nat h (List.mem_of_getElem? hl) (hfinite l (List.mem_of_getElem? hl))
      have hs : (lines.map ParsedLine.startMs)[i]? = some l.startMs := by
        rw [List.getElem?_map, hl]
        rfl
      obtain ⟨last, hend, hlt⟩ := (endOf_iff hn (hnat hfinite i)).2 (hplayable.ends i _ hs)
      exact ⟨n, last, by simpa using hn, hend, Int.natCast_nonneg n, hlt⟩
    · have hsorted := hplayable.sorted
      rwa [← @map_startMs_cues R lines numberText videoId provenance, List.pairwise_map] at hsorted

end Timeline

/-! ## The three formats -/

theorem integerStarts_parseTtml (R : Rounding) (content : String) :
    IntegerStarts (parseTtml R content) := by
  have hround : ∀ a q, JsNumber.mathRound a = .fin q → ∃ n : Int, q = n := by
    intro a q h
    cases a with
    | nan => cases h
    | infinite negative => cases h
    | fin p => exact ⟨_, (JsNumber.fin.inj h).symm⟩
  intro l hl q hq
  obtain ⟨p, -, rfl⟩ := List.mem_map.1 hl
  dsimp only [parseClock] at hq
  split_ifs at hq
  · exact hround _ q hq
  · exact hround _ q hq

theorem integerStarts_parsePlain (R : Rounding) (content : String) :
    IntegerStarts (parsePlain R content) := by
  intro l hl q hq
  obtain ⟨i, hi⟩ := List.mem_iff_getElem?.1 hl
  rw [parsePlain, List.getElem?_mapIdx, Option.map_eq_some_iff] at hi
  obtain ⟨text, -, rfl⟩ := hi
  exact R.whole (i * 3000 : Nat) q (by simpa using hq)

/-- The numbers of a time tag. -/
theorem digits_of_mem_timeTag {m : List Char × List Char × Option (List Char)} {c c' : Cursor}
    (h : (m, c') ∈ timeTag c) :
    ((∀ x ∈ m.1, x.isDigit = true) ∧ 1 ≤ m.1.length ∧ m.1.length ≤ 2) ∧
      ((∀ x ∈ m.2.1, x.isDigit = true) ∧ 2 ≤ m.2.1.length ∧ m.2.1.length ≤ 2) ∧
        ∀ frac ∈ m.2.2, (∀ x ∈ frac, x.isDigit = true) ∧ 1 ≤ frac.length ∧ frac.length ≤ 3 := by
  obtain ⟨_, c₁, -, h⟩ := mem_bind.1 h
  obtain ⟨mm, c₂, hmm, h⟩ := mem_bind.1 h
  obtain ⟨_, c₃, -, h⟩ := mem_bind.1 h
  obtain ⟨ss, c₄, hss, h⟩ := mem_bind.1 h
  obtain ⟨frac, c₅, hfrac, h⟩ := mem_bind.1 h
  obtain ⟨_, c₆, -, h⟩ := mem_bind.1 h
  obtain ⟨rfl, -⟩ := Prod.mk.inj (mem_pure.1 h)
  obtain ⟨-, hmmd, -, hmm1, hmm2⟩ := mem_greedy.1 hmm
  obtain ⟨-, hssd, -, hss2, hss2'⟩ := mem_greedy.1 hss
  refine ⟨⟨hmmd, hmm1, hmm2 2 rfl⟩, ⟨hssd, hss2, hss2' 2 rfl⟩, fun digits hdigits => ?_⟩
  rcases mem_opt.1 hfrac with ⟨digits', hdigits', hmem⟩ | hnone
  · obtain ⟨_, c₇, -, hmem⟩ := mem_bind.1 hmem
    obtain ⟨-, hd, -, hd1, hd3⟩ := mem_greedy.1 hmem
    obtain rfl : digits' = digits := Option.some.inj (hdigits'.symm.trans hdigits)
    exact ⟨hd, hd1, hd3 3 rfl⟩
  · cases (Prod.mk.inj hnone).1.symm.trans hdigits

/-- A few digits. -/
theorem number_lt {R : Rounding} {digits : List Char} {width : Nat}
    (h : ∀ x ∈ digits, x.isDigit = true) (hpos : 1 ≤ digits.length) (hle : digits.length ≤ width)
    (hwidth : width ≤ 3) : ∃ n : Nat, R.number digits = .fin n ∧ n < 10 ^ width := by
  have hlt := ofDigitChars_lt h 0
  have hpow : 10 ^ digits.length ≤ 10 ^ width := Nat.pow_le_pow_right (by omega) hle
  have hthousand : 10 ^ width ≤ 10 ^ 3 := Nat.pow_le_pow_right (by omega) hwidth
  refine ⟨Nat.ofDigitChars 10 digits 0, ?_, by omega⟩
  rw [number_digits h (List.ne_nil_of_length_pos hpos), round_nat (by omega)]

theorem threeDigits_spec {frac : List Char} (h : ∀ x ∈ frac, x.isDigit = true)
    (hpos : 1 ≤ frac.length) (hle : frac.length ≤ 3) :
    (∀ x ∈ threeDigits frac, x.isDigit = true) ∧ (threeDigits frac).length = 3 := by
  have hzero : ('0' : Char).isDigit = true := rfl
  match frac with
  | [] => simp at hpos
  | [a] => exact ⟨by simpa [threeDigits, hzero] using h, rfl⟩
  | [a, b] => exact ⟨by simpa [threeDigits, hzero] using h, rfl⟩
  | [a, b, c] => exact ⟨by simpa [threeDigits] using h, rfl⟩
  | a :: b :: c :: d :: frac =>
    simp only [List.length_cons] at hle
    omega

theorem fractionMs_nat {R : Rounding} {frac : Option (List Char)}
    (h : ∀ f ∈ frac, (∀ x ∈ f, x.isDigit = true) ∧ 1 ≤ f.length ∧ f.length ≤ 3) :
    ∃ n : Nat, fractionMs R frac = .fin n ∧ n < 10 ^ 3 := by
  rw [fractionMs]
  cases hf : frac.getD [] with
  | nil => exact ⟨0, by rw [Nat.cast_zero], by omega⟩
  | cons c cs =>
    have hfrac : c :: cs ∈ frac := by
      cases frac with
      | none => cases hf
      | some f => exact congrArg some hf
    obtain ⟨hdigits, hpos, hle⟩ := h _ hfrac
    obtain ⟨hthree, hlength⟩ := threeDigits_spec hdigits hpos hle
    exact number_lt hthree (by omega) hlength.le le_rfl

/-- A time tag stands for less than 100 minutes and 100 seconds. -/
theorem parseTimestampMs_nat {R : Rounding} {m : List Char × List Char × Option (List Char)}
    {c c' : Cursor} (h : (m, c') ∈ timeTag c) :
    ∃ n : Nat, parseTimestampMs R m.1 m.2.1 m.2.2 = .fin n ∧ n < 6100000 := by
  obtain ⟨⟨hmm, hmm1, hmm2⟩, ⟨hss, hss1, hss2⟩, hfrac⟩ := digits_of_mem_timeTag h
  obtain ⟨minutes, hminutes, hminutes100⟩ := number_lt (R := R) hmm hmm1 hmm2 (by omega)
  obtain ⟨seconds, hseconds, hseconds100⟩ := number_lt (R := R) hss (by omega) hss2 (by omega)
  obtain ⟨ms, hms, hms1000⟩ := fractionMs_nat (R := R) hfrac
  have hscale : R.scale 60 (.fin minutes) = .fin (minutes * 60 : Nat) := scale_nat (by omega)
  have hadd : R.add (.fin (minutes * 60 : Nat)) (.fin seconds) =
      .fin (minutes * 60 + seconds : Nat) := add_nat (by omega)
  have hscale' : R.scale 1000 (.fin (minutes * 60 + seconds : Nat)) =
      .fin ((minutes * 60 + seconds) * 1000 : Nat) := scale_nat (by omega)
  refine ⟨(minutes * 60 + seconds) * 1000 + ms, ?_, by omega⟩
  rw [parseTimestampMs, hminutes, hseconds, hms, hscale, hadd, hscale']
  exact add_nat (by omega)

/-- Where a line starts, when its start is finite. -/
def startOf (l : ParsedLine) : Rat :=
  match l.startMs with
  | .fin q => q
  | _ => 0

/-- The starts of an LRC file are natural numbers in order. -/
theorem parseLrc_starts (R : Rounding) (content : String) :
    (∀ l ∈ parseLrc R content, ∃ n : Nat, l.startMs = .fin n ∧ n < 6100000) ∧
      (parseLrc R content).Pairwise fun a b => a.startMs.le b.startMs = true := by
  let lines := (splitLines content.toList).flatMap (parseLrcRow R)
  have hnat : ∀ l ∈ lines, ∃ n : Nat, l.startMs = .fin n ∧ n < 6100000 := by
    intro l hl
    obtain ⟨raw, -, hl⟩ := List.mem_flatMap.1 hl
    obtain ⟨m, hm, rfl⟩ := List.mem_map.1 hl
    obtain ⟨c, c', hmem⟩ := exists_of_mem_matchAll hm
    exact parseTimestampMs_nat hmem
  have hvalue : ∀ l ∈ lines, l.startMs = .fin (startOf l) := by
    intro l hl
    obtain ⟨n, hn, -⟩ := hnat l hl
    rw [startOf, hn]
  have hle : ∀ a ∈ lines, ∀ b ∈ lines, a.startMs.le b.startMs = true ↔ startOf a ≤ startOf b := by
    intro a ha b hb
    rw [hvalue a ha, hvalue b hb, JsNumber.le_fin]
  let sorted := lines.insertionSort fun a b => a.startMs.le b.startMs = true
  have hmem : ∀ l ∈ sorted, l ∈ lines := fun l hl => List.mem_insertionSort _ |>.1 hl
  have hsorted : sorted.Pairwise fun a b => a.startMs.le b.startMs = true := by
    have hmap : sorted.map startOf = (lines.map startOf).insertionSort (· ≤ ·) :=
      List.map_insertionSort _ _ _ _ hle
    have hpairwise := List.pairwise_insertionSort (· ≤ ·) (lines.map startOf)
    rw [← hmap, List.pairwise_map] at hpairwise
    exact hpairwise.imp_of_mem fun ha hb hab => (hle _ (hmem _ ha) _ (hmem _ hb)).2 hab
  exact ⟨fun l hl => hnat l (hmem l (List.mem_of_mem_filter hl)),
    hsorted.sublist List.filter_sublist⟩

theorem playable_parseLrc (R : Rounding) (content : String) :
    Playable R ((parseLrc R content).map ParsedLine.startMs) := by
  obtain ⟨hnat, hsorted⟩ := parseLrc_starts R content
  refine playable_of_nat ?_ (List.pairwise_map.2 hsorted)
  intro s hs
  obtain ⟨l, hl, rfl⟩ := List.mem_map.1 hs
  obtain ⟨n, hn, hlt⟩ := hnat l hl
  exact ⟨n, hn, by omega⟩

theorem integerStarts_parseLrc (R : Rounding) (content : String) :
    IntegerStarts (parseLrc R content) := by
  intro l hl q hq
  obtain ⟨n, hn, -⟩ := (parseLrc_starts R content).1 l hl
  exact ⟨n, JsNumber.fin.inj (hq.symm.trans hn)⟩

/-- The starts that a file gives to its lines as they stand: the begin clocks of the paragraphs, or
the places of the rows. An LRC file is sorted. -/
def fileStarts (R : Rounding) : Format → String → List JsNumber
  | .lrc, _ => []
  | .ttml, content => (ttmlParagraphs content).map fun p => parseClock R p.1
  | .plain, content => (List.range (plainRows content).length).map fun i : Nat => R.round (i * 3000)

theorem map_startMs_parseTtml (R : Rounding) (content : String) :
    (parseTtml R content).map ParsedLine.startMs = fileStarts R .ttml content := by
  rw [parseTtml, List.map_map]
  rfl

theorem map_startMs_parsePlain (R : Rounding) (content : String) :
    (parsePlain R content).map ParsedLine.startMs = fileStarts R .plain content := by
  refine List.ext_getElem? fun i => ?_
  rw [parsePlain, List.getElem?_map, List.getElem?_mapIdx, fileStarts, List.getElem?_map]
  by_cases hi : i < (plainRows content).length
  · rw [List.getElem?_eq_getElem hi, List.getElem?_range hi]
    rfl
  · rw [List.getElem?_eq_none (not_lt.1 hi), List.getElem?_eq_none (by simpa using hi)]
    rfl

/-- Doubles count the rows of every text that an engine can hold. -/
theorem playable_plain (R : Rounding) {content : String}
    (h : (plainRows content).length < 2 ^ 41) : Playable R (fileStarts R .plain content) := by
  have hround : ∀ i < (plainRows content).length, R.round (i * 3000) = .fin (i * 3000 : Nat) := by
    intro i hi
    have hnat : R.round (i * 3000 : Nat) = .fin (i * 3000 : Nat) := round_nat (by omega)
    rw [← hnat, Nat.cast_mul, Nat.cast_ofNat]
  refine playable_of_nat ?_ ?_
  · intro s hs
    obtain ⟨i, hi, rfl⟩ := List.mem_map.1 hs
    rw [List.mem_range] at hi
    exact ⟨i * 3000, hround i hi, by omega⟩
  · rw [fileStarts, List.pairwise_map]
    refine List.pairwise_lt_range.imp_of_mem fun hi hj hij => ?_
    rw [List.mem_range] at hi hj
    rw [hround _ hi, hround _ hj, JsNumber.le_fin, Nat.cast_le]
    omega

theorem parseClock_padded {R : Rounding} (width : Nat) {n : Nat} (h : n * 1000 ≤ 2 ^ 53) :
    parseClock R (padded width n) = .fin (n * 1000 : Nat) := by
  have hcolon : ':' ∉ padded width n := fun hc => absurd (isDigit_of_mem_padded hc) (by decide)
  have hnumber : R.number (padded width n) = .fin n := number_padded width (by omega)
  rw [parseClock, if_neg hcolon, hnumber, scale_nat h, mathRound_nat]

def refrainFirst : String := "<p begin=\"2\" end=\"3\">b</p><p begin=\"1\" end=\"2\">a</p>"

end LanguageLlm.Lyrics.Import
