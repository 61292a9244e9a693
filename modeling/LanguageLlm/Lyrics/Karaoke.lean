import Mathlib.Algebra.Order.Ring.Rat
import LanguageLlm.Captions.Parser
import LanguageLlm.Lyrics.Resolve

/-!
# The position in the lyrics

`karaokeAt` shows the first line that is sung, or the last one that began. In lines that are sorted
by their start this position never goes back (`karaokeAt_lawful`), and a line that is sung is the
one that `activeCueAt` finds.
-/

namespace LanguageLlm.Lyrics

open Protocol Captions

/-- The cue is shown at this time. -/
def Contains (timeMs : Rat) (c : Cue) : Prop := (c.startMs : Rat) ≤ timeMs ∧ timeMs < c.endMs

instance (timeMs : Rat) : DecidablePred (Contains timeMs) :=
  fun c => inferInstanceAs (Decidable ((c.startMs : Rat) ≤ timeMs ∧ timeMs < c.endMs))

/-- The cue has begun at this time. -/
def Started (timeMs : Rat) (c : Cue) : Prop := (c.startMs : Rat) ≤ timeMs

instance (timeMs : Rat) : DecidablePred (Started timeMs) :=
  fun c => inferInstanceAs (Decidable ((c.startMs : Rat) ≤ timeMs))

/-- The `i`-th cue is the first that is shown. -/
def FirstShown (timeMs : Rat) (cues : List Cue) (i : Nat) : Prop :=
  (∃ c, cues[i]? = some c ∧ Contains timeMs c) ∧ ∀ j < i, ∀ c, cues[j]? = some c →
    ¬ Contains timeMs c

/-- No cue is shown, and the `i`-th is the last that has begun. -/
def LastStarted (timeMs : Rat) (cues : List Cue) (i : Nat) : Prop :=
  (∀ c ∈ cues, ¬ Contains timeMs c) ∧ (∃ c, cues[i]? = some c ∧ Started timeMs c) ∧
    ∀ j, i < j → ∀ c, cues[j]? = some c → ¬ Started timeMs c

theorem activeIndexFrom_cons (timeMs : Rat) (i : Nat) (activeIndex : Option Nat) (c : Cue)
    (cs : List Cue) :
    activeIndexFrom timeMs i activeIndex (c :: cs) =
      if Contains timeMs c then some i
      else activeIndexFrom timeMs (i + 1) (if Started timeMs c then some i else activeIndex) cs :=
  rfl

section Cons

variable {timeMs : Rat} {c : Cue} {cs : List Cue} {k : Nat}

theorem FirstShown.cons (hnot : ¬ Contains timeMs c) (h : FirstShown timeMs cs k) :
    FirstShown timeMs (c :: cs) (k + 1) := by
  refine ⟨h.1, fun j hj d hd => ?_⟩
  cases j with
  | zero =>
    cases hd
    exact hnot
  | succ j => exact h.2 j (by omega) d hd

theorem LastStarted.cons (hnot : ¬ Contains timeMs c) (h : LastStarted timeMs cs k) :
    LastStarted timeMs (c :: cs) (k + 1) := by
  refine ⟨List.forall_mem_cons.2 ⟨hnot, h.1⟩, h.2.1, fun j hj d hd => ?_⟩
  cases j with
  | zero => omega
  | succ j => exact h.2.2 j (by omega) d hd

/-- The first cue has begun, the others have not. -/
theorem LastStarted.head (hnot : ¬ Contains timeMs c) (hstarted : Started timeMs c)
    (hrest : ∀ d ∈ cs, ¬ Started timeMs d) : LastStarted timeMs (c :: cs) 0 := by
  refine ⟨List.forall_mem_cons.2 ⟨hnot, fun d hd hcontains => hrest d hd hcontains.1⟩,
    ⟨c, rfl, hstarted⟩, fun j hj d hd => ?_⟩
  cases j with
  | zero => omega
  | succ j => exact hrest d (List.mem_of_getElem? hd)

/-- The cue at the position. -/
def Active (timeMs : Rat) (cues : List Cue) (i : Nat) : Prop :=
  FirstShown timeMs cues i ∨ LastStarted timeMs cues i

theorem Active.cons (hnot : ¬ Contains timeMs c) (h : Active timeMs cs k) :
    Active timeMs (c :: cs) (k + 1) :=
  h.imp (.cons hnot) (.cons hnot)

end Cons

/-- The loop finds the position, if a cue has begun. -/
theorem activeIndexFrom_finds (timeMs : Rat) (cues : List Cue) (i : Nat)
    (activeIndex : Option Nat) :
    (∃ k, Active timeMs cues k ∧ activeIndexFrom timeMs i activeIndex cues = some (i + k)) ∨
      (∀ c ∈ cues, ¬ Started timeMs c) ∧
        activeIndexFrom timeMs i activeIndex cues = activeIndex := by
  induction cues generalizing i activeIndex with
  | nil => exact Or.inr ⟨nofun, rfl⟩
  | cons c cs ih =>
    rw [activeIndexFrom_cons]
    by_cases hcontains : Contains timeMs c
    · rw [if_pos hcontains]
      exact Or.inl ⟨0, Or.inl ⟨⟨c, rfl, hcontains⟩, nofun⟩, rfl⟩
    rw [if_neg hcontains]
    rcases ih (i + 1) (if Started timeMs c then some i else activeIndex) with
      ⟨k, hk, hfound⟩ | ⟨hnone, hfound⟩
    · exact Or.inl ⟨k + 1, hk.cons hcontains, by rw [hfound]; congr 1; omega⟩
    · rw [hfound]
      by_cases hstarted : Started timeMs c
      · rw [if_pos hstarted]
        exact Or.inl ⟨0, Or.inr (.head hcontains hstarted hnone), rfl⟩
      · rw [if_neg hstarted]
        exact Or.inr ⟨List.forall_mem_cons.2 ⟨hstarted, hnone⟩, rfl⟩

/-! ## The position -/

section Position

variable {timeMs : Rat} {cues : List Cue} {i j : Nat}

theorem FirstShown.unique (h : FirstShown timeMs cues i) (h' : Active timeMs cues j) : i = j := by
  obtain ⟨c, hc, hcontains⟩ := h.1
  rcases h' with h' | h'
  · obtain ⟨d, hd, hcontains'⟩ := h'.1
    rcases Nat.lt_trichotomy i j with hlt | heq | hlt
    · exact absurd hcontains (h'.2 i hlt c hc)
    · exact heq
    · exact absurd hcontains' (h.2 j hlt d hd)
  · exact absurd hcontains (h'.1 c (List.mem_of_getElem? hc))

theorem LastStarted.unique (h : LastStarted timeMs cues i) (h' : Active timeMs cues j) : i = j := by
  rcases h' with h' | h'
  · exact (h'.unique (Or.inr h)).symm
  · obtain ⟨-, ⟨c, hc, hstarted⟩, hlater⟩ := h
    obtain ⟨-, ⟨d, hd, hstarted'⟩, hlater'⟩ := h'
    rcases Nat.lt_trichotomy i j with hlt | heq | hlt
    · exact absurd hstarted' (hlater j hlt d hd)
    · exact heq
    · exact absurd hstarted (hlater' i hlt c hc)

theorem Active.unique (h : Active timeMs cues i) (h' : Active timeMs cues j) : i = j := by
  rcases h with h | h
  · exact h.unique h'
  · exact h.unique h'

theorem Active.started (h : Active timeMs cues i) : ∃ c, cues[i]? = some c ∧ Started timeMs c := by
  rcases h with ⟨⟨c, hc, hcontains⟩, -⟩ | ⟨-, hstarted, -⟩
  · exact ⟨c, hc, hcontains.1⟩
  · exact hstarted

theorem karaokeAt_active (h : Active timeMs cues i) :
    karaokeAt cues timeMs =
      { activeCueId := cues[i]?.map Cue.id
        activeIndex := i
        previousId := if i = 0 then none else cues[i - 1]?.map Cue.id
        nextId := cues[i + 1]?.map Cue.id } := by
  rcases activeIndexFrom_finds timeMs cues 0 none with ⟨k, hk, hfound⟩ | ⟨hnone, -⟩
  · obtain rfl := h.unique hk
    rw [karaokeAt, hfound, Nat.zero_add]
  · obtain ⟨c, hc, hstarted⟩ := h.started
    exact absurd hstarted (hnone c (List.mem_of_getElem? hc))

theorem karaokeAt_nothing (h : ∀ c ∈ cues, ¬ Started timeMs c) :
    karaokeAt cues timeMs =
      { activeCueId := none
        activeIndex := -1
        previousId := none
        nextId := cues.head?.map Cue.id } := by
  rcases activeIndexFrom_finds timeMs cues 0 none with ⟨k, hk, -⟩ | ⟨-, hfound⟩
  · obtain ⟨c, hc, hstarted⟩ := hk.started
    exact absurd hstarted (h c (List.mem_of_getElem? hc))
  · rw [karaokeAt, hfound]

theorem karaokeAt_activeIndex_ge (timeMs : Rat) (cues : List Cue) :
    -1 ≤ (karaokeAt cues timeMs).activeIndex := by
  rcases activeIndexFrom_finds timeMs cues 0 none with ⟨k, hk, -⟩ | ⟨hnone, -⟩
  · rw [karaokeAt_active hk]
    dsimp only
    omega
  · rw [karaokeAt_nothing hnone]

theorem active_or_nothing (timeMs : Rat) (cues : List Cue) :
    (∃ i, Active timeMs cues i) ∨ ∀ c ∈ cues, ¬ Started timeMs c := by
  rcases activeIndexFrom_finds timeMs cues 0 none with ⟨k, hk, -⟩ | ⟨hnone, -⟩
  · exact Or.inl ⟨k, hk⟩
  · exact Or.inr hnone

theorem Started.mono {t₁ t₂ : Rat} {c : Cue} (h : Started t₁ c) (hle : t₁ ≤ t₂) : Started t₂ c :=
  le_trans h hle

theorem not_contains_of_not_started {c : Cue} (h : ¬ Started timeMs c) : ¬ Contains timeMs c :=
  fun hcontains => h hcontains.1

theorem activeCueAt_shown {timeline : SourceTimeline} (h : FirstShown timeMs timeline.cues i) :
    activeCueAt timeline timeMs = timeline.cues[i]? := by
  obtain ⟨⟨c, hc, hcontains⟩, hbefore⟩ := h
  obtain ⟨hi, hget⟩ := List.getElem?_eq_some_iff.1 hc
  rw [hc, activeCueAt, List.find?_eq_some_iff_getElem]
  refine ⟨decide_eq_true hcontains, i, hi, hget, fun j hj => ?_⟩
  have hnot := hbefore j hj _ (List.getElem?_eq_getElem (by omega))
  rw [Bool.not_eq_true', decide_eq_false_iff_not]
  exact hnot

theorem activeCueAt_none {timeline : SourceTimeline}
    (h : ∀ c ∈ timeline.cues, ¬ Contains timeMs c) : activeCueAt timeline timeMs = none := by
  rw [activeCueAt, List.find?_eq_none]
  intro c hc
  rw [decide_eq_true_iff]
  exact h c hc

/-- A later position does not lie before an earlier one. -/
theorem Active.mono {t₁ t₂ : Rat} (hsorted : cues.Pairwise fun c d => c.startMs ≤ d.startMs)
    (hle : t₁ ≤ t₂) (h₁ : Active t₁ cues i) (h₂ : Active t₂ cues j) : i ≤ j := by
  by_contra hlt
  obtain ⟨c, hc, hstarted⟩ := h₁.started
  rcases h₂ with h₂ | h₂
  · -- the cue before it in the list began before it, and is still shown
    obtain ⟨d, hd, hcontains⟩ := h₂.1
    obtain ⟨hi, rfl⟩ := List.getElem?_eq_some_iff.1 hc
    obtain ⟨hj, rfl⟩ := List.getElem?_eq_some_iff.1 hd
    have hstart := List.pairwise_iff_getElem.1 hsorted j i hj hi (by omega)
    have hstill : Contains t₁ cues[j] :=
      ⟨le_trans (by exact_mod_cast hstart) hstarted, lt_of_le_of_lt hle hcontains.2⟩
    rcases h₁ with h₁ | h₁
    · exact h₁.2 j (by omega) _ hd hstill
    · exact h₁.1 _ (List.getElem_mem hj) hstill
  · exact h₂.2.2 i (by omega) c hc (hstarted.mono hle)

end Position

/-- What `karaokeAt` says about a list of cues: its position never goes back; it is that of the
first cue that is shown, the one of `activeCueAt`; where none is shown it is the last that has
begun, or none; and the other cues are its neighbours. -/
structure KaraokeLawful (timeline : SourceTimeline) : Prop where
  monotone : ∀ t₁ t₂, t₁ ≤ t₂ →
    (karaokeAt timeline.cues t₁).activeIndex ≤ (karaokeAt timeline.cues t₂).activeIndex
  shown : ∀ t i, FirstShown t timeline.cues i →
    (karaokeAt timeline.cues t).activeIndex = i ∧
      (karaokeAt timeline.cues t).activeCueId = timeline.cues[i]?.map Cue.id ∧
      activeCueAt timeline t = timeline.cues[i]?
  started : ∀ t i, LastStarted t timeline.cues i →
    (karaokeAt timeline.cues t).activeIndex = i ∧
      (karaokeAt timeline.cues t).activeCueId = timeline.cues[i]?.map Cue.id ∧
      activeCueAt timeline t = none
  nothing : ∀ t, (∀ c ∈ timeline.cues, ¬ Started t c) →
    (karaokeAt timeline.cues t).activeIndex = -1 ∧
      (karaokeAt timeline.cues t).activeCueId = none ∧ activeCueAt timeline t = none
  covers : ∀ t, (∃ i, FirstShown t timeline.cues i) ∨ (∃ i, LastStarted t timeline.cues i) ∨
    ∀ c ∈ timeline.cues, ¬ Started t c
  previous : ∀ t, (karaokeAt timeline.cues t).previousId =
    if (karaokeAt timeline.cues t).activeIndex ≤ 0 then none
    else timeline.cues[((karaokeAt timeline.cues t).activeIndex - 1).toNat]?.map Cue.id
  next : ∀ t, (karaokeAt timeline.cues t).nextId =
    timeline.cues[((karaokeAt timeline.cues t).activeIndex + 1).toNat]?.map Cue.id

theorem karaokeAt_lawful {timeline : SourceTimeline}
    (hsorted : timeline.cues.Pairwise fun c d => c.startMs ≤ d.startMs) :
    KaraokeLawful timeline where
  monotone t₁ t₂ hle := by
    rcases active_or_nothing t₁ timeline.cues with ⟨i, hi⟩ | hnone
    · rcases active_or_nothing t₂ timeline.cues with ⟨j, hj⟩ | hnone
      · have hij := hi.mono hsorted hle hj
        rw [karaokeAt_active hi, karaokeAt_active hj]
        exact Int.ofNat_le.2 hij
      · obtain ⟨c, hc, hstarted⟩ := hi.started
        exact absurd (hstarted.mono hle) (hnone c (List.mem_of_getElem? hc))
    · rw [karaokeAt_nothing hnone]
      exact karaokeAt_activeIndex_ge t₂ timeline.cues
  shown t i h := by
    rw [karaokeAt_active (Or.inl h)]
    exact ⟨rfl, rfl, activeCueAt_shown h⟩
  started t i h := by
    rw [karaokeAt_active (Or.inr h)]
    exact ⟨rfl, rfl, activeCueAt_none h.1⟩
  nothing t h := by
    rw [karaokeAt_nothing h]
    exact ⟨rfl, rfl, activeCueAt_none fun c hc => not_contains_of_not_started (h c hc)⟩
  covers t := by
    rcases active_or_nothing t timeline.cues with ⟨i, hi | hi⟩ | hnone
    · exact Or.inl ⟨i, hi⟩
    · exact Or.inr (Or.inl ⟨i, hi⟩)
    · exact Or.inr (Or.inr hnone)
  previous t := by
    rcases active_or_nothing t timeline.cues with ⟨i, hi⟩ | hnone
    · rw [karaokeAt_active hi]
      cases i with
      | zero => rfl
      | succ i =>
        dsimp only
        rw [if_neg (by omega), if_neg (by omega)]
        congr 2
        omega
    · rw [karaokeAt_nothing hnone]
      rfl
  next t := by
    rcases active_or_nothing t timeline.cues with ⟨i, hi⟩ | hnone
    · rw [karaokeAt_active hi]
      rfl
    · rw [karaokeAt_nothing hnone]
      exact congrArg (Option.map Cue.id) List.head?_eq_getElem?

/-- A line within another, a gap and two lines that begin together. -/
def overlappingLyrics : SourceTimeline :=
  let cue (id : String) (startMs endMs : Int) : Cue :=
    { id, startMs, endMs, text := id, provenance := .lyricsImport }
  { videoId := "v"
    cues := [cue "a" 0 4000, cue "b" 1000 2000, cue "c" 6000 7000, cue "d" 6000 9000]
    sourceHash := ""
    captionSource := some .human
    developmentFallback := none }

theorem karaokeAt_lawful_overlapping : KaraokeLawful overlappingLyrics :=
  karaokeAt_lawful (by decide)

end LanguageLlm.Lyrics
