import Mathlib.Analysis.SpecialFunctions.Pow.Real
import LanguageLlm.Learning.StudySession

/-!
# The review scheduler

`fsrs.ts` over the real numbers: `Math.exp` and `Math.pow` are the real functions, and a power that
is no real number is `none`. `reviewFsrs_eq` says what a review makes of a state in which every
power is defined.
-/

namespace LanguageLlm.Learning

noncomputable section

/-! ## Weights and states -/

def FSRS_DEFAULT_WEIGHTS : List ℝ :=
  [0.40255, 1.18385, 3.173, 15.69105, 7.1949, 0.5345, 1.4604, 0.0046, 1.54575, 0.1192, 1.01925,
    1.9395, 0.11, 0.29605, 2.2698, 0.2315, 2.9898, 0.51655, 0.6621]

def DECAY : ℝ := -0.5

def FACTOR : ℝ := 19 / 81

def MS_PER_DAY : ℝ := 86400000

/-- The state of a card. -/
inductive CardState where
  | new
  | learning
  | review
  | relearning
  deriving DecidableEq

structure FsrsState where
  due : ℝ
  stability : ℝ
  difficulty : ℝ
  elapsedDays : ℝ
  scheduledDays : ℝ
  reps : Nat
  lapses : Nat
  state : CardState
  lastReview : Option ℝ

/-- The number of a rating. -/
def FsrsRating.value : FsrsRating → ℝ
  | .again => 1
  | .hard => 2
  | .good => 3
  | .easy => 4

def createInitialFsrs (now : ℝ) : FsrsState where
  due := now
  stability := 0
  difficulty := 0
  elapsedDays := 0
  scheduledDays := 0
  reps := 0
  lapses := 0
  state := .new
  lastReview := none

/-! ## The formulas -/

open Classical in
/-- `Math.pow(x, y)`, where it is a real number. -/
def mathPow (x y : ℝ) : Option ℝ :=
  if 0 < x ∨ (x < 0 ∧ ∃ n : ℤ, y = n) ∨ (x = 0 ∧ 0 ≤ y) then some (x ^ y) else none

/-- `Math.round(x)`. -/
def mathRound (x : ℝ) : ℝ := ⌊x + 1 / 2⌋

def clampDifficulty (d : ℝ) : ℝ := min 10 (max 1 d)

def constrainingStability (s : ℝ) : ℝ := max 0.1 s

/-- `w[i]!`. -/
def weight (w : List ℝ) (i : Nat) : ℝ := w.getD i 0

def initStability (w : List ℝ) (rating : FsrsRating) : ℝ :=
  constrainingStability <|
    match rating with
    | .again => weight w 0
    | .hard => weight w 1
    | .good => weight w 2
    | .easy => weight w 3

def initDifficulty (w : List ℝ) (rating : FsrsRating) : ℝ :=
  clampDifficulty (weight w 4 - Real.exp ((rating.value - 1) * weight w 5) + 1)

def nextDifficulty (w : List ℝ) (d : ℝ) (rating : FsrsRating) : ℝ :=
  let next := d - weight w 6 * (rating.value - 3)
  let meanReversion := weight w 7 * initDifficulty w .good + (1 - weight w 7) * next
  clampDifficulty meanReversion

def nextStabilitySuccess (w : List ℝ) (d s r : ℝ) (rating : FsrsRating) : Option ℝ :=
  let hardPenalty := if rating = .hard then weight w 15 else 1
  let easyBonus := if rating = .easy then weight w 16 else 1
  (mathPow s (-weight w 9)).map fun power =>
    constrainingStability
      (s * (Real.exp (weight w 8) * (11 - d) * power *
        (Real.exp ((1 - r) * weight w 10) - 1) * hardPenalty * easyBonus + 1))

/-- The part of the growth that does not depend on the rating but through the difficulty. -/
def baseGrowth (d s r : ℝ) : ℝ :=
  Real.exp (weight FSRS_DEFAULT_WEIGHTS 8) * (11 - d) * s ^ (-weight FSRS_DEFAULT_WEIGHTS 9) *
    (Real.exp ((1 - r) * weight FSRS_DEFAULT_WEIGHTS 10) - 1)

def nextStabilityFail (w : List ℝ) (d s r : ℝ) : Option ℝ :=
  (mathPow d (-weight w 12)).bind fun ofDifficulty =>
    (mathPow (s + 1) (weight w 13)).map fun ofStability =>
      constrainingStability
        (weight w 11 * ofDifficulty * (ofStability - 1) * Real.exp ((1 - r) * weight w 14))

def retrievability (stability elapsedDays : ℝ) : Option ℝ :=
  if stability ≤ 0 then some 0 else mathPow (1 + FACTOR * elapsedDays / stability) DECAY

def nextIntervalDays (stability requestRetention : ℝ) : Option ℝ :=
  (mathPow requestRetention (1 / DECAY)).map fun power =>
    max 1 (mathRound (stability / FACTOR * (power - 1)))

/-! ## A review -/

/-- The end of a review that was not forgotten: the card is due after an interval. -/
def scheduled (next : FsrsState) (now requestRetention : ℝ) : Option FsrsState :=
  (nextIntervalDays next.stability requestRetention).map fun days =>
    { next with
      state := .review
      scheduledDays := days
      due := now + days * MS_PER_DAY }

/-- The end of a review that was forgotten: the card is due after ten minutes. -/
def lapsed (next : FsrsState) (now : ℝ) : FsrsState :=
  { next with
    lapses := next.lapses + 1
    state := .relearning
    scheduledDays := 0
    due := now + 10 * 60 * 1000 }

def reviewFsrs (state : FsrsState) (rating : FsrsRating) (now : ℝ)
    (weights : List ℝ := FSRS_DEFAULT_WEIGHTS) (requestRetention : ℝ := 0.9) : Option FsrsState :=
  let w := if 19 ≤ weights.length then weights else FSRS_DEFAULT_WEIGHTS
  let last := state.lastReview.getD now
  let elapsedDays := if state.state = .new then 0 else max 0 ((now - last) / MS_PER_DAY)
  let next := { state with
    reps := state.reps + 1
    lastReview := some now
    elapsedDays := elapsedDays }
  if state.state = .new then
    let next := { next with
      difficulty := initDifficulty w rating
      stability := initStability w rating }
    if rating = .again then some (lapsed next now) else scheduled next now requestRetention
  else
    (retrievability state.stability elapsedDays).bind fun r =>
      let difficulty :=
        nextDifficulty w (if state.difficulty = 0 then 5 else state.difficulty) rating
      let stability := max 0.1 state.stability
      if rating = .again then
        (nextStabilityFail w difficulty stability r).map fun stability =>
          lapsed { next with difficulty := difficulty, stability := stability } now
      else
        (nextStabilitySuccess w difficulty stability r rating).bind fun stability =>
          scheduled { next with difficulty := difficulty, stability := stability } now
            requestRetention

/-! ## What a review makes of a state -/

/-- What the formulas need of a state that is not new. -/
structure FsrsState.Sound (s : FsrsState) : Prop where
  one_le_difficulty : 1 ≤ s.difficulty
  difficulty_le_ten : s.difficulty ≤ 10
  le_stability : 0.1 ≤ s.stability

/-- A state that a review can start from. -/
def FsrsState.Reviewable (s : FsrsState) : Prop := s.state = .new ∨ s.Sound

/-- The share that is remembered after some days. -/
def recalled (stability elapsedDays : ℝ) : ℝ := (1 + FACTOR * elapsedDays / stability) ^ DECAY

/-- The factor by which a success makes a memory more stable, beyond one. -/
def growth (d s r : ℝ) (rating : FsrsRating) : ℝ :=
  Real.exp (weight FSRS_DEFAULT_WEIGHTS 8) * (11 - d) * s ^ (-weight FSRS_DEFAULT_WEIGHTS 9) *
    (Real.exp ((1 - r) * weight FSRS_DEFAULT_WEIGHTS 10) - 1) *
    (if rating = .hard then weight FSRS_DEFAULT_WEIGHTS 15 else 1) *
    if rating = .easy then weight FSRS_DEFAULT_WEIGHTS 16 else 1

/-- The stability of a memory that was lost. -/
def lapseStability (d s r : ℝ) : ℝ :=
  weight FSRS_DEFAULT_WEIGHTS 11 * d ^ (-weight FSRS_DEFAULT_WEIGHTS 12) *
    ((s + 1) ^ weight FSRS_DEFAULT_WEIGHTS 13 - 1) *
    Real.exp ((1 - r) * weight FSRS_DEFAULT_WEIGHTS 14)

def intervalDays (stability requestRetention : ℝ) : ℝ :=
  max 1 (mathRound (stability / FACTOR * (requestRetention ^ (1 / DECAY) - 1)))

namespace FsrsState

def elapsedAt (s : FsrsState) (now : ℝ) : ℝ :=
  if s.state = .new then 0 else max 0 ((now - s.lastReview.getD now) / MS_PER_DAY)

def difficultyAfter (s : FsrsState) (rating : FsrsRating) : ℝ :=
  if s.state = .new then initDifficulty FSRS_DEFAULT_WEIGHTS rating
  else nextDifficulty FSRS_DEFAULT_WEIGHTS s.difficulty rating

def stabilityAfter (s : FsrsState) (rating : FsrsRating) (now : ℝ) : ℝ :=
  let r := recalled s.stability (s.elapsedAt now)
  let d := s.difficultyAfter rating
  if s.state = .new then initStability FSRS_DEFAULT_WEIGHTS rating
  else if rating = .again then constrainingStability (lapseStability d s.stability r)
  else constrainingStability (s.stability * (growth d s.stability r rating + 1))

def daysAfter (s : FsrsState) (rating : FsrsRating) (now requestRetention : ℝ) : ℝ :=
  if rating = .again then 0 else intervalDays (s.stabilityAfter rating now) requestRetention

/-- The state after a review. -/
def reviewed (s : FsrsState) (rating : FsrsRating) (now requestRetention : ℝ) : FsrsState where
  due :=
    if rating = .again then now + 10 * 60 * 1000
    else now + s.daysAfter rating now requestRetention * MS_PER_DAY
  stability := s.stabilityAfter rating now
  difficulty := s.difficultyAfter rating
  elapsedDays := s.elapsedAt now
  scheduledDays := s.daysAfter rating now requestRetention
  reps := s.reps + 1
  lapses := if rating = .again then s.lapses + 1 else s.lapses
  state := if rating = .again then .relearning else .review
  lastReview := some now

end FsrsState

theorem mathPow_of_pos {x : ℝ} (hx : 0 < x) (y : ℝ) : mathPow x y = some (x ^ y) :=
  if_pos (Or.inl hx)

theorem one_div_DECAY : 1 / DECAY = (-2 : ℤ) := by
  norm_num [DECAY]

/-- The next interval is not a real number when the requested share is zero. -/
theorem nextIntervalDays_eq (stability requestRetention : ℝ) :
    nextIntervalDays stability requestRetention =
      if requestRetention = 0 then none else some (intervalDays stability requestRetention) := by
  split_ifs with h
  · have hpow : mathPow requestRetention (1 / DECAY) = none :=
      if_neg (by rw [one_div_DECAY, h]; norm_num)
    rw [nextIntervalDays, hpow, Option.map_none]
  · have hpow : mathPow requestRetention (1 / DECAY) = some (requestRetention ^ (1 / DECAY)) := by
      rcases lt_or_gt_of_ne h with hneg | hpos
      · exact if_pos (Or.inr (Or.inl ⟨hneg, -2, one_div_DECAY⟩))
      · exact mathPow_of_pos hpos _
    rw [nextIntervalDays, hpow, Option.map_some, intervalDays]

theorem clampDifficulty_mem (d : ℝ) : 1 ≤ clampDifficulty d ∧ clampDifficulty d ≤ 10 :=
  ⟨le_min (by norm_num) (le_max_left _ _), min_le_left _ _⟩

theorem le_constrainingStability (s : ℝ) : 0.1 ≤ constrainingStability s := le_max_left _ _

theorem difficultyAfter_mem (s : FsrsState) (rating : FsrsRating) :
    1 ≤ s.difficultyAfter rating ∧ s.difficultyAfter rating ≤ 10 := by
  unfold FsrsState.difficultyAfter
  split_ifs
  · exact clampDifficulty_mem _
  · exact clampDifficulty_mem _

theorem le_stabilityAfter (s : FsrsState) (rating : FsrsRating) (now : ℝ) :
    0.1 ≤ s.stabilityAfter rating now := by
  unfold FsrsState.stabilityAfter
  dsimp only
  split_ifs
  all_goals exact le_constrainingStability _

theorem FsrsState.Sound.stability_pos {s : FsrsState} (h : s.Sound) : 0 < s.stability :=
  lt_of_lt_of_le (by norm_num) h.le_stability

theorem elapsedAt_nonneg (s : FsrsState) (now : ℝ) : 0 ≤ s.elapsedAt now := by
  unfold FsrsState.elapsedAt
  split_ifs
  · exact le_rfl
  · exact le_max_left _ _

theorem sound_reviewed (s : FsrsState) (rating : FsrsRating) (now requestRetention : ℝ) :
    (s.reviewed rating now requestRetention).Sound where
  one_le_difficulty := (difficultyAfter_mem s rating).1
  difficulty_le_ten := (difficultyAfter_mem s rating).2
  le_stability := le_stabilityAfter s rating now

/-! ### No power is undefined -/

theorem one_le_recalled_base {stability elapsedDays : ℝ} (hs : 0 < stability)
    (he : 0 ≤ elapsedDays) : 1 ≤ 1 + FACTOR * elapsedDays / stability := by
  have hfactor : 0 ≤ FACTOR := by norm_num [FACTOR]
  have hquotient : 0 ≤ FACTOR * elapsedDays / stability := by positivity
  linarith

theorem retrievability_eq {stability elapsedDays : ℝ} (hs : 0 < stability)
    (he : 0 ≤ elapsedDays) :
    retrievability stability elapsedDays = some (recalled stability elapsedDays) := by
  have hbase := one_le_recalled_base hs he
  rw [retrievability, if_neg (not_le.2 hs), mathPow_of_pos (by linarith), recalled]

theorem nextStabilityFail_eq {d s : ℝ} (hd : 0 < d) (hs : 0 < s) (r : ℝ) :
    nextStabilityFail FSRS_DEFAULT_WEIGHTS d s r =
      some (constrainingStability (lapseStability d s r)) := by
  rw [nextStabilityFail, mathPow_of_pos hd, Option.bind_some, mathPow_of_pos (by linarith),
    Option.map_some, lapseStability]

theorem nextStabilitySuccess_eq {s : ℝ} (hs : 0 < s) (d r : ℝ) (rating : FsrsRating) :
    nextStabilitySuccess FSRS_DEFAULT_WEIGHTS d s r rating =
      some (constrainingStability (s * (growth d s r rating + 1))) := by
  rw [nextStabilitySuccess, mathPow_of_pos hs]
  rfl

theorem scheduled_eq (next : FsrsState) (now requestRetention : ℝ) :
    scheduled next now requestRetention =
      if requestRetention = 0 then none else
        some { next with
          state := .review
          scheduledDays := intervalDays next.stability requestRetention
          due := now + intervalDays next.stability requestRetention * MS_PER_DAY } := by
  rw [scheduled, nextIntervalDays_eq]
  split_ifs
  · rfl
  · rfl

theorem reviewFsrs_new {s : FsrsState} (hnew : s.state = .new) (rating : FsrsRating)
    (now requestRetention : ℝ) :
    reviewFsrs s rating now FSRS_DEFAULT_WEIGHTS requestRetention =
      if rating ≠ .again ∧ requestRetention = 0 then none
      else some (s.reviewed rating now requestRetention) := by
  have hweights : 19 ≤ FSRS_DEFAULT_WEIGHTS.length := by simp [FSRS_DEFAULT_WEIGHTS]
  unfold reviewFsrs
  dsimp only
  rw [if_pos hweights]
  by_cases hagain : rating = .again
  · simp [hnew, hagain, lapsed, FsrsState.reviewed, FsrsState.stabilityAfter,
      FsrsState.difficultyAfter, FsrsState.daysAfter, FsrsState.elapsedAt]
  · simp [hnew, hagain, scheduled_eq, FsrsState.reviewed, FsrsState.stabilityAfter,
      FsrsState.difficultyAfter, FsrsState.daysAfter, FsrsState.elapsedAt]

theorem reviewFsrs_known {s : FsrsState} (hnew : s.state ≠ .new) (hsound : s.Sound)
    (rating : FsrsRating) (now requestRetention : ℝ) :
    reviewFsrs s rating now FSRS_DEFAULT_WEIGHTS requestRetention =
      if rating ≠ .again ∧ requestRetention = 0 then none
      else some (s.reviewed rating now requestRetention) := by
  have hweights : 19 ≤ FSRS_DEFAULT_WEIGHTS.length := by simp [FSRS_DEFAULT_WEIGHTS]
  have hdifficulty : s.difficulty ≠ 0 := by
    have hle := hsound.one_le_difficulty
    linarith
  have hmax : max 0.1 s.stability = s.stability := max_eq_right hsound.le_stability
  have helapsed : (if s.state = .new then 0
      else max 0 ((now - s.lastReview.getD now) / MS_PER_DAY)) = s.elapsedAt now := rfl
  have hafter : nextDifficulty FSRS_DEFAULT_WEIGHTS s.difficulty rating =
      s.difficultyAfter rating := (if_neg hnew).symm
  have hpos : 0 < s.difficultyAfter rating :=
    lt_of_lt_of_le one_pos (difficultyAfter_mem s rating).1
  unfold reviewFsrs
  dsimp only
  rw [if_pos hweights, helapsed, if_neg hnew,
    retrievability_eq hsound.stability_pos (elapsedAt_nonneg s now),
    Option.bind_some, if_neg hdifficulty, hmax, hafter]
  by_cases hagain : rating = .again
  · rw [if_pos hagain, nextStabilityFail_eq hpos hsound.stability_pos, Option.map_some]
    simp [hagain, hnew, lapsed, FsrsState.reviewed, FsrsState.stabilityAfter, FsrsState.daysAfter]
  · rw [if_neg hagain, nextStabilitySuccess_eq hsound.stability_pos, Option.bind_some, scheduled_eq]
    simp [hagain, hnew, FsrsState.reviewed, FsrsState.stabilityAfter, FsrsState.daysAfter]

/-- What a review makes of a state that was reviewed before, or is new. -/
theorem reviewFsrs_eq {s : FsrsState} (h : s.Reviewable) (rating : FsrsRating)
    (now requestRetention : ℝ) :
    reviewFsrs s rating now FSRS_DEFAULT_WEIGHTS requestRetention =
      if rating ≠ .again ∧ requestRetention = 0 then none
      else some (s.reviewed rating now requestRetention) := by
  by_cases hnew : s.state = .new
  · exact reviewFsrs_new hnew rating now requestRetention
  · exact reviewFsrs_known hnew (h.resolve_left hnew) rating now requestRetention

end

end LanguageLlm.Learning
