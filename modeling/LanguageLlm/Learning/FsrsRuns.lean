import LanguageLlm.Learning.Fsrs
import LanguageLlm.Lib.Run

/-!
# Review histories

The states of a card that `reviewFsrs` makes from `createInitialFsrs`, one review after the other,
with any ratings at any times. `review_history` is what holds of them all, `review_monotone` compares
the ratings, and `lapse_weakens_iff` says after how many days a lapse may strengthen a memory.
-/

namespace LanguageLlm.Learning

open Lib

noncomputable section

/-- The step of a history: one review, with its rating and its time. -/
def reviewStep (requestRetention : ℝ) (s : FsrsState) (review : FsrsRating × ℝ) :
    Option FsrsState :=
  reviewFsrs s review.1 review.2 FSRS_DEFAULT_WEIGHTS requestRetention

/-- The states reached by the reviews in `h`, the latest first. -/
abbrev History (requestRetention start : ℝ) (h : List (Fired FsrsState (FsrsRating × ℝ)))
    (s : FsrsState) : Prop :=
  Run (reviewStep requestRetention) (createInitialFsrs start) h s

/-- What a review with a rating leaves, whatever the state before it. -/
structure FsrsState.After (s : FsrsState) (rating : FsrsRating) (now : ℝ) : Prop extends
    s.Sound where
  elapsed_nonneg : 0 ≤ s.elapsedDays
  now_lt_due : now < s.due
  lastReview_eq : s.lastReview = some now
  forgotten : rating = .again → s.state = .relearning ∧ s.scheduledDays = 0
  remembered : rating ≠ .again → s.state = .review ∧ 1 ≤ s.scheduledDays

theorem MS_PER_DAY_pos : 0 < MS_PER_DAY := by
  norm_num [MS_PER_DAY]

theorem one_le_intervalDays (stability requestRetention : ℝ) :
    1 ≤ intervalDays stability requestRetention := le_max_left _ _

theorem after_reviewed (s : FsrsState) (rating : FsrsRating) (now requestRetention : ℝ) :
    (s.reviewed rating now requestRetention).After rating now where
  toSound := sound_reviewed s rating now requestRetention
  elapsed_nonneg := elapsedAt_nonneg s now
  now_lt_due := by
    unfold FsrsState.reviewed FsrsState.daysAfter
    dsimp only
    split_ifs
    · linarith
    · have hdays := one_le_intervalDays (s.stabilityAfter rating now) requestRetention
      have hdelay := mul_pos (lt_of_lt_of_le one_pos hdays) MS_PER_DAY_pos
      linarith
  lastReview_eq := rfl
  forgotten hagain := ⟨if_pos hagain, if_pos hagain⟩
  remembered hagain := by
    have hdays : (s.reviewed rating now requestRetention).scheduledDays =
        intervalDays (s.stabilityAfter rating now) requestRetention := if_neg hagain
    rw [hdays]
    exact ⟨if_neg hagain, one_le_intervalDays _ _⟩

theorem reviewStep_eq_some {requestRetention : ℝ} {s s' : FsrsState} {review : FsrsRating × ℝ}
    (h : s.Reviewable) (hs : reviewStep requestRetention s review = some s') :
    s' = s.reviewed review.1 review.2 requestRetention := by
  rw [reviewStep, reviewFsrs_eq h] at hs
  split_ifs at hs
  exact (Option.some.inj hs).symm

theorem History.reviewable {requestRetention start : ℝ}
    {h : List (Fired FsrsState (FsrsRating × ℝ))} {s : FsrsState}
    (hr : History requestRetention start h s) : s.Reviewable := by
  refine Run.inv FsrsState.Reviewable (Or.inl rfl) ?_ hr
  intro s review s' hI hs
  rw [reviewStep_eq_some hI hs]
  exact Or.inr (sound_reviewed s review.1 review.2 requestRetention)

theorem History.reviewFsrs_eq {requestRetention start : ℝ}
    {h : List (Fired FsrsState (FsrsRating × ℝ))} {s : FsrsState}
    (hr : History requestRetention start h s) (hret : requestRetention ≠ 0) (rating : FsrsRating)
    (now : ℝ) :
    reviewFsrs s rating now FSRS_DEFAULT_WEIGHTS requestRetention =
      some (s.reviewed rating now requestRetention) := by
  rw [Learning.reviewFsrs_eq hr.reviewable, if_neg fun hzero => hret hzero.2]

/-- Every history goes on with any review. -/
theorem History.review {requestRetention start : ℝ}
    {h : List (Fired FsrsState (FsrsRating × ℝ))} {s : FsrsState}
    (hr : History requestRetention start h s) (hret : requestRetention ≠ 0) (rating : FsrsRating)
    (now : ℝ) :
    History requestRetention start
      (⟨s, (rating, now), s.reviewed rating now requestRetention⟩ :: h)
      (s.reviewed rating now requestRetention) :=
  Run.cons hr (History.reviewFsrs_eq hr hret rating now)

/-- Every state of a history: the counters count, every further review is defined, and the state is
what the last review left. -/
theorem review_history {requestRetention start : ℝ} {h : List (Fired FsrsState (FsrsRating × ℝ))}
    {s : FsrsState} (hr : History requestRetention start h s) :
    s.reps = h.length ∧
      s.lapses = h.countP (fun f => f.label.1 = .again) ∧
      (∀ rating now, h.head?.map Fired.label = some (rating, now) → s.After rating now) ∧
      (requestRetention ≠ 0 → ∀ rating now,
        (reviewFsrs s rating now FSRS_DEFAULT_WEIGHTS requestRetention).isSome) := by
  have hcount : s.reps = h.length ∧ s.lapses = h.countP (fun f => f.label.1 = .again) := by
    refine Run.invHist (fun h s => s.reps = h.length ∧
      s.lapses = h.countP (fun f => f.label.1 = .again)) ⟨rfl, rfl⟩ ?_ hr
    intro h s review s' hbefore ih hs
    obtain ⟨hreps, hlapses⟩ := ih
    rw [reviewStep_eq_some (History.reviewable hbefore) hs, List.countP_cons, List.length_cons,
      ← hreps, ← hlapses]
    by_cases hagain : review.1 = .again
    · exact ⟨rfl, by simp [FsrsState.reviewed, hagain]⟩
    · exact ⟨rfl, by simp [FsrsState.reviewed, hagain]⟩
  have hafter : ∀ rating now, h.head?.map Fired.label = some (rating, now) →
      s.After rating now := by
    intro rating now hlast
    cases hr with
    | nil => cases hlast
    | cons hbefore hs =>
      cases hlast
      rw [reviewStep_eq_some (History.reviewable hbefore) hs]
      exact after_reviewed _ _ _ _
  have hdefined : requestRetention ≠ 0 → ∀ rating now,
      (reviewFsrs s rating now FSRS_DEFAULT_WEIGHTS requestRetention).isSome := by
    intro hret rating now
    rw [History.reviewFsrs_eq hr hret]
    rfl
  exact ⟨hcount.1, hcount.2, hafter, hdefined⟩

/-- A card forgotten at its first review and remembered a day later. -/
theorem review_history_twice :
    let s := ((createInitialFsrs 0).reviewed .again 0 0.9).reviewed .good MS_PER_DAY 0.9
    s.reps = 2 ∧ s.lapses = 1 ∧ s.After .good MS_PER_DAY := by
  have hret : (0.9 : ℝ) ≠ 0 := by norm_num
  have hfirst := History.review (Run.nil : History 0.9 0 [] (createInitialFsrs 0)) hret .again 0
  have hall := review_history (History.review hfirst hret .good MS_PER_DAY)
  exact ⟨hall.1, hall.2.1, hall.2.2.1 _ _ rfl⟩

/-! ## A better rating -/

theorem recalled_le_one {stability elapsedDays : ℝ} (hs : 0 < stability) (he : 0 ≤ elapsedDays) :
    recalled stability elapsedDays ≤ 1 :=
  Real.rpow_le_one_of_one_le_of_nonpos (one_le_recalled_base hs he) (by norm_num [DECAY])

/-- The penalty and the bonus of a rating. -/
def ratingFactor : FsrsRating → ℝ
  | .again => 1
  | .hard => weight FSRS_DEFAULT_WEIGHTS 15
  | .good => 1
  | .easy => weight FSRS_DEFAULT_WEIGHTS 16

theorem growth_eq (d s r : ℝ) (rating : FsrsRating) :
    growth d s r rating = baseGrowth d s r * ratingFactor rating := by
  cases rating with
  | again => simp [growth, baseGrowth, ratingFactor]
  | hard => simp [growth, baseGrowth, ratingFactor]
  | good => simp [growth, baseGrowth, ratingFactor]
  | easy => simp [growth, baseGrowth, ratingFactor]

theorem ne_again_of_le {rating rating' : FsrsRating} (hagain : rating ≠ .again)
    (h : rating.value ≤ rating'.value) : rating' ≠ .again := by
  rintro rfl
  revert hagain h
  cases rating <;> norm_num [FsrsRating.value]

theorem ratingFactor_nonneg (rating : FsrsRating) : 0 ≤ ratingFactor rating := by
  cases rating with
  | again => norm_num [ratingFactor]
  | hard => norm_num [ratingFactor, weight, FSRS_DEFAULT_WEIGHTS]
  | good => norm_num [ratingFactor]
  | easy => norm_num [ratingFactor, weight, FSRS_DEFAULT_WEIGHTS]

theorem ratingFactor_mono {rating rating' : FsrsRating} (hagain : rating ≠ .again)
    (h : rating.value ≤ rating'.value) : ratingFactor rating ≤ ratingFactor rating' := by
  revert h
  cases rating with
  | again => exact absurd rfl hagain
  | hard => cases rating' <;> norm_num [ratingFactor, weight, FSRS_DEFAULT_WEIGHTS]
  | good =>
    cases rating' <;> norm_num [ratingFactor, weight, FSRS_DEFAULT_WEIGHTS, FsrsRating.value]
  | easy => cases rating' <;> norm_num [ratingFactor, FsrsRating.value]

theorem baseGrowth_antitone {d d' s r : ℝ} (h : d' ≤ d) (hs : 0 < s) (hr : r ≤ 1) :
    baseGrowth d s r ≤ baseGrowth d' s r := by
  have hexp : 0 ≤ Real.exp ((1 - r) * weight FSRS_DEFAULT_WEIGHTS 10) - 1 := by
    have hnonneg : 0 ≤ (1 - r) * weight FSRS_DEFAULT_WEIGHTS 10 :=
      mul_nonneg (by linarith) (by norm_num [weight, FSRS_DEFAULT_WEIGHTS])
    have hone := Real.one_le_exp hnonneg
    linarith
  unfold baseGrowth
  gcongr

theorem baseGrowth_nonneg {d s r : ℝ} (hd : d ≤ 10) (hs : 0 < s) (hr : r ≤ 1) :
    0 ≤ baseGrowth d s r := by
  have heleven : baseGrowth 11 s r ≤ baseGrowth d s r :=
    baseGrowth_antitone (by linarith) hs hr
  have hzero : baseGrowth 11 s r = 0 := by simp [baseGrowth]
  linarith

theorem growth_nonneg {d s r : ℝ} (hd : d ≤ 10) (hs : 0 < s) (hr : r ≤ 1) (rating : FsrsRating) :
    0 ≤ growth d s r rating := by
  rw [growth_eq]
  exact mul_nonneg (baseGrowth_nonneg hd hs hr) (ratingFactor_nonneg rating)

theorem growth_mono {d d' s r : ℝ} (h : d' ≤ d) (hd : d ≤ 10) (hs : 0 < s) (hr : r ≤ 1)
    {rating rating' : FsrsRating} (hagain : rating ≠ .again)
    (hrating : rating.value ≤ rating'.value) : growth d s r rating ≤ growth d' s r rating' := by
  rw [growth_eq, growth_eq]
  exact mul_le_mul (baseGrowth_antitone h hs hr) (ratingFactor_mono hagain hrating)
    (ratingFactor_nonneg rating) (baseGrowth_nonneg (h.trans hd) hs hr)

theorem nextDifficulty_antitone (d : ℝ) {rating rating' : FsrsRating}
    (h : rating.value ≤ rating'.value) :
    nextDifficulty FSRS_DEFAULT_WEIGHTS d rating' ≤
      nextDifficulty FSRS_DEFAULT_WEIGHTS d rating := by
  have hstep : 0 ≤ weight FSRS_DEFAULT_WEIGHTS 6 := by norm_num [weight, FSRS_DEFAULT_WEIGHTS]
  have hshare : 0 ≤ 1 - weight FSRS_DEFAULT_WEIGHTS 7 := by
    norm_num [weight, FSRS_DEFAULT_WEIGHTS]
  unfold nextDifficulty clampDifficulty
  dsimp only
  gcongr

theorem initStability_mono {rating rating' : FsrsRating} (h : rating.value ≤ rating'.value) :
    initStability FSRS_DEFAULT_WEIGHTS rating ≤ initStability FSRS_DEFAULT_WEIGHTS rating' := by
  revert h
  unfold initStability
  cases rating <;> cases rating' <;>
    norm_num [constrainingStability, weight, FSRS_DEFAULT_WEIGHTS, FsrsRating.value]

theorem stabilityAfter_mono {s : FsrsState} (h : s.Reviewable) (now : ℝ)
    {rating rating' : FsrsRating} (hagain : rating ≠ .again)
    (hrating : rating.value ≤ rating'.value) :
    s.stabilityAfter rating now ≤ s.stabilityAfter rating' now := by
  have hagain' := ne_again_of_le hagain hrating
  unfold FsrsState.stabilityAfter
  dsimp only
  by_cases hnew : s.state = .new
  · rw [if_pos hnew, if_pos hnew]
    exact initStability_mono hrating
  · have hsound := h.resolve_left hnew
    have hs := hsound.stability_pos
    have hr := recalled_le_one hs (elapsedAt_nonneg s now)
    have hd : s.difficultyAfter rating' ≤ s.difficultyAfter rating := by
      unfold FsrsState.difficultyAfter
      rw [if_neg hnew, if_neg hnew]
      exact nextDifficulty_antitone s.difficulty hrating
    have hgrowth := growth_mono hd (difficultyAfter_mem s rating).2 hs hr hagain hrating
    rw [if_neg hnew, if_neg hnew, if_neg hagain, if_neg hagain']
    unfold constrainingStability
    gcongr

theorem le_stabilityAfter_of_ne {s : FsrsState} (h : s.Reviewable) (hold : s.state = .new →
    s.stability = 0) (now : ℝ) {rating : FsrsRating} (hagain : rating ≠ .again) :
    s.stability ≤ s.stabilityAfter rating now := by
  by_cases hnew : s.state = .new
  · have hpos := le_stabilityAfter s rating now
    rw [hold hnew]
    linarith
  · have hs := (h.resolve_left hnew).stability_pos
    have hgrowth := growth_nonneg (difficultyAfter_mem s rating).2 hs
      (recalled_le_one hs (elapsedAt_nonneg s now)) rating
    unfold FsrsState.stabilityAfter
    dsimp only
    rw [if_neg hnew, if_neg hagain]
    refine le_trans ?_ (le_max_right _ _)
    exact le_mul_of_one_le_right hs.le (by linarith)

theorem intervalDays_mono {s s' : ℝ} (h : s ≤ s') :
    intervalDays s 0.9 ≤ intervalDays s' 0.9 := by
  have hfactor : 0 < FACTOR := by norm_num [FACTOR]
  have hpower : 0 ≤ (0.9 : ℝ) ^ (1 / DECAY) - 1 := by
    rw [one_div_DECAY, Real.rpow_intCast]
    norm_num
  unfold intervalDays mathRound
  gcongr

/-- A card in review waits for the interval of its stability, and a new card has none. -/
def FsrsState.Paced (s : FsrsState) (requestRetention : ℝ) : Prop :=
  (s.state = .new → s.stability = 0) ∧
    (s.state = .review → s.scheduledDays = intervalDays s.stability requestRetention)

theorem paced_reviewed (s : FsrsState) (rating : FsrsRating) (now requestRetention : ℝ) :
    (s.reviewed rating now requestRetention).Paced requestRetention := by
  by_cases hagain : rating = .again
  · simp [FsrsState.Paced, FsrsState.reviewed, hagain]
  · simp [FsrsState.Paced, FsrsState.reviewed, FsrsState.daysAfter, hagain]

theorem History.paced {requestRetention start : ℝ} {h : List (Fired FsrsState (FsrsRating × ℝ))}
    {s : FsrsState} (hr : History requestRetention start h s) : s.Paced requestRetention := by
  cases hr with
  | nil => exact ⟨fun _ => rfl, nofun⟩
  | cons hbefore hs =>
    rw [reviewStep_eq_some (History.reviewable hbefore) hs]
    exact paced_reviewed _ _ _ _

theorem due_mono {s : FsrsState} (h : s.Reviewable) (now : ℝ) {rating rating' : FsrsRating}
    (hrating : rating.value ≤ rating'.value) :
    (s.reviewed rating now 0.9).due ≤ (s.reviewed rating' now 0.9).due := by
  have hdue : ∀ {r : FsrsRating}, r ≠ .again → (s.reviewed r now 0.9).due =
      now + intervalDays (s.stabilityAfter r now) 0.9 * MS_PER_DAY := by
    intro r hr
    simp [FsrsState.reviewed, FsrsState.daysAfter, hr]
  by_cases hagain : rating = .again
  · have hsoon : (s.reviewed rating now 0.9).due = now + 10 * 60 * 1000 := if_pos hagain
    by_cases hagain' : rating' = .again
    · rw [hagain, hagain']
    · have hdays := one_le_intervalDays (s.stabilityAfter rating' now) 0.9
      have hday : (10 : ℝ) * 60 * 1000 ≤ MS_PER_DAY := by norm_num [MS_PER_DAY]
      have hdelay := le_mul_of_one_le_left MS_PER_DAY_pos.le hdays
      rw [hsoon, hdue hagain']
      linarith
  · have hagain' := ne_again_of_le hagain hrating
    have hdays := intervalDays_mono (stabilityAfter_mono h now hagain hrating)
    have hdelay := mul_le_mul_of_nonneg_right hdays MS_PER_DAY_pos.le
    rw [hdue hagain, hdue hagain']
    linarith

/-- After any history: a better rating is not due earlier, and a card that was remembered is not
less stable and, in review, not scheduled for fewer days. -/
theorem review_monotone {start : ℝ} {h : List (Fired FsrsState (FsrsRating × ℝ))} {s : FsrsState}
    (hr : History 0.9 start h s) (now : ℝ) :
    ∃ next : FsrsRating → FsrsState,
      (∀ rating, reviewFsrs s rating now = some (next rating)) ∧
      (∀ rating rating', rating.value ≤ rating'.value → (next rating).due ≤ (next rating').due) ∧
      ∀ rating, rating ≠ .again →
        s.stability ≤ (next rating).stability ∧
          (s.state = .review → s.scheduledDays ≤ (next rating).scheduledDays) := by
  have hstability : ∀ rating, rating ≠ .again → s.stability ≤ s.stabilityAfter rating now := by
    intro rating hagain
    exact le_stabilityAfter_of_ne (History.reviewable hr) (History.paced hr).1 now hagain
  refine ⟨fun rating => s.reviewed rating now 0.9, ?_, ?_, ?_⟩
  · exact fun rating => History.reviewFsrs_eq hr (by norm_num) rating now
  · exact fun rating rating' hrating => due_mono (History.reviewable hr) now hrating
  · intro rating hagain
    refine ⟨hstability rating hagain, ?_⟩
    intro hreview
    have hdays : (s.reviewed rating now 0.9).scheduledDays =
        intervalDays (s.stabilityAfter rating now) 0.9 := if_neg hagain
    rw [(History.paced hr).2 hreview, hdays]
    exact intervalDays_mono (hstability rating hagain)

/-- A card remembered at its first review, a day later. -/
theorem review_monotone_nextDay :
    ∃ next : FsrsRating → FsrsState,
      (∀ rating, reviewFsrs ((createInitialFsrs 0).reviewed .good 0 0.9) rating MS_PER_DAY =
        some (next rating)) ∧
      (next .hard).due ≤ (next .good).due ∧
      intervalDays 3.173 0.9 ≤ (next .hard).scheduledDays := by
  have hr : History 0.9 0 _ ((createInitialFsrs 0).reviewed .good 0 0.9) :=
    History.review Run.nil (by norm_num) .good 0
  obtain ⟨next, hnext, hdue, hkept⟩ := review_monotone hr MS_PER_DAY
  have hstability : initStability FSRS_DEFAULT_WEIGHTS .good = 3.173 := by
    norm_num [initStability, constrainingStability, weight, FSRS_DEFAULT_WEIGHTS]
  have hdays : ((createInitialFsrs 0).reviewed .good 0 0.9).scheduledDays =
      intervalDays 3.173 0.9 := by
    rw [← hstability]
    rfl
  refine ⟨next, hnext, hdue .hard .good (by norm_num [FsrsRating.value]), ?_⟩
  rw [← hdays]
  exact (hkept .hard (by decide)).2 rfl

/-! ## A lapse -/

/-- The stability that a lapse leaves of a memory just reviewed, before it is bounded below. -/
def FsrsState.lapseBase (s : FsrsState) : ℝ :=
  weight FSRS_DEFAULT_WEIGHTS 11 *
    nextDifficulty FSRS_DEFAULT_WEIGHTS s.difficulty .again ^ (-weight FSRS_DEFAULT_WEIGHTS 12) *
    ((s.stability + 1) ^ weight FSRS_DEFAULT_WEIGHTS 13 - 1)

/-- The share that may be forgotten before a lapse strengthens the memory. -/
def FsrsState.lapseMargin (s : FsrsState) : ℝ :=
  Real.log (s.stability / s.lapseBase) / weight FSRS_DEFAULT_WEIGHTS 14

/-- The days do not reach the limit from which on a lapse strengthens the memory. -/
def FsrsState.WithinLapseLimit (s : FsrsState) (days : ℝ) : Prop :=
  1 ≤ s.lapseMargin ∨
    days ≤ s.stability / FACTOR * ((1 - s.lapseMargin)⁻¹ ^ 2 - 1)

theorem lapseBase_pos {s : FsrsState} (h : s.Sound) : 0 < s.lapseBase := by
  have hs := h.stability_pos
  have hd : 0 < nextDifficulty FSRS_DEFAULT_WEIGHTS s.difficulty .again :=
    lt_of_lt_of_le one_pos (clampDifficulty_mem _).1
  have hweight : 0 < weight FSRS_DEFAULT_WEIGHTS 11 := by norm_num [weight, FSRS_DEFAULT_WEIGHTS]
  have hexponent : 0 < weight FSRS_DEFAULT_WEIGHTS 13 := by
    norm_num [weight, FSRS_DEFAULT_WEIGHTS]
  have hpower : 1 < (s.stability + 1) ^ weight FSRS_DEFAULT_WEIGHTS 13 :=
    Real.one_lt_rpow (by linarith) hexponent
  exact mul_pos (mul_pos hweight (Real.rpow_pos_of_pos hd _)) (by linarith)

theorem recalled_eq_inv_sqrt {stability elapsedDays : ℝ} (hs : 0 < stability)
    (he : 0 ≤ elapsedDays) :
    recalled stability elapsedDays = (√(1 + FACTOR * elapsedDays / stability))⁻¹ := by
  have hbase := one_le_recalled_base hs he
  have hdecay : DECAY = -(1 / 2) := by norm_num [DECAY]
  rw [recalled, hdecay, Real.rpow_neg (by linarith), ← Real.sqrt_eq_rpow]

/-- A share is still remembered up to a number of days. -/
theorem le_recalled_iff {share stability elapsedDays : ℝ} (hshare : 0 < share)
    (hs : 0 < stability) (he : 0 ≤ elapsedDays) :
    share ≤ recalled stability elapsedDays ↔
      elapsedDays ≤ stability / FACTOR * (share⁻¹ ^ 2 - 1) := by
  have hbase := one_le_recalled_base hs he
  have hfactor : 0 < FACTOR := by norm_num [FACTOR]
  have hsqrt : 0 < √(1 + FACTOR * elapsedDays / stability) := Real.sqrt_pos.2 (by linarith)
  rw [recalled_eq_inv_sqrt hs he, le_inv_comm₀ hshare hsqrt,
    Real.sqrt_le_left (inv_nonneg.2 hshare.le)]
  rw [div_mul_eq_mul_div, le_div_iff₀ hfactor, ← le_sub_iff_add_le', div_le_iff₀ hs,
    mul_comm FACTOR, mul_comm stability]

theorem lapse_le_iff {s : FsrsState} (h : s.Sound) {elapsedDays : ℝ} (he : 0 ≤ elapsedDays) :
    constrainingStability (lapseStability (nextDifficulty FSRS_DEFAULT_WEIGHTS s.difficulty .again)
      s.stability (recalled s.stability elapsedDays)) ≤ s.stability ↔
      s.WithinLapseLimit elapsedDays := by
  have hs := h.stability_pos
  have hbase := lapseBase_pos h
  have hweight : 0 < weight FSRS_DEFAULT_WEIGHTS 14 := by norm_num [weight, FSRS_DEFAULT_WEIGHTS]
  have hlapse : lapseStability (nextDifficulty FSRS_DEFAULT_WEIGHTS s.difficulty .again)
      s.stability (recalled s.stability elapsedDays) = s.lapseBase *
        Real.exp ((1 - recalled s.stability elapsedDays) * weight FSRS_DEFAULT_WEIGHTS 14) := rfl
  have hmargin : constrainingStability
      (lapseStability (nextDifficulty FSRS_DEFAULT_WEIGHTS s.difficulty .again) s.stability
        (recalled s.stability elapsedDays)) ≤ s.stability ↔
      1 - s.lapseMargin ≤ recalled s.stability elapsedDays := by
    rw [constrainingStability, max_le_iff, and_iff_right h.le_stability, hlapse, mul_comm,
      ← le_div_iff₀ hbase, ← Real.le_log_iff_exp_le (div_pos hs hbase), ← le_div_iff₀ hweight,
      sub_le_comm, FsrsState.lapseMargin]
  rw [hmargin, FsrsState.WithinLapseLimit]
  by_cases hall : 1 ≤ s.lapseMargin
  · have hrecalled : 0 < recalled s.stability elapsedDays :=
      Real.rpow_pos_of_pos (lt_of_lt_of_le one_pos (one_le_recalled_base hs he)) _
    exact ⟨fun _ => Or.inl hall, fun _ => by linarith⟩
  · rw [le_recalled_iff (by linarith) hs he, or_iff_right hall]

theorem stability_lapsed {s : FsrsState} (hknown : s.state ≠ .new) (now requestRetention : ℝ) :
    (s.reviewed .again now requestRetention).stability =
      constrainingStability (lapseStability
        (nextDifficulty FSRS_DEFAULT_WEIGHTS s.difficulty .again) s.stability
        (recalled s.stability (s.elapsedAt now))) := by
  simp [FsrsState.reviewed, FsrsState.stabilityAfter, FsrsState.difficultyAfter, hknown]

/-- After any history: forgetting a card leaves it no more stable exactly within the limit of its
state. -/
theorem lapse_weakens_iff {requestRetention start : ℝ}
    {h : List (Fired FsrsState (FsrsRating × ℝ))} {s : FsrsState}
    (hr : History requestRetention start h s) (hknown : s.state ≠ .new) (now : ℝ) :
    ∃ next, reviewFsrs s .again now FSRS_DEFAULT_WEIGHTS requestRetention = some next ∧
      (next.stability ≤ s.stability ↔ s.WithinLapseLimit (s.elapsedAt now)) := by
  have hsound := (History.reviewable hr).resolve_left hknown
  have hnext : reviewFsrs s .again now FSRS_DEFAULT_WEIGHTS requestRetention =
      some (s.reviewed .again now requestRetention) := by
    rw [reviewFsrs_eq (History.reviewable hr), if_neg fun hagain => hagain.1 rfl]
  refine ⟨_, hnext, ?_⟩
  rw [stability_lapsed hknown]
  exact lapse_le_iff hsound (elapsedAt_nonneg s now)

/-- A card forgotten at its first review. -/
def forgottenOnce : FsrsState := (createInitialFsrs 0).reviewed .again 0 0.9

theorem forgottenOnce_stability : forgottenOnce.stability = 0.40255 := by
  norm_num [forgottenOnce, FsrsState.reviewed, FsrsState.stabilityAfter, createInitialFsrs,
    initStability, constrainingStability, weight, FSRS_DEFAULT_WEIGHTS]

theorem forgottenOnce_difficulty : forgottenOnce.difficulty = 7.1949 := by
  norm_num [forgottenOnce, FsrsState.reviewed, FsrsState.difficultyAfter, createInitialFsrs,
    initDifficulty, clampDifficulty, weight, FSRS_DEFAULT_WEIGHTS, FsrsRating.value]

theorem forgottenOnce_elapsedAt : forgottenOnce.elapsedAt (10 * MS_PER_DAY) = 10 := by
  have hday := MS_PER_DAY_pos.ne'
  simp [forgottenOnce, FsrsState.reviewed, FsrsState.elapsedAt, hday]

theorem lapse_weakens_iff_tenDays :
    ∃ next, reviewFsrs forgottenOnce .again (10 * MS_PER_DAY) = some next ∧
      (next.stability ≤ 0.40255 ↔ forgottenOnce.WithinLapseLimit 10) := by
  have hr : History 0.9 0 _ forgottenOnce := History.review Run.nil (by norm_num) .again 0
  have hiff := lapse_weakens_iff hr nofun (10 * MS_PER_DAY)
  rwa [forgottenOnce_stability, forgottenOnce_elapsedAt] at hiff

theorem nextDifficulty_forgottenOnce :
    nextDifficulty FSRS_DEFAULT_WEIGHTS 7.1949 .again = 10 := by
  have hgood : 1 ≤ initDifficulty FSRS_DEFAULT_WEIGHTS .good := (clampDifficulty_mem _).1
  have hshare : weight FSRS_DEFAULT_WEIGHTS 7 = 0.0046 := by simp [weight, FSRS_DEFAULT_WEIGHTS]
  have hstep : weight FSRS_DEFAULT_WEIGHTS 6 = 1.4604 := by simp [weight, FSRS_DEFAULT_WEIGHTS]
  unfold nextDifficulty clampDifficulty
  dsimp only
  rw [hshare, hstep, FsrsRating.value]
  refine min_eq_left (le_trans ?_ (le_max_right _ _))
  linarith

theorem hundredth_root_pow {x : ℝ} (hx : 0 ≤ x) (n : ℕ) : (x ^ (n / 100 : ℝ)) ^ 100 = x ^ n := by
  rw [← Real.rpow_mul_natCast hx, ← Real.rpow_natCast]
  congr 1
  push_cast
  ring

theorem le_difficulty_power : (3 / 4 : ℝ) ≤ 10 ^ (-(0.11 : ℝ)) := by
  have hexponent : (0.11 : ℝ) = ((11 : ℕ) / 100 : ℝ) := by norm_num
  have hroot : ((10 : ℝ) ^ (0.11 : ℝ)) ^ 100 = 10 ^ 11 := by
    rw [hexponent, hundredth_root_pow (by norm_num)]
  rw [Real.rpow_neg (by norm_num), le_inv_comm₀ (by norm_num) (by positivity)]
  refine le_of_pow_le_pow_left₀ (n := 100) (by norm_num) (by norm_num) ?_
  rw [hroot]
  norm_num

theorem le_stability_power : (1.1 : ℝ) ≤ (0.40255 + 1) ^ (0.29605 : ℝ) := by
  have hroot : ((1.4 : ℝ) ^ ((29 : ℕ) / 100 : ℝ)) ^ 100 = 1.4 ^ 29 :=
    hundredth_root_pow (by norm_num) 29
  have hlow : (1.1 : ℝ) ≤ 1.4 ^ ((29 : ℕ) / 100 : ℝ) := by
    refine le_of_pow_le_pow_left₀ (n := 100) (by norm_num) (by positivity) ?_
    rw [hroot]
    norm_num
  calc (1.1 : ℝ) ≤ 1.4 ^ ((29 : ℕ) / 100 : ℝ) := hlow
    _ ≤ 1.4 ^ (0.29605 : ℝ) := Real.rpow_le_rpow_of_exponent_le (by norm_num) (by norm_num)
    _ ≤ (0.40255 + 1) ^ (0.29605 : ℝ) :=
      Real.rpow_le_rpow (by norm_num) (by norm_num) (by norm_num)

theorem recalled_le_forgottenOnce : recalled 0.40255 10 ≤ 0.4 := by
  have hroot : (2.5 : ℝ) ≤ √(1 + FACTOR * 10 / 0.40255) :=
    Real.le_sqrt_of_sq_le (by norm_num [FACTOR])
  rw [recalled_eq_inv_sqrt (by norm_num) (by norm_num)]
  exact (inv_anti₀ (by norm_num) hroot).trans (by norm_num)

theorem lapseStability_forgottenOnce :
    0.40255 < lapseStability 10 0.40255 (recalled 0.40255 10) := by
  have hexp : (3.28 : ℝ) ≤ Real.exp ((1 - recalled 0.40255 10) * 2.2698) := by
    have hrecalled := recalled_le_forgottenOnce
    have hforgotten : (1.36188 : ℝ) ≤ (1 - recalled 0.40255 10) * 2.2698 := by linarith
    have hquadratic : (1 + 1.36188 + 1.36188 ^ 2 / 2 : ℝ) ≤ Real.exp 1.36188 :=
      Real.quadratic_le_exp_of_nonneg (by norm_num)
    have hmono := Real.exp_le_exp.2 hforgotten
    linarith
  have hbase : (0.145 : ℝ) ≤
      1.9395 * 10 ^ (-(0.11 : ℝ)) * ((0.40255 + 1) ^ (0.29605 : ℝ) - 1) := by
    calc (0.145 : ℝ) ≤ 1.9395 * (3 / 4) * (1.1 - 1) := by norm_num
      _ ≤ 1.9395 * 10 ^ (-(0.11 : ℝ)) * ((0.40255 + 1) ^ (0.29605 : ℝ) - 1) := by
        gcongr
        · exact le_difficulty_power
        · exact le_stability_power
  calc (0.40255 : ℝ) < 0.145 * 3.28 := by norm_num
    _ ≤ lapseStability 10 0.40255 (recalled 0.40255 10) := mul_le_mul hbase hexp (by norm_num)
      (le_trans (by norm_num) hbase)

/-- A card forgotten at its first review and again ten days later is more stable after it. -/
theorem not_lapse_weakens :
    ¬ ∀ (start : ℝ) (h : List (Fired FsrsState (FsrsRating × ℝ))) (s : FsrsState),
      History 0.9 start h s → s.state ≠ .new → ∀ (now : ℝ) (next : FsrsState),
        reviewFsrs s .again now = some next → next.stability ≤ s.stability := by
  intro hall
  have hr : History 0.9 0 _ forgottenOnce := History.review Run.nil (by norm_num) .again 0
  have hnext := History.reviewFsrs_eq hr (by norm_num) .again (10 * MS_PER_DAY)
  have hle := hall 0 _ forgottenOnce hr nofun (10 * MS_PER_DAY) _ hnext
  have hstability : (forgottenOnce.reviewed .again (10 * MS_PER_DAY) 0.9).stability =
      constrainingStability (lapseStability 10 0.40255 (recalled 0.40255 10)) := by
    have hafter := stability_lapsed (s := forgottenOnce) nofun (10 * MS_PER_DAY) 0.9
    rw [hafter, forgottenOnce_elapsedAt, forgottenOnce_stability, forgottenOnce_difficulty,
      nextDifficulty_forgottenOnce]
  rw [hstability, forgottenOnce_stability] at hle
  have hmore := lapseStability_forgottenOnce
  have hbound := (le_max_right 0.1 (lapseStability 10 0.40255 (recalled 0.40255 10))).trans hle
  linarith

end

end LanguageLlm.Learning
