import Mathlib.Data.List.Induction
import LanguageLlm.Content.Script

/-!
# What the frames show

Each frame of `tick` sends a patch that leaves out what it has no value for, so the overlay depends
on all frames before. `ticks_show` says what the overlay has after any frames when a cue is active
in the last one.
-/

namespace LanguageLlm.Content

open Lib Protocol

namespace Script

/-- The frames at some times, one after the other. -/
def ticks (s : Script) (times : List Int) : Script :=
  times.foldl (fun s time => s.tick (some time)) s

/-- `evidenceByCueIndex[idx]` of a cue, unless it is empty. -/
def evidenceOf (s : Script) (timeline : HeldTimeline) (source : HeldCue) : Option String :=
  (s.evidenceByCueIndex[timeline.cues.findIdx fun c => c.id = source.id]?).filter (· ≠ "")

/-- The cue that a frame finds. -/
def cueAt (s : Script) (timeline : HeldTimeline) (time : Int) : Option HeldCue :=
  activeCueAt timeline (time + s.syncOffsetMs)

/-- The evidence of the cue that a frame finds. -/
def evidenceAt (s : Script) (timeline : HeldTimeline) (time : Int) : Option String :=
  (s.cueAt timeline time).bind (s.evidenceOf timeline)

/-- The evidence of the latest cue that had some, or else the one that was recorded last. -/
def latestEvidence (s : Script) (timeline : HeldTimeline) (times : List Int) : String :=
  (times.reverse.findSome? (s.evidenceAt timeline)).getD s.lastEvidence

end Script

variable {s : Script} {timeline : HeldTimeline} {times : List Int} {time : Int} {source : HeldCue}

/-! ## One frame -/

/-- What a frame does not change. -/
structure SameFrame (s s' : Script) : Prop where
  timeline : s'.timeline = s.timeline
  translationTexts : s'.translationTexts = s.translationTexts
  evidenceByCueIndex : s'.evidenceByCueIndex = s.evidenceByCueIndex
  syncOffsetMs : s'.syncOffsetMs = s.syncOffsetMs

theorem sameFrame_publish (s : Script) (id : Option String) :
    SameFrame s (s.publishTranscript id) ∧ (s.publishTranscript id).overlay = s.overlay ∧
      (s.publishTranscript id).lastEvidence = s.lastEvidence := by
  unfold Script.publishTranscript
  split <;> exact ⟨⟨rfl, rfl, rfl, rfl⟩, rfl, rfl⟩

/-- The overlay after a frame, field by field. -/
structure TickedOverlay (s s' : Script) (timeline : HeldTimeline) (time : Int) : Prop where
  same : SameFrame s s'
  sourceCue : s'.overlay.sourceCue =
    ((s.cueAt timeline time).map HeldCue.toCue).or s.overlay.sourceCue
  translationCue : s'.overlay.translationCue =
    (((s.cueAt timeline time).bind fun source => (s.translationOf timeline source).map fun d =>
      { source.toCue with text := d.text, provenance := .mt }).or s.overlay.translationCue)
  showTranslation : s'.overlay.showTranslation =
    (s.showTranslation &&
      ((s.cueAt timeline time).bind fun source => s.translationOf timeline source).isSome)
  confidence : s'.overlay.confidence =
    if (s.evidenceAt timeline time).isSome then some (42 / 100) else s.overlay.confidence
  lastEvidence : s'.lastEvidence = (s.evidenceAt timeline time).getD s.lastEvidence
  evidenceSummary : s'.overlay.evidenceSummary =
    (some s'.lastEvidence |>.filter (· ≠ "")).or s.overlay.evidenceSummary

/-- Publishing the transcript leaves the overlay alone. -/
theorem TickedOverlay.publish {s' : Script} (h : TickedOverlay s s' timeline time)
    (painted id : Option String) :
    TickedOverlay s ({ s' with lastPaintedCueId := painted }.publishTranscript id) timeline
      time := by
  obtain ⟨hsame, hoverlay, hlast⟩ := sameFrame_publish { s' with lastPaintedCueId := painted } id
  constructor
  · exact ⟨hsame.1.trans h.same.1, hsame.2.trans h.same.2, hsame.3.trans h.same.3,
      hsame.4.trans h.same.4⟩
  · rw [hoverlay, h.sourceCue]
  · rw [hoverlay, h.translationCue]
  · rw [hoverlay, h.showTranslation]
  · rw [hoverlay, h.confidence]
  · rw [hlast, h.lastEvidence]
  · rw [hoverlay, hlast, h.evidenceSummary]

theorem tick_overlay (htimeline : s.timeline = some timeline) (hcues : timeline.cues ≠ []) :
    TickedOverlay s (s.tick (some time)) timeline time := by
  have hfilter : s.timeline.filter (fun timeline => timeline.cues ≠ []) = some timeline := by
    rw [htimeline, Option.filter_some, if_pos (decide_eq_true hcues)]
  have hevidence : ((Script.activeCueAt timeline (time + s.syncOffsetMs)).bind fun source =>
      s.evidenceByCueIndex[timeline.cues.findIdx fun c => c.id = source.id]?).filter (· ≠ "") =
        s.evidenceAt timeline time := by
    rw [Script.evidenceAt, Script.cueAt]
    cases Script.activeCueAt timeline (time + s.syncOffsetMs) <;> rfl
  unfold Script.tick
  simp only [hfilter, hevidence, Option.orElse_eq_orElse, Option.orElse_eq_or]
  have hsummary : ∀ (found : Option String) (last : String),
      found.or (some (found.getD last)) = some (found.getD last) := by
    intro found last
    cases found <;> rfl
  generalize hupdate : Script.update _ _ = s₁
  have hframe : TickedOverlay s s₁ timeline time := by
    subst hupdate
    constructor
    · exact ⟨rfl, rfl, rfl, rfl⟩
    · rfl
    · rfl
    · simp only [Script.update, Script.cueAt]
      cases Script.activeCueAt timeline (time + s.syncOffsetMs) with
      | none => rfl
      | some source => simp
    · rfl
    · rfl
    · simp only [Script.update, hsummary]
  split
  · exact hframe.publish _ _
  · exact hframe

/-! ## All frames -/

section SameFrame

variable {s' : Script} (h : SameFrame s s')
include h

theorem SameFrame.cueAt_eq : s'.cueAt timeline time = s.cueAt timeline time := by
  rw [Script.cueAt, Script.cueAt, h.syncOffsetMs]

theorem SameFrame.evidenceOf_eq : s'.evidenceOf timeline source = s.evidenceOf timeline source := by
  rw [Script.evidenceOf, Script.evidenceOf, h.evidenceByCueIndex]

theorem SameFrame.translationOf_eq :
    s'.translationOf timeline source = s.translationOf timeline source := by
  rw [Script.translationOf, Script.translationOf, h.translationTexts]

theorem SameFrame.evidenceAt_eq : s'.evidenceAt timeline time = s.evidenceAt timeline time := by
  rw [Script.evidenceAt, Script.evidenceAt, h.cueAt_eq]
  exact Option.bind_congr fun source _ => h.evidenceOf_eq

end SameFrame

theorem ticks_append (s : Script) (times : List Int) (time : Int) :
    s.ticks (times ++ [time]) = (s.ticks times).tick (some time) := by
  rw [Script.ticks, List.foldl_append]
  rfl

theorem latestEvidence_append (s : Script) (timeline : HeldTimeline) (times : List Int)
    (time : Int) :
    s.latestEvidence timeline (times ++ [time]) =
      (s.evidenceAt timeline time).getD (s.latestEvidence timeline times) := by
  rw [Script.latestEvidence, List.reverse_append, List.reverse_singleton, List.singleton_append,
    List.findSome?_cons]
  cases s.evidenceAt timeline time <;> rfl

/-- After any frames, the variables are those of the start but for the evidence. -/
theorem sameFrame_ticks (htimeline : s.timeline = some timeline) (hcues : timeline.cues ≠ [])
    (times : List Int) :
    SameFrame s (s.ticks times) ∧
      (s.ticks times).lastEvidence = s.latestEvidence timeline times := by
  induction times using List.reverseRecOn with
  | nil => exact ⟨⟨rfl, rfl, rfl, rfl⟩, rfl⟩
  | append_singleton times time ih =>
    obtain ⟨hsame, hlast⟩ := ih
    have htick : TickedOverlay (s.ticks times) _ timeline time :=
      tick_overlay (hsame.timeline.trans htimeline) hcues
    rw [ticks_append, latestEvidence_append, htick.lastEvidence, hlast, hsame.evidenceAt_eq]
    exact ⟨⟨htick.same.1.trans hsame.1, htick.same.2.trans hsame.2, htick.same.3.trans hsame.3,
      htick.same.4.trans hsame.4⟩, rfl⟩

theorem ne_empty_of_evidenceAt {evidence : String}
    (h : s.evidenceAt timeline time = some evidence) : evidence ≠ "" := by
  obtain ⟨source, -, hsource⟩ := Option.bind_eq_some_iff.1 h
  exact of_decide_eq_true (Option.filter_eq_some_iff.1 hsource).2

/-- The overlay has the latest evidence, once there was any. -/
theorem evidenceSummary_ticks (htimeline : s.timeline = some timeline) (hcues : timeline.cues ≠ [])
    (times : List Int) (time : Int) :
    (s.ticks (times ++ [time])).overlay.evidenceSummary =
      ((some (s.latestEvidence timeline (times ++ [time]))).filter (· ≠ "")).or
        s.overlay.evidenceSummary := by
  induction times using List.reverseRecOn generalizing time with
  | nil =>
    have htick : TickedOverlay s ((s.ticks []).tick (some time)) timeline time :=
      tick_overlay htimeline hcues
    rw [ticks_append, htick.evidenceSummary, htick.lastEvidence, latestEvidence_append]
    rfl
  | append_singleton times earlier ih =>
    obtain ⟨hsame, hlast⟩ := sameFrame_ticks htimeline hcues (times ++ [earlier])
    have htick : TickedOverlay (s.ticks (times ++ [earlier])) _ timeline time :=
      tick_overlay (hsame.timeline.trans htimeline) hcues
    rw [ticks_append, htick.evidenceSummary, htick.lastEvidence, hlast, hsame.evidenceAt_eq,
      latestEvidence_append s timeline _ time, ih earlier, ← Option.or_assoc]
    congr 1
    cases hevidence : s.evidenceAt timeline time with
    | none => exact Option.or_self
    | some evidence =>
      rw [Option.getD_some, Option.filter_some,
        if_pos (decide_eq_true (ne_empty_of_evidenceAt hevidence)), Option.some_or]

/-- What the overlay has after frames of which the last one found a cue. -/
structure FrameShows (s : Script) (timeline : HeldTimeline) (times : List Int) (source : HeldCue)
    (overlay : OverlayState) : Prop where
  sourceCue : overlay.sourceCue = some source.toCue
  translated : ∀ d, s.translationOf timeline source = some d →
    overlay.translationCue = some { source.toCue with text := d.text, provenance := .mt }
  untranslated : s.translationOf timeline source = none → overlay.showTranslation = false
  confidence : (s.evidenceOf timeline source).isSome → overlay.confidence = some (42 / 100)
  evidence : ∀ e, s.evidenceOf timeline source = some e → overlay.evidenceSummary = some e
  evidenceSummary : overlay.evidenceSummary =
    ((some (s.latestEvidence timeline times)).filter (· ≠ "")).or s.overlay.evidenceSummary

/-- After any frames of which the last one finds a cue, the overlay shows that cue, with its
translation or with none, and its evidence or, when it has none, the latest. -/
theorem ticks_show (htimeline : s.timeline = some timeline)
    (hsource : s.cueAt timeline time = some source) :
    FrameShows s timeline (times ++ [time]) source (s.ticks (times ++ [time])).overlay := by
  have hcues : timeline.cues ≠ [] := by
    intro hnil
    rw [Script.cueAt, Script.activeCueAt, hnil] at hsource
    cases hsource
  obtain ⟨hsame, -⟩ := sameFrame_ticks htimeline hcues times
  have htick : TickedOverlay (s.ticks times) _ timeline time :=
    tick_overlay (hsame.timeline.trans htimeline) hcues
  have hcue : (s.ticks times).cueAt timeline time = some source := hsame.cueAt_eq.trans hsource
  have hevidence : s.evidenceAt timeline time = s.evidenceOf timeline source := by
    rw [Script.evidenceAt, hsource, Option.bind_some]
  have hsummary := evidenceSummary_ticks htimeline hcues times time
  constructor
  · rw [ticks_append, htick.sourceCue, hcue]
    rfl
  · intro d hd
    rw [ticks_append, htick.translationCue, hcue, Option.bind_some, hsame.translationOf_eq, hd]
    rfl
  · intro hnone
    rw [ticks_append, htick.showTranslation, hcue, Option.bind_some, hsame.translationOf_eq, hnone]
    exact Bool.and_false _
  · intro hsome
    rw [ticks_append, htick.confidence, hsame.evidenceAt_eq, hevidence, if_pos hsome]
  · intro e he
    rw [hsummary, latestEvidence_append, hevidence, he, Option.getD_some, Option.filter_some,
      if_pos (decide_eq_true (ne_empty_of_evidenceAt (hevidence.trans he))), Option.some_or]
  · exact hsummary

/-- The overlay has nothing but what is of the cue that the last frame found. -/
def ShowsOnly (s : Script) (timeline : HeldTimeline) (time : Int) (overlay : OverlayState) : Prop :=
  overlay.sourceCue = (s.cueAt timeline time).map HeldCue.toCue ∧
  (∀ c ∈ overlay.translationCue, ∃ source d, s.cueAt timeline time = some source ∧
    s.translationOf timeline source = some d ∧
      c = { source.toCue with text := d.text, provenance := .mt }) ∧
  (overlay.confidence.isSome → (s.evidenceAt timeline time).isSome) ∧
  ∀ e ∈ overlay.evidenceSummary, s.evidenceAt timeline time = some e

/-- Two cues with a gap behind them, and evidence for the first. -/
def gapTimeline : HeldTimeline where
  videoId := "v"
  cues :=
    [⟨⟨"c1", 0, 1000, "one", .humanCaption⟩, "v"⟩, ⟨⟨"c2", 1000, 2000, "two", .humanCaption⟩, "v"⟩]
  captionSource := none
  developmentFallback := none

def gapScript : Script :=
  { Script.fresh with timeline := some gapTimeline, evidenceByCueIndex := ["low overlap", ""] }

theorem ticks_show_gapScript :
    FrameShows gapScript gapTimeline ([500] ++ [1500])
      ⟨⟨"c2", 1000, 2000, "two", .humanCaption⟩, "v"⟩ (gapScript.ticks ([500] ++ [1500])).overlay :=
  ticks_show rfl (by decide)

/-- A cue without evidence is shown with that of the cue before, and in a gap the last cue stays. -/
theorem not_showsOnly :
    ¬ ShowsOnly gapScript gapTimeline 1500 (gapScript.ticks [500, 1500]).overlay ∧
      ¬ ShowsOnly gapScript gapTimeline 5000 (gapScript.ticks [500, 5000]).overlay := by
  constructor
  · intro h
    have hevidence : gapScript.evidenceAt gapTimeline 1500 = some "low overlap" :=
      h.2.2.2 _ (by decide)
    have hnone : gapScript.evidenceAt gapTimeline 1500 = none := by decide
    rw [hnone] at hevidence
    cases hevidence
  · intro h
    have hcue : (gapScript.cueAt gapTimeline 5000).map HeldCue.toCue = none := by decide
    have hsource : (gapScript.ticks [500, 5000]).overlay.sourceCue.isSome := by decide
    rw [h.1, hcue] at hsource
    cases hsource

end LanguageLlm.Content
