import Mathlib.Algebra.Order.Ring.Defs
import Mathlib.Data.List.Sort
import Mathlib.Tactic.Linarith
import LanguageLlm.JsText
import LanguageLlm.Lib.Merging
import LanguageLlm.Protocol.Cues

/-!
# Cue arithmetic

`cue-math.ts`: cues that follow each other closely become one cue, and times are kept within bounds.
-/

namespace LanguageLlm.Protocol

open Lib PageTranslate

/-! ## Merging cues -/

/-- A cue with its speaker. -/
structure SpokenCue (τ : Type) extends CueOf τ where
  speaker : Option String

section Merging

variable {τ : Type} [LinearOrder τ]

/-- The cue that is held, with the next one. -/
def SpokenCue.absorb (current next : SpokenCue τ) : SpokenCue τ :=
  { current with
    endMs := max current.endMs next.endMs
    text := trimmed (current.text ++ " " ++ next.text)
    speaker := current.speaker <|> next.speaker }

/-- The gap between two cues is not too long. -/
def SpokenCue.adjacent [Sub τ] (maxGapMs : τ) (current next : SpokenCue τ) : Bool :=
  next.startMs - current.endMs ≤ maxGapMs

/-- `[...cues].sort((a, b) => a.startMs - b.startMs)`. -/
def sortedByStart (cues : List (SpokenCue τ)) : List (SpokenCue τ) :=
  cues.insertionSort fun a b => a.startMs ≤ b.startMs

def mergeAdjacentCues [Sub τ] [OfNat τ 80] (cues : List (SpokenCue τ)) (maxGapMs : τ := 80) :
    List (SpokenCue τ) :=
  mergeRuns (SpokenCue.adjacent maxGapMs) SpokenCue.absorb (sortedByStart cues)

/-- What a group of cues becomes. -/
structure MergedFrom (group : List (SpokenCue τ)) (out : SpokenCue τ) : Prop where
  first : ∃ c ∈ group.head?,
    out.id = c.id ∧ out.startMs = c.startMs ∧ out.provenance = c.provenance
  endMs : ∃ c ∈ group, out.endMs = c.endMs
  latest : ∀ c ∈ group, c.endMs ≤ out.endMs
  speaker : out.speaker = group.findSome? SpokenCue.speaker
  text : 2 ≤ group.length → out.text = trimmed (" ".intercalate (group.map fun c => c.text))
  alone : ∀ c, group = [c] → out = c

variable {first : SpokenCue τ} {rest : List (SpokenCue τ)}

theorem absorbed_first (first : SpokenCue τ) (rest : List (SpokenCue τ)) :
    (rest.foldl SpokenCue.absorb first).id = first.id ∧
      (rest.foldl SpokenCue.absorb first).startMs = first.startMs ∧
      (rest.foldl SpokenCue.absorb first).provenance = first.provenance := by
  induction rest generalizing first with
  | nil => exact ⟨rfl, rfl, rfl⟩
  | cons next rest ih => exact ih (first.absorb next)

theorem absorbed_endMs (first : SpokenCue τ) (rest : List (SpokenCue τ)) :
    ∃ c ∈ first :: rest, (rest.foldl SpokenCue.absorb first).endMs = c.endMs := by
  induction rest generalizing first with
  | nil => exact ⟨first, List.mem_cons_self, rfl⟩
  | cons next rest ih =>
    obtain ⟨c, hc, hend⟩ := ih (first.absorb next)
    rcases List.mem_cons.1 hc with rfl | hc
    · rcases max_choice first.endMs next.endMs with hmax | hmax
      · exact ⟨first, List.mem_cons_self, hend.trans hmax⟩
      · exact ⟨next, by simp, hend.trans hmax⟩
    · exact ⟨c, by simp [hc], hend⟩

theorem absorbed_latest (first : SpokenCue τ) (rest : List (SpokenCue τ)) :
    ∀ c ∈ first :: rest, c.endMs ≤ (rest.foldl SpokenCue.absorb first).endMs := by
  induction rest generalizing first with
  | nil =>
    intro c hc
    rw [List.mem_singleton.1 hc]
    exact le_rfl
  | cons next rest ih =>
    obtain ⟨hboth, hrest⟩ := List.forall_mem_cons.1 (ih (first.absorb next))
    refine List.forall_mem_cons.2 ⟨(le_max_left _ _).trans hboth, ?_⟩
    exact List.forall_mem_cons.2 ⟨(le_max_right _ _).trans hboth, hrest⟩

theorem absorbed_speaker (first : SpokenCue τ) (rest : List (SpokenCue τ)) :
    (rest.foldl SpokenCue.absorb first).speaker =
      (first :: rest).findSome? SpokenCue.speaker := by
  induction rest generalizing first with
  | nil => simp
  | cons next rest ih =>
    rw [List.foldl_cons, ih]
    have hspeaker : (first.absorb next).speaker = (first.speaker <|> next.speaker) := rfl
    simp only [List.findSome?_cons, hspeaker]
    cases first.speaker with
    | none => rfl
    | some speaker => rfl

theorem words_absorb (current next : SpokenCue τ) :
    words isSpace (current.absorb next).text.toList =
      words isSpace current.text.toList ++ words isSpace next.text.toList := by
  rw [SpokenCue.absorb, words_trimmed, String.toList_append, String.toList_append,
    List.append_assoc]
  exact words_append_cons isSpace_space

/-- The words of a group, in its order. -/
theorem absorbed_text (first next : SpokenCue τ) (rest : List (SpokenCue τ)) :
    ((next :: rest).foldl SpokenCue.absorb first).text =
      String.ofList ([' '].intercalate
        ((first :: next :: rest).flatMap fun c => words isSpace c.text.toList)) := by
  induction rest generalizing first next with
  | nil =>
    have htext : (first.absorb next).text = trimmed (first.absorb next).text := by
      rw [SpokenCue.absorb, trimmed_trimmed]
    rw [List.foldl_cons, List.foldl_nil, htext, trimmed_eq, words_absorb]
    simp
  | cons third rest ih =>
    rw [List.foldl_cons, ih (first.absorb next) third]
    simp only [List.flatMap_cons, words_absorb, List.append_assoc]

theorem mergedFrom_of_absorbs {group : List (SpokenCue τ)} {out : SpokenCue τ}
    (h : Absorbs SpokenCue.absorb group out) : MergedFrom group out := by
  obtain ⟨first, rest, rfl, rfl⟩ := h
  exact
    { first := ⟨first, rfl, absorbed_first first rest⟩
      endMs := absorbed_endMs first rest
      latest := absorbed_latest first rest
      speaker := absorbed_speaker first rest
      text := by
        intro hlength
        cases rest with
        | nil => simp at hlength
        | cons next rest =>
          rw [absorbed_text, trimmed_eq, String.toList_intercalate]
          have hspace : " ".toList = [' '] := rfl
          rw [hspace, words_intercalate isSpace_space, List.map_map, List.flatMap_map]
          rfl
      alone := by
        intro c hc
        obtain ⟨rfl, rfl⟩ := List.cons.inj hc
        rfl }

theorem sortedByStart_of_pairwise {cues : List (SpokenCue τ)}
    (h : cues.Pairwise fun a b => a.startMs ≤ b.startMs) : sortedByStart cues = cues :=
  h.insertionSort_eq

variable [Sub τ]

/-- Merging loses nothing: the sorted cues fall into groups, each of which becomes one cue, and what
is left is apart. -/
theorem mergeAdjacentCues_partition [OfNat τ 80] (cues : List (SpokenCue τ)) (maxGapMs : τ) :
    (mergeAdjacentCues cues maxGapMs).Pairwise (fun a b => a.startMs ≤ b.startMs) ∧
      (mergeAdjacentCues cues maxGapMs).IsChain (fun a b => maxGapMs < b.startMs - a.endMs) ∧
      (∃ groups, groups.flatten = sortedByStart cues ∧
        List.Forall₂ MergedFrom groups (mergeAdjacentCues cues maxGapMs)) ∧
      mergeAdjacentCues (mergeAdjacentCues cues maxGapMs) maxGapMs =
        mergeAdjacentCues cues maxGapMs := by
  have hsorted : (sortedByStart cues).Pairwise fun a b => a.startMs ≤ b.startMs :=
    List.pairwise_insertionSort (fun a b : SpokenCue τ => a.startMs ≤ b.startMs) cues
  have hstarts : (mergeAdjacentCues cues maxGapMs).Pairwise fun a b => a.startMs ≤ b.startMs := by
    have hsub := map_mergeRuns_sublist (SpokenCue.adjacent maxGapMs) SpokenCue.absorb
      (fun c : SpokenCue τ => c.startMs) (fun _ _ => rfl) (sortedByStart cues)
    have hmapped := (List.pairwise_map.2 hsorted).sublist hsub
    exact List.pairwise_map.1 hmapped
  have hapart : (mergeAdjacentCues cues maxGapMs).IsChain fun a b =>
      a.adjacent maxGapMs b = false :=
    isChain_mergeRuns fun _ _ _ => rfl
  refine ⟨hstarts, ?_, ?_, ?_⟩
  · refine hapart.imp fun a b hgap => ?_
    rwa [SpokenCue.adjacent, decide_eq_false_iff_not, not_le] at hgap
  · obtain ⟨groups, hflat, hall⟩ :=
      exists_groups (SpokenCue.adjacent maxGapMs) SpokenCue.absorb (sortedByStart cues)
    exact ⟨groups, hflat, hall.imp fun _ _ => mergedFrom_of_absorbs⟩
  · have hagain : sortedByStart (mergeAdjacentCues cues maxGapMs) =
        mergeAdjacentCues cues maxGapMs := sortedByStart_of_pairwise hstarts
    rw [mergeAdjacentCues, hagain]
    exact mergeRuns_of_isChain hapart

example :
    ((mergeAdjacentCues
      [⟨⟨"b", 900, 1500, "again", .asr⟩, none⟩, ⟨⟨"a", 0, 1000, "hello world", .asr⟩, none⟩]
      (200 : Int)).map fun c => (c.id, c.startMs, c.endMs, c.text)) =
      [("a", 0, 1500, "hello world again")] := by
  decide +kernel

end Merging

/-! ## Clamping times -/

/-- What has a start and an end beside its other fields. -/
structure Timed (τ α : Type) where
  startMs : τ
  endMs : τ
  fields : α
  deriving DecidableEq

structure ClampOptions (τ : Type) where
  minDurationMs : Option τ
  maxDurationMs : Option τ
  timelineEndMs : Option τ

section Clamping

variable {τ α : Type} [CommRing τ] [LinearOrder τ]

def ClampOptions.minDuration (options : ClampOptions τ) : τ := options.minDurationMs.getD 200

def ClampOptions.maxDuration (options : ClampOptions τ) : τ := options.maxDurationMs.getD 7000

def clampCueTiming (cue : Timed τ α) (options : ClampOptions τ) : Timed τ α :=
  let minDuration := options.minDuration
  let maxDuration := options.maxDuration
  let startMs := max 0 cue.startMs
  let endMs := max (startMs + minDuration) cue.endMs
  let (startMs, endMs) :=
    match options.timelineEndMs with
    | some timelineEndMs =>
      let endMs := min endMs timelineEndMs
      let startMs := min startMs (max 0 (timelineEndMs - minDuration))
      (startMs, max (startMs + minDuration) endMs)
    | none => (startMs, endMs)
  let endMs := if maxDuration < endMs - startMs then startMs + maxDuration else endMs
  { cue with startMs, endMs }

/-- Options that times can meet. -/
structure ClampOptions.Satisfiable (options : ClampOptions τ) : Prop where
  nonneg : 0 ≤ options.minDuration
  ordered : options.minDuration ≤ options.maxDuration
  room : ∀ timelineEndMs ∈ options.timelineEndMs, options.minDuration ≤ timelineEndMs

/-- Times that meet the options. -/
structure Timed.Within (cue : Timed τ α) (options : ClampOptions τ) : Prop where
  start : 0 ≤ cue.startMs
  long : options.minDuration ≤ cue.endMs - cue.startMs
  short : cue.endMs - cue.startMs ≤ options.maxDuration
  inTimeline : ∀ timelineEndMs ∈ options.timelineEndMs, cue.endMs ≤ timelineEndMs

variable [IsStrictOrderedRing τ] {cue : Timed τ α} {options : ClampOptions τ}

/-- The last adjustment, which cuts a cue that is too long. -/
theorem within_cut {startMs endMs : τ} (hstart : 0 ≤ startMs)
    (hlong : startMs + options.minDuration ≤ endMs)
    (hordered : options.minDuration ≤ options.maxDuration)
    (hend : ∀ timelineEndMs ∈ options.timelineEndMs, endMs ≤ timelineEndMs) (fields : α) :
    Timed.Within
      { startMs := startMs
        endMs := if options.maxDuration < endMs - startMs then startMs + options.maxDuration
          else endMs
        fields := fields } options := by
  by_cases hcut : options.maxDuration < endMs - startMs
  · simp only [if_pos hcut]
    refine ⟨hstart, ?_, ?_, fun timelineEndMs ht => ?_⟩
    · simpa using hordered
    · simp
    · have hle := hend timelineEndMs ht
      change startMs + options.maxDuration ≤ timelineEndMs
      linarith
  · simp only [if_neg hcut]
    exact ⟨hstart, le_sub_iff_add_le'.2 hlong, not_lt.1 hcut, hend⟩

theorem within_clampCueTiming (h : options.Satisfiable) (cue : Timed τ α) :
    (clampCueTiming cue options).Within options := by
  unfold clampCueTiming
  dsimp only
  cases ht : options.timelineEndMs with
  | none =>
    refine within_cut (le_max_left _ _) (le_max_left _ _) h.ordered ?_ cue.fields
    rw [ht]
    nofun
  | some timelineEndMs =>
    have hroom := h.room timelineEndMs ht
    have hstart : min (max 0 cue.startMs) (max 0 (timelineEndMs - options.minDuration)) +
        options.minDuration ≤ timelineEndMs := by
      rw [max_eq_right (sub_nonneg.2 hroom)]
      exact le_sub_iff_add_le.1 (min_le_right _ _)
    refine within_cut (le_min (le_max_left _ _) (le_max_left _ _)) (le_max_left _ _) h.ordered ?_
      cue.fields
    rw [ht]
    intro t htime
    cases htime
    exact max_le hstart (min_le_right _ _)

/-- Times that meet the options stay. -/
theorem clampCueTiming_of_within (h : cue.Within options) : clampCueTiming cue options = cue := by
  obtain ⟨startMs, endMs, fields⟩ := cue
  obtain ⟨hstart, hlong, hshort, htimeline⟩ := h
  dsimp only at hstart hlong hshort htimeline
  have hend : max (startMs + options.minDuration) endMs = endMs :=
    max_eq_right (le_sub_iff_add_le'.1 hlong)
  have hcut : ¬ options.maxDuration < endMs - startMs := not_lt.2 hshort
  unfold clampCueTiming
  dsimp only
  rw [max_eq_right hstart, hend]
  cases ht : options.timelineEndMs with
  | none => simp only [if_neg hcut]
  | some timelineEndMs =>
    have hle : endMs ≤ timelineEndMs := htimeline timelineEndMs ht
    have hlast : startMs ≤ max 0 (timelineEndMs - options.minDuration) := by
      refine le_max_of_le_right ?_
      linarith
    simp only [min_eq_left hle, min_eq_left hlast, hend, if_neg hcut]

/-- The clamped times meet all bounds at once, clamping again changes nothing, and neither does
clamping what meets them. -/
theorem clampCueTiming_bounds (h : options.Satisfiable) (cue : Timed τ α) :
    (clampCueTiming cue options).Within options ∧
      clampCueTiming (clampCueTiming cue options) options = clampCueTiming cue options ∧
      (cue.Within options → clampCueTiming cue options = cue) := by
  have hwithin := within_clampCueTiming h cue
  exact ⟨hwithin, clampCueTiming_of_within hwithin, clampCueTiming_of_within⟩

/-- The options of the next statement. -/
def shortTimeline : ClampOptions ℤ where
  minDurationMs := some 500
  maxDurationMs := none
  timelineEndMs := some 900

theorem clampCueTiming_shortTimeline :
    (clampCueTiming (⟨1000, -20, ()⟩ : Timed ℤ Unit) shortTimeline).Within shortTimeline ∧
      clampCueTiming (⟨1000, -20, ()⟩ : Timed ℤ Unit) shortTimeline = ⟨400, 900, ()⟩ ∧
      clampCueTiming (⟨100, 700, ()⟩ : Timed ℤ Unit) shortTimeline = ⟨100, 700, ()⟩ := by
  have hoptions : shortTimeline.Satisfiable := by
    constructor
    all_goals decide
  have hwithin : (⟨100, 700, ()⟩ : Timed ℤ Unit).Within shortTimeline := by
    constructor
    all_goals decide
  exact ⟨(clampCueTiming_bounds hoptions _).1, by decide,
    (clampCueTiming_bounds hoptions _).2.2 hwithin⟩

end Clamping

end LanguageLlm.Protocol
