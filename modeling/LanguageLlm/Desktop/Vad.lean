import LanguageLlm.Lib.Runs
import LanguageLlm.Desktop.Capture

/-!
# Voice activity

`energy_vad_chunks` cuts audio into frames and keeps the loud ones. Its chunks are the maximal runs
of loud frames, each with its samples and its times (`energyVadChunks_runs`).
-/

namespace LanguageLlm.Desktop

open Lib

structure VadChunk where
  startMs : Nat
  endMs : Nat
  samples : List Rat

def samplesToMs (sampleRateHz index : Nat) : Nat := index * 1000 / sampleRateHz

/-- `chunk_from`. -/
def chunkFrom (sr start stop : Nat) (samples : List Rat) : VadChunk where
  startMs := samplesToMs sr start
  endMs := samplesToMs sr stop
  samples := (samples.take stop).drop start

/-- The number of samples of a frame. The product is one of 64 bits. -/
def frameLen (sampleRateHz frameMs : Nat) : { len : Nat // 0 < len } :=
  ⟨max (sampleRateHz * frameMs % 2 ^ 64 / 1000) 1, by omega⟩

/-- The mean energy of a frame. -/
def frameEnergy (frame : List Rat) : Rat :=
  (frame.map fun s => s * s).sum / (max frame.length 1 : Nat)

/-- What the loop keeps beside its index. -/
structure VadScan where
  out : List VadChunk
  chunkStart : Nat
  inSpeech : Bool

/-- One frame. -/
def vadFrame (pcm : PcmMono) (energyThreshold : Rat) (i stop : Nat) (s : VadScan) : VadScan :=
  let frame := (pcm.samples.take stop).drop i
  if energyThreshold ≤ frameEnergy frame then
    if s.inSpeech then s else { s with chunkStart := i, inSpeech := true }
  else if s.inSpeech then
    { s with
      out := s.out ++ [chunkFrom pcm.sampleRateHz s.chunkStart i pcm.samples]
      inSpeech := false }
  else s

/-- The loop from the `i`-th sample on. -/
def vadFrames (pcm : PcmMono) (len : { len : Nat // 0 < len }) (energyThreshold : Rat) (i : Nat)
    (s : VadScan) : VadScan :=
  if i < pcm.samples.length then
    let stop := min (i + len) pcm.samples.length
    vadFrames pcm len energyThreshold stop (vadFrame pcm energyThreshold i stop s)
  else s
termination_by pcm.samples.length - i
decreasing_by
  have := len.property
  omega

def energyVadChunks (pcm : PcmMono) (frameMs : Nat) (energyThreshold : Rat) :
    Except MediaError (List VadChunk) :=
  if pcm.samples = [] then .error .empty
  else if pcm.sampleRateHz = 0 then .error (.sampleRate 0)
  else
    let len := frameLen pcm.sampleRateHz frameMs
    let s := vadFrames pcm len energyThreshold 0 { out := [], chunkStart := 0, inSpeech := false }
    .ok (if s.inSpeech then
      s.out ++ [chunkFrom pcm.sampleRateHz s.chunkStart pcm.samples.length pcm.samples] else s.out)

/-! ## The runs of loud frames -/

/-- The number of frames; the last one may be short. -/
def frameCount (samples : List Rat) (len : Nat) : Nat := (samples.length + len - 1) / len

/-- The `k`-th frame is loud. -/
def loud (samples : List Rat) (len : Nat) (threshold : Rat) (k : Nat) : Bool :=
  decide (threshold ≤ frameEnergy ((samples.drop (k * len)).take len))

/-- The samples that some frames span. -/
def sampleRange (samples : List Rat) (len : Nat) (frames : Nat × Nat) : Nat × Nat :=
  (frames.1 * len, min (frames.2 * len) samples.length)

/-- Ranges of samples are the maximal runs of loud frames. -/
structure VadRanges (samples : List Rat) (len : Nat) (threshold : Rat)
    (ranges : List (Nat × Nat)) : Prop where
  nonempty : ∀ r ∈ ranges, r.1 < r.2 ∧ r.2 ≤ samples.length
  ordered : ranges.Pairwise fun r r' => r.2 ≤ r'.1
  aligned : ∀ r ∈ ranges, len ∣ r.1 ∧ (len ∣ r.2 ∨ r.2 = samples.length)
  runs : ∀ r, r ∈ ranges ↔ ∃ start stop,
    PlaceRun (loud samples len threshold) (frameCount samples len) start stop ∧
      r = sampleRange samples len (start, stop)
  covers : ∀ k, k < frameCount samples len → loud samples len threshold k = true →
    ∃ r ∈ ranges, r.1 ≤ k * len ∧ min ((k + 1) * len) samples.length ≤ r.2

/-- A chunk has the samples of its range and the floored times of its ends. -/
structure CarriesRange (pcm : PcmMono) (r : Nat × Nat) (chunk : VadChunk) : Prop where
  samples : chunk.samples = (pcm.samples.drop r.1).take (r.2 - r.1)
  startMs : (chunk.startMs : Int) = ⌊(r.1 : Rat) * 1000 / pcm.sampleRateHz⌋
  endMs : (chunk.endMs : Int) = ⌊(r.2 : Rat) * 1000 / pcm.sampleRateHz⌋

theorem lt_frameCount_iff {samples : List Rat} {len : Nat} (hlen : 0 < len) (k : Nat) :
    k < frameCount samples len ↔ k * len < samples.length := by
  rw [frameCount, Nat.lt_iff_add_one_le, Nat.le_div_iff_mul_le hlen, Nat.add_mul, Nat.one_mul]
  omega

theorem samples_le_frames {samples : List Rat} {len : Nat} (hlen : 0 < len) :
    samples.length ≤ frameCount samples len * len := by
  rw [← Nat.not_lt, ← lt_frameCount_iff hlen]
  exact Nat.lt_irrefl _

theorem samplesToMs_eq_floor (sr index : Nat) :
    (samplesToMs sr index : Int) = ⌊(index : Rat) * 1000 / sr⌋ := by
  have hfloor := Rat.floor_intCast_div_natCast (index * 1000 : Int) sr
  push_cast at hfloor
  rw [hfloor, samplesToMs]
  push_cast
  rfl

theorem chunkFrom_carries (pcm : PcmMono) (start stop : Nat) :
    CarriesRange pcm (start, stop) (chunkFrom pcm.sampleRateHz start stop pcm.samples) where
  samples := by rw [chunkFrom, List.drop_take]
  startMs := samplesToMs_eq_floor ..
  endMs := samplesToMs_eq_floor ..

section Scan

variable {pcm : PcmMono} {len : { len : Nat // 0 < len }} {threshold : Rat}

/-- What the loop has found after `count` frames. -/
structure VadFound (pcm : PcmMono) (len : Nat) (threshold : Rat) (count : Nat) (s : VadScan)
    (current : Option Nat) (found : List (Nat × Nat)) : Prop where
  scan : RunScan (loud pcm.samples len threshold) count current found
  out : s.out = found.map fun r => chunkFrom pcm.sampleRateHz (r.1 * len) (r.2 * len) pcm.samples
  inSpeech : s.inSpeech = current.isSome
  chunkStart : ∀ start, current = some start → s.chunkStart = start * len

theorem VadFound.begin (pcm : PcmMono) (len : Nat) (threshold : Rat) :
    VadFound pcm len threshold 0 { out := [], chunkStart := 0, inSpeech := false } none [] where
  scan := RunScan.begin _
  out := rfl
  inSpeech := rfl
  chunkStart := nofun

theorem loud_iff {count : Nat} :
    loud pcm.samples len threshold count = true ↔
      threshold ≤ frameEnergy
        ((pcm.samples.take (min (count * len + len) pcm.samples.length)).drop (count * len)) := by
  rw [loud, decide_eq_true_iff, List.drop_take]
  have hframe : (pcm.samples.drop (count * len)).take
      (min (count * len + len) pcm.samples.length - count * len) =
      (pcm.samples.drop (count * len)).take len := by
    rw [List.take_eq_take_iff, List.length_drop]
    omega
  rw [hframe]

/-- One frame is one step of the scan. -/
theorem VadFound.frame {count : Nat} {s : VadScan} {current : Option Nat}
    {found : List (Nat × Nat)} (h : VadFound pcm len threshold count s current found) :
    ∃ current' found', VadFound pcm len threshold (count + 1)
      (vadFrame pcm threshold (count * len) (min (count * len + len) pcm.samples.length) s)
      current' found' := by
  obtain ⟨hscan, hout, hinSpeech, hstart⟩ := h
  unfold vadFrame
  by_cases hloud : loud pcm.samples len threshold count = true
  · simp only [if_pos (loud_iff.1 hloud)]
    cases current with
    | none =>
      rw [Option.isSome_none] at hinSpeech
      rw [hinSpeech, if_neg Bool.false_ne_true]
      refine ⟨some count, found, hscan.enter hloud, hout, rfl, fun start hs => ?_⟩
      cases hs
      rfl
    | some start =>
      rw [Option.isSome_some] at hinSpeech
      rw [hinSpeech, if_pos rfl]
      exact ⟨some start, found, hscan.stay hloud, hout, hinSpeech, hstart⟩
  · simp only [if_neg (fun hle => hloud (loud_iff.2 hle))]
    rw [Bool.not_eq_true] at hloud
    cases current with
    | none =>
      rw [Option.isSome_none] at hinSpeech
      rw [hinSpeech, if_neg Bool.false_ne_true]
      exact ⟨none, found, hscan.pass hloud, hout, hinSpeech, hstart⟩
    | some start =>
      rw [Option.isSome_some] at hinSpeech
      rw [hinSpeech, if_pos rfl]
      refine ⟨none, found ++ [(start, count)], hscan.leave hloud, ?_, rfl, nofun⟩
      rw [hout, List.map_append, List.map_singleton, hstart start rfl]

/-- The loop sees every frame. -/
theorem VadFound.frames {count : Nat} {s : VadScan} {current : Option Nat}
    {found : List (Nat × Nat)} (h : VadFound pcm len threshold count s current found)
    (hcount : count ≤ frameCount pcm.samples len) :
    ∃ current' found', VadFound pcm len threshold (frameCount pcm.samples len)
      (vadFrames pcm len threshold (min (count * len) pcm.samples.length) s) current' found' := by
  induction hrest : frameCount pcm.samples len - count generalizing count s current found with
  | zero =>
    obtain rfl : count = frameCount pcm.samples len := by omega
    have hend : pcm.samples.length ≤ frameCount pcm.samples len * len :=
      samples_le_frames len.property
    rw [vadFrames, if_neg (by omega)]
    exact ⟨current, found, h⟩
  | succ n ih =>
    have hlt : count * len < pcm.samples.length :=
      (lt_frameCount_iff len.property count).1 (by omega)
    rw [Nat.min_eq_left (Nat.le_of_lt hlt), vadFrames, if_pos hlt]
    obtain ⟨current', found', h'⟩ := h.frame
    have hnext := ih h' (by omega) (by omega)
    rwa [Nat.succ_mul] at hnext

/-- The loop and the chunk after it. -/
theorem VadFound.chunks {s : VadScan} {current : Option Nat} {found : List (Nat × Nat)}
    (h : VadFound pcm len threshold (frameCount pcm.samples len) s current found) :
    (if s.inSpeech then
      s.out ++ [chunkFrom pcm.sampleRateHz s.chunkStart pcm.samples.length pcm.samples]
        else s.out) =
      (RunScan.all (frameCount pcm.samples len) current found).map fun r =>
        chunkFrom pcm.sampleRateHz (sampleRange pcm.samples len r).1
          (sampleRange pcm.samples len r).2 pcm.samples := by
  have hout : s.out = found.map fun r => chunkFrom pcm.sampleRateHz
      (sampleRange pcm.samples len r).1 (sampleRange pcm.samples len r).2 pcm.samples := by
    rw [h.out]
    apply List.map_congr_left
    intro r hr
    have hlt := (lt_frameCount_iff len.property r.2).1 ((h.scan.mem r.1 r.2).1 hr).1
    rw [sampleRange, Nat.min_eq_left (Nat.le_of_lt hlt)]
  cases current with
  | none =>
    rw [h.inSpeech, Option.isSome_none, if_neg Bool.false_ne_true, hout, RunScan.all,
      Option.map_none, Option.toList_none, List.append_nil]
  | some start =>
    rw [h.inSpeech, Option.isSome_some, if_pos rfl, hout, h.chunkStart start rfl, RunScan.all,
      Option.map_some, Option.toList_some, List.map_append, List.map_singleton]
    -- the last frame ends with the samples
    rw [sampleRange, Nat.min_eq_right (samples_le_frames len.property)]

/-- The runs of loud frames span ranges of samples. -/
theorem vadRanges_of_finish {samples : List Rat} {len : Nat} (hlen : 0 < len)
    {runs : List (Nat × Nat)}
    (hmem : ∀ start stop, (start, stop) ∈ runs ↔
      PlaceRun (loud samples len threshold) (frameCount samples len) start stop)
    (hordered : runs.Pairwise fun r r' => r.2 < r'.1)
    (hcovers : ∀ k, k < frameCount samples len → loud samples len threshold k = true →
      ∃ r ∈ runs, r.1 ≤ k ∧ k < r.2) :
    VadRanges samples len threshold (runs.map (sampleRange samples len)) where
  nonempty r hr := by
    obtain ⟨⟨start, stop⟩, hrun, rfl⟩ := List.mem_map.1 hr
    have hplace := (hmem start stop).1 hrun
    have hstart := (lt_frameCount_iff hlen start).1 (Nat.lt_of_lt_of_le hplace.lt hplace.le)
    have hframes : start * len < stop * len := Nat.mul_lt_mul_of_pos_right hplace.lt hlen
    simp only [sampleRange]
    omega
  ordered := by
    rw [List.pairwise_map]
    refine hordered.imp fun {r r'} hlt => ?_
    have hframes : r.2 * len ≤ r'.1 * len := Nat.mul_le_mul_right len (Nat.le_of_lt hlt)
    simp only [sampleRange]
    omega
  aligned r hr := by
    obtain ⟨⟨start, stop⟩, -, rfl⟩ := List.mem_map.1 hr
    refine ⟨Dvd.intro_left start rfl, ?_⟩
    simp only [sampleRange]
    rcases Nat.le_total (stop * len) samples.length with hle | hle
    · rw [Nat.min_eq_left hle]
      exact Or.inl (Dvd.intro_left stop rfl)
    · exact Or.inr (Nat.min_eq_right hle)
  runs r := by
    rw [List.mem_map]
    constructor
    · intro hr
      obtain ⟨⟨start, stop⟩, hrun, rfl⟩ := hr
      exact ⟨start, stop, (hmem start stop).1 hrun, rfl⟩
    · intro hr
      obtain ⟨start, stop, hplace, rfl⟩ := hr
      exact ⟨(start, stop), (hmem start stop).2 hplace, rfl⟩
  covers k hk hloud := by
    obtain ⟨r, hr, hle, hlt⟩ := hcovers k hk hloud
    refine ⟨sampleRange samples len r, List.mem_map_of_mem hr, Nat.mul_le_mul_right len hle, ?_⟩
    have hframes : (k + 1) * len ≤ r.2 * len := Nat.mul_le_mul_right len hlt
    simp only [sampleRange]
    omega

end Scan

/-- The chunks of `energy_vad_chunks` are the maximal runs of loud frames: ordered, disjoint ranges
of whole frames with their samples and their times. -/
theorem energyVadChunks_runs (pcm : PcmMono) (frameMs : Nat) (energyThreshold : Rat)
    (hsamples : pcm.samples ≠ []) (hrate : 0 < pcm.sampleRateHz)
    (hframe : pcm.sampleRateHz * frameMs < 2 ^ 64) :
    ∃ chunks ranges, energyVadChunks pcm frameMs energyThreshold = .ok chunks ∧
      VadRanges pcm.samples (max (pcm.sampleRateHz * frameMs / 1000) 1) energyThreshold ranges ∧
      List.Forall₂ (CarriesRange pcm) ranges chunks := by
  have hlen : max (pcm.sampleRateHz * frameMs / 1000) 1 = frameLen pcm.sampleRateHz frameMs := by
    change _ = max (pcm.sampleRateHz * frameMs % 2 ^ 64 / 1000) 1
    rw [Nat.mod_eq_of_lt hframe]
  have hbegin := VadFound.begin pcm (frameLen pcm.sampleRateHz frameMs) energyThreshold
  obtain ⟨current, found, h⟩ := hbegin.frames (Nat.zero_le _)
  rw [Nat.zero_mul, Nat.zero_min] at h
  obtain ⟨hmem, hordered, hcovers⟩ := h.scan.finish
  have hok : energyVadChunks pcm frameMs energyThreshold =
      .ok ((RunScan.all (frameCount pcm.samples (frameLen pcm.sampleRateHz frameMs)) current
        found).map fun r =>
          chunkFrom pcm.sampleRateHz
            (sampleRange pcm.samples (frameLen pcm.sampleRateHz frameMs) r).1
            (sampleRange pcm.samples (frameLen pcm.sampleRateHz frameMs) r).2 pcm.samples) := by
    rw [energyVadChunks, if_neg hsamples, if_neg (Nat.ne_of_gt hrate)]
    exact congrArg Except.ok h.chunks
  rw [hlen]
  refine ⟨_, _, hok, vadRanges_of_finish (frameLen _ _).property hmem hordered hcovers, ?_⟩
  rw [List.forall₂_map_left_iff, List.forall₂_map_right_iff, List.forall₂_same]
  intro r _
  exact chunkFrom_carries pcm _ _

/-- Speech at both ends, with a short last frame. -/
def speechPcm : PcmMono where
  sampleRateHz := 2000
  samples := [1, 1, 0, 0, 1 / 2]

theorem energyVadChunks_runs_speech :
    ∃ chunks ranges, energyVadChunks speechPcm 1 (1 / 4) = .ok chunks ∧
      VadRanges speechPcm.samples (max (2000 * 1 / 1000) 1) (1 / 4) ranges ∧
      List.Forall₂ (CarriesRange speechPcm) ranges chunks :=
  energyVadChunks_runs speechPcm 1 (1 / 4) (by decide) (by decide) (by decide)

end LanguageLlm.Desktop
