import Mathlib.Data.Rat.Lemmas
import LanguageLlm.Desktop.CaptureLog
import LanguageLlm.Desktop.LiveCues

/-!
# Resampling

A capture in another rate is resampled to 16 kHz while the handler holds the mutex of the captures.
The source indices stay within the samples for every rate above zero; the rate of a message is not
checked, and with a rate of zero the handler panics (`audioSafe_iff`).
-/

namespace LanguageLlm.Desktop

open Lib Handler

/-! ## The indices -/

section Indices

variable {samples : List Rat} {ratio : Rat} {i : Nat}

/-- The indices of the output stand for places before the end of the input. -/
theorem lt_of_lt_outLen (hsamples : samples ≠ []) (hratio : 0 < ratio)
    (hi : i < max (roundF64 (samples.length * ratio)) 1) : (i : Rat) < samples.length * ratio := by
  have hpos : (0 : Rat) < samples.length * ratio := by
    have hlength : (0 : Rat) < samples.length := by
      exact_mod_cast List.length_pos_iff.2 hsamples
    positivity
  rcases Nat.eq_zero_or_pos i with rfl | hi₀
  · exact_mod_cast hpos
  · -- `round` adds a half at most
    have hround : i + 1 ≤ roundF64 (samples.length * ratio) := by omega
    have hfloor : ((i + 1 : Nat) : Int) ≤ ⌊samples.length * ratio + 1 / 2⌋ := by
      rw [roundF64] at hround
      omega
    have hle := Int.le_floor.1 hfloor
    push_cast at hle
    linarith

theorem resampleAt_isSome (hratio : 0 < ratio) (hi : (i : Rat) < samples.length * ratio) :
    (resampleAt samples ratio i).isSome := by
  have hsrc : (i : Rat) / ratio < samples.length := (div_lt_iff₀ hratio).2 hi
  have hnonneg : 0 ≤ ⌊(i : Rat) / ratio⌋ := Int.floor_nonneg.2 (by positivity)
  have hfloor : ⌊(i : Rat) / ratio⌋ < (samples.length : Int) :=
    Int.floor_lt.2 (by exact_mod_cast hsrc)
  have hi₀ : ⌊(i : Rat) / ratio⌋.toNat < samples.length := by omega
  have hi₁ : min (⌊(i : Rat) / ratio⌋.toNat + 1) (samples.length - 1) < samples.length := by omega
  simp only [resampleAt, List.getElem?_eq_getElem hi₀, List.getElem?_eq_getElem hi₁]
  rfl

theorem mapM_isSome {α β : Type} {f : α → Option β} {l : List α} (hf : ∀ a ∈ l, (f a).isSome) :
    ∃ bs, l.mapM f = some bs ∧ bs.length = l.length := by
  induction l with
  | nil => exact ⟨[], rfl, rfl⟩
  | cons a l ih =>
    obtain ⟨b, hb⟩ := Option.isSome_iff_exists.1 (hf a List.mem_cons_self)
    obtain ⟨bs, hbs, hlength⟩ := ih fun a ha => hf a (List.mem_cons_of_mem _ ha)
    refine ⟨b :: bs, ?_, congrArg (· + 1) hlength⟩
    rw [List.mapM_cons, hb, hbs]
    rfl

end Indices

/-- The length that `resample_linear` requests; the cast of an infinite one saturates. -/
def resampleOutLen (input : PcmMono) (targetHz : Nat) : Nat :=
  if input.sampleRateHz = 0 then 2 ^ 64 - 1
  else max (roundF64 (input.samples.length * ((targetHz : Rat) / input.sampleRateHz))) 1

/-- With a rate above zero the call succeeds and returns as many samples as it requests. -/
theorem resampleLinear_ok {input : PcmMono} {targetHz : Nat} (hsamples : input.samples ≠ [])
    (hne : input.sampleRateHz ≠ targetHz) (hrate : input.sampleRateHz ≠ 0)
    (htarget : 0 < targetHz) :
    ∃ samples, resampleLinear input targetHz = .ok { sampleRateHz := targetHz, samples } ∧
      samples.length = resampleOutLen input targetHz := by
  have hratio : (0 : Rat) < (targetHz : Rat) / input.sampleRateHz := by
    have htarget' : (0 : Rat) < targetHz := by exact_mod_cast htarget
    have hrate' : (0 : Rat) < input.sampleRateHz := by exact_mod_cast Nat.pos_of_ne_zero hrate
    positivity
  obtain ⟨samples, hmap, hlength⟩ := mapM_isSome
    (f := resampleAt input.samples ((targetHz : Rat) / input.sampleRateHz))
    (l := List.range (resampleOutLen input targetHz)) fun i hi => by
      rw [List.mem_range, resampleOutLen, if_neg hrate] at hi
      exact resampleAt_isSome hratio (lt_of_lt_outLen hsamples hratio hi)
  rw [List.length_range] at hlength
  rw [resampleOutLen, if_neg hrate] at hmap
  refine ⟨samples, ?_, hlength⟩
  simp only [resampleLinear, if_neg hsamples, if_neg hne, if_neg hrate, hmap]

theorem resampleOutLen_le {input : PcmMono} (targetHz : Nat) (hrate : input.sampleRateHz ≠ 0) :
    resampleOutLen input targetHz ≤ targetHz * input.samples.length + 1 := by
  have hrate' : (1 : Rat) ≤ input.sampleRateHz := by exact_mod_cast Nat.pos_of_ne_zero hrate
  have hratio : (targetHz : Rat) / input.sampleRateHz ≤ targetHz :=
    div_le_self (by positivity) hrate'
  have hlength : (input.samples.length : Rat) * ((targetHz : Rat) / input.sampleRateHz) ≤
      input.samples.length * targetHz := mul_le_mul_of_nonneg_left hratio (by positivity)
  have hround : roundF64 (input.samples.length * ((targetHz : Rat) / input.sampleRateHz)) ≤
      targetHz * input.samples.length + 1 := by
    rw [roundF64, Int.toNat_le]
    apply Int.le_of_lt_add_one
    rw [Int.floor_lt]
    push_cast
    linarith
  rw [resampleOutLen, if_neg hrate]
  omega

/-! ## A chunk -/

/-- The samples of a chunk in its own rate. -/
def AudioChunkIngest.pcm (chunk : AudioChunkIngest) : PcmMono where
  sampleRateHz := chunk.sampleRateHz
  samples := pcmI16LeToF32 chunk.pcmI16Le

/-- The length that the ingestion of a chunk requests from `resample_linear`, when it gets there. -/
def requestedLength (q : CaptureJobQueue) (chunk : AudioChunkIngest) : Option Nat :=
  match q.stateOf chunk.jobId with
  | some .running | some .completed =>
    if chunk.sampleRateHz = targetSampleRateHz ∨ chunk.pcm.samples = [] then none
    else some (resampleOutLen chunk.pcm targetSampleRateHz)
  | _ => none

/-- A handler in which `s` are the stores at the first critical section: it keeps `I`, and does not
panic as long as the others keep it. -/
def ReturnsFrom {α : Type} (I : Stores → Prop) (s : Stores) : Handler α → Prop
  | .lock update next => ∀ t an, I (update t an s) ∧ Returns I (next t an s)
  | h => Returns I h

/-- An `audio.chunk` message does not crash the companion. -/
structure AudioSafe (env : External) (value : Json) (token : String) (s : Stores) : Prop where
  /-- No division by zero and no index outside the input. -/
  noPanic : (s.capture.ingestI16Le (audioChunk env value)).1 ≠ .error .panic
  bounded : ∀ n, requestedLength s.capture (audioChunk env value) = some n →
    n ≤ 16000 * (audioChunk env value).pcm.samples.length + 1
  unchanged : ∀ e, (s.capture.ingestI16Le (audioChunk env value)).1 = .error e →
    (s.capture.ingestI16Le (audioChunk env value)).2 = s.capture
  /-- The mutex of the captures is not poisoned. -/
  returns : s.capturePoisoned = false →
    ReturnsFrom (fun s => s.capturePoisoned = false) s (handleAudioChunk env value token)

/-- A chunk of at least a sample, in a rate of zero, for a capture that runs or is completed. -/
def ZeroRate (q : CaptureJobQueue) (chunk : AudioChunkIngest) : Prop :=
  (q.stateOf chunk.jobId = some .running ∨ q.stateOf chunk.jobId = some .completed) ∧
    chunk.sampleRateHz = 0 ∧ 2 ≤ chunk.pcmI16Le.length

section Chunk

variable {q : CaptureJobQueue} {chunk : AudioChunkIngest}

theorem pcm_samples_eq_nil_iff : chunk.pcm.samples = [] ↔ chunk.pcmI16Le.length < 2 := by
  rw [← List.length_eq_zero_iff, AudioChunkIngest.pcm, pcmI16LeToF32_length]
  omega

/-- `resample_linear` panics in a rate of zero, and in no other. -/
theorem resample_panic_iff :
    chunk.resample = .error .panic ↔ chunk.sampleRateHz = 0 ∧ 2 ≤ chunk.pcmI16Le.length := by
  change (if chunk.sampleRateHz = targetSampleRateHz then Except.ok chunk.pcm
    else resampleLinear chunk.pcm targetSampleRateHz) = _ ↔ _
  rw [← Nat.not_lt, ← pcm_samples_eq_nil_iff]
  by_cases htarget : chunk.sampleRateHz = targetSampleRateHz
  · rw [if_pos htarget, htarget]
    simp [targetSampleRateHz]
  rw [if_neg htarget]
  by_cases hsamples : chunk.pcm.samples = []
  · simp [resampleLinear, hsamples]
  by_cases hrate : chunk.sampleRateHz = 0
  · have hzero : chunk.pcm.sampleRateHz = 0 := hrate
    simp [resampleLinear, hsamples, hzero, hrate, targetSampleRateHz]
  · obtain ⟨samples, hok, -⟩ := resampleLinear_ok (show chunk.pcm.samples ≠ [] from hsamples)
      htarget hrate (by decide : 0 < targetSampleRateHz)
    simp [hok, hrate]

theorem ingest_panic_iff : (q.ingestI16Le chunk).1 = .error .panic ↔ ZeroRate q chunk := by
  rw [ZeroRate, ← resample_panic_iff, CaptureJobQueue.stateOf]
  cases hjob : q.get chunk.jobId with
  | none => simp [CaptureJobQueue.ingestI16Le, hjob]
  | some job =>
    rw [Option.map_some]
    cases hstate : job.state with
    | paused => simp [ingestI16Le_paused hjob hstate]
    | cancelled => simp [ingestI16Le_cancelled hjob hstate]
    | running =>
      rw [ingestI16Le_open hjob (Or.inl hstate)]
      cases chunk.resample <;> simp
    | completed =>
      rw [ingestI16Le_open hjob (Or.inr hstate)]
      cases chunk.resample <;> simp

/-- In a rate above zero the request is bounded by the input. -/
theorem requestedLength_le (hrate : ¬ ZeroRate q chunk) {n : Nat}
    (hn : requestedLength q chunk = some n) : n ≤ 16000 * chunk.pcm.samples.length + 1 := by
  have hreach : (q.stateOf chunk.jobId = some .running ∨
      q.stateOf chunk.jobId = some .completed) ∧ chunk.pcm.samples ≠ [] ∧
      resampleOutLen chunk.pcm targetSampleRateHz = n := by
    rw [requestedLength] at hn
    split at hn
    · next hstate =>
      split at hn
      · cases hn
      · next hnot => exact ⟨Or.inl hstate, fun h => hnot (Or.inr h), Option.some.inj hn⟩
    · next hstate =>
      split at hn
      · cases hn
      · next hnot => exact ⟨Or.inr hstate, fun h => hnot (Or.inr h), Option.some.inj hn⟩
    · cases hn
  obtain ⟨hstate, hsamples, rfl⟩ := hreach
  apply resampleOutLen_le
  intro hzero
  rw [ne_eq, pcm_samples_eq_nil_iff, Nat.not_lt] at hsamples
  exact hrate ⟨hstate, hzero, hsamples⟩

end Chunk

/-! ## The handler -/

section Handler

variable {s : Stores}

theorem ReturnsFrom.lockCapture_bind {α β : Type}
    {f : Answers → CaptureJobQueue → Option α × CaptureJobQueue} {g : α → Handler β}
    (hpoisoned : s.capturePoisoned = false) (hf : ∀ an, (f an s.capture).1.isSome)
    (hg : ∀ a, Returns (fun s => s.capturePoisoned = false) (g a)) :
    ReturnsFrom (fun s => s.capturePoisoned = false) s (lockCapture f >>= g) := by
  intro t an
  obtain ⟨a, ha⟩ := Option.isSome_iff_exists.1 (hf an)
  constructor
  · dsimp only
    rw [if_neg (by simp [hpoisoned]), ha]
    rfl
  · change Returns _ (Handler.bind (if s.capturePoisoned = true then .panic else _) g)
    rw [if_neg (by simp [hpoisoned]), ha]
    exact hg a

/-- What follows the ingestion of a chunk does not panic with the mutex. -/
theorem transcribeCapture_returns (jobId token : String) :
    Returns (fun s => s.capturePoisoned = false) (transcribeCapture jobId token) := by
  rw [transcribeCapture_eq]
  refine Returns.bind (.lockCapture (fun _ hs => hs) fun _ s hs => ⟨rfl, hs⟩) fun decision => ?_
  split
  · trivial
  split
  · trivial
  refine Returns.bind (.lockCapture (fun _ hs => hs) fun _ s hs => ⟨rfl, hs⟩) fun snapshot => ?_
  split
  · trivial
  refine Returns.bind (.lockCapture (fun _ hs => hs) fun _ s hs => ⟨rfl, hs⟩) fun _ => ?_
  exact lockless_sendTranscript.returns

theorem handleAudioChunk_returns {env : External} {value : Json} (token : String)
    (hpoisoned : s.capturePoisoned = false)
    (hpanic : (s.capture.ingestI16Le (audioChunk env value)).1 ≠ .error .panic) :
    ReturnsFrom (fun s => s.capturePoisoned = false) s (handleAudioChunk env value token) := by
  rw [handleAudioChunk_eq]
  refine ReturnsFrom.lockCapture_bind hpoisoned (fun _ => ?_) fun ingested => ?_
  · rw [ingestSection]
    split
    · rfl
    split
    · rfl
    · rfl
    · next h => exact absurd h hpanic
  · split
    · trivial
    · exact lockless_sendError.returns
    · exact transcribeCapture_returns _ _

end Handler

/-- An `audio.chunk` message is safe unless a running or completed capture gets samples in a rate of
zero. -/
theorem audioSafe_iff (env : External) (value : Json) (token : String) (s : Stores) :
    AudioSafe env value token s ↔ ¬ ZeroRate s.capture (audioChunk env value) := by
  constructor
  · intro h hzero
    exact h.noPanic (ingest_panic_iff.2 hzero)
  · intro hrate
    have hpanic : (s.capture.ingestI16Le (audioChunk env value)).1 ≠ .error .panic :=
      fun h => hrate (ingest_panic_iff.1 h)
    refine ⟨hpanic, fun n => requestedLength_le hrate, fun e he => ingest_rejected ?_, fun hp =>
      handleAudioChunk_returns token hp hpanic⟩
    rintro ⟨accepted, hok⟩
    rw [hok] at he
    cases he

/-- One sample in a rate of zero. -/
def zeroRateMessage : Json :=
  .obj [("type", .str "audio.chunk"), ("jobId", .str "a"), ("sampleRateHz", .int 0),
    ("seq", .int 0), ("pcmI16LeBase64", .str "AAA=")]

/-- The decoder, on its text. -/
def zeroRateDecoder : External where
  toString _ := ""
  fromStr _ := none
  decodeBase64 text := if text = "AAA=" then some [0, 0] else none

theorem not_audioSafe : ¬ ∀ (env : External) (value : Json) (token : String) (s : Stores),
    AudioSafe env value token s := by
  intro h
  let s : Stores := { Stores.new none with capture := CaptureJobQueue.empty.startWithId "a" "v" }
  exact (h zeroRateDecoder zeroRateMessage "" s).noPanic (by decide +kernel)

end LanguageLlm.Desktop
