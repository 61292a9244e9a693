import LanguageLlm.Client.AudioFrames
import LanguageLlm.Desktop.LiveAsr
import LanguageLlm.Desktop.Wav

/-!
# The way of the audio

From the frames of the tab's audio, over the offscreen document, the background worker and the wire,
into the rings of the companion. `Recording` is what the way is for: the audio itself at 16 kHz.
What the companion has of it (`audio_path`) is off by less than two steps of a 16-bit sample.
-/

namespace LanguageLlm.Desktop

open Lib Client

/-- The two are less than two steps of a 16-bit sample apart. -/
def Near (x y : Rat) : Prop := |x - y| < 2 / 32768

/-! ## One frame -/

/-- The number of two bytes. -/
theorem i16FromLeBytes_ofNat {n : Nat} (hn : n < 65536) :
    i16FromLeBytes (UInt8.ofNat n) (UInt8.ofNat (n / 256)) =
      if (n : Int) < 32768 then (n : Int) else n - 65536 := by
  have hbyte : ∀ m, (UInt8.ofNat m).toNat = m % 256 := fun _ => UInt8.toNat_ofNat'
  have hpair : ((n % 256 : Nat) : Int) + 256 * ((n / 256 % 256 : Nat) : Int) = n := by omega
  unfold i16FromLeBytes
  simp only [hbyte, hpair]

theorem i16FromLeBytes_setInt16 {v : Int} (hlo : -32768 ≤ v) (hhi : v ≤ 32767) :
    ∃ lo hi, setInt16 v = [lo, hi] ∧ i16FromLeBytes lo hi = v := by
  have hn : ((v % 65536).toNat : Int) = v % 65536 := Int.toNat_of_nonneg (by omega)
  refine ⟨_, _, rfl, ?_⟩
  rw [i16FromLeBytes_ofNat (by omega), hn]
  split
  · omega
  · omega

/-- The samples that the companion reads. -/
theorem pcmI16LeToF32_floatTo16Le (input : List Rat) :
    pcmI16LeToF32 (floatTo16Le input) =
      input.map fun x => (truncate (clamp x * 32767) : Rat) / 32768 := by
  induction input with
  | nil => rfl
  | cons x input ih =>
    obtain ⟨hlo, hhi⟩ := truncate_clamp_bounds x
    obtain ⟨lo, hi, hbytes, hsample⟩ := i16FromLeBytes_setInt16
      (v := truncate (clamp x * 32767)) (by omega) (by omega)
    rw [floatTo16Le] at ih ⊢
    rw [List.flatMap_cons, hbytes, List.cons_append, List.cons_append, List.nil_append,
      pcmI16LeToF32, ih, hsample, List.map_cons]

theorem abs_clamp_le (x : Rat) : |clamp x| ≤ 1 :=
  abs_le.2 ⟨le_max_left .., max_le (by norm_num) (min_le_left ..)⟩

/-- The encoder multiplies by 32767 and truncates, the decoder divides by 32768. -/
theorem near_clamp (x : Rat) : Near ((truncate (clamp x * 32767) : Rat) / 32768) (clamp x) := by
  have htruncate := abs_lt.1 (abs_truncate_sub_lt (clamp x * 32767))
  have hclamp := abs_le.1 (abs_clamp_le x)
  rw [Near, abs_lt]
  constructor <;> linarith

theorem near_frame (input : List Rat) :
    List.Forall₂ Near (pcmI16LeToF32 (floatTo16Le input)) (input.map clamp) := by
  rw [pcmI16LeToF32_floatTo16Le, List.forall₂_map_left_iff, List.forall₂_map_right_iff]
  exact List.forall₂_same.2 fun x _ => near_clamp x

/-! ## Resampling -/

/-- Weights that add up to one. -/
theorem Near.mix {a b a' b' t : Rat} (ha : Near a a') (hb : Near b b') (h0 : 0 ≤ t) (h1 : t < 1) :
    Near (a * (1 - t) + b * t) (a' * (1 - t) + b' * t) := by
  rw [Near, abs_lt] at ha hb ⊢
  have hpos : 0 < 1 - t := by linarith
  constructor
  · nlinarith [mul_lt_mul_of_pos_right ha.1 hpos, mul_le_mul_of_nonneg_right hb.1.le h0]
  · nlinarith [mul_lt_mul_of_pos_right ha.2 hpos, mul_le_mul_of_nonneg_right hb.2.le h0]

theorem getElem?_rel {α β : Type} {R : α → β → Prop} {l : List α} {m : List β}
    (h : List.Forall₂ R l m) (i : Nat) : Option.Rel R l[i]? m[i]? := by
  induction h generalizing i with
  | nil => exact .none
  | cons hab _ ih =>
    cases i with
    | zero => exact .some hab
    | succ i => exact ih i

/-- A sample between two samples. -/
theorem resampleAt_near {samples samples' : List Rat} (h : List.Forall₂ Near samples samples')
    {ratio : Rat} (hratio : 0 < ratio) (i : Nat) :
    Option.Rel Near (resampleAt samples ratio i) (resampleAt samples' ratio i) := by
  have hsrc : 0 ≤ (i : Rat) / ratio := by positivity
  have hcast : ((⌊(i : Rat) / ratio⌋.toNat : Nat) : Rat) = (⌊(i : Rat) / ratio⌋ : Rat) := by
    exact_mod_cast Int.toNat_of_nonneg (Int.floor_nonneg.2 hsrc)
  have hlo := Int.floor_le ((i : Rat) / ratio)
  have hhi := Int.lt_floor_add_one ((i : Rat) / ratio)
  simp only [resampleAt, h.length_eq, Option.bind_eq_bind]
  generalize min (⌊(i : Rat) / ratio⌋.toNat + 1) (samples'.length - 1) = j
  have hfirst := getElem?_rel h ⌊(i : Rat) / ratio⌋.toNat
  have hsecond := getElem?_rel h j
  revert hfirst hsecond
  generalize samples[⌊(i : Rat) / ratio⌋.toNat]? = a
  generalize samples'[⌊(i : Rat) / ratio⌋.toNat]? = a'
  generalize samples[j]? = b
  generalize samples'[j]? = b'
  rintro (⟨ha⟩ | _) (⟨hb⟩ | _)
  · exact .some (ha.mix hb (by linarith) (by linarith))
  · exact .none
  · exact .none
  · exact .none

theorem mapM_rel {α β γ : Type} {R : β → γ → Prop} {f : α → Option β} {g : α → Option γ}
    (h : ∀ a, Option.Rel R (f a) (g a)) (l : List α) :
    Option.Rel (List.Forall₂ R) (l.mapM f) (l.mapM g) := by
  induction l with
  | nil => exact .some .nil
  | cons a l ih =>
    rw [List.mapM_cons, List.mapM_cons]
    have hhead := h a
    revert hhead ih
    generalize f a = b
    generalize g a = c
    generalize l.mapM f = bs
    generalize l.mapM g = cs
    rintro (⟨hl⟩ | _) (⟨hhead⟩ | _)
    · exact .some (.cons hhead hl)
    · exact .none
    · exact .none
    · exact .none

/-- The samples of what was resampled; what could not be has none. -/
def samplesOf : Except Fault PcmMono → List Rat
  | .ok pcm => pcm.samples
  | .error _ => []

/-- The samples of a buffer at 16 kHz. -/
def at16k (input : PcmMono) : List Rat := samplesOf (resampleLinear input targetSampleRateHz)

/-- A frame at 16 kHz. -/
def tabAudio (samples : List Rat) : List Rat :=
  at16k { sampleRateHz := 48000, samples := samples.map clamp }

theorem at16k_near {samples samples' : List Rat} (h : List.Forall₂ Near samples samples')
    (sampleRateHz : Nat) :
    List.Forall₂ Near (at16k { sampleRateHz, samples })
      (at16k { sampleRateHz, samples := samples' }) := by
  have hnil : samples = [] ↔ samples' = [] := by
    rw [← List.length_eq_zero_iff, ← List.length_eq_zero_iff, h.length_eq]
  simp only [at16k, resampleLinear]
  by_cases hempty : samples = []
  · rw [if_pos hempty, if_pos (hnil.1 hempty)]
    exact .nil
  rw [if_neg hempty, if_neg (mt hnil.2 hempty)]
  by_cases hsame : sampleRateHz = targetSampleRateHz
  · rw [if_pos hsame, if_pos hsame]
    exact h
  rw [if_neg hsame, if_neg hsame]
  by_cases hzero : sampleRateHz = 0
  · rw [if_pos hzero, if_pos hzero]
    exact .nil
  rw [if_neg hzero, if_neg hzero]
  have hratio : (0 : Rat) < (targetSampleRateHz : Rat) / sampleRateHz := by
    have hrate : (0 : Rat) < sampleRateHz := by exact_mod_cast Nat.pos_of_ne_zero hzero
    have htarget : (0 : Rat) < targetSampleRateHz := by norm_num [targetSampleRateHz]
    positivity
  have hmap := mapM_rel (fun i => resampleAt_near h hratio i)
    (List.range (max (roundF64 (samples.length * ((targetSampleRateHz : Rat) / sampleRateHz))) 1))
  rw [h.length_eq] at hmap ⊢
  revert hmap
  generalize List.mapM (resampleAt samples _) _ = out
  generalize List.mapM (resampleAt samples' _) _ = out'
  rintro (⟨hout⟩ | _)
  · exact hout
  · exact .nil

/-! ## The two recorders -/

/-- What is done to the captures. A frame comes from the tab, with the job id `own` of the offscreen
document and its number there, while the worker has the job `current` and the counter `audioSeq`. -/
inductive TabOp where
  | startWithId (jobId videoId : String)
  | pause (jobId : String)
  | resume (jobId : String)
  | cancel (jobId : String)
  | markAsrSegment (jobId : String) (segment : Nat)
  | frame (own current : Option String) (seq audioSeq : Nat) (input : List Rat)

/-- One step of the whole way; `none` when something on it throws. -/
def pathStep (env : External) (token : String) (q : CaptureJobQueue) :
    TabOp → Option CaptureJobQueue
  | .startWithId jobId videoId => some ((CaptureOp.startWithId jobId videoId).apply q)
  | .pause jobId => some ((CaptureOp.pause jobId).apply q)
  | .resume jobId => some ((CaptureOp.resume jobId).apply q)
  | .cancel jobId => some ((CaptureOp.cancel jobId).apply q)
  | .markAsrSegment jobId segment => some ((CaptureOp.markAsrSegment jobId segment).apply q)
  | .frame own current seq audioSeq input => do
    let message ← onAudioProcess own seq input
    let relayed ← relayChunk token current audioSeq message
    return match relayed with
      | some value => (CaptureOp.ingest (audioChunk env value)).apply q
      | none => q

/-- A recorder of the tab's audio. -/
structure Recording where
  state : CaptureJobState
  audio : List Rat

/-- The recording of a job after a step. -/
def TabOp.record (jobId : String) (r : Option Recording) : TabOp → Option Recording
  | startWithId id _ => if id = jobId then some { state := .running, audio := [] } else r
  | pause id =>
    if id = jobId then
      r.map fun r => if r.state = .cancelled then r else { r with state := .paused }
    else r
  | resume id =>
    if id = jobId then r.map fun r => if r.state = .paused then { r with state := .running } else r
    else r
  | cancel id => if id = jobId then r.map fun r => { r with state := .cancelled } else r
  | markAsrSegment .. => r
  | frame own current _ _ input =>
    if (own.or current).getD "" = jobId ∧ jobId ≠ "" then
      r.map fun r => if r.state = .running then { r with audio := r.audio ++ tabAudio input } else r
    else r

/-- The recording of a job after a run, whose steps are given the latest first. -/
def recording (jobId : String) : List TabOp → Option Recording
  | [] => none
  | op :: ops => op.record jobId (recording jobId ops)

/-- The companion's capture follows the recording. -/
structure OnTape (job : CaptureJob) (r : Recording) : Prop where
  state : job.state = r.state
  live : job.state ≠ .completed
  capacity : job.ring.capacity = 480000
  holds : ∃ log, job.ring.Holds log ∧ List.Forall₂ Near log r.audio

/-- The snapshot of a job is near the latest half minute of a recording. -/
structure Hears (q : CaptureJobQueue) (jobId : String) (job : CaptureJob) (r : Recording) :
    Prop where
  state : job.state = r.state
  near : ∃ heard, List.Forall₂ Near heard (r.audio.rtake 480000) ∧ q.snapshotPcm jobId =
    if heard = [] then .error .empty
    else .ok { sampleRateHz := targetSampleRateHz, samples := heard }

section Path

variable {env : External}

/-- What the companion reads of a frame. -/
theorem audioChunk_audioMessage
    (hdecode : ∀ text : String, env.decodeBase64 text = Base64.decode text.toList)
    (token jobId : String) (seq : Nat) (bytes : List UInt8) :
    ∃ seq', audioChunk env (audioMessage token jobId 48000 seq bytes) =
      { jobId, sampleRateHz := 48000, pcmI16Le := bytes, seq := seq' } := by
  have hbytes : env.decodeBase64 (String.ofList (Base64.encode bytes)) = some bytes := by
    rw [hdecode, String.toList_ofList, Base64.decode_encode]
  refine ⟨(((audioMessage token jobId 48000 seq bytes).get "seq").bind Json.asU64).getD 0, ?_⟩
  have hfield : (audioMessage token jobId 48000 seq bytes).strOr "pcmI16LeBase64" "" =
    String.ofList (Base64.encode bytes) := rfl
  have hrate : (((audioMessage token jobId 48000 seq bytes).get "sampleRateHz").bind
      Json.asU64).getD 48000 % 2 ^ 32 = 48000 := by
    rw [show (audioMessage token jobId 48000 seq bytes).get "sampleRateHz" =
      some (.int 48000) from rfl]
    decide
  unfold audioChunk
  rw [hfield, hrate, hbytes]
  rfl

/-- What a frame adds to a ring. -/
theorem near_tabAudio {chunk : AudioChunkIngest} {input : List Rat}
    (hrate : chunk.sampleRateHz = 48000) (hbytes : chunk.pcmI16Le = floatTo16Le input) :
    List.Forall₂ Near (samplesOf chunk.resample) (tabAudio input) := by
  have hresample : chunk.resample = resampleLinear
      { sampleRateHz := 48000, samples := pcmI16LeToF32 (floatTo16Le input) }
      targetSampleRateHz := by
    have hne : (48000 : Nat) ≠ targetSampleRateHz := by decide
    unfold AudioChunkIngest.resample
    rw [hrate, hbytes]
    exact if_neg hne
  rw [hresample]
  exact at16k_near (near_frame input) 48000

/-- A frame reaches the ring of a running capture. -/
theorem OnTape.frame {job : CaptureJob} {r : Recording} (h : OnTape job r)
    {chunk : AudioChunkIngest} {input : List Rat} (hrate : chunk.sampleRateHz = 48000)
    (hbytes : chunk.pcmI16Le = floatTo16Le input) :
    OnTape ((CaptureOp.ingest chunk).effect job)
      (if r.state = .running then { r with audio := r.audio ++ tabAudio input } else r) := by
  obtain ⟨hstate, hlive, hcapacity, log, hholds, hnear⟩ := h
  have hadded := near_tabAudio hrate hbytes
  rw [← hstate, CaptureOp.effect]
  cases hjob : job.state with
  | paused | cancelled =>
    rw [if_neg (by decide)]
    exact ⟨hstate, hlive, hcapacity, log, hholds, hnear⟩
  | completed => exact absurd hjob hlive
  | running =>
    rw [if_pos rfl]
    cases hpcm : chunk.resample with
    | error e =>
      rw [hpcm] at hadded
      rw [List.forall₂_nil_left_iff.1 hadded, List.append_nil]
      exact ⟨hjob, hlive, hcapacity, log, hholds, hnear⟩
    | ok pcm =>
      rw [hpcm] at hadded
      exact ⟨hjob, hlive, (RingBuffer.pushSlice_capacity ..).trans hcapacity, _,
        hholds.pushSlice pcm.samples, List.rel_append hnear hadded⟩

/-- A new capture follows a new recording. -/
theorem onTape_start (jobId videoId : String) :
    OnTape
      { id := jobId
        videoId
        state := .running
        ring := .new (targetSampleRateHz * 30)
        nextSeq := 0
        chunksAccepted := 0
        lastAsrSegment := 0 } { state := .running, audio := [] } where
  state := rfl
  live := nofun
  capacity := rfl
  holds := ⟨[], RingBuffer.holds_new _, .nil⟩

/-- What a frame does to the queue. -/
theorem pathStep_frame
    (hdecode : ∀ text : String, env.decodeBase64 text = Base64.decode text.toList)
    (token : String) (q : CaptureJobQueue) (own current : Option String) (seq audioSeq : Nat)
    (input : List Rat) : ∃ chunk : AudioChunkIngest, chunk.jobId = (own.or current).getD "" ∧
      chunk.sampleRateHz = 48000 ∧ chunk.pcmI16Le = floatTo16Le input ∧
      pathStep env token q (.frame own current seq audioSeq input) =
        some (if (own.or current).getD "" = "" then q else (CaptureOp.ingest chunk).apply q) := by
  obtain ⟨seq', hchunk⟩ := audioChunk_audioMessage hdecode token ((own.or current).getD "") audioSeq
    (floatTo16Le input)
  let chunk : AudioChunkIngest :=
    { jobId := (own.or current).getD ""
      sampleRateHz := 48000
      pcmI16Le := floatTo16Le input
      seq := seq' }
  refine ⟨chunk, rfl, rfl, rfl, ?_⟩
  simp only [pathStep, onAudioProcess_eq, relayChunk_frame, Option.bind_eq_bind, Option.bind_some,
    Option.pure_def]
  by_cases hempty : (own.or current).getD "" = ""
  · simp only [if_pos hempty]
  · simp only [if_neg hempty, hchunk, chunk]

/-- A call that starts no capture, on one job. -/
theorem onTape_call {q : CaptureJobQueue} (op : CaptureOp) (hop : op.isStart = false)
    {jobId : String} {f : Recording → Recording} {r : Option Recording}
    (h : Option.Rel OnTape (q.get jobId) r)
    (heffect : ∀ job r, OnTape job r → OnTape (op.effect job) (f r)) :
    Option.Rel OnTape ((op.apply q).get jobId) (if op.jobId = jobId then r.map f else r) := by
  by_cases hid : op.jobId = jobId
  · rw [if_pos hid, ← hid, capture_get_self hop]
    rw [← hid] at h
    revert h
    generalize q.get op.jobId = job
    rintro (⟨htape⟩ | _)
    · exact .some (heffect _ _ htape)
    · exact .none
  · rwa [if_neg hid, capture_get_of_ne op (Ne.symm hid)]

/-- One step keeps every capture on its recording. -/
theorem onTape_pathStep
    (hdecode : ∀ text : String, env.decodeBase64 text = Base64.decode text.toList)
    {token : String} {q q' : CaptureJobQueue} {op : TabOp} {jobId : String} {r : Option Recording}
    (h : Option.Rel OnTape (q.get jobId) r) (hstep : pathStep env token q op = some q') :
    Option.Rel OnTape (q'.get jobId) (op.record jobId r) := by
  cases op with
  | startWithId id videoId =>
    obtain rfl := Option.some.inj hstep
    rw [TabOp.record]
    split
    · next hid =>
      subst hid
      rw [CaptureOp.apply, CaptureJobQueue.get_startWithId]
      exact .some (onTape_start id videoId)
    · next hid =>
      rwa [capture_get_of_ne (.startWithId id videoId) (Ne.symm hid)]
  | pause id =>
    obtain rfl := Option.some.inj hstep
    refine onTape_call (.pause id) rfl h fun job r htape => ?_
    obtain ⟨hstate, hlive, hcapacity, hholds⟩ := htape
    rw [CaptureOp.effect, hstate]
    split
    · exact ⟨hstate, hlive, hcapacity, hholds⟩
    · exact ⟨rfl, by rintro ⟨⟩, hcapacity, hholds⟩
  | resume id =>
    obtain rfl := Option.some.inj hstep
    refine onTape_call (.resume id) rfl h fun job r htape => ?_
    obtain ⟨hstate, hlive, hcapacity, hholds⟩ := htape
    rw [CaptureOp.effect, hstate]
    split
    · exact ⟨rfl, by rintro ⟨⟩, hcapacity, hholds⟩
    · exact ⟨hstate, hlive, hcapacity, hholds⟩
  | cancel id =>
    obtain rfl := Option.some.inj hstep
    exact onTape_call (.cancel id) rfl h fun job r htape =>
      ⟨rfl, by rintro ⟨⟩, htape.capacity, htape.holds⟩
  | markAsrSegment id segment =>
    obtain rfl := Option.some.inj hstep
    have hcall := onTape_call (.markAsrSegment id segment) (f := fun r => r) rfl h
      fun job r htape => ⟨htape.state, htape.live, htape.capacity, htape.holds⟩
    rwa [Option.map_id', ite_self] at hcall
  | frame own current seq audioSeq input =>
    obtain ⟨chunk, hid, hrate, hbytes, hframe⟩ :=
      pathStep_frame hdecode token q own current seq audioSeq input
    obtain rfl := Option.some.inj (hframe.symm.trans hstep)
    have hcall := onTape_call (.ingest chunk) rfl h fun job r htape =>
      htape.frame hrate hbytes
    rw [CaptureOp.jobId, hid] at hcall
    rw [TabOp.record]
    by_cases hempty : (own.or current).getD "" = ""
    · rw [if_pos hempty, if_neg]
      · exact h
      · rintro ⟨hjob, hne⟩
        exact hne (hjob.symm.trans hempty)
    · rw [if_neg hempty]
      by_cases hjob : (own.or current).getD "" = jobId
      · rw [if_pos ⟨hjob, hjob ▸ hempty⟩]
        rwa [if_pos hjob] at hcall
      · rw [if_neg fun hboth => hjob hboth.1]
        rwa [if_neg hjob] at hcall

theorem OnTape.hears {q : CaptureJobQueue} {jobId : String} {job : CaptureJob} {r : Recording}
    (hjob : q.get jobId = some job) (h : OnTape job r) : Hears q jobId job r := by
  obtain ⟨hstate, -, hcapacity, log, hholds, hnear⟩ := h
  refine ⟨hstate, log.rtake 480000, ?_, ?_⟩
  · rw [List.rtake, List.rtake, hnear.length_eq]
    exact List.forall₂_drop _ hnear
  · have hsnapshot := hholds.snapshot_eq
    rw [hcapacity] at hsnapshot
    simp only [CaptureJobQueue.snapshotPcm, hjob, hsnapshot]

/-- No step of the way throws. After every run of it, on every job, the companion has a capture
exactly when there is a recording; both are in one state, and the snapshot has as many samples as
the latest half minute of the recording, each less than two steps of a 16-bit sample from it. -/
theorem audio_path (hdecode : ∀ text : String, env.decodeBase64 text = Base64.decode text.toList)
    (token : String) {h : List (Fired CaptureJobQueue TabOp)} {q : CaptureJobQueue}
    (hr : Run (pathStep env token) .empty h q) :
    (∀ op, (pathStep env token q op).isSome) ∧
      ∀ jobId, Option.Rel (Hears q jobId) (q.get jobId) (recording jobId (h.map Fired.label)) := by
  constructor
  · intro op
    cases op with
    | frame own current seq audioSeq input =>
      obtain ⟨_, -, -, -, hframe⟩ := pathStep_frame hdecode token q own current seq audioSeq input
      rw [hframe]
      rfl
    | startWithId | pause | resume | cancel | markAsrSegment => rfl
  · intro jobId
    have htape : Option.Rel OnTape (q.get jobId) (recording jobId (h.map Fired.label)) :=
      hr.invHist (fun h q => Option.Rel OnTape (q.get jobId) (recording jobId (h.map Fired.label)))
        .none fun _ _ _ _ _ hI hstep => onTape_pathStep hdecode hI hstep
    revert htape
    generalize recording jobId (h.map Fired.label) = r
    cases hjob : q.get jobId with
    | none =>
      rintro (_ | _)
      exact .none
    | some job =>
      rintro (⟨htape⟩ | _)
      exact .some (htape.hears hjob)

end Path

/-- The decoder of the companion. -/
def strictDecoder : External where
  toString _ := ""
  fromStr _ := none
  decodeBase64 text := Base64.decode text.toList

/-- A capture with a frame of three samples. -/
def threeSamples : List TabOp :=
  [.startWithId "a" "v", .frame (some "a") none 0 0 [1 / 2, 2, -1 / 3]]

theorem audio_path_three : ∃ (h : List (Fired CaptureJobQueue TabOp)) (q : CaptureJobQueue),
    h.map Fired.label = threeSamples.reverse ∧
    (∀ op, (pathStep strictDecoder "t" q op).isSome) ∧
      ∀ jobId, Option.Rel (Hears q jobId) (q.get jobId) (recording jobId (h.map Fired.label)) := by
  have hdecode : ∀ text : String, strictDecoder.decodeBase64 text = Base64.decode text.toList :=
    fun _ => rfl
  let started := (CaptureOp.startWithId "a" "v").apply .empty
  obtain ⟨chunk, -, -, -, hframe⟩ :=
    pathStep_frame hdecode "t" started (some "a") none 0 0 [1 / 2, 2, -1 / 3]
  exact ⟨_, _, rfl, audio_path hdecode "t" (.cons (.cons .nil rfl) hframe)⟩

end LanguageLlm.Desktop
