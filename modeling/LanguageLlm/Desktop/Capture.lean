import Mathlib.Data.Rat.Floor
import LanguageLlm.Lib.OrderedMap

/-!
# The capture queue

`media-pipeline`: live audio arrives in chunks, is decoded, resampled to 16 kHz and kept in a ring
of the last 30 seconds. Samples are rationals. A thread that panics while it holds the queue poisons
its mutex.
-/

namespace LanguageLlm.Desktop

open Lib

def targetSampleRateHz : Nat := 16000

/-- The errors of `MediaError`. -/
inductive MediaError where
  | sampleRate (hz : Nat)
  | empty
  | cancelled
  | notFound (id : String)
  | notResumable (id : String)
  | io (message : String)
  deriving DecidableEq

/-- The display of a `MediaError`. -/
def MediaError.toString : MediaError → String
  | sampleRate hz => "unsupported sample rate " ++ ToString.toString hz
  | empty => "empty pcm buffer"
  | cancelled => "job cancelled"
  | notFound id => "job not found: " ++ id
  | notResumable id => "job not resumable: " ++ id
  | io message => "io: " ++ message

/-- A call returns an error, or its thread panics. -/
inductive Fault where
  | error (e : MediaError)
  | panic
  deriving DecidableEq

structure PcmMono where
  sampleRateHz : Nat
  samples : List Rat

/-- `i16::from_le_bytes`. -/
def i16FromLeBytes (lo hi : UInt8) : Int :=
  let n : Int := lo.toNat + 256 * hi.toNat
  if n < 32768 then n else n - 65536

/-- `pcm_i16_le_to_f32`; an odd last byte is dropped. -/
def pcmI16LeToF32 : List UInt8 → List Rat
  | lo :: hi :: bytes => (i16FromLeBytes lo hi : Rat) / 32768 :: pcmI16LeToF32 bytes
  | _ => []

theorem pcmI16LeToF32_length : ∀ bytes, (pcmI16LeToF32 bytes).length = bytes.length / 2
  | [] => rfl
  | [_] => by simp [pcmI16LeToF32]
  | _ :: _ :: bytes => by
    rw [pcmI16LeToF32, List.length_cons, pcmI16LeToF32_length bytes, List.length_cons,
      List.length_cons]
    omega

/-- `f64::round` of a number that is not negative. -/
def roundF64 (q : Rat) : Nat := ⌊q + 1 / 2⌋.toNat

/-- The `i`-th sample of `resample_linear`; `none` where the index is out of bounds. -/
def resampleAt (samples : List Rat) (ratio : Rat) (i : Nat) : Option Rat := do
  let src := (i : Rat) / ratio
  let i0 := ⌊src⌋.toNat
  let i1 := min (i0 + 1) (samples.length - 1)
  let t := src - i0
  let a ← samples[i0]?
  let b ← samples[i1]?
  return a * (1 - t) + b * t

/-- `resample_linear`. With a rate of zero the ratio is infinite and the output too large to
allocate. -/
def resampleLinear (input : PcmMono) (targetHz : Nat) : Except Fault PcmMono :=
  if input.samples = [] then .error (.error .empty)
  else if input.sampleRateHz = targetHz then .ok input
  else if input.sampleRateHz = 0 then .error .panic
  else
    let ratio : Rat := (targetHz : Rat) / input.sampleRateHz
    let outLen := max (roundF64 (input.samples.length * ratio)) 1
    match (List.range outLen).mapM (resampleAt input.samples ratio) with
    | some samples => .ok { sampleRateHz := targetHz, samples }
    | none => .error .panic

/-! ## The ring -/

structure RingBuffer where
  capacity : Nat
  data : List Rat
  /-- The place of the next sample. -/
  write : Nat
  filled : Nat
  data_length : data.length = capacity
  write_lt : write < capacity
  filled_le : filled ≤ capacity

namespace RingBuffer

/-- `RingBuffer::new`. -/
def new (capacity : Nat) : RingBuffer where
  capacity := max capacity 1
  data := List.replicate (max capacity 1) 0
  write := 0
  filled := 0
  data_length := List.length_replicate
  write_lt := by omega
  filled_le := by omega

/-- One sample of `push_slice`. -/
def push (b : RingBuffer) (s : Rat) : RingBuffer where
  capacity := b.capacity
  data := b.data.set b.write s
  write := (b.write + 1) % b.capacity
  filled := min (b.filled + 1) b.capacity
  data_length := by rw [List.length_set, b.data_length]
  write_lt := Nat.mod_lt _ (Nat.zero_lt_of_lt b.write_lt)
  filled_le := Nat.min_le_right ..

def pushSlice (b : RingBuffer) (samples : List Rat) : RingBuffer := samples.foldl push b

def lenSamples (b : RingBuffer) : Nat := b.filled

/-- `snapshot`: the samples from the oldest to the newest. -/
def snapshot (b : RingBuffer) : List Rat :=
  let start := if b.filled = b.capacity then b.write else 0
  (List.range b.filled).map fun i => b.data.getD ((start + i) % b.capacity) 0

@[simp]
theorem new_lenSamples (capacity : Nat) : (new capacity).lenSamples = 0 := rfl

@[simp]
theorem pushSlice_capacity (b : RingBuffer) (samples : List Rat) :
    (b.pushSlice samples).capacity = b.capacity := by
  induction samples generalizing b with
  | nil => rfl
  | cons s samples ih => exact ih (b.push s)

/-- The ring counts its samples up to its capacity. -/
theorem pushSlice_lenSamples (b : RingBuffer) (samples : List Rat) :
    (b.pushSlice samples).lenSamples = min (b.lenSamples + samples.length) b.capacity := by
  induction samples generalizing b with
  | nil => exact (Nat.min_eq_left b.filled_le).symm
  | cons s samples ih =>
    have hpush : (b.push s).lenSamples = min (b.lenSamples + 1) b.capacity := rfl
    have hcapacity : (b.push s).capacity = b.capacity := rfl
    have hrest := ih (b.push s)
    rw [hpush, hcapacity] at hrest
    simp only [pushSlice, List.foldl_cons, List.length_cons] at hrest ⊢
    omega

/-- The ring goes round. -/
theorem pushSlice_write (b : RingBuffer) (samples : List Rat) :
    (b.pushSlice samples).write = (b.write + samples.length) % b.capacity := by
  induction samples generalizing b with
  | nil => exact (Nat.mod_eq_of_lt b.write_lt).symm
  | cons s samples ih =>
    have hpush : (b.push s).write = (b.write + 1) % b.capacity := rfl
    have hcapacity : (b.push s).capacity = b.capacity := rfl
    have hrest := ih (b.push s)
    rw [hpush, hcapacity, Nat.mod_add_mod] at hrest
    rw [List.length_cons, Nat.add_comm samples.length 1, ← Nat.add_assoc]
    exact hrest

@[simp]
theorem snapshot_length (b : RingBuffer) : b.snapshot.length = b.lenSamples := by
  simp [snapshot, lenSamples]

end RingBuffer

/-! ## The queue -/

inductive CaptureJobState where
  | running
  | paused
  | cancelled
  | completed
  deriving DecidableEq

structure CaptureJob where
  id : String
  videoId : String
  state : CaptureJobState
  ring : RingBuffer
  nextSeq : Nat
  chunksAccepted : Nat
  lastAsrSegment : Nat

structure AudioChunkIngest where
  jobId : String
  sampleRateHz : Nat
  pcmI16Le : List UInt8
  seq : Nat

structure CaptureJobQueue where
  jobs : OrderedMap String CaptureJob

namespace CaptureJobQueue

/-- `CaptureJobQueue::default`. -/
def empty : CaptureJobQueue := ⟨.empty⟩

def get (q : CaptureJobQueue) (jobId : String) : Option CaptureJob := q.jobs.get? jobId

def put (q : CaptureJobQueue) (jobId : String) (job : CaptureJob) : CaptureJobQueue :=
  ⟨q.jobs.set jobId job⟩

def startWithId (q : CaptureJobQueue) (jobId videoId : String) : CaptureJobQueue :=
  q.put jobId
    { id := jobId
      videoId
      state := .running
      ring := .new (targetSampleRateHz * 30)
      nextSeq := 0
      chunksAccepted := 0
      lastAsrSegment := 0 }

def cancel (q : CaptureJobQueue) (jobId : String) : Except MediaError Unit × CaptureJobQueue :=
  match q.get jobId with
  | some job => (.ok (), q.put jobId { job with state := .cancelled })
  | none => (.error (.notFound jobId), q)

def pause (q : CaptureJobQueue) (jobId : String) : Except MediaError Unit × CaptureJobQueue :=
  match q.get jobId with
  | some job =>
    if job.state = .cancelled then (.error .cancelled, q)
    else (.ok (), q.put jobId { job with state := .paused })
  | none => (.error (.notFound jobId), q)

def resume (q : CaptureJobQueue) (jobId : String) : Except MediaError Unit × CaptureJobQueue :=
  match q.get jobId with
  | some job =>
    match job.state with
    | .paused => (.ok (), q.put jobId { job with state := .running })
    | .cancelled => (.error .cancelled, q)
    | .completed => (.error (.notResumable jobId), q)
    | .running => (.ok (), q)
  | none => (.error (.notFound jobId), q)

def ingestI16Le (q : CaptureJobQueue) (chunk : AudioChunkIngest) :
    Except Fault Nat × CaptureJobQueue :=
  match q.get chunk.jobId with
  | none => (.error (.error (.notFound chunk.jobId)), q)
  | some job =>
    match job.state with
    | .cancelled => (.error (.error .cancelled), q)
    | .paused => (.ok job.chunksAccepted, q)
    | .running | .completed =>
      let pcm : PcmMono :=
        { sampleRateHz := chunk.sampleRateHz, samples := pcmI16LeToF32 chunk.pcmI16Le }
      let resampled :=
        if pcm.sampleRateHz = targetSampleRateHz then .ok pcm
        else resampleLinear pcm targetSampleRateHz
      match resampled with
      | .error e => (.error e, q)
      | .ok resampled =>
        let job :=
          { job with
            ring := job.ring.pushSlice resampled.samples
            nextSeq := min (chunk.seq + 1) (2 ^ 64 - 1)
            chunksAccepted := job.chunksAccepted + 1 }
        (.ok job.chunksAccepted, q.put chunk.jobId job)

def markAsrSegment (q : CaptureJobQueue) (jobId : String) (segment : Nat) :
    Except MediaError Unit × CaptureJobQueue :=
  match q.get jobId with
  | some job => (.ok (), q.put jobId { job with lastAsrSegment := segment })
  | none => (.error (.notFound jobId), q)

def snapshotPcm (q : CaptureJobQueue) (jobId : String) : Except MediaError PcmMono :=
  match q.get jobId with
  | some job =>
    let samples := job.ring.snapshot
    if samples = [] then .error .empty else .ok { sampleRateHz := targetSampleRateHz, samples }
  | none => .error (.notFound jobId)

@[simp]
theorem get_put_self (q : CaptureJobQueue) (jobId : String) (job : CaptureJob) :
    (q.put jobId job).get jobId = some job :=
  OrderedMap.get?_set_self ..

theorem get_put_ne (q : CaptureJobQueue) {jobId id : String} (job : CaptureJob) (hne : id ≠ jobId) :
    (q.put jobId job).get id = q.get id :=
  OrderedMap.get?_set_ne _ _ hne

theorem get_startWithId (q : CaptureJobQueue) (jobId videoId : String) :
    (q.startWithId jobId videoId).get jobId =
      some
        { id := jobId
          videoId
          state := .running
          ring := .new (targetSampleRateHz * 30)
          nextSeq := 0
          chunksAccepted := 0
          lastAsrSegment := 0 } :=
  get_put_self ..

/-- A ring that holds samples has a snapshot. -/
theorem snapshotPcm_eq {q : CaptureJobQueue} {jobId : String} {job : CaptureJob}
    (hjob : q.get jobId = some job) (hfilled : job.ring.lenSamples ≠ 0) :
    q.snapshotPcm jobId =
      .ok { sampleRateHz := targetSampleRateHz, samples := job.ring.snapshot } := by
  have hne : job.ring.snapshot ≠ [] := by
    rw [← List.length_pos_iff, RingBuffer.snapshot_length]
    omega
  simp only [snapshotPcm, hjob, if_neg hne]

end CaptureJobQueue

end LanguageLlm.Desktop
