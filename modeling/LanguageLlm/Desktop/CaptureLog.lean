import Mathlib.Data.List.DropRight
import LanguageLlm.Lib.Run
import LanguageLlm.Desktop.Capture

/-!
# What a capture job keeps

A capture job is for the latest 30 seconds of its audio. `capture_refines` reads what it keeps off
the calls since its last start: the chunks that were accepted, however often the ring went round.
-/

namespace LanguageLlm.Desktop

open Lib

/-! ## The ring and its log -/

/-- The ring has seen the samples of `log`: the one at place `p` is at `p % capacity` until it is
overwritten. -/
structure RingBuffer.Holds (b : RingBuffer) (log : List Rat) : Prop where
  filled : b.filled = min log.length b.capacity
  write : b.write = log.length % b.capacity
  kept : ∀ p, p < log.length → log.length ≤ p + b.capacity → b.data[p % b.capacity]? = log[p]?

namespace RingBuffer

variable {b : RingBuffer} {log : List Rat}

theorem holds_new (capacity : Nat) : (new capacity).Holds [] where
  filled := (Nat.zero_min _).symm
  write := (Nat.zero_mod _).symm
  kept := nofun

/-- One sample. -/
theorem Holds.push (h : b.Holds log) (s : Rat) : (b.push s).Holds (log ++ [s]) := by
  have hlength : (log ++ [s]).length = log.length + 1 := by
    rw [List.length_append, List.length_singleton]
  refine ⟨?_, ?_, fun p hp hroom => ?_⟩
  · change min (b.filled + 1) b.capacity = min (log ++ [s]).length b.capacity
    rw [h.filled, hlength]
    omega
  · change (b.write + 1) % b.capacity = (log ++ [s]).length % b.capacity
    rw [h.write, hlength, Nat.mod_add_mod]
  · change (b.data.set b.write s)[p % b.capacity]? = (log ++ [s])[p]?
    change (log ++ [s]).length ≤ p + b.capacity at hroom
    rw [hlength] at hp hroom
    rcases Nat.lt_succ_iff_lt_or_eq.1 hp with hp | rfl
    · have hother : b.write ≠ p % b.capacity := by
        -- two places less than a round apart
        intro heq
        rw [h.write] at heq
        have hround := Nat.sub_mod_eq_zero_of_mod_eq heq
        rw [Nat.mod_eq_of_lt (by omega)] at hround
        omega
      rw [List.getElem?_set_ne hother, List.getElem?_append_left hp]
      exact h.kept p hp (by omega)
    · have hbound : log.length % b.capacity < b.data.length := by
        rw [← h.write, b.data_length]
        exact b.write_lt
      rw [h.write, List.getElem?_set_self hbound, List.getElem?_append_right (Nat.le_refl _),
        Nat.sub_self]
      rfl

theorem Holds.pushSlice (h : b.Holds log) (samples : List Rat) :
    (b.pushSlice samples).Holds (log ++ samples) := by
  induction samples generalizing b log with
  | nil => rwa [List.append_nil]
  | cons s samples ih =>
    have hrest := ih (h.push s)
    rwa [List.append_assoc] at hrest

/-- The snapshot is the end of the log. -/
theorem Holds.snapshot_eq (h : b.Holds log) : b.snapshot = log.rtake b.capacity := by
  have hcapacity := b.write_lt
  apply List.ext_getElem?
  intro i
  rw [List.rtake, List.getElem?_drop]
  by_cases hi : i < b.filled
  · have hfilled := h.filled
    have hplace : ((if b.filled = b.capacity then b.write else 0) + i) % b.capacity =
        (log.length - b.capacity + i) % b.capacity := by
      split
      · have hround : b.capacity + (log.length - b.capacity + i) = log.length + i := by omega
        rw [h.write, Nat.mod_add_mod, ← hround, Nat.add_mod_left]
      · congr 1
        omega
    have hkept := h.kept (log.length - b.capacity + i) (by omega) (by omega)
    rw [← hkept, ← hplace, snapshot]
    have hbound : ((if b.filled = b.capacity then b.write else 0) + i) % b.capacity <
        b.data.length := by
      rw [b.data_length]
      exact Nat.mod_lt _ (by omega)
    simp only [List.getElem?_map, List.getElem?_range hi, Option.map_some,
      List.getD_eq_getElem?_getD, List.getElem?_eq_getElem hbound, Option.getD_some]
  · have hfilled := h.filled
    rw [List.getElem?_eq_none (by rw [snapshot_length]; exact Nat.le_of_not_lt hi)]
    rw [List.getElem?_eq_none (by omega)]

end RingBuffer

theorem rtake_eq_nil_iff (log : List Rat) : log.rtake 480000 = [] ↔ log = [] := by
  rw [List.rtake, List.drop_eq_nil_iff, ← List.length_eq_zero_iff]
  omega

/-! ## The calls -/

inductive CaptureOp where
  | startWithId (jobId videoId : String)
  | pause (jobId : String)
  | resume (jobId : String)
  | cancel (jobId : String)
  | markAsrSegment (jobId : String) (segment : Nat)
  | ingest (chunk : AudioChunkIngest)

namespace CaptureOp

def jobId : CaptureOp → String
  | startWithId jobId _ | pause jobId | resume jobId | cancel jobId | markAsrSegment jobId _ =>
    jobId
  | ingest chunk => chunk.jobId

/-- The queue after the call. -/
def apply (q : CaptureJobQueue) : CaptureOp → CaptureJobQueue
  | startWithId jobId videoId => q.startWithId jobId videoId
  | pause jobId => (q.pause jobId).2
  | resume jobId => (q.resume jobId).2
  | cancel jobId => (q.cancel jobId).2
  | markAsrSegment jobId segment => (q.markAsrSegment jobId segment).2
  | ingest chunk => (q.ingestI16Le chunk).2

end CaptureOp

namespace CaptureJobQueue

def step (q : CaptureJobQueue) (op : CaptureOp) : Option CaptureJobQueue := some (op.apply q)

def stateOf (q : CaptureJobQueue) (jobId : String) : Option CaptureJobState :=
  (q.get jobId).map CaptureJob.state

end CaptureJobQueue

/-- The samples of a chunk at 16 kHz. -/
def AudioChunkIngest.resample (chunk : AudioChunkIngest) : Except Fault PcmMono :=
  let pcm : PcmMono :=
    { sampleRateHz := chunk.sampleRateHz, samples := pcmI16LeToF32 chunk.pcmI16Le }
  if pcm.sampleRateHz = targetSampleRateHz then .ok pcm else resampleLinear pcm targetSampleRateHz

/-- The samples that a call adds to a job: those of a chunk that is accepted while the job is
running. -/
def CaptureOp.adds (q : CaptureJobQueue) (jobId : String) : CaptureOp → Option (List Rat)
  | ingest chunk =>
    if chunk.jobId = jobId ∧ q.stateOf jobId = some .running then
      match (q.ingestI16Le chunk).1, chunk.resample with
      | .ok _, .ok pcm => some pcm.samples
      | _, _ => none
    else none
  | startWithId .. | pause _ | resume _ | cancel _ | markAsrSegment .. => none

/-- What the job accepted since its last start, chunk by chunk. -/
def accepted (jobId : String) : List (Fired CaptureJobQueue CaptureOp) → List (List Rat)
  | [] => []
  | f :: h =>
    match f.label with
    | .startWithId id _ => if id = jobId then [] else accepted jobId h
    | op => accepted jobId h ++ (op.adds f.pre jobId).toList

/-- The job was cancelled after its last start. -/
def CancelledSince (jobId : String) : List (Fired CaptureJobQueue CaptureOp) → Prop
  | [] => False
  | f :: h =>
    match f.label with
    | .startWithId id _ => id ≠ jobId ∧ CancelledSince jobId h
    | .cancel id => id = jobId ∧ (f.pre.get jobId).isSome = true ∨ CancelledSince jobId h
    | _ => CancelledSince jobId h

/-- The snapshot of a log: its latest samples, if it has any. -/
def latest (log : List Rat) : Except MediaError PcmMono :=
  if log = [] then .error .empty
  else .ok { sampleRateHz := targetSampleRateHz, samples := log.rtake 480000 }

/-! ## What the calls keep -/

/-- Every job is what the calls since its last start make of it. -/
structure CaptureRefines (h : List (Fired CaptureJobQueue CaptureOp)) (q : CaptureJobQueue) :
    Prop where
  snapshot : ∀ jobId job, q.get jobId = some job →
    q.snapshotPcm jobId = latest (accepted jobId h).flatten
  counted : ∀ jobId job, q.get jobId = some job → job.chunksAccepted = (accepted jobId h).length
  cancelled : ∀ jobId, CancelledSince jobId h → q.stateOf jobId = some .cancelled

/-- A chunk for a paused job changes nothing, one for a cancelled job is rejected, and a call
changes its own job alone. -/
structure CaptureIsolates (f : Fired CaptureJobQueue CaptureOp) : Prop where
  paused : ∀ chunk, f.label = .ingest chunk → f.pre.stateOf chunk.jobId = some .paused →
    f.post = f.pre
  rejected : ∀ chunk, f.label = .ingest chunk → f.pre.stateOf chunk.jobId = some .cancelled →
    (f.pre.ingestI16Le chunk).1 = .error (.error .cancelled) ∧ f.post = f.pre
  others : ∀ jobId, jobId ≠ f.label.jobId → f.post.get jobId = f.pre.get jobId

/-- The job with the samples of a chunk that it accepts. -/
def CaptureJob.accept (job : CaptureJob) (chunk : AudioChunkIngest) (pcm : PcmMono) : CaptureJob :=
  { job with
    ring := job.ring.pushSlice pcm.samples
    nextSeq := min (chunk.seq + 1) (2 ^ 64 - 1)
    chunksAccepted := job.chunksAccepted + 1 }

/-- The job after a call, that of `startWithId` apart. -/
def CaptureOp.effect (job : CaptureJob) : CaptureOp → CaptureJob
  | startWithId .. => job
  | pause _ => if job.state = .cancelled then job else { job with state := .paused }
  | resume _ => if job.state = .paused then { job with state := .running } else job
  | cancel _ => { job with state := .cancelled }
  | markAsrSegment _ segment => { job with lastAsrSegment := segment }
  | ingest chunk =>
    match job.state, chunk.resample with
    | .running, .ok pcm | .completed, .ok pcm => job.accept chunk pcm
    | _, _ => job

def CaptureOp.isStart : CaptureOp → Bool
  | startWithId .. => true
  | pause _ | resume _ | cancel _ | markAsrSegment .. | ingest _ => false

section Effect

variable {q : CaptureJobQueue} {jobId : String} {job : CaptureJob} {chunk : AudioChunkIngest}

theorem capture_put_eq_self (hjob : q.get jobId = some job) : q.put jobId job = q :=
  congrArg CaptureJobQueue.mk (OrderedMap.set_eq_self hjob)

/-- A chunk for a job that is neither paused nor cancelled. -/
theorem ingestI16Le_open (hjob : q.get chunk.jobId = some job)
    (hstate : job.state = .running ∨ job.state = .completed) :
    q.ingestI16Le chunk =
      match chunk.resample with
      | .ok pcm => (.ok (job.chunksAccepted + 1), q.put chunk.jobId (job.accept chunk pcm))
      | .error e => (.error e, q) := by
  rcases hstate with hstate | hstate <;>
  · simp only [CaptureJobQueue.ingestI16Le, hjob, hstate]
    cases hpcm : chunk.resample with
    | ok pcm =>
      rw [AudioChunkIngest.resample] at hpcm
      simp only [hpcm, CaptureJob.accept, hstate]
    | error e =>
      rw [AudioChunkIngest.resample] at hpcm
      simp only [hpcm]

theorem ingestI16Le_paused (hjob : q.get chunk.jobId = some job) (hstate : job.state = .paused) :
    q.ingestI16Le chunk = (.ok job.chunksAccepted, q) := by
  simp only [CaptureJobQueue.ingestI16Le, hjob, hstate]

theorem ingestI16Le_cancelled (hjob : q.get chunk.jobId = some job)
    (hstate : job.state = .cancelled) :
    q.ingestI16Le chunk = (.error (.error .cancelled), q) := by
  simp only [CaptureJobQueue.ingestI16Le, hjob, hstate]

/-- A call changes its job as `effect` says, and nothing when there is no such job. -/
theorem capture_apply_eq {op : CaptureOp} (hop : op.isStart = false) :
    op.apply q = match q.get op.jobId with
      | some job => q.put op.jobId (op.effect job)
      | none => q := by
  cases op with
  | startWithId => cases hop
  | cancel jobId =>
    rw [CaptureOp.apply, CaptureJobQueue.cancel, CaptureOp.jobId]
    cases q.get jobId <;> rfl
  | markAsrSegment jobId segment =>
    rw [CaptureOp.apply, CaptureJobQueue.markAsrSegment, CaptureOp.jobId]
    cases q.get jobId <;> rfl
  | pause jobId =>
    rw [CaptureOp.apply, CaptureJobQueue.pause, CaptureOp.jobId]
    cases hjob : q.get jobId with
    | none => rfl
    | some job =>
      by_cases hstate : job.state = .cancelled
      · simp [CaptureOp.effect, hstate, capture_put_eq_self hjob]
      · simp [CaptureOp.effect, hstate]
  | resume jobId =>
    rw [CaptureOp.apply, CaptureJobQueue.resume, CaptureOp.jobId]
    cases hjob : q.get jobId with
    | none => rfl
    | some job =>
      cases hstate : job.state <;> simp [CaptureOp.effect, hstate, capture_put_eq_self hjob]
  | ingest chunk =>
    rw [CaptureOp.apply, CaptureOp.jobId]
    cases hjob : q.get chunk.jobId with
    | none => rw [CaptureJobQueue.ingestI16Le, hjob]
    | some job =>
      cases hstate : job.state with
      | paused =>
        simp [ingestI16Le_paused hjob hstate, CaptureOp.effect, hstate, capture_put_eq_self hjob]
      | cancelled =>
        simp [ingestI16Le_cancelled hjob hstate, CaptureOp.effect, hstate, capture_put_eq_self hjob]
      | running =>
        rw [ingestI16Le_open hjob (Or.inl hstate)]
        cases hpcm : chunk.resample <;>
          simp [CaptureOp.effect, hstate, hpcm, capture_put_eq_self hjob]
      | completed =>
        rw [ingestI16Le_open hjob (Or.inr hstate)]
        cases hpcm : chunk.resample <;>
          simp [CaptureOp.effect, hstate, hpcm, capture_put_eq_self hjob]

/-- A call leaves the other jobs. -/
theorem capture_get_of_ne (op : CaptureOp) (hne : jobId ≠ op.jobId) :
    (op.apply q).get jobId = q.get jobId := by
  cases hop : op.isStart with
  | false =>
    rw [capture_apply_eq hop]
    split
    · exact CaptureJobQueue.get_put_ne _ _ hne
    · rfl
  | true =>
    cases op with
    | startWithId => exact CaptureJobQueue.get_put_ne _ _ hne
    | _ => cases hop

/-- And makes of its own what `effect` says. -/
theorem capture_get_self {op : CaptureOp} (hop : op.isStart = false) :
    (op.apply q).get op.jobId = (q.get op.jobId).map op.effect := by
  rw [capture_apply_eq hop]
  cases hjob : q.get op.jobId with
  | none => exact hjob
  | some job => exact CaptureJobQueue.get_put_self ..

theorem adds_of_ne {op : CaptureOp} (hne : jobId ≠ op.jobId) : op.adds q jobId = none := by
  cases op with
  | ingest chunk => exact if_neg fun h => hne h.1.symm
  | startWithId | pause | resume | cancel | markAsrSegment => rfl

/-- What a chunk adds to its job. -/
theorem adds_ingest (hjob : q.get chunk.jobId = some job) :
    (CaptureOp.ingest chunk).adds q chunk.jobId =
      match job.state, chunk.resample with
      | .running, .ok pcm => some pcm.samples
      | _, _ => none := by
  have hstateOf : q.stateOf chunk.jobId = some job.state := by
    rw [CaptureJobQueue.stateOf, hjob, Option.map_some]
  rw [CaptureOp.adds, hstateOf]
  cases hstate : job.state with
  | running =>
    rw [if_pos ⟨rfl, rfl⟩, ingestI16Le_open hjob (Or.inl hstate)]
    cases chunk.resample <;> rfl
  | paused | cancelled | completed => rw [if_neg (by simp)]

end Effect

/-- The job keeps the chunks. -/
structure CaptureJob.Keeps (job : CaptureJob) (chunks : List (List Rat)) : Prop where
  capacity : job.ring.capacity = 480000
  holds : job.ring.Holds chunks.flatten
  counted : job.chunksAccepted = chunks.length
  live : job.state ≠ .completed

theorem keeps_start (jobId videoId : String) :
    CaptureJob.Keeps
      { id := jobId
        videoId
        state := .running
        ring := .new (targetSampleRateHz * 30)
        nextSeq := 0
        chunksAccepted := 0
        lastAsrSegment := 0 } [] where
  capacity := rfl
  holds := RingBuffer.holds_new _
  counted := rfl
  live := nofun

/-- A call adds to what its job keeps. -/
theorem CaptureJob.Keeps.effect {q : CaptureJobQueue} {op : CaptureOp} {job : CaptureJob}
    {chunks : List (List Rat)} (h : job.Keeps chunks) (hjob : q.get op.jobId = some job) :
    (op.effect job).Keeps (chunks ++ (op.adds q op.jobId).toList) := by
  obtain ⟨hcapacity, hholds, hcounted, hlive⟩ := h
  cases op with
  | ingest chunk =>
    rw [CaptureOp.jobId] at hjob ⊢
    rw [adds_ingest hjob, CaptureOp.effect]
    cases hstate : job.state with
    | paused | cancelled =>
      rw [Option.toList_none, List.append_nil]
      exact ⟨hcapacity, hholds, hcounted, hlive⟩
    | completed => exact absurd hstate hlive
    | running =>
      cases chunk.resample with
      | error e =>
        rw [Option.toList_none, List.append_nil]
        exact ⟨hcapacity, hholds, hcounted, hlive⟩
      | ok pcm =>
        refine ⟨?_, ?_, ?_, hlive⟩
        · exact (RingBuffer.pushSlice_capacity ..).trans hcapacity
        · rw [Option.toList_some, List.flatten_append, List.flatten_singleton]
          exact hholds.pushSlice pcm.samples
        · change job.chunksAccepted + 1 = _
          rw [hcounted, Option.toList_some, List.length_append, List.length_singleton]
  | startWithId | markAsrSegment =>
    rw [CaptureOp.adds, Option.toList_none, List.append_nil]
    exact ⟨hcapacity, hholds, hcounted, hlive⟩
  | cancel =>
    rw [CaptureOp.adds, Option.toList_none, List.append_nil]
    exact ⟨hcapacity, hholds, hcounted, nofun⟩
  | pause =>
    rw [CaptureOp.adds, Option.toList_none, List.append_nil, CaptureOp.effect]
    split
    · exact ⟨hcapacity, hholds, hcounted, hlive⟩
    · exact ⟨hcapacity, hholds, hcounted, nofun⟩
  | resume =>
    rw [CaptureOp.adds, Option.toList_none, List.append_nil, CaptureOp.effect]
    split
    · exact ⟨hcapacity, hholds, hcounted, nofun⟩
    · exact ⟨hcapacity, hholds, hcounted, hlive⟩

/-- A cancelled job stays cancelled until it is started again. -/
theorem state_effect_cancelled {op : CaptureOp} {job : CaptureJob}
    (hstate : job.state = .cancelled) :
    (op.effect job).state = .cancelled := by
  cases op with
  | startWithId | markAsrSegment => exact hstate
  | cancel => rfl
  | pause => rw [CaptureOp.effect, if_pos hstate, hstate]
  | resume => rw [CaptureOp.effect, if_neg (by simp [hstate]), hstate]
  | ingest chunk => simp [CaptureOp.effect, hstate]

theorem stateOf_apply_cancelled {q : CaptureJobQueue} {op : CaptureOp} {jobId : String}
    (hop : op.isStart = true → jobId ≠ op.jobId) (hstate : q.stateOf jobId = some .cancelled) :
    (op.apply q).stateOf jobId = some .cancelled := by
  by_cases hid : jobId = op.jobId
  · subst hid
    have hnot : op.isStart = false := Bool.eq_false_iff.2 fun h => hop h rfl
    obtain ⟨job, hjob, hcancelled⟩ := Option.map_eq_some_iff.1 hstate
    rw [CaptureJobQueue.stateOf, capture_get_self hnot, hjob]
    exact congrArg some (state_effect_cancelled hcancelled)
  · rw [CaptureJobQueue.stateOf, capture_get_of_ne op hid]
    exact hstate

theorem accepted_cons_start (jobId id videoId : String) (pre post : CaptureJobQueue)
    (h : List (Fired CaptureJobQueue CaptureOp)) :
    accepted jobId (⟨pre, .startWithId id videoId, post⟩ :: h) =
      if id = jobId then [] else accepted jobId h :=
  rfl

theorem accepted_cons {op : CaptureOp} (hop : op.isStart = false) (jobId : String)
    (pre post : CaptureJobQueue) (h : List (Fired CaptureJobQueue CaptureOp)) :
    accepted jobId (⟨pre, op, post⟩ :: h) = accepted jobId h ++ (op.adds pre jobId).toList := by
  cases op with
  | startWithId => cases hop
  | _ => rfl

/-- A call on another job does not count. -/
theorem accepted_cons_of_ne {op : CaptureOp} {jobId : String} (hne : jobId ≠ op.jobId)
    (pre post : CaptureJobQueue)
    (h : List (Fired CaptureJobQueue CaptureOp)) :
    accepted jobId (⟨pre, op, post⟩ :: h) = accepted jobId h := by
  cases hop : op.isStart with
  | false => rw [accepted_cons hop, adds_of_ne hne, Option.toList_none, List.append_nil]
  | true =>
    cases op with
    | startWithId id videoId => exact if_neg (Ne.symm hne)
    | _ => cases hop

/-- What holds of the queue after every run. -/
structure QueueKeeps (h : List (Fired CaptureJobQueue CaptureOp)) (q : CaptureJobQueue) : Prop where
  keeps : ∀ jobId job, q.get jobId = some job → job.Keeps (accepted jobId h)
  cancelled : ∀ jobId, CancelledSince jobId h → q.stateOf jobId = some .cancelled

theorem queueKeeps_apply {h : List (Fired CaptureJobQueue CaptureOp)} {q : CaptureJobQueue}
    (hq : QueueKeeps h q)
    (op : CaptureOp) : QueueKeeps (⟨q, op, op.apply q⟩ :: h) (op.apply q) := by
  constructor
  · intro jobId job hjob
    by_cases hid : jobId = op.jobId
    · subst hid
      cases hop : op.isStart with
      | false =>
        rw [capture_get_self hop, Option.map_eq_some_iff] at hjob
        obtain ⟨old, hold, rfl⟩ := hjob
        rw [accepted_cons hop]
        exact (hq.keeps _ old hold).effect hold
      | true =>
        cases op with
        | startWithId id videoId =>
          have hnew : ((CaptureOp.startWithId id videoId).apply q).get id = some _ :=
            CaptureJobQueue.get_startWithId q id videoId
          rw [CaptureOp.jobId, hnew] at hjob
          cases hjob
          rw [CaptureOp.jobId, accepted_cons_start, if_pos rfl]
          exact keeps_start id videoId
        | _ => cases hop
    · rw [capture_get_of_ne op hid] at hjob
      rw [accepted_cons_of_ne hid]
      exact hq.keeps jobId job hjob
  · intro jobId hcancelled
    cases op with
    | startWithId id videoId =>
      exact stateOf_apply_cancelled (fun _ => hcancelled.1.symm) (hq.cancelled jobId hcancelled.2)
    | cancel id =>
      rcases hcancelled with ⟨rfl, hsome⟩ | hcancelled
      · obtain ⟨job, hjob⟩ := Option.isSome_iff_exists.1 hsome
        have hget : ((CaptureOp.cancel id).apply q).get id = (q.get id).map
            (CaptureOp.cancel id).effect :=
          capture_get_self rfl
        rw [CaptureJobQueue.stateOf, hget, hjob]
        rfl
      · exact stateOf_apply_cancelled nofun (hq.cancelled jobId hcancelled)
    | pause | resume | markAsrSegment | ingest =>
      exact stateOf_apply_cancelled nofun (hq.cancelled jobId hcancelled)

theorem queueKeeps_run {h : List (Fired CaptureJobQueue CaptureOp)} {q : CaptureJobQueue}
    (hr : Run CaptureJobQueue.step .empty h q) : QueueKeeps h q := by
  refine hr.invHist QueueKeeps ⟨?_, nofun⟩ fun h q op q' _ hq hstep => ?_
  · intro jobId job hjob
    cases hjob
  · cases hstep
    exact queueKeeps_apply hq op

/-- The snapshot of a job is the end of what it accepted. -/
theorem QueueKeeps.snapshotPcm_eq {h : List (Fired CaptureJobQueue CaptureOp)} {q : CaptureJobQueue}
    (hq : QueueKeeps h q) {jobId : String} {job : CaptureJob} (hjob : q.get jobId = some job) :
    q.snapshotPcm jobId = latest (accepted jobId h).flatten := by
  have hkeeps := hq.keeps jobId job hjob
  have hsnapshot := hkeeps.holds.snapshot_eq
  rw [hkeeps.capacity] at hsnapshot
  simp only [CaptureJobQueue.snapshotPcm, hjob, latest, hsnapshot, rtake_eq_nil_iff]

theorem captureIsolates (q : CaptureJobQueue) (op : CaptureOp) :
    CaptureIsolates ⟨q, op, op.apply q⟩ where
  paused chunk hlabel hstate := by
    obtain rfl : op = .ingest chunk := hlabel
    obtain ⟨job, hjob, hpaused⟩ := Option.map_eq_some_iff.1 hstate
    exact congrArg Prod.snd (ingestI16Le_paused hjob hpaused)
  rejected chunk hlabel hstate := by
    obtain rfl : op = .ingest chunk := hlabel
    obtain ⟨job, hjob, hcancelled⟩ := Option.map_eq_some_iff.1 hstate
    have hingest := ingestI16Le_cancelled hjob hcancelled
    exact ⟨congrArg Prod.fst hingest, congrArg Prod.snd hingest⟩
  others jobId hne := capture_get_of_ne op hne

/-- After every run of calls each job has the latest samples of the chunks that it accepted while it
was running, and their number, and a cancelled one stays cancelled; and no call reaches a paused, a
cancelled or another job. -/
theorem capture_refines {h : List (Fired CaptureJobQueue CaptureOp)} {q : CaptureJobQueue}
    (hr : Run CaptureJobQueue.step .empty h q) :
    CaptureRefines h q ∧ ∀ f ∈ h, CaptureIsolates f := by
  have hq := queueKeeps_run hr
  refine ⟨⟨fun jobId job hjob => hq.snapshotPcm_eq hjob, fun jobId job hjob =>
    (hq.keeps jobId job hjob).counted, hq.cancelled⟩, fun f hf => ?_⟩
  obtain ⟨hstep, -⟩ := hr.mem hf
  obtain ⟨pre, op, post⟩ := f
  obtain rfl : op.apply pre = post := Option.some.inj hstep
  exact captureIsolates pre op

/-- A job that is paused between two chunks of one sample. -/
def pausedCapture : List CaptureOp :=
  let chunk (byte : UInt8) : AudioChunkIngest :=
    { jobId := "a", sampleRateHz := targetSampleRateHz, pcmI16Le := [0, byte], seq := 0 }
  [.startWithId "a" "v", .ingest (chunk 1), .pause "a", .ingest (chunk 2), .resume "a",
    .ingest (chunk 3), .cancel "a"]

theorem capture_refines_paused : ∃ h q, h.map Fired.label = pausedCapture.reverse ∧
    CaptureRefines h q ∧ ∀ f ∈ h, CaptureIsolates f := by
  obtain ⟨⟨h, q⟩, hexec⟩ : ∃ out, exec CaptureJobQueue.step .empty pausedCapture = some out :=
    ⟨_, rfl⟩
  exact ⟨h, q, exec_labels hexec, capture_refines (exec_run hexec)⟩

end LanguageLlm.Desktop
