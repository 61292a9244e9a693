import Mathlib.Algebra.Order.Round
import LanguageLlm.Desktop.CaptureLog

/-!
# The WAV of a capture

`whisper.cpp` reads a capture from a WAV file. The decoder of the samples divides by 32768, the
encoder multiplies by 32767 and truncates: a sample comes out one step nearer to zero
(`wav_of_run`).
-/

namespace LanguageLlm.Desktop

open Lib

/-! ## The encoder -/

/-- `q as i16`: the fraction is dropped, and what does not fit saturates. -/
def castI16 (q : Rat) : Int := max (-32768) (min (if 0 ≤ q then ⌊q⌋ else ⌈q⌉) 32767)

/-- `i16::to_le_bytes`. -/
def i16ToLeBytes (v : Int) : List UInt8 :=
  let n := (v % 65536).toNat
  [UInt8.ofNat n, UInt8.ofNat (n / 256)]

/-- `u16::to_le_bytes`. -/
def u16ToLeBytes (v : UInt16) : List UInt8 :=
  [UInt8.ofNat v.toNat, UInt8.ofNat (v.toNat / 256)]

/-- `u32::to_le_bytes`. -/
def u32ToLeBytes (v : UInt32) : List UInt8 :=
  [UInt8.ofNat v.toNat, UInt8.ofNat (v.toNat / 256), UInt8.ofNat (v.toNat / 65536),
    UInt8.ofNat (v.toNat / 16777216)]

/-- `f32_to_pcm_i16_le`. -/
def f32ToPcmI16Le (samples : List Rat) : List UInt8 :=
  samples.flatMap fun s => i16ToLeBytes (castI16 (max (-1) (min s 1) * 32767))

/-- The bytes of an ASCII text. -/
def ascii (text : String) : List UInt8 := text.toList.map fun c => UInt8.ofNat c.toNat

/-- The header of `write_wav_mono`. -/
def wavHeader (sampleRateHz dataLen : UInt32) : List UInt8 :=
  let byteRate := sampleRateHz * 2
  ascii "RIFF" ++ u32ToLeBytes (36 + dataLen) ++ ascii "WAVE" ++ ascii "fmt " ++ u32ToLeBytes 16 ++
    u16ToLeBytes 1 ++ u16ToLeBytes 1 ++ u32ToLeBytes sampleRateHz ++ u32ToLeBytes byteRate ++
    u16ToLeBytes 2 ++ u16ToLeBytes 16 ++ ascii "data" ++ u32ToLeBytes dataLen

/-- How the file system answers, with the display of an error. -/
structure Disk where
  create : Except String Unit
  writeAll : List UInt8 → Except String Unit

/-- `write_wav_mono`, with the contents of the file. -/
def writeWavMono (disk : Disk) (pcm : PcmMono) : Except MediaError (List UInt8) :=
  if pcm.samples = [] then .error .empty
  else
    let pcmBytes := f32ToPcmI16Le pcm.samples
    let header := wavHeader (UInt32.ofNat pcm.sampleRateHz) (UInt32.ofNat pcmBytes.length)
    match disk.create, disk.writeAll header, disk.writeAll pcmBytes with
    | .ok (), .ok (), .ok () => .ok (header ++ pcmBytes)
    | .error e, _, _ | _, .error e, _ | _, _, .error e => .error (.io e)

theorem writeWavMono_ok {disk : Disk} {pcm : PcmMono} {file : List UInt8}
    (hfile : writeWavMono disk pcm = .ok file) :
    pcm.samples ≠ [] ∧
      file = wavHeader (UInt32.ofNat pcm.sampleRateHz)
        (UInt32.ofNat (f32ToPcmI16Le pcm.samples).length) ++ f32ToPcmI16Le pcm.samples := by
  rw [writeWavMono] at hfile
  split at hfile
  · cases hfile
  · next hne =>
    dsimp only at hfile
    split at hfile
    · exact ⟨hne, (Except.ok.inj hfile).symm⟩
    all_goals cases hfile

theorem f32ToPcmI16Le_length (samples : List Rat) :
    (f32ToPcmI16Le samples).length = 2 * samples.length := by
  induction samples with
  | nil => rfl
  | cons s samples ih =>
    rw [f32ToPcmI16Le] at ih ⊢
    rw [List.flatMap_cons, List.length_append, ih, List.length_cons]
    change 2 + 2 * samples.length = _
    omega

/-! ## The file -/

/-- The little-endian number at a place of a file. -/
def u32At (file : List UInt8) (i : Nat) : Nat :=
  ((file.drop i).take 4).foldr (fun byte n => byte.toNat + 256 * n) 0

/-- The format chunk: one channel of 16-bit samples at 16 kHz. -/
def waveFormat : List UInt8 :=
  ascii "WAVEfmt " ++ [16, 0, 0, 0, 1, 0, 1, 0, 0x80, 0x3E, 0, 0, 0, 0x7D, 0, 0, 2, 0, 16, 0]

/-- A WAV file of 16-bit samples at 16 kHz: its chunks with their lengths. -/
structure WavOf (file data : List UInt8) : Prop where
  riff : file.take 4 = ascii "RIFF"
  riffLength : u32At file 4 = file.length - 8
  format : (file.drop 8).take 28 = waveFormat
  dataTag : (file.drop 36).take 4 = ascii "data"
  dataLength : u32At file 40 = data.length
  data : file.drop 44 = data

theorem u32_bytes (v : UInt32) :
    (u32ToLeBytes v).foldr (fun byte n => byte.toNat + 256 * n) 0 = v.toNat := by
  have hlt := v.toNat_lt
  simp only [u32ToLeBytes, List.foldr_cons, List.foldr_nil, UInt8.toNat_ofNat']
  omega

/-- The parts of the header. -/
theorem wavHeader_parts (dataLen : UInt32) (data : List UInt8) :
    wavHeader (UInt32.ofNat targetSampleRateHz) dataLen ++ data =
      ascii "RIFF" ++ (u32ToLeBytes (36 + dataLen) ++
        (waveFormat ++ (ascii "data" ++ (u32ToLeBytes dataLen ++ data)))) := by
  have hformat : waveFormat = ascii "WAVE" ++ ascii "fmt " ++ u32ToLeBytes 16 ++ u16ToLeBytes 1 ++
      u16ToLeBytes 1 ++ u32ToLeBytes (UInt32.ofNat targetSampleRateHz) ++
      u32ToLeBytes (UInt32.ofNat targetSampleRateHz * 2) ++ u16ToLeBytes 2 ++ u16ToLeBytes 16 := by
    decide
  rw [hformat, wavHeader]
  simp only [List.append_assoc]

theorem wavHeader_wavOf {data : List UInt8} (hdata : data.length + 36 < 2 ^ 32) :
    WavOf (wavHeader (UInt32.ofNat targetSampleRateHz) (UInt32.ofNat data.length) ++ data)
      data := by
  have hlen : (UInt32.ofNat data.length).toNat = data.length := by
    rw [UInt32.toNat_ofNat']
    omega
  have hriff : (ascii "RIFF").length = 4 := by decide
  have hformat : waveFormat.length = 28 := by decide
  have htag : (ascii "data").length = 4 := by decide
  have hnumber (v : UInt32) : (u32ToLeBytes v).length = 4 := rfl
  rw [wavHeader_parts]
  generalize hfile : ascii "RIFF" ++ _ = file
  -- what stands behind each part
  have h₄ := congrArg (List.drop 4) hfile
  rw [List.drop_left' hriff] at h₄
  have h₈ := congrArg (List.drop 4) h₄
  rw [List.drop_left' (hnumber _), List.drop_drop] at h₈
  have h₃₆ := congrArg (List.drop 28) h₈
  rw [List.drop_left' hformat, List.drop_drop] at h₃₆
  have h₄₀ := congrArg (List.drop 4) h₃₆
  rw [List.drop_left' htag, List.drop_drop] at h₄₀
  have h₄₄ := congrArg (List.drop 4) h₄₀
  rw [List.drop_left' (hnumber _), List.drop_drop] at h₄₄
  constructor
  · rw [← hfile, List.take_left' hriff]
  · have hlength : file.length = 44 + data.length := by
      rw [← hfile]
      simp only [List.length_append, hriff, hnumber, hformat, htag]
      omega
    rw [u32At, ← h₄, List.take_left' (hnumber _), u32_bytes, UInt32.toNat_add, hlen, hlength]
    change (36 + data.length) % 2 ^ 32 = _
    omega
  · rw [← h₈, List.take_left' hformat]
  · rw [← h₃₆, List.take_left' htag]
  · rw [u32At, ← h₄₀, List.take_left' (hnumber _), u32_bytes, hlen]
  · exact h₄₄.symm

/-- The file of at most 30 seconds of audio. -/
theorem writeWavMono_wavOf {disk : Disk} {pcm : PcmMono} {file : List UInt8}
    (hfile : writeWavMono disk pcm = .ok file) (hrate : pcm.sampleRateHz = targetSampleRateHz)
    (hlength : pcm.samples.length ≤ 480000) : WavOf file (f32ToPcmI16Le pcm.samples) := by
  obtain ⟨-, rfl⟩ := writeWavMono_ok hfile
  have hdata := f32ToPcmI16Le_length pcm.samples
  rw [hrate]
  exact wavHeader_wavOf (by omega)

/-! ## One sample -/

/-- The 16-bit samples of whole-sample bytes. -/
def i16Samples : List UInt8 → List Int
  | lo :: hi :: bytes => i16FromLeBytes lo hi :: i16Samples bytes
  | _ => []

/-- A number one step nearer to zero. -/
def towardZero (n : Int) : Int := n - n.sign

theorem i16FromLeBytes_bounds (lo hi : UInt8) :
    -32768 ≤ i16FromLeBytes lo hi ∧ i16FromLeBytes lo hi ≤ 32767 := by
  have hlo := lo.toNat_lt
  have hhi := hi.toNat_lt
  unfold i16FromLeBytes
  dsimp only
  split
  · omega
  · omega

theorem i16Samples_bounds : ∀ bytes, ∀ n ∈ i16Samples bytes, -32768 ≤ n ∧ n ≤ 32767
  | [] | [_] => nofun
  | lo :: hi :: bytes => by
    rw [i16Samples, List.forall_mem_cons]
    exact ⟨i16FromLeBytes_bounds lo hi, i16Samples_bounds bytes⟩

theorem pcmI16LeToF32_eq : ∀ bytes,
    pcmI16LeToF32 bytes = (i16Samples bytes).map fun n : Int => (n : Rat) / 32768
  | [] | [_] => rfl
  | lo :: hi :: bytes => by rw [pcmI16LeToF32, i16Samples, List.map_cons, pcmI16LeToF32_eq bytes]

theorem i16Samples_append (rest : List UInt8) :
    ∀ bytes, Even bytes.length → i16Samples (bytes ++ rest) = i16Samples bytes ++ i16Samples rest
  | [], _ => rfl
  | [_], heven => absurd heven (by simp)
  | lo :: hi :: bytes, heven => by
    rw [List.length_cons, List.length_cons, Nat.even_add_one, Nat.even_add_one, not_not] at heven
    simp only [List.cons_append, i16Samples, i16Samples_append rest bytes heven]

/-- The encoder makes a decoded sample smaller. -/
theorem castI16_decoded {n : Int} (hlo : -32768 ≤ n) (hhi : n ≤ 32767) :
    castI16 (max (-1) (min ((n : Rat) / 32768) 1) * 32767) = towardZero n := by
  have hlo' : (-32768 : Rat) ≤ n := by exact_mod_cast hlo
  have hhi' : (n : Rat) ≤ 32767 := by exact_mod_cast hhi
  have hclamp : max (-1) (min ((n : Rat) / 32768) 1) = n / 32768 := by
    rw [min_eq_left (by linarith), max_eq_right (by linarith)]
  rw [hclamp, castI16, towardZero]
  rcases lt_trichotomy n 0 with hneg | rfl | hpos
  · have hneg' : (n : Rat) ≤ -1 := by exact_mod_cast Int.le_sub_one_of_lt hneg
    have hceil : ⌈(n : Rat) / 32768 * 32767⌉ = n + 1 := by
      rw [Int.ceil_eq_iff]
      push_cast
      constructor <;> linarith
    rw [if_neg (by linarith), hceil, Int.sign_eq_neg_one_of_neg hneg]
    omega
  · simp
  · have hpos' : (1 : Rat) ≤ n := by exact_mod_cast hpos
    have hfloor : ⌊(n : Rat) / 32768 * 32767⌋ = n - 1 := by
      rw [Int.floor_eq_iff]
      push_cast
      constructor <;> linarith
    rw [if_pos (by linarith), hfloor, Int.sign_eq_one_of_pos hpos]
    omega

/-- The encoder after the decoder. -/
theorem f32ToPcmI16Le_decoded {samples : List Int}
    (hbounds : ∀ n ∈ samples, -32768 ≤ n ∧ n ≤ 32767) :
    f32ToPcmI16Le (samples.map fun n : Int => (n : Rat) / 32768) =
      samples.flatMap fun n => i16ToLeBytes (towardZero n) := by
  induction samples with
  | nil => rfl
  | cons n samples ih =>
    rw [List.forall_mem_cons] at hbounds
    have hrest := ih hbounds.2
    rw [f32ToPcmI16Le] at hrest ⊢
    rw [List.map_cons, List.flatMap_cons, List.flatMap_cons, hrest,
      castI16_decoded hbounds.1.1 hbounds.1.2]

/-! ## The run -/

/-- A chunk that a call adds to a job while it is running. -/
def CaptureOp.takes (q : CaptureJobQueue) (jobId : String) : CaptureOp → Option AudioChunkIngest
  | ingest chunk =>
    if chunk.jobId = jobId ∧ q.stateOf jobId = some .running then
      match (q.ingestI16Le chunk).1 with
      | .ok _ => some chunk
      | .error _ => none
    else none
  | startWithId .. | pause _ | resume _ | cancel _ | markAsrSegment .. => none

/-- The chunks that the job accepted since its last start. -/
def acceptedChunks (jobId : String) : List (Fired CaptureJobQueue CaptureOp) → List AudioChunkIngest
  | [] => []
  | f :: h =>
    match f.label with
    | .startWithId id _ => if id = jobId then [] else acceptedChunks jobId h
    | op => acceptedChunks jobId h ++ (op.takes f.pre jobId).toList

/-- A chunk of whole samples at 16 kHz. -/
def WholeChunk (chunk : AudioChunkIngest) : Prop :=
  chunk.sampleRateHz = targetSampleRateHz ∧ Even chunk.pcmI16Le.length

/-- The samples that the job ingested since its last start. -/
def ingested (jobId : String) (h : List (Fired CaptureJobQueue CaptureOp)) : List Int :=
  i16Samples ((acceptedChunks jobId h).flatMap AudioChunkIngest.pcmI16Le)

theorem adds_eq_takes {q : CaptureJobQueue} {jobId : String} {op : CaptureOp}
    (hwhole : ∀ chunk ∈ (op.takes q jobId).toList, WholeChunk chunk) :
    op.adds q jobId = (op.takes q jobId).map fun chunk => pcmI16LeToF32 chunk.pcmI16Le := by
  cases op with
  | startWithId | pause | resume | cancel | markAsrSegment => rfl
  | ingest chunk =>
    rw [CaptureOp.takes] at hwhole ⊢
    rw [CaptureOp.adds]
    by_cases hrun : chunk.jobId = jobId ∧ q.stateOf jobId = some .running
    · rw [if_pos hrun] at hwhole ⊢
      rw [if_pos hrun]
      cases hresult : (q.ingestI16Le chunk).1 with
      | error e => rfl
      | ok accepted =>
        simp only [hresult, Option.toList_some, List.forall_mem_singleton] at hwhole
        have hresample : chunk.resample = .ok
            { sampleRateHz := chunk.sampleRateHz, samples := pcmI16LeToF32 chunk.pcmI16Le } :=
          if_pos hwhole.1
        rw [hresample]
        rfl
    · rw [if_neg hrun, if_neg hrun]
      rfl

theorem accepted_eq_chunks {jobId : String} {h : List (Fired CaptureJobQueue CaptureOp)}
    (hwhole : ∀ chunk ∈ acceptedChunks jobId h, WholeChunk chunk) :
    accepted jobId h = (acceptedChunks jobId h).map fun chunk => pcmI16LeToF32 chunk.pcmI16Le := by
  induction h with
  | nil => rfl
  | cons f h ih =>
    obtain ⟨pre, op, post⟩ := f
    cases op with
    | startWithId id videoId =>
      simp only [acceptedChunks, accepted] at hwhole ⊢
      split
      · rfl
      · next hne =>
        rw [if_neg hne] at hwhole
        exact ih hwhole
    | pause | resume | cancel | markAsrSegment | ingest =>
      simp only [acceptedChunks, List.mem_append] at hwhole
      rw [accepted_cons rfl, acceptedChunks, List.map_append,
        ih fun chunk hc => hwhole chunk (Or.inl hc), adds_eq_takes fun chunk hc =>
          hwhole chunk (Or.inr hc)]
      cases CaptureOp.takes _ _ _ <;> rfl

theorem rtake_map {α β : Type} (f : α → β) (l : List α) (n : Nat) :
    (l.map f).rtake n = (l.rtake n).map f := by
  rw [List.rtake, List.rtake, List.length_map, List.map_drop]

/-- The bytes of whole samples, decoded chunk by chunk. -/
theorem decoded_chunks {chunks : List AudioChunkIngest}
    (hwhole : ∀ chunk ∈ chunks, WholeChunk chunk) :
    (chunks.map fun chunk => pcmI16LeToF32 chunk.pcmI16Le).flatten =
      (i16Samples (chunks.flatMap AudioChunkIngest.pcmI16Le)).map fun n :
      Int => (n : Rat) / 32768 := by
  induction chunks with
  | nil => rfl
  | cons chunk chunks ih =>
    rw [List.forall_mem_cons] at hwhole
    rw [List.map_cons, List.flatten_cons, List.flatMap_cons,
      i16Samples_append _ _ hwhole.1.2, List.map_append, ih hwhole.2, pcmI16LeToF32_eq]

/-- The WAV of a run of whole chunks, in terms of the decoded samples. -/
theorem wav_decoded {h : List (Fired CaptureJobQueue CaptureOp)} {q : CaptureJobQueue}
    (hr : Run CaptureJobQueue.step .empty h q) {jobId : String}
    (hwhole : ∀ chunk ∈ acceptedChunks jobId h, WholeChunk chunk) {pcm : PcmMono}
    (hpcm : q.snapshotPcm jobId = .ok pcm) {disk : Disk} {file : List UInt8}
    (hfile : writeWavMono disk pcm = .ok file) :
    WavOf file (((ingested jobId h).rtake 480000).flatMap fun n =>
      i16ToLeBytes (towardZero n)) := by
  obtain ⟨job, hjob⟩ : ∃ job, q.get jobId = some job := by
    rw [← Option.isSome_iff_exists]
    by_contra hnone
    rw [Bool.not_eq_true, Option.isSome_eq_false_iff, Option.isNone_iff_eq_none] at hnone
    simp [CaptureJobQueue.snapshotPcm, hnone] at hpcm
  rw [(queueKeeps_run hr).snapshotPcm_eq hjob, latest, accepted_eq_chunks hwhole,
    decoded_chunks hwhole, ← ingested] at hpcm
  split at hpcm
  · cases hpcm
  obtain rfl := Except.ok.inj hpcm
  have hdata : f32ToPcmI16Le (((ingested jobId h).map fun n : Int => (n : Rat) / 32768).rtake
      480000) =
      ((ingested jobId h).rtake 480000).flatMap fun n => i16ToLeBytes (towardZero n) := by
    rw [rtake_map]
    exact f32ToPcmI16Le_decoded fun n hn =>
      i16Samples_bounds _ n (List.mem_of_mem_drop hn)
  have hlength : (((ingested jobId h).map fun n : Int => (n : Rat) / 32768).rtake 480000).length ≤
      480000 := by
    rw [List.rtake, List.length_drop]
    omega
  rw [← hdata]
  generalize ((ingested jobId h).map fun n : Int => (n : Rat) / 32768).rtake 480000 = kept at *
  exact writeWavMono_wavOf hfile rfl hlength

/-- The samples of a buffer of whole samples, encoded again. -/
theorem f32ToPcmI16Le_pcmI16LeToF32 (bytes : List UInt8) :
    f32ToPcmI16Le (pcmI16LeToF32 bytes) =
      (i16Samples bytes).flatMap fun n => i16ToLeBytes (towardZero n) := by
  rw [pcmI16LeToF32_eq]
  exact f32ToPcmI16Le_decoded (i16Samples_bounds bytes)

/-- After every run of calls whose accepted chunks on a job are whole samples at 16 kHz, the WAV of
its snapshot has the right lengths, and its data are the last 480000 samples in order, each one step
nearer to zero. -/
theorem wav_of_run {h : List (Fired CaptureJobQueue CaptureOp)} {q : CaptureJobQueue}
    (hr : Run CaptureJobQueue.step .empty h q) {jobId : String}
    (hwhole : ∀ chunk ∈ acceptedChunks jobId h, WholeChunk chunk) {pcm : PcmMono}
    (hpcm : q.snapshotPcm jobId = .ok pcm) {disk : Disk} {file : List UInt8}
    (hfile : writeWavMono disk pcm = .ok file) :
    WavOf file (((ingested jobId h).rtake 480000).flatMap fun n => i16ToLeBytes (towardZero n)) ∧
      ∀ bytes, f32ToPcmI16Le (pcmI16LeToF32 bytes) =
        (i16Samples bytes).flatMap fun n => i16ToLeBytes (towardZero n) :=
  ⟨wav_decoded hr hwhole hpcm hfile, f32ToPcmI16Le_pcmI16LeToF32⟩

/-- A chunk of one sample with the value 1. -/
def oneChunk : AudioChunkIngest where
  jobId := "a"
  sampleRateHz := targetSampleRateHz
  pcmI16Le := [1, 0]
  seq := 0

/-- The queue with this sample. -/
def oneQueue : CaptureJobQueue :=
  (CaptureOp.ingest oneChunk).apply ((CaptureOp.startWithId "a" "v").apply .empty)

/-- The calls that lead to it. -/
def oneRun : List (Fired CaptureJobQueue CaptureOp) :=
  let started := (CaptureOp.startWithId "a" "v").apply .empty
  [⟨started, .ingest oneChunk, oneQueue⟩, ⟨.empty, .startWithId "a" "v", started⟩]

/-- A disk without errors. -/
def wideDisk : Disk where
  create := .ok ()
  writeAll _ := .ok ()

theorem oneRun_run : Run CaptureJobQueue.step .empty oneRun oneQueue :=
  .cons (.cons .nil rfl) rfl

theorem acceptedChunks_oneRun : acceptedChunks "a" oneRun = [oneChunk] := rfl

theorem wholeChunk_oneRun : ∀ chunk ∈ acceptedChunks "a" oneRun, WholeChunk chunk := by
  rw [acceptedChunks_oneRun, List.forall_mem_singleton]
  exact ⟨rfl, even_two⟩

theorem ingested_oneRun : ingested "a" oneRun = [1] := by
  rw [ingested, acceptedChunks_oneRun]
  decide

theorem wav_exists_oneRun : ∃ pcm file, oneQueue.snapshotPcm "a" = .ok pcm ∧
    writeWavMono wideDisk pcm = .ok file := by
  obtain ⟨job, hjob⟩ : ∃ job, oneQueue.get "a" = some job := ⟨_, rfl⟩
  have hkept := (queueKeeps_run oneRun_run).snapshotPcm_eq hjob
  rw [accepted_eq_chunks wholeChunk_oneRun, decoded_chunks wholeChunk_oneRun, ← ingested,
    ingested_oneRun, List.map_singleton, latest, if_neg (List.cons_ne_nil _ _)] at hkept
  exact ⟨_, _, hkept, if_neg (List.cons_ne_nil _ _)⟩

theorem wav_of_oneRun : ∃ pcm file, oneQueue.snapshotPcm "a" = .ok pcm ∧
    writeWavMono wideDisk pcm = .ok file ∧
    WavOf file (((ingested "a" oneRun).rtake 480000).flatMap fun n =>
      i16ToLeBytes (towardZero n)) ∧
      ∀ bytes, f32ToPcmI16Le (pcmI16LeToF32 bytes) =
        (i16Samples bytes).flatMap fun n => i16ToLeBytes (towardZero n) := by
  obtain ⟨pcm, file, hpcm, hfile⟩ := wav_exists_oneRun
  exact ⟨pcm, file, hpcm, hfile, wav_of_run oneRun_run wholeChunk_oneRun hpcm hfile⟩

/-- The sample comes out as 0. -/
theorem not_bit_exact : ¬ ∀ (h : List (Fired CaptureJobQueue CaptureOp)) (q : CaptureJobQueue)
    (jobId : String), Run CaptureJobQueue.step .empty h q →
      (∀ chunk ∈ acceptedChunks jobId h, WholeChunk chunk) → ∀ (pcm : PcmMono) (disk : Disk)
        (file : List UInt8), q.snapshotPcm jobId = .ok pcm → writeWavMono disk pcm = .ok file →
          WavOf file (((ingested jobId h).rtake 480000).flatMap i16ToLeBytes) := by
  intro hexact
  obtain ⟨pcm, file, hpcm, hfile⟩ := wav_exists_oneRun
  have hone := hexact _ _ "a" oneRun_run wholeChunk_oneRun pcm wideDisk file hpcm hfile
  have hzero := wav_decoded oneRun_run wholeChunk_oneRun hpcm hfile
  have hsame := hone.data.symm.trans hzero.data
  rw [ingested_oneRun, show ([1] : List Int).rtake 480000 = [1] from rfl] at hsame
  exact absurd hsame (by decide)

end LanguageLlm.Desktop
