import Mathlib.Data.Rat.Floor
import LanguageLlm.Json
import LanguageLlm.Lib.Base64

/-!
# Audio frames

The offscreen document turns each frame of the tab's audio into 16-bit samples and sends them as
Base64 text to the background worker, which decodes them and sends them as Base64 text to the
companion. Samples are rationals.
-/

namespace LanguageLlm.Client

open Lib

/-! ## Samples -/

/-- `q | 0` of a number that fits in 32 bits. -/
def truncate (q : Rat) : Int := if 0 ≤ q then ⌊q⌋ else ⌈q⌉

/-- `view.setInt16(…, v, true)`. -/
def setInt16 (v : Int) : List UInt8 :=
  let n := (v % 65536).toNat
  [UInt8.ofNat n, UInt8.ofNat (n / 256)]

/-- `Math.max(-1, Math.min(1, x))`. -/
def clamp (x : Rat) : Rat := max (-1) (min 1 x)

/-- `floatTo16Le`. -/
def floatTo16Le (input : List Rat) : List UInt8 :=
  input.flatMap fun x => setInt16 (truncate (clamp x * 32767))

theorem truncate_clamp_bounds (x : Rat) :
    -32767 ≤ truncate (clamp x * 32767) ∧ truncate (clamp x * 32767) ≤ 32767 := by
  have hlo : -1 ≤ clamp x := le_max_left ..
  have hhi : clamp x ≤ 1 := max_le (by norm_num) (min_le_left ..)
  unfold truncate
  split
  · exact ⟨Int.le_floor.2 (by push_cast; linarith),
      Int.floor_le_iff.2 (by push_cast; linarith)⟩
  · exact ⟨Int.le_ceil_iff.2 (by push_cast; linarith),
      Int.ceil_le.2 (by push_cast; linarith)⟩

/-- Truncation drops less than one. -/
theorem abs_truncate_sub_lt (q : Rat) : |(truncate q : Rat) - q| < 1 := by
  rw [abs_lt]
  unfold truncate
  split
  · have hle := Int.floor_le q
    have hlt := Int.lt_floor_add_one q
    constructor <;> linarith
  · have hle := Int.le_ceil q
    have hlt := Int.ceil_lt_add_one q
    constructor <;> linarith

/-! ## Base64 texts -/

/-- `String.fromCharCode` of every byte. -/
def binaryString (bytes : List UInt8) : List Char := bytes.map fun b => Char.ofNat b.toNat

/-- The byte that a character stands for. -/
def byteOf (c : Char) : Option UInt8 :=
  if c.toNat < 256 then some (UInt8.ofNat c.toNat) else none

/-- `btoa`; it throws at a character that is not a byte. -/
def btoa (text : List Char) : Option String :=
  (text.mapM byteOf).map fun bytes => String.ofList (Base64.encode bytes)

/-- `atob`; it throws at a text that is not Base64. -/
def atob (text : String) : Option (List Char) :=
  (Base64.decodeForgiving text.toList).map binaryString

/-- `bytesToBase64`. -/
def bytesToBase64 (bytes : List UInt8) : Option String := btoa (binaryString bytes)

/-- `base64ToBytes`; `charCodeAt` of a character that `atob` returns is a byte. -/
def base64ToBytes (b64 : String) : Option (List UInt8) :=
  if b64 = "" then some [] else (atob b64).map fun bin => bin.map fun c => UInt8.ofNat c.toNat

theorem toNat_charOfNat (b : UInt8) : (Char.ofNat b.toNat).toNat = b.toNat := by
  have hall : ∀ n < 256, (Char.ofNat n).toNat = n := by decide +kernel
  exact hall _ b.toNat_lt

theorem byteOf_charOfNat (b : UInt8) : byteOf (Char.ofNat b.toNat) = some b := by
  rw [byteOf, toNat_charOfNat, if_pos b.toNat_lt, UInt8.ofNat_toNat]

theorem mapM_byteOf (bytes : List UInt8) : (binaryString bytes).mapM byteOf = some bytes := by
  induction bytes with
  | nil => rfl
  | cons b bytes ih =>
    rw [binaryString, List.map_cons, List.mapM_cons, byteOf_charOfNat]
    rw [binaryString] at ih
    rw [ih]
    rfl

theorem bytesToBase64_eq (bytes : List UInt8) :
    bytesToBase64 bytes = some (String.ofList (Base64.encode bytes)) := by
  rw [bytesToBase64, btoa, mapM_byteOf]
  rfl

theorem base64ToBytes_encode (bytes : List UInt8) :
    base64ToBytes (String.ofList (Base64.encode bytes)) = some bytes := by
  have hcodes : (binaryString bytes).map (fun c => UInt8.ofNat c.toNat) = bytes := by
    rw [binaryString, List.map_map]
    refine (List.map_congr_left fun b _ => ?_).trans (List.map_id bytes)
    rw [Function.comp_apply, toNat_charOfNat, UInt8.ofNat_toNat, id]
  rw [base64ToBytes]
  split
  · next hempty =>
    have hnil : Base64.encode bytes = [] := String.ofList_injective hempty
    have hlength := Base64.length_encode bytes
    rw [hnil, List.length_nil] at hlength
    rw [List.eq_nil_of_length_eq_zero (l := bytes) (by omega)]
  · rw [atob, String.toList_ofList, Base64.decodeForgiving_encode, Option.map_some,
      Option.map_some, hcodes]

/-! ## Messages -/

/-- The message `capture.chunk` of the offscreen document, whose audio context runs at 48 kHz. -/
structure CaptureChunk where
  jobId : Option String
  sampleRateHz : Nat
  seq : Nat
  pcmI16LeBase64 : String

/-- The callback `onaudioprocess`. -/
def onAudioProcess (jobId : Option String) (seq : Nat) (input : List Rat) : Option CaptureChunk :=
  (bytesToBase64 (floatTo16Le input)).map fun b64 =>
    { jobId, sampleRateHz := 48000, seq, pcmI16LeBase64 := b64 }

/-- The message that `sendAudioChunk` sends. -/
def sendAudioChunk (token jobId : String) (sampleRateHz seq : Nat) (pcmI16Le : List UInt8) :
    Option Json :=
  (btoa (binaryString pcmI16Le)).map fun pcmI16LeBase64 =>
    .obj [("type", .str "audio.chunk"), ("sessionToken", .str token), ("jobId", .str jobId),
      ("sampleRateHz", .int sampleRateHz), ("seq", .int seq),
      ("pcmI16LeBase64", .str pcmI16LeBase64)]

/-- The job of a chunk in the worker. -/
def CaptureChunk.job (message : CaptureChunk) (captureJobId : Option String) : String :=
  (message.jobId.or captureJobId).getD ""

/-- The case `capture.chunk` of the worker after its await: the message that leaves it, or `none`
without a job. -/
def relayChunk (token : String) (captureJobId : Option String) (audioSeq : Nat)
    (message : CaptureChunk) : Option (Option Json) :=
  let jobId := message.job captureJobId
  if jobId = "" then some none
  else do
    let bytes ← base64ToBytes message.pcmI16LeBase64
    let sent ← sendAudioChunk token jobId message.sampleRateHz audioSeq bytes
    return some sent

/-- The message `audio.chunk` with the samples of a frame. -/
def audioMessage (token jobId : String) (sampleRateHz seq : Nat) (bytes : List UInt8) : Json :=
  .obj [("type", .str "audio.chunk"), ("sessionToken", .str token), ("jobId", .str jobId),
    ("sampleRateHz", .int sampleRateHz), ("seq", .int seq),
    ("pcmI16LeBase64", .str (String.ofList (Base64.encode bytes)))]

theorem sendAudioChunk_eq (token jobId : String) (sampleRateHz seq : Nat) (bytes : List UInt8) :
    sendAudioChunk token jobId sampleRateHz seq bytes =
      some (audioMessage token jobId sampleRateHz seq bytes) := by
  have hbase64 := bytesToBase64_eq bytes
  rw [bytesToBase64] at hbase64
  rw [sendAudioChunk, hbase64]
  rfl

/-- The chunk of a frame. -/
def frameChunk (own : Option String) (n : Nat) (input : List Rat) : CaptureChunk where
  jobId := own
  sampleRateHz := 48000
  seq := n
  pcmI16LeBase64 := String.ofList (Base64.encode (floatTo16Le input))

theorem onAudioProcess_eq (own : Option String) (n : Nat) (input : List Rat) :
    onAudioProcess own n input = some (frameChunk own n input) := by
  rw [onAudioProcess, bytesToBase64_eq]
  rfl

/-- The bytes of a frame leave the worker as they are. -/
theorem relayChunk_frame (token : String) (own captureJobId : Option String) (audioSeq n : Nat)
    (input : List Rat) : relayChunk token captureJobId audioSeq (frameChunk own n input) =
      some (if (own.or captureJobId).getD "" = "" then none
        else some (audioMessage token ((own.or captureJobId).getD "") 48000 audioSeq
          (floatTo16Le input))) := by
  unfold relayChunk CaptureChunk.job
  simp only [frameChunk, base64ToBytes_encode, sendAudioChunk_eq, Option.bind_eq_bind,
    Option.bind_some, Option.pure_def]
  split
  · rfl
  · rfl

end LanguageLlm.Client
