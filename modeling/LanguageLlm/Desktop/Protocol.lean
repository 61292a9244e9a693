import LanguageLlm.Json

/-!
# The protocol of the companion

What the companion uses of `packages/protocol/rust`: versions, job kinds and statuses, the response
to a handshake, and how a handler reads the fields of a message.
-/

namespace LanguageLlm

namespace Json

/-- `v.get(key).and_then(|v| v.as_str()).unwrap_or(d)`. -/
def strOr (v : Json) (key d : String) : String := (v.getStr key).getD d

/-- `v.get(key).cloned().unwrap_or(d)`. -/
def getOr (v : Json) (key : String) (d : Json) : Json := (v.get key).getD d

/-- A number of `u64` or `usize`. -/
def nat (n : Nat) : Json := .int n

end Json

namespace Desktop

def protocolVersion : String := "1.0.0"

/-- `s.parse::<u32>()`: digits with an optional plus sign. -/
def parseU32 (s : String) : Option Nat :=
  let digits := match s.toList with
    | '+' :: cs => cs
    | cs => cs
  if digits ≠ [] ∧ digits.all Char.isDigit then
    let n := Nat.ofDigitChars 10 digits 0
    if n < 2 ^ 32 then some n else none
  else none

/-- `parse_major`; `none` is `InvalidVersion`. -/
def parseMajor (version : String) : Option Nat :=
  parseU32 (String.ofList (version.toList.takeWhile (· ≠ '.')))

def versionsCompatible (client companion : String) : Bool :=
  match parseMajor client, parseMajor companion with
  | some a, some b => a = b
  | _, _ => false

example :
    versionsCompatible "1.9.9" protocolVersion ∧ ¬ versionsCompatible "2.0.0" protocolVersion :=
  by decide +kernel

inductive JobKind where
  | asr
  | translate
  | align
  | vlmReview
  | lookup
  | export_
  | pageTranslate
  | lyricsResolve
  deriving DecidableEq

/-- The kinds that `job.submit` knows. -/
def JobKind.parse : String → Option JobKind
  | "asr" => some asr
  | "translate" => some translate
  | "page-translate" => some pageTranslate
  | "align" => some align
  | "vlm-review" => some vlmReview
  | "lookup" => some lookup
  | "export" => some export_
  | "lyrics-resolve" => some lyricsResolve
  | _ => none

inductive JobStatus where
  | queued
  | running
  | paused
  | succeeded
  | failed
  | cancelled
  deriving DecidableEq

/-- `JobProgress`, without `cue_count`, which is never set. -/
structure JobProgress where
  jobId : String
  kind : JobKind
  status : JobStatus
  fraction : Rat
  message : Option String
  updatedAtMs : Nat

inductive InferenceMode where
  | weights
  | offlineMock
  deriving DecidableEq

/-- `format!("{mode:?}")`. -/
def InferenceMode.name : InferenceMode → String
  | weights => "Weights"
  | offlineMock => "OfflineMock"

inductive HardwareProfile where
  | lite
  | balanced
  | quality
  | workstation
  deriving DecidableEq

/-- `make_handshake_response` as JSON. -/
def makeHandshakeResponse (sessionToken : String) (expiresAtMs : Nat) (companionBuild : String) :
    Json :=
  .obj [("type", .str "auth.handshake.response"), ("protocolVersion", .str protocolVersion),
    ("sessionToken", .str sessionToken), ("expiresAtMs", .nat expiresAtMs),
    ("companionBuild", .str companionBuild), ("ok", .bool true)]

end Desktop

end LanguageLlm
