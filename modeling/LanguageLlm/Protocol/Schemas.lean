import Mathlib.Data.Rat.Cast.Order
import LanguageLlm.Lib.Schema

/-!
# The schemas of the messages

`schemas.ts` of the protocol package: the messages that both sides of the socket should be able to
check. `Conforms` says that a message of one of these types meets the schema of its type.
-/

namespace LanguageLlm.Protocol

open Lib Schema

/-! ## Values -/

def provenances : List String :=
  ["human-caption", "auto-caption", "asr", "user-edit", "mt", "vlm-corrected", "lyrics-open-api",
    "lyrics-import", "page-translate"]

def jobKinds : List String :=
  ["asr", "translate", "align", "vlm-review", "lookup", "export", "page-translate",
    "lyrics-resolve"]

def jobStatuses : List String :=
  ["queued", "running", "paused", "succeeded", "failed", "cancelled"]

def nonnegative : Rat → Bool := fun q => 0 ≤ q

/-- `min(0).max(1)`. -/
def fraction : Rat → Bool := fun q => 0 ≤ q && q ≤ 1

theorem fraction_float {q : Rat} (h₀ : 0 ≤ q) (h₁ : q ≤ 1) :
    Schema.number fraction (.float q) = true := by
  simp [Schema.number, fraction, h₀, h₁]

theorem nonnegative_nat (n : Nat) : nonnegative ((n : Int) : Rat) = true := by
  simp [nonnegative]

/-- The number that a value is. -/
def numberOf : Json → Option Rat
  | .int n => some n
  | .float q => some q
  | _ => none

/-- `c.endMs > c.startMs`. -/
def endsAfterStart (c : Json) : Bool :=
  match (c.get "startMs").bind numberOf, (c.get "endMs").bind numberOf with
  | some startMs, some endMs => startMs < endMs
  | _, _ => false

def cueSchema : Schema :=
  refine (object [⟨"id", string 1, true⟩, ⟨"startMs", Schema.number nonnegative, true⟩,
    ⟨"endMs", Schema.number nonnegative, true⟩, ⟨"text", string 0, true⟩,
    ⟨"speaker", string 0, false⟩, ⟨"provenance", oneOf provenances, true⟩]) endsAfterStart

def jobProgressSchema : Schema :=
  object [⟨"jobId", string 1, true⟩, ⟨"kind", oneOf jobKinds, true⟩,
    ⟨"status", oneOf jobStatuses, true⟩, ⟨"fraction", Schema.number fraction, true⟩,
    ⟨"message", string 0, false⟩, ⟨"cueCount", int nonnegative, false⟩,
    ⟨"updatedAtMs", int nonnegative, true⟩]

def sourceTimelineSchema : Schema :=
  object [⟨"videoId", string 1, true⟩, ⟨"cues", array cueSchema 0, true⟩,
    ⟨"sourceHash", string 1, true⟩, ⟨"immutable", literal true, true⟩,
    ⟨"captionSource", oneOf ["human", "auto", "asr-live", "asr-import", "user-edit"], false⟩,
    ⟨"language", string 0, false⟩, ⟨"developmentFallback", boolean, false⟩]

def translationCueSchema : Schema :=
  object [⟨"id", string 1, true⟩, ⟨"sourceCueIds", array (string 1) 1, true⟩,
    ⟨"text", string 0, true⟩, ⟨"confidence", Schema.number fraction, true⟩,
    ⟨"provisional", boolean, true⟩, ⟨"revisionId", string 1, true⟩,
    ⟨"startMs", Schema.number nonnegative, false⟩, ⟨"endMs", Schema.number nonnegative, false⟩]

/-! ## Messages -/

def authHandshakeRequestSchema : Schema :=
  object [⟨"type", oneOf ["auth.handshake.request"], true⟩, ⟨"protocolVersion", string 1, true⟩,
    ⟨"extensionId", string 1, true⟩, ⟨"nonce", string 16, true⟩,
    ⟨"requestedAtMs", int nonnegative, true⟩]

def authHandshakeResponseSchema : Schema :=
  object [⟨"type", oneOf ["auth.handshake.response"], true⟩, ⟨"protocolVersion", string 1, true⟩,
    ⟨"sessionToken", string 32, true⟩, ⟨"expiresAtMs", int (0 < ·), true⟩,
    ⟨"companionBuild", string 0, false⟩, ⟨"ok", literal true, true⟩]

def authHandshakeFailureSchema : Schema :=
  object [⟨"type", oneOf ["auth.handshake.failure"], true⟩, ⟨"protocolVersion", string 1, true⟩,
    ⟨"code", oneOf ["version-mismatch", "origin-rejected", "rate-limited", "internal"], true⟩,
    ⟨"message", string 0, true⟩, ⟨"ok", literal false, true⟩]

/-- The schema of a message of a session, with its other fields. -/
def sessionSchema (type : String) (fields : List Field) : Schema :=
  object (⟨"type", oneOf [type], true⟩ :: ⟨"sessionToken", string 32, true⟩ :: fields)

def jobSubmitSchema : Schema :=
  sessionSchema "job.submit" [⟨"jobId", string 1, true⟩, ⟨"kind", oneOf jobKinds, true⟩,
    ⟨"videoId", string 1, true⟩, ⟨"payload", record, true⟩]

def timelineSourceMessageSchema : Schema :=
  sessionSchema "timeline.source" [⟨"timeline", sourceTimelineSchema, true⟩]

def retentionPresets : List String := ["session", "days7", "days30", "keep"]

def privacyWipeScopes : List String :=
  ["all", "transcripts", "translations", "lyrics", "page-cache", "study", "dictionaries"]

def errorSchema : Schema :=
  object [⟨"type", oneOf ["error"], true⟩, ⟨"sessionToken", string 32, false⟩,
    ⟨"code", string 1, true⟩, ⟨"message", string 0, true⟩, ⟨"fatal", boolean, false⟩]

/-- The options of `criticalWsMessageSchema`. -/
def criticalMessages : List (String × Schema) :=
  [("auth.handshake.request", authHandshakeRequestSchema),
    ("auth.handshake.response", authHandshakeResponseSchema),
    ("auth.handshake.failure", authHandshakeFailureSchema),
    ("job.submit", jobSubmitSchema),
    ("timeline.source", timelineSourceMessageSchema),
    ("privacy.wipe",
      sessionSchema "privacy.wipe" [⟨"scope", oneOf privacyWipeScopes, true⟩]),
    ("retention.set",
      sessionSchema "retention.set" [⟨"preset", oneOf retentionPresets, true⟩]),
    ("timeline.hydrate",
      sessionSchema "timeline.hydrate"
        [⟨"videoId", string 1, true⟩, ⟨"sourceHash", string 0, false⟩]),
    ("study.sync",
      sessionSchema "study.sync" [⟨"op", oneOf ["put", "get", "list", "delete"], true⟩,
        ⟨"kind", string 0, false⟩, ⟨"id", string 0, false⟩, ⟨"payload", record, false⟩]),
    ("dictionary.lookup", sessionSchema "dictionary.lookup" [⟨"surface", string 1, true⟩]),
    ("job.progress", sessionSchema "job.progress" [⟨"progress", jobProgressSchema, true⟩]),
    ("error", errorSchema)]

def criticalWsMessageSchema : Schema := union "type" criticalMessages

/-- A message of a critical type meets its schema. -/
def Conforms (message : Json) : Prop :=
  ∀ tag schema, message.getStr "type" = some tag → criticalMessages.lookup tag = some schema →
    criticalWsMessageSchema message = true

/-- The schema of the type decides. -/
theorem conforms_iff {message : Json} {tag : String} (htype : message.getStr "type" = some tag) :
    Conforms message ↔ ∀ schema, criticalMessages.lookup tag = some schema →
      schema message = true := by
  constructor
  · intro h schema hschema
    have haccepted := h tag schema htype hschema
    rwa [criticalWsMessageSchema, union, htype, Option.bind_some, hschema] at haccepted
  · intro h tag' schema htype' hschema
    obtain rfl := Option.some.inj (htype.symm.trans htype')
    rw [criticalWsMessageSchema, union, htype, Option.bind_some, hschema]
    exact h schema hschema

/-- A message of another type conforms. -/
theorem conforms_of_none {message : Json} {tag : String} (htype : message.getStr "type" = some tag)
    (hnone : criticalMessages.lookup tag = none) : Conforms message := by
  rw [conforms_iff htype, hnone]
  rintro _ ⟨⟩

/-- A message of one of these types conforms when it meets the schema. -/
theorem conforms_of_some {message : Json} {tag : String} {schema : Schema}
    (htype : message.getStr "type" = some tag) (hsome : criticalMessages.lookup tag = some schema)
    (h : schema message = true) : Conforms message := by
  rw [conforms_iff htype, hsome]
  rintro _ ⟨⟩
  exact h

end LanguageLlm.Protocol
