import LanguageLlm.Client.Connection
import LanguageLlm.Protocol.Schemas

/-!
# The messages that have a schema

The constructors of `messages.ts` for the options of `criticalWsMessageSchema`, and which of their
arguments the schema takes. Values with types of their own (a timeline, the progress of a job, a
payload) are given as JSON; times are whole milliseconds.
-/

namespace LanguageLlm.Client

open Lib Schema Protocol

/-! ## Constructors -/

/-- `...(value !== undefined ? { key: value } : {})`. -/
def given (key : String) (value : Option Json) : List (String × Json) :=
  (value.map fun v => (key, v)).toList

/-- A message of a session. -/
def sessionMessage (type sessionToken : String) (fields : List (String × Json)) : Json :=
  .obj (("type", .str type) :: ("sessionToken", .str sessionToken) :: fields)

def createAuthHandshakeRequest (extensionId nonce : String) (requestedAtMs : Int) : Json :=
  .obj [("type", .str "auth.handshake.request"), ("protocolVersion", .str protocolVersion),
    ("extensionId", .str extensionId), ("nonce", .str nonce), ("requestedAtMs", .int requestedAtMs)]

def createAuthHandshakeResponse (sessionToken : String) (expiresAtMs : Int)
    (companionBuild : Option String) : Json :=
  .obj ([("type", .str "auth.handshake.response"), ("protocolVersion", .str protocolVersion),
    ("sessionToken", .str sessionToken), ("expiresAtMs", .int expiresAtMs)] ++
    given "companionBuild" (companionBuild.map .str) ++ [("ok", .bool true)])

def createAuthHandshakeFailure (code message : String) : Json :=
  .obj [("type", .str "auth.handshake.failure"), ("protocolVersion", .str protocolVersion),
    ("code", .str code), ("message", .str message), ("ok", .bool false)]

def createJobSubmit (sessionToken jobId kind videoId : String)
    (payload : Option (List (String × Json))) : Json :=
  sessionMessage "job.submit" sessionToken
    [("jobId", .str jobId), ("kind", .str kind), ("videoId", .str videoId),
      ("payload", .obj (payload.getD []))]

def createJobProgress (sessionToken : String) (progress : Json) : Json :=
  sessionMessage "job.progress" sessionToken [("progress", progress)]

def createTimelineSource (sessionToken : String) (timeline : Json) : Json :=
  sessionMessage "timeline.source" sessionToken [("timeline", timeline)]

def createPrivacyWipe (sessionToken scope : String) : Json :=
  sessionMessage "privacy.wipe" sessionToken [("scope", .str scope)]

def createRetentionSet (sessionToken preset : String) : Json :=
  sessionMessage "retention.set" sessionToken [("preset", .str preset)]

def createTimelineHydrate (sessionToken videoId : String) (sourceHash : Option String) : Json :=
  sessionMessage "timeline.hydrate" sessionToken
    (("videoId", .str videoId) :: given "sourceHash" (sourceHash.map .str))

def createStudySync (sessionToken op : String) (kind id : Option String)
    (payload : Option (List (String × Json))) : Json :=
  sessionMessage "study.sync" sessionToken
    (("op", .str op) :: (given "kind" (kind.map .str) ++ given "id" (id.map .str) ++
      given "payload" (payload.map .obj)))

def createDictionaryLookup (sessionToken surface : String) : Json :=
  sessionMessage "dictionary.lookup" sessionToken [("surface", .str surface)]

/-- A call of one of the constructors. -/
inductive Construction where
  | authHandshakeRequest (extensionId nonce : String) (requestedAtMs : Int)
  | authHandshakeResponse (sessionToken : String) (expiresAtMs : Int)
    (companionBuild : Option String)
  | authHandshakeFailure (code message : String)
  | jobSubmit (sessionToken jobId kind videoId : String) (payload : Option (List (String × Json)))
  | jobProgress (sessionToken : String) (progress : Json)
  | timelineSource (sessionToken : String) (timeline : Json)
  | privacyWipe (sessionToken scope : String)
  | retentionSet (sessionToken preset : String)
  | timelineHydrate (sessionToken videoId : String) (sourceHash : Option String)
  | studySync (sessionToken op : String) (kind id : Option String)
    (payload : Option (List (String × Json)))
  | dictionaryLookup (sessionToken surface : String)

namespace Construction

def create : Construction → Json
  | authHandshakeRequest extensionId nonce requestedAtMs =>
    createAuthHandshakeRequest extensionId nonce requestedAtMs
  | authHandshakeResponse sessionToken expiresAtMs companionBuild =>
    createAuthHandshakeResponse sessionToken expiresAtMs companionBuild
  | authHandshakeFailure code message => createAuthHandshakeFailure code message
  | jobSubmit sessionToken jobId kind videoId payload =>
    createJobSubmit sessionToken jobId kind videoId payload
  | jobProgress sessionToken progress => createJobProgress sessionToken progress
  | timelineSource sessionToken timeline => createTimelineSource sessionToken timeline
  | privacyWipe sessionToken scope => createPrivacyWipe sessionToken scope
  | retentionSet sessionToken preset => createRetentionSet sessionToken preset
  | timelineHydrate sessionToken videoId sourceHash =>
    createTimelineHydrate sessionToken videoId sourceHash
  | studySync sessionToken op kind id payload => createStudySync sessionToken op kind id payload
  | dictionaryLookup sessionToken surface => createDictionaryLookup sessionToken surface

/-- The token of the session that a message is for. -/
def sessionToken? : Construction → Option String
  | authHandshakeRequest .. | authHandshakeFailure .. => none
  | authHandshakeResponse token .. | jobSubmit token .. | jobProgress token _
  | timelineSource token _ | privacyWipe token _ | retentionSet token _
  | timelineHydrate token .. | studySync token .. | dictionaryLookup token _ => some token

/-- What the schema asks of the other arguments. -/
def Fits : Construction → Prop
  | authHandshakeRequest extensionId nonce requestedAtMs =>
    extensionId ≠ "" ∧ 16 ≤ utf16Length nonce ∧ 0 ≤ requestedAtMs
  | authHandshakeResponse _ expiresAtMs _ => 0 < expiresAtMs
  | authHandshakeFailure code _ =>
    code ∈ ["version-mismatch", "origin-rejected", "rate-limited", "internal"]
  | jobSubmit _ jobId kind videoId _ => jobId ≠ "" ∧ kind ∈ jobKinds ∧ videoId ≠ ""
  | jobProgress _ progress => jobProgressSchema progress = true
  | timelineSource _ timeline => sourceTimelineSchema timeline = true
  | privacyWipe _ scope => scope ∈ privacyWipeScopes
  | retentionSet _ preset => preset ∈ retentionPresets
  | timelineHydrate _ videoId _ => videoId ≠ ""
  | studySync _ op .. => op ∈ ["put", "get", "list", "delete"]
  | dictionaryLookup _ surface => surface ≠ ""

end Construction

/-! ## What the schema takes -/

/-- The option for its type decides. -/
theorem accepts_iff {message : Json} {tag : String} {schema : Schema}
    (htype : message.getStr "type" = some tag)
    (hschema : criticalMessages.lookup tag = some schema) :
    criticalWsMessageSchema message = true ↔ schema message = true := by
  rw [criticalWsMessageSchema, union, htype, Option.bind_some, hschema]

theorem string_one_iff {s : String} : string 1 (.str s) = true ↔ s ≠ "" := by
  constructor
  · rintro h rfl
    cases h
  · exact string_of_ne

theorem string_iff {min : Nat} {s : String} :
    string min (.str s) = true ↔ min ≤ utf16Length s := decide_eq_true_iff

theorem oneOf_iff {values : List String} {s : String} :
    oneOf values (.str s) = true ↔ s ∈ values := decide_eq_true_iff

/-- A field whose value is given, or missing. -/
theorem accepts_of_lookup {f : Field} {entries : List (String × Json)} {v : Json}
    (h : entries.lookup f.key = some v) : f.accepts entries = f.schema v := by
  rw [Field.accepts, h]

/-- A text that may be missing is never refused. -/
theorem accepts_optional {key : String} {entries : List (String × Json)} (value : Option String)
    (h : entries.lookup key = value.map .str) :
    Field.accepts ⟨key, string 0, false⟩ entries = true := by
  rw [Field.accepts, h]
  cases value with
  | none => rfl
  | some s => exact string_zero s

/-- A message of a session is taken when its token is long enough and its other fields are taken. -/
theorem sessionSchema_iff {type token : String} {fields : List Field}
    {entries : List (String × Json)}
    (hkeys : ∀ f ∈ fields, f.key ≠ "type" ∧ f.key ≠ "sessionToken") :
    sessionSchema type fields (sessionMessage type token entries) = true ↔
      32 ≤ utf16Length token ∧ object fields (.obj entries) = true := by
  have htype : oneOf [type] (.str type) = true := decide_eq_true List.mem_cons_self
  have htoken : string 32 (.str token) = true ↔ 32 ≤ utf16Length token := decide_eq_true_iff
  have hrest : object fields (sessionMessage type token entries) = true ↔
      object fields (.obj entries) = true := by
    rw [sessionMessage, object_obj, object_obj]
    refine forall₂_congr fun f hf => ?_
    have hne := hkeys f hf
    simp only [Field.accepts, List.lookup_cons, beq_eq_false_iff_ne.2 hne.1,
      beq_eq_false_iff_ne.2 hne.2]
  rw [← htoken, ← hrest, sessionSchema, sessionMessage, object_cons, object_cons]
  exact and_iff_right htype

end LanguageLlm.Client
