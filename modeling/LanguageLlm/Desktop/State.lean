import LanguageLlm.Desktop.Jobs
import LanguageLlm.Desktop.Capture
import LanguageLlm.Desktop.LocalStore

/-!
# The companion state

`CompanionState` (`lib.rs`): the bootstrap token, the sessions and the stores that the handlers work
on. The model manager is not part of it: what the handlers learn from it is answered from outside.
-/

namespace LanguageLlm.Desktop

structure Session where
  token : String
  expiresAtMs : Nat
  extensionId : String

/-- What the handlers of the messages read and write. A poisoned mutex of the capture queue stays
poisoned. -/
structure Stores where
  memory : MemoryStore
  sqlite : Option SqliteStore
  capture : CaptureJobQueue
  capturePoisoned : Bool
  jobs : JobRegistry
  lyricsNetworkAllowed : Bool

/-- The stores of a new companion. -/
def Stores.new (sqlite : Option SqliteStore) : Stores where
  memory := .empty
  sqlite
  capture := .empty
  capturePoisoned := false
  jobs := .empty
  lyricsNetworkAllowed := false

structure CompanionState where
  bootstrapToken : String
  allowedExtensionId : Option String
  sessions : List Session
  stores : Stores

def handshakeMaxSkewMs : Nat := 120000

def sessionTtlMs : Nat := 30 * 60 * 1000

/-- `hex::encode` of the bytes of a UUID. -/
def hexEncode (u : BitVec 128) : String :=
  String.ofList (List.leftpad 32 '0' (Nat.toDigits 16 u.toNat))

/-- `random_token(32)`: the hexadecimal digits of two random UUIDs. -/
def randomToken (u v : BitVec 128) : String := hexEncode u ++ hexEncode v

def validateHandshakeTimestamp (requestedAtMs nowMs : Nat) : Bool :=
  (requestedAtMs - nowMs) + (nowMs - requestedAtMs) ≤ handshakeMaxSkewMs

/-- `extension_id_allowed`, with the pinned extension. -/
def extensionIdAllowed (debug : Bool) (allowedExtensionId : Option String) (extensionId : String) :
    Except String Unit :=
  if extensionId = "" then .error "extension id empty"
  else
    match allowedExtensionId with
    | some allowed =>
      if allowed = extensionId then .ok () else .error "extension id not allowlisted"
    | none => if debug then .ok () else .error "extension id pin required in release builds"

namespace CompanionState

def validateBootstrapToken (c : CompanionState) (token : String) : Bool := c.bootstrapToken = token

/-- `rotate_bootstrap_token`, with the token that `random_token` returns. -/
def rotateBootstrapToken (c : CompanionState) (token : String) : CompanionState :=
  { c with bootstrapToken := token }

/-- `origin_allowed`. `debug` is `cfg!(debug_assertions)`. -/
def originAllowed (debug : Bool) (c : CompanionState) (origin : String) : Bool :=
  if origin = "http://127.0.0.1" ∨ origin = "https://127.0.0.1" then true
  else
    match c.allowedExtensionId with
    | some allowed => origin = "chrome-extension://" ++ allowed
    | none => debug && "chrome-extension://".toList.isPrefixOf origin.toList

def purgeExpiredSessions (c : CompanionState) (nowMs : Nat) : CompanionState :=
  { c with sessions := c.sessions.filter fun s => nowMs < s.expiresAtMs }

/-- The session that `issue_session` makes after its purge. -/
def pushSession (c : CompanionState) (session : Session) : CompanionState :=
  { c with sessions := c.sessions ++ [session] }

/-- `session_valid` after its purge. -/
def sessionValid (c : CompanionState) (token : String) (nowMs : Nat) : Bool :=
  c.sessions.any fun s => s.token = token && nowMs < s.expiresAtMs

end CompanionState

theorem randomToken_ne_empty (u v : BitVec 128) : randomToken u v ≠ "" := by
  intro h
  have hlist := congrArg String.toList h
  have hpad : (List.leftpad 32 '0' (Nat.toDigits 16 u.toNat)).length = max 32 _ :=
    List.length_leftpad
  simp only [randomToken, hexEncode, String.toList_append, String.toList_ofList,
    String.toList_empty, List.append_eq_nil_iff] at hlist
  rw [hlist.1, List.length_nil] at hpad
  omega

end LanguageLlm.Desktop
