import LanguageLlm.Json
import LanguageLlm.Lib.Run

/-!
# The companion connection and its reported state

`ensureCompanionSession` (`client.ts`) bootstraps over native messaging, opens a WebSocket, does
the handshake and retries with a backoff. It is modelled as a routine that is suspended at one of
its awaits (`Call`); the calls are sequential, each given the session that the last one to return
has returned. The listeners that `connectCompanion` puts on a socket after its handshake stay
there when the session is replaced, and write the one module-level `connectionState`.
-/

namespace LanguageLlm.Client

open Lib

inductive ConnectionState where
  | disconnected
  | nativeOnly
  | connecting
  | ready
  | degraded
  | incompatible
  | failed
  deriving DecidableEq

/-- `WebSocket.readyState`. -/
inductive ReadyState where
  | connecting
  | open
  | closing
  | closed
  deriving DecidableEq

/-- A WebSocket of the worker. `listening` says that it has the close and error listeners of
`connectCompanion`, `errored` and `ended` that its error and its close event have been fired. -/
structure Socket where
  readyState : ReadyState
  listening : Bool
  errored : Bool
  ended : Bool
  deriving DecidableEq

/-- The fields of a `CompanionSession` that `ensureCompanionSession` reads; the socket is named by
its position in the order of creation. -/
structure CompanionSession where
  ws : Nat
  expiresAtMs : Option Rat

/-- The reply of the native host. -/
structure BootstrapInfo where
  ok : Bool
  port : Nat
  bootstrapToken : String

/-- Where a call of `ensureCompanionSession` is suspended: at `nativeBootstrap`, `waitOpen`,
`waitMessage` or the backoff of an attempt, or at the last `nativeBootstrap`. -/
inductive Call where
  | bootstrap (attempt : Nat)
  | opening (attempt ws : Nat)
  | handshake (attempt ws : Nat)
  | sleeping (attempt : Nat)
  | fallback
  deriving DecidableEq

/-- The module's variables, the worker's sockets and the session that its caller holds. -/
structure Link where
  connectionState : ConnectionState
  /-- The states that the state listeners were told, in order. -/
  transitions : List ConnectionState
  reconnectAttempt : Nat
  sockets : List Socket
  session : Option CompanionSession
  call : Option Call
  now : Nat

def Link.fresh (now : Nat) : Link where
  connectionState := .disconnected
  transitions := []
  reconnectAttempt := 0
  sockets := []
  session := none
  call := none
  now := now

def protocolVersion : String := "1.0.0"

/-- `version.split(".")[0]`. -/
def majorPart (version : String) : List Char := version.toList.takeWhile (· ≠ '.')

def isAuthHandshakeResponse (body : Json) : Bool :=
  body.getStr "type" = some "auth.handshake.response" &&
    ((body.get "ok").bind Json.asBool).getD false

/-- A JSON number. -/
def asNumber : Json → Option Rat
  | .int n => some n
  | .float q => some q
  | _ => none

namespace Link

def setConnectionState (s : Link) (next : ConnectionState) : Link :=
  if s.connectionState = next then s
  else { s with connectionState := next, transitions := s.transitions ++ [next] }

def modifySocket (s : Link) (k : Nat) (f : Socket → Socket) : Link :=
  { s with sockets := s.sockets.modify k f }

/-- `ws.close()`: an open or connecting socket starts closing. -/
def closeSocket (s : Link) (k : Nat) : Link :=
  s.modifySocket k fun w =>
    match w.readyState with
    | .connecting | .open => { w with readyState := .closing }
    | .closing | .closed => w

/-- The `catch` of an attempt: back off, or after the fifth attempt ask the native host once
more. -/
def attemptFailed (s : Link) (attempt : Nat) : Link :=
  let s := { s with reconnectAttempt := attempt + 1 }
  if attempt < 4 then { s.setConnectionState .degraded with call := some (.sleeping attempt) }
  else { s with call := some .fallback }

/-- The session is not about to expire and its socket is open. -/
def reusable (s : Link) (e : CompanionSession) : Bool :=
  (match e.expiresAtMs with
    | some t => decide (t > (s.now : Rat) + 5000)
    | none => false) &&
  (s.sockets[e.ws]?.map Socket.readyState = some .open)

/-- `ensureCompanionSession` up to its first await. -/
def ensure (s : Link) : Link :=
  match s.session with
  | some e =>
    if s.reusable e then s
    else { s.closeSocket e.ws with call := some (.bootstrap 0) }
  | none => { s with call := some (.bootstrap 0) }

/-- `nativeBootstrap` accepts the reply. -/
def bootstrapAccepted (res : Option BootstrapInfo) : Option BootstrapInfo :=
  res.filter fun r => r.ok && r.port ≠ 0 && r.bootstrapToken ≠ ""

/-- `nativeBootstrap` returns or throws, and the call goes on to its next await. -/
def bootstrapped (s : Link) (res : Option BootstrapInfo) : Option Link :=
  match s.call with
  | some (.bootstrap attempt) =>
    match bootstrapAccepted res with
    | some r =>
      if 65535 < r.port then some (s.attemptFailed attempt)
      else
        let ws : Socket :=
          { readyState := .connecting, listening := false, errored := false, ended := false }
        some { s.setConnectionState .connecting with
          sockets := s.sockets ++ [ws]
          call := some (.opening attempt s.sockets.length) }
    | none => some (s.attemptFailed attempt)
  | some .fallback =>
    match bootstrapAccepted res with
    | some _ => some { s.setConnectionState .nativeOnly with call := none }
    | none => some { s.setConnectionState .failed with call := none }
  | _ => none

/-- The first message of the socket that is in its handshake. -/
def handshakeReply (s : Link) (attempt k : Nat) (frame : Option Json) : Link :=
  match frame with
  | none => s.attemptFailed attempt
  | some body =>
    if isAuthHandshakeResponse body then
      match body.getStr "protocolVersion" with
      | none => s.attemptFailed attempt
      | some version =>
        if majorPart version ≠ majorPart protocolVersion then
          ((s.closeSocket k).setConnectionState .incompatible).attemptFailed attempt
        else
          let s := s.modifySocket k fun w => { w with listening := true }
          let s := { s with reconnectAttempt := 0 }.setConnectionState .ready
          { s with
            session := some { ws := k, expiresAtMs := (body.get "expiresAtMs").bind asNumber }
            call := none }
    else ((s.closeSocket k).setConnectionState .failed).attemptFailed attempt

/-- The open event of a socket, and `waitOpen`'s listener for it. -/
def opened (s : Link) (k : Nat) : Link :=
  let s' := s.modifySocket k fun w => { w with readyState := .open }
  match s.call with
  | some (.opening attempt j) =>
    if j = k then { s' with call := some (.handshake attempt k) } else s'
  | _ => s'

/-- The error event of a socket, with the listeners of `waitOpen` and of `connectCompanion`. -/
def errored (s : Link) (k : Nat) (w : Socket) : Link :=
  let s' := s.modifySocket k fun w => { w with readyState := .closed, errored := true }
  let s' := if w.listening then s'.setConnectionState .failed else s'
  match s.call with
  | some (.opening attempt j) => if j = k then s'.attemptFailed attempt else s'
  | _ => s'

/-- The close event of a socket, with the listener of `connectCompanion`. -/
def closed (s : Link) (k : Nat) (w : Socket) : Link :=
  let s' := s.modifySocket k fun w => { w with readyState := .closed, ended := true }
  if w.listening ∧ (s.connectionState = .ready ∨ s.connectionState = .degraded) then
    s'.setConnectionState .disconnected
  else s'

end Link

/-- What can happen to the connection. -/
inductive LinkEvent where
  | ensure
  | bootstrapped (res : Option BootstrapInfo)
  | opened (ws : Nat)
  | message (ws : Nat) (frame : Option Json)
  | errored (ws : Nat)
  | closed (ws : Nat)
  | openTimeout
  | messageTimeout
  | wake
  | close
  | elapse (ms : Nat)

/-- One event. The calls are sequential, a socket opens once and is silent after its close event,
and it delivers messages only while it is open. -/
def Link.step (s : Link) : LinkEvent → Option Link
  | .ensure => if s.call = none then some s.ensure else none
  | .bootstrapped res => s.bootstrapped res
  | .opened k =>
    match s.sockets[k]? with
    | some w => if w.readyState = .connecting then some (s.opened k) else none
    | none => none
  | .message k frame =>
    match s.sockets[k]? with
    | some w =>
      if w.readyState = .open then
        match s.call with
        | some (.handshake attempt j) =>
          if j = k then some (s.handshakeReply attempt k frame) else some s
        | _ => some s
      else none
    | none => none
  | .errored k =>
    match s.sockets[k]? with
    | some w => if w.ended then none else some (s.errored k w)
    | none => none
  | .closed k =>
    match s.sockets[k]? with
    | some w => if w.ended then none else some (s.closed k w)
    | none => none
  | .openTimeout =>
    match s.call with
    | some (.opening attempt _) => some (s.attemptFailed attempt)
    | _ => none
  | .messageTimeout =>
    match s.call with
    | some (.handshake attempt _) => some (s.attemptFailed attempt)
    | _ => none
  | .wake =>
    match s.call with
    | some (.sleeping attempt) => some { s with call := some (.bootstrap (attempt + 1)) }
    | _ => none
  | .close => s.session.map fun e => s.closeSocket e.ws
  | .elapse ms => some { s with now := s.now + ms }

/-! ## What an event does -/

namespace Link

/-- The outcomes of an event. -/
inductive Moves (s : Link) : LinkEvent → Link → Prop
  | ensure (hcall : s.call = none) : Moves s .ensure s.ensure
  | refused {attempt : Nat} {res : Option BootstrapInfo}
      (hcall : s.call = some (.bootstrap attempt)) :
      Moves s (.bootstrapped res) (s.attemptFailed attempt)
  | connecting {attempt : Nat} {res : Option BootstrapInfo}
      (hcall : s.call = some (.bootstrap attempt)) :
      Moves s (.bootstrapped res)
        { s.setConnectionState .connecting with
          sockets := s.sockets ++ [⟨.connecting, false, false, false⟩]
          call := some (.opening attempt s.sockets.length) }
  | fellBack {res : Option BootstrapInfo} (hcall : s.call = some .fallback)
      (next : ConnectionState) :
      Moves s (.bootstrapped res) { s.setConnectionState next with call := none }
  | opened {k : Nat} {w : Socket} (hw : s.sockets[k]? = some w)
      (hconnecting : w.readyState = .connecting) : Moves s (.opened k) (s.opened k)
  | replied {k attempt : Nat} {w : Socket} (hw : s.sockets[k]? = some w)
      (hopen : w.readyState = .open) (hcall : s.call = some (.handshake attempt k))
      (frame : Option Json) : Moves s (.message k frame) (s.handshakeReply attempt k frame)
  | ignored {k : Nat} (hcall : ∀ attempt, s.call ≠ some (.handshake attempt k))
      (frame : Option Json) : Moves s (.message k frame) s
  | errored {k : Nat} {w : Socket} (hw : s.sockets[k]? = some w) :
      Moves s (.errored k) (s.errored k w)
  | closed {k : Nat} {w : Socket} (hw : s.sockets[k]? = some w) : Moves s (.closed k) (s.closed k w)
  | openTimeout {attempt j : Nat} (hcall : s.call = some (.opening attempt j)) :
      Moves s .openTimeout (s.attemptFailed attempt)
  | messageTimeout {attempt j : Nat} (hcall : s.call = some (.handshake attempt j)) :
      Moves s .messageTimeout (s.attemptFailed attempt)
  | wake {attempt : Nat} (hcall : s.call = some (.sleeping attempt)) :
      Moves s .wake { s with call := some (.bootstrap (attempt + 1)) }
  | close {e : CompanionSession} (he : s.session = some e) : Moves s .close (s.closeSocket e.ws)
  | elapse (ms : Nat) : Moves s (.elapse ms) { s with now := s.now + ms }

variable {s s' : Link} {k : Nat}

theorem moves_bootstrapped {res : Option BootstrapInfo} (h : s.bootstrapped res = some s') :
    s.Moves (.bootstrapped res) s' := by
  unfold bootstrapped at h
  split at h
  · next attempt hcall =>
    split at h
    · split at h <;> cases h
      · exact .refused hcall
      · exact .connecting hcall
    · cases h
      exact .refused hcall
  · next hcall =>
    split at h <;> cases h
    · exact .fellBack hcall .nativeOnly
    · exact .fellBack hcall .failed
  · cases h

theorem moves_message {frame : Option Json} (h : s.step (.message k frame) = some s') :
    s.Moves (.message k frame) s' := by
  simp only [step] at h
  split at h
  · next w hw =>
    split at h
    · next hopen =>
      split at h
      · next attempt j hcall =>
        split at h <;> cases h
        · next hj =>
          subst hj
          exact .replied hw hopen hcall frame
        · next hj =>
          refine .ignored (fun attempt' hcall' => hj ?_) frame
          rw [hcall] at hcall'
          cases hcall'
          rfl
      · next hcall =>
        cases h
        exact .ignored (fun attempt hcall' => hcall attempt k hcall') frame
    · cases h
  · cases h

/-- Every step has one of the outcomes. -/
theorem moves {e : LinkEvent} (h : s.step e = some s') : s.Moves e s' := by
  cases e with
  | ensure =>
    simp only [step] at h
    split at h <;> cases h
    exact .ensure ‹_›
  | bootstrapped res => exact moves_bootstrapped h
  | opened k =>
    simp only [step] at h
    split at h
    · split at h <;> cases h
      exact .opened ‹_› ‹_›
    · cases h
  | message k frame => exact moves_message h
  | errored k =>
    simp only [step] at h
    split at h
    · split at h <;> cases h
      exact .errored ‹_›
    · cases h
  | closed k =>
    simp only [step] at h
    split at h
    · split at h <;> cases h
      exact .closed ‹_›
    · cases h
  | openTimeout =>
    simp only [step] at h
    split at h <;> cases h
    exact .openTimeout ‹_›
  | messageTimeout =>
    simp only [step] at h
    split at h <;> cases h
    exact .messageTimeout ‹_›
  | wake =>
    simp only [step] at h
    split at h <;> cases h
    exact .wake ‹_›
  | close =>
    obtain ⟨e, he, rfl⟩ := Option.map_eq_some_iff.1 h
    exact .close he
  | elapse ms =>
    cases h
    exact .elapse ms

end Link

end LanguageLlm.Client
