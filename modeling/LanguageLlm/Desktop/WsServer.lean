import LanguageLlm.Lib.Run
import LanguageLlm.Desktop.Handlers

/-!
# The WebSocket server

`ws_upgrade` and `handle_socket` (`ws_server.rs`) over any number of connections. The task of a
connection runs one action at a time, between actions of the other tasks. The clock never goes back,
and `random_token` never returns a token twice.
-/

namespace LanguageLlm.Desktop

open Lib

/-- What `handle_socket` does from a message to the next one. -/
inductive Arm where
  | next
  /-- `break`. -/
  | leave
  | send (message : Json) (rest : Arm)
  /-- `now_ms()`. -/
  | now (rest : Nat → Arm)
  /-- `purge_expired_sessions`. -/
  | purge (nowMs : Nat) (rest : Arm)
  /-- `session_valid` after its purge. -/
  | valid (token : String) (nowMs : Nat) (rest : Bool → Arm)
  /-- `issue_session` after its purge; `session_token` becomes its token. -/
  | issue (extensionId : String) (nowMs : Nat) (rest : Session → Arm)
  /-- `rotate_bootstrap_token`. -/
  | rotate (rest : Arm)
  /-- A handler runs, and then the next message is awaited. -/
  | handle (body : Handler Unit)

/-- `auth.handshake.failure`. -/
def handshakeFailure (code message : String) : Json :=
  .obj [("type", .str "auth.handshake.failure"), ("protocolVersion", .str protocolVersion),
    ("code", .str code), ("message", .str message), ("ok", .bool false)]

/-- `send_auth_error`. -/
def authError : Json :=
  .obj [("type", .str "error"), ("code", .str "unauthorized"),
    ("message", .str "missing or invalid session"), ("fatal", .bool false)]

/-- `auth.handshake.request`. -/
def handshake (debug : Bool) (allowedExtensionId : Option String) (value : Json) : Arm :=
  let clientVersion := value.strOr "protocolVersion" ""
  let extensionId := value.strOr "extensionId" ""
  let nonce := value.strOr "nonce" ""
  let requestedAtMs := ((value.get "requestedAtMs").bind Json.asU64).getD 0
  .now fun now =>
    if versionsCompatible clientVersion protocolVersion = false then
      .send (handshakeFailure "version-mismatch" "protocol major mismatch") .leave
    else if nonce.utf8ByteSize < 16 ∨ extensionId = "" then
      .send (handshakeFailure "internal" "incomplete handshake") .leave
    else if validateHandshakeTimestamp requestedAtMs now = false then
      .send (handshakeFailure "rate-limited" "handshake timestamp skew too large") .leave
    else
      match extensionIdAllowed debug allowedExtensionId extensionId with
      | .error message => .send (handshakeFailure "origin-rejected" message) .leave
      | .ok () =>
        .purge now <| .issue extensionId now fun session =>
          .rotate <|
            .send (makeHandshakeResponse session.token session.expiresAtMs "0.1.1") .next

def authed (sessionToken : Option String) (value : Json) (rest : Bool → Arm) : Arm :=
  match sessionToken with
  | none => rest false
  | some expected =>
    let provided := value.strOr "sessionToken" ""
    if provided = expected then .now fun now => .purge now (.valid expected now rest)
    else rest false

/-- `if !authed(..) { send_auth_error(..); continue; }` before a handler. -/
def ifAuthed (sessionToken : Option String) (value : Json) (body : Handler Unit) : Arm :=
  authed sessionToken value fun ok => if !ok then .send authError .next else .handle body

/-- The `match` on the type of a message. -/
def dispatch (env : External) (debug : Bool) (allowedExtensionId : Option String)
    (sessionToken : Option String) (value : Json) : Arm :=
  let token := sessionToken.getD ""
  let msgType := value.strOr "type" ""
  match msgType with
  | "auth.handshake.request" => handshake debug allowedExtensionId value
  | "session.ping" => ifAuthed sessionToken value (handlePing token)
  | "job.submit" => ifAuthed sessionToken value (handleJobSubmit env value)
  | "job.cancel" => ifAuthed sessionToken value (handleJobCancel value token)
  | "job.pause" => ifAuthed sessionToken value (handleJobPause value token)
  | "job.resume" => ifAuthed sessionToken value (handleJobResume value token)
  | "audio.chunk" => ifAuthed sessionToken value (handleAudioChunk env value token)
  | "lyrics.resolve" => ifAuthed sessionToken value (handleLyricsResolve value token)
  | "lyrics.clear-cache" => ifAuthed sessionToken value (handleLyricsClearCache value token)
  | "settings.lyrics.network" => ifAuthed sessionToken value (handleLyricsNetwork value token)
  | "timeline.source" => ifAuthed sessionToken value (handleTimelineSource env value)
  | "timeline.hydrate" => ifAuthed sessionToken value (handleTimelineHydrate env value token)
  | "privacy.wipe" => ifAuthed sessionToken value (handlePrivacyWipe value token)
  | "retention.set" => ifAuthed sessionToken value (handleRetentionSet value token)
  | "retention.get" => ifAuthed sessionToken value (handleRetentionGet token)
  | "study.sync" => ifAuthed sessionToken value (handleStudySync env value token)
  | "dictionary.import" => ifAuthed sessionToken value (handleDictionaryImport value token)
  | "dictionary.lookup" => ifAuthed sessionToken value (handleDictionaryLookup value token)
  | "dictionary.stats" => ifAuthed sessionToken value (handleDictionaryStats token)
  | "page.translate.cache.clear" => ifAuthed sessionToken value (handlePageCacheClear value token)
  | _ =>
    .send (.obj [("type", .str "error"), ("code", .str "unknown-type"),
      ("message", .str ("unsupported message type: " ++ msgType)), ("fatal", .bool false)]) .next

/-- The handlers that an arm may run. -/
def Arm.Handles (P : Handler Unit → Prop) : Arm → Prop
  | next | leave => True
  | send _ rest | purge _ rest | rotate rest => rest.Handles P
  | now rest => ∀ t, (rest t).Handles P
  | valid _ _ rest => ∀ ok, (rest ok).Handles P
  | issue _ _ rest => ∀ session, (rest session).Handles P
  | handle body => P body

theorem handles_ifAuthed {P : Handler Unit → Prop} {body : Handler Unit} (hbody : P body)
    (sessionToken : Option String) (value : Json) :
    (ifAuthed sessionToken value body).Handles P := by
  unfold ifAuthed authed
  cases sessionToken with
  | none => trivial
  | some expected =>
    dsimp only
    split
    · intro t ok
      cases ok with
      | false => trivial
      | true => exact hbody
    · trivial

theorem handles_handshake (P : Handler Unit → Prop) (debug : Bool)
    (allowedExtensionId : Option String) (value : Json) :
    (handshake debug allowedExtensionId value).Handles P := by
  intro t
  dsimp only
  split
  · trivial
  split
  · trivial
  split
  · trivial
  split
  · trivial
  · exact fun session => trivial

/-! ## Connections -/

/-- Where the task of a connection is. -/
inductive Task where
  /-- At `stream.next()`. -/
  | listening
  | handling (value : Json) (arm : Arm)
  | returned

/-- `handle_socket` of one connection, that was upgraded with the token `t`. -/
structure Connection where
  t : String
  sessionToken : Option String
  task : Task
  received : Nat
  sent : List Json

/-- What `stream.next()` returns; a binary message is the text that it is decoded to. -/
inductive Frame where
  | text (text : String)
  | close
  | ping
  | pong
  /-- The end of the stream, or an error. -/
  | ended

/-- The server with its clock and the tokens that were generated so far. -/
structure Server where
  companion : CompanionState
  connections : List Connection
  now : Nat
  generated : List String

/-- A server that has issued no session yet. -/
def Server.start (bootstrapToken : String) (allowedExtensionId : Option String) (stores : Stores)
    (now : Nat) : Server where
  companion := { bootstrapToken, allowedExtensionId, sessions := [], stores }
  connections := []
  now
  generated := [bootstrapToken]

/-- What can happen to the server. -/
inductive ServerEvent where
  | upgrade (origin : Option String) (t : String)
  | receive (conn : Nat) (frame : Frame)
  /-- The task of a connection runs its next action. -/
  | act (conn : Nat) (answers : Answers)
  /-- The native messaging host asks for the port and the bootstrap token. -/
  | bootstrap
  | elapse (ms : Nat)

namespace Connection

/-- A frame arrives. -/
def receive (env : External) (debug : Bool) (c : CompanionState) (conn : Connection) :
    Frame → Connection
  | .text text =>
    match env.fromStr text with
    | some value =>
      { conn with
        task := .handling value (dispatch env debug c.allowedExtensionId conn.sessionToken value)
        received := conn.received + 1 }
    | none =>
      { conn with
        sent := conn.sent ++ [.obj [("type", .str "error"), ("code", .str "invalid-json"),
          ("message", .str "could not parse message"), ("fatal", .bool false)]] }
  | .close | .ended => { conn with task := .returned }
  | .ping | .pong => conn

/-- A frame leaves the tokens of the connection, and a message starts at the arm of its type. -/
theorem receive_spec (env : External) (debug : Bool) (c : CompanionState) {conn : Connection}
    (htask : conn.task = .listening) (frame : Frame) :
    (conn.receive env debug c frame).t = conn.t ∧
    (conn.receive env debug c frame).sessionToken = conn.sessionToken ∧
    ∀ value arm, (conn.receive env debug c frame).task = .handling value arm →
      arm = dispatch env debug c.allowedExtensionId conn.sessionToken value := by
  cases frame with
  | text text =>
    unfold receive
    dsimp only
    split
    · refine ⟨rfl, rfl, ?_⟩
      rintro _ _ ⟨⟩
      rfl
    · exact ⟨rfl, rfl, by simp [htask]⟩
  | close | ended => exact ⟨rfl, rfl, by simp [receive]⟩
  | ping | pong => exact ⟨rfl, rfl, by simp [receive, htask]⟩

end Connection

namespace Server

/-- The task of a connection goes on. -/
def goOn (s : Server) (c : Nat) (conn : Connection) (task : Task) : Server :=
  { s with connections := s.connections.set c { conn with task } }

/-- `ws_upgrade`, and `handle_socket` up to its loop. -/
def upgrade (debug : Bool) (s : Server) (origin : Option String) (t : String) : Server :=
  if origin.all (s.companion.originAllowed debug) then
    let conn : Connection :=
      if s.companion.validateBootstrapToken t then
        { t, sessionToken := none, task := .listening, received := 0, sent := [] }
      else
        { t
          sessionToken := none
          task := .returned
          received := 0
          sent := [handshakeFailure "origin-rejected" "invalid bootstrap token"] }
    { s with connections := s.connections ++ [conn] }
  else s

/-- The next action of a handler. -/
def actHandler (s : Server) (c : Nat) (conn : Connection) (value : Json) (a : Answers) :
    Handler Unit → Server
  | .pure () => s.goOn c conn .listening
  | .panic => s.goOn c conn .returned
  | .send message next =>
    s.goOn c { conn with sent := conn.sent ++ [message] } (.handling value (.handle next))
  | .now next => s.goOn c conn (.handling value (.handle (next s.now)))
  | .ask next => s.goOn c conn (.handling value (.handle (next a)))
  | .lock update next =>
    let stores := s.companion.stores
    { s with companion := { s.companion with stores := update s.now a stores } }.goOn c conn
      (.handling value (.handle (next s.now a stores)))
  | .fetch _ next => s.goOn c conn (.handling value (.handle (next a.tracks)))

/-- The next action of a task. -/
def act (s : Server) (c : Nat) (conn : Connection) (value : Json) (a : Answers) :
    Arm → Option Server
  | .next => some (s.goOn c conn .listening)
  | .leave => some (s.goOn c conn .returned)
  | .send message rest =>
    some (s.goOn c { conn with sent := conn.sent ++ [message] } (.handling value rest))
  | .now rest => some (s.goOn c conn (.handling value (rest s.now)))
  | .purge nowMs rest =>
    some ({ s with companion := s.companion.purgeExpiredSessions nowMs }.goOn c conn
      (.handling value rest))
  | .valid token nowMs rest =>
    some (s.goOn c conn (.handling value (rest (s.companion.sessionValid token nowMs))))
  | .issue extensionId nowMs rest =>
    let token := randomToken a.uuids.1 a.uuids.2
    if token ∈ s.generated then none
    else
      let session : Session := { token, expiresAtMs := nowMs + sessionTtlMs, extensionId }
      some <|
        { s with
          companion := s.companion.pushSession session
          generated := token :: s.generated }.goOn c { conn with sessionToken := some token }
          (.handling value (rest session))
  | .rotate rest =>
    let token := randomToken a.uuids.1 a.uuids.2
    if token ∈ s.generated then none
    else
      some <|
        { s with
          companion := s.companion.rotateBootstrapToken token
          generated := token :: s.generated }.goOn c conn (.handling value rest)
  | .handle body => some (s.actHandler c conn value a body)

/-- One event. -/
def step (env : External) (debug : Bool) (s : Server) : ServerEvent → Option Server
  | .upgrade origin t => some (s.upgrade debug origin t)
  | .receive c frame =>
    match s.connections[c]? with
    | some conn =>
      match conn.task with
      | .listening =>
        some { s with
          connections := s.connections.set c (conn.receive env debug s.companion frame) }
      | _ => none
    | none => none
  | .act c a =>
    match s.connections[c]? with
    | some conn =>
      match conn.task with
      | .handling value arm => s.act c conn value a arm
      | _ => none
    | none => none
  | .bootstrap => some s
  | .elapse ms => some { s with now := s.now + ms }

section Steps

variable {s s' : Server}

/-- What an event does. -/
theorem step_cases {env : External} {debug : Bool} {l : ServerEvent}
    (hs : s.step env debug l = some s') :
    (∃ origin t, l = .upgrade origin t ∧ s' = s.upgrade debug origin t) ∨
    (∃ c frame conn, l = .receive c frame ∧ s.connections[c]? = some conn ∧
      conn.task = .listening ∧
      s' = { s with
        connections := s.connections.set c (conn.receive env debug s.companion frame) }) ∨
    (∃ c a conn value arm, l = .act c a ∧ s.connections[c]? = some conn ∧
      conn.task = .handling value arm ∧ s.act c conn value a arm = some s') ∨
    (∃ now, s' = { s with now } ∧ (l = .bootstrap ∨ ∃ ms, l = .elapse ms)) := by
  cases l with
  | upgrade origin t => exact Or.inl ⟨origin, t, rfl, (Option.some.inj hs).symm⟩
  | receive c frame =>
    simp only [step] at hs
    split at hs
    · next conn hconn =>
      split at hs
      · next htask =>
        exact Or.inr (Or.inl ⟨c, frame, conn, rfl, hconn, htask, (Option.some.inj hs).symm⟩)
      · cases hs
    · cases hs
  | act c a =>
    simp only [step] at hs
    split at hs
    · next conn hconn =>
      split at hs
      · next value arm htask =>
        exact Or.inr (Or.inr (Or.inl ⟨c, a, conn, value, arm, rfl, hconn, htask, hs⟩))
      · cases hs
    · cases hs
  | bootstrap =>
    exact Or.inr (Or.inr (Or.inr ⟨s.now, (Option.some.inj hs).symm, Or.inl rfl⟩))
  | elapse ms =>
    exact Or.inr (Or.inr (Or.inr ⟨_, (Option.some.inj hs).symm, Or.inr ⟨ms, rfl⟩⟩))

/-- A connection after one of them was changed: that one or another. -/
theorem set_connection {conns : List Connection} {c d : Nat} {conn conn' : Connection}
    (h : (conns.set c conn)[d]? = some conn') :
    d = c ∧ conn' = conn ∨ d ≠ c ∧ conns[d]? = some conn' := by
  rw [List.getElem?_set] at h
  split at h
  · next hcd =>
    split at h
    · exact Or.inl ⟨hcd.symm, (Option.some.inj h).symm⟩
    · cases h
  · next hcd => exact Or.inr ⟨fun hdc => hcd hdc.symm, h⟩

/-- A connection after a new one came: the new one or an old one. -/
theorem push_connection {conns : List Connection} {d : Nat} {conn conn' : Connection}
    (h : (conns ++ [conn])[d]? = some conn') :
    d = conns.length ∧ conn' = conn ∨ conns[d]? = some conn' := by
  rw [List.getElem?_append] at h
  split at h
  · exact Or.inr h
  · next hlt =>
    rw [List.getElem?_singleton] at h
    split at h
    · exact Or.inl ⟨by omega, (Option.some.inj h).symm⟩
    · cases h

@[simp]
theorem goOn_length (c : Nat) (conn : Connection) (task : Task) :
    (s.goOn c conn task).connections.length = s.connections.length :=
  List.length_set

@[simp]
theorem goOn_companion (c : Nat) (conn : Connection) (task : Task) :
    (s.goOn c conn task).companion = s.companion :=
  rfl

@[simp]
theorem goOn_generated (c : Nat) (conn : Connection) (task : Task) :
    (s.goOn c conn task).generated = s.generated :=
  rfl

/-- An upgrade adds a connection without a session, or is refused. Only a connection with the
current bootstrap token listens. -/
theorem upgrade_cases (debug : Bool) (origin : Option String) (t : String) :
    s.upgrade debug origin t = s ∨
    ∃ conn, s.upgrade debug origin t = { s with connections := s.connections ++ [conn] } ∧
      conn.t = t ∧ conn.sessionToken = none ∧
      (conn.task = .listening ∧ s.companion.bootstrapToken = t ∨ conn.task = .returned) := by
  unfold upgrade
  split
  · refine Or.inr ⟨_, rfl, ?_⟩
    split
    · next hvalid => exact ⟨rfl, rfl, Or.inl ⟨rfl, of_decide_eq_true hvalid⟩⟩
    · exact ⟨rfl, rfl, Or.inr rfl⟩
  · exact Or.inl rfl

/-- A handler changes the stores at most, and goes on with the same message. -/
theorem actHandler_cases (c : Nat) (conn : Connection) (value : Json) (a : Answers)
    (body : Handler Unit) :
    ∃ stores sent task,
      s.actHandler c conn value a body =
        { s with companion := { s.companion with stores } }.goOn c { conn with sent } task ∧
      ∀ value' arm, task = .handling value' arm → value' = value ∧ ∃ next, arm = .handle next := by
  cases body with
  | pure _ | panic => exact ⟨s.companion.stores, conn.sent, _, rfl, by simp⟩
  | send message next =>
    refine ⟨s.companion.stores, _, _, rfl, ?_⟩
    rintro _ _ ⟨⟩
    exact ⟨rfl, _, rfl⟩
  | now next | ask next | fetch url next =>
    refine ⟨s.companion.stores, conn.sent, _, rfl, ?_⟩
    rintro _ _ ⟨⟩
    exact ⟨rfl, _, rfl⟩
  | lock update next =>
    refine ⟨_, conn.sent, _, rfl, ?_⟩
    rintro _ _ ⟨⟩
    exact ⟨rfl, _, rfl⟩

/-- Only handlers change the stores. -/
theorem act_stores {c : Nat} {conn : Connection} {value : Json} {a : Answers} {arm : Arm}
    (hs : s.act c conn value a arm = some s') :
    s'.companion.stores = s.companion.stores ∨ ∃ body, arm = .handle body := by
  cases arm with
  | handle body => exact Or.inr ⟨body, rfl⟩
  | issue | rotate =>
    simp only [act] at hs
    split at hs
    · cases hs
    · obtain rfl := Option.some.inj hs
      exact Or.inl rfl
  | next | leave | send | now | purge | valid =>
    obtain rfl := Option.some.inj hs
    exact Or.inl rfl

end Steps

end Server

end LanguageLlm.Desktop
