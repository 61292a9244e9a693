import LanguageLlm.Desktop.WsServer

/-!
# The authentication gate

Which messages reach the stores of the companion. `stores_gate` says that only a message that has
passed `authed` on its connection does, whatever the other connections do in between; an invariant
follows the arm of every message up to its check.
-/

namespace LanguageLlm.Desktop

open Lib

/-! ## Accepted handshakes -/

/-- A handshake that was accepted: the connection with the number of the message, the request, the
time at which it was accepted and the token of its session. -/
structure Accepted where
  conn : Nat
  received : Nat
  value : Json
  issuedAt : Nat
  token : String

/-- The handshake that a step accepts: the one whose session it issues. -/
def acceptedBy (f : Fired Server ServerEvent) : Option Accepted :=
  match f.label with
  | .act c a =>
    match f.pre.connections[c]? with
    | some conn =>
      match conn.task with
      | .handling value (.issue _ nowMs _) =>
        some
          { conn := c
            received := conn.received
            value
            issuedAt := nowMs
            token := randomToken a.uuids.1 a.uuids.2 }
      | _ => none
    | none => none
  | _ => none

/-- A handshake was accepted in the steps `h`. -/
def AcceptedIn (h : List (Fired Server ServerEvent)) (a : Accepted) : Prop :=
  ∃ f ∈ h, acceptedBy f = some a

/-- The handshake that was accepted last on a connection. -/
def lastAccepted (c : Nat) (h : List (Fired Server ServerEvent)) : Option Accepted :=
  h.findSome? fun f => (acceptedBy f).filter fun a => a.conn = c

/-- A request that is accepted at a time. -/
structure Accepts (debug : Bool) (allowedExtensionId : Option String) (value : Json) (nowMs : Nat) :
    Prop where
  type : value.strOr "type" "" = "auth.handshake.request"
  version : versionsCompatible (value.strOr "protocolVersion" "") protocolVersion = true
  nonce : 16 ≤ (value.strOr "nonce" "").utf8ByteSize
  extensionId : value.strOr "extensionId" "" ≠ ""
  allowed : extensionIdAllowed debug allowedExtensionId (value.strOr "extensionId" "") = .ok ()
  skew : validateHandshakeTimestamp (((value.get "requestedAtMs").bind Json.asU64).getD 0) nowMs =
    true

/-! ## The check of a message -/

/-- The task of a connection is at `arm`, with its `n`-th message. -/
def At (s : Server) (c n : Nat) (value : Json) (arm : Arm) : Prop :=
  ∃ conn, s.connections[c]? = some conn ∧ conn.received = n ∧ conn.task = .handling value arm

/-- The clock was read at the time `t` for the `n`-th message of a connection. -/
def ReadClock (h : List (Fired Server ServerEvent)) (c n : Nat) (value : Json) (t : Nat) : Prop :=
  ∃ f ∈ h, ∃ a rest, f.label = .act c a ∧ At f.pre c n value (.now rest) ∧ f.pre.now = t

/-- `session_valid` was true of the token at the time `t` for the `n`-th message of a connection. -/
def Checked (h : List (Fired Server ServerEvent)) (c n : Nat) (value : Json) (token : String)
    (t : Nat) : Prop :=
  ReadClock h c n value t ∧ ∃ f ∈ h, ∃ a rest, f.label = .act c a ∧
    At f.pre c n value (.valid token t rest) ∧ f.pre.companion.sessionValid token t = true

/-- The `n`-th message of a connection has passed its check: it carries the token of the handshake
that was accepted last, before its session expired. -/
def Passed (h : List (Fired Server ServerEvent)) (c n : Nat) (value : Json) : Prop :=
  value.strOr "type" "" ≠ "auth.handshake.request" ∧
    ∃ a, lastAccepted c h = some a ∧ value.getStr "sessionToken" = some a.token ∧
      ∃ t, Checked h c n value a.token t ∧ t < a.issuedAt + sessionTtlMs

/-- A connection was upgraded with the bootstrap token that was current then. -/
def Upgraded (h : List (Fired Server ServerEvent)) (c : Nat) (t : String) : Prop :=
  ∃ f ∈ h, ∃ origin, f.label = .upgrade origin t ∧ f.pre.connections.length = c ∧
    f.post.connections.length = c + 1 ∧ f.pre.companion.bootstrapToken = t

/-- An arm that reaches no handler before the check. `seen` are the times that the clock has shown
for the message. -/
def Gated (debug : Bool) (allowedExtensionId : Option String) (value : Json) :
    Option String → (Nat → Prop) → Arm → Prop
  | _, _, .next | _, _, .leave => True
  | token, seen, .send _ rest | token, seen, .purge _ rest | token, seen, .rotate rest =>
    Gated debug allowedExtensionId value token seen rest
  | token, seen, .now rest =>
    ∀ t, Gated debug allowedExtensionId value token (fun u => seen u ∨ u = t) (rest t)
  | token, seen, .valid expected nowMs rest =>
    value.strOr "type" "" ≠ "auth.handshake.request" ∧ token = some expected ∧
      value.strOr "sessionToken" "" = expected ∧ seen nowMs ∧
      Gated debug allowedExtensionId value token seen (rest false) ∧
        ∃ body, rest true = .handle body
  | _, seen, .issue _ nowMs rest =>
    Accepts debug allowedExtensionId value nowMs ∧ seen nowMs ∧
      ∀ session, Gated debug allowedExtensionId value (some session.token) seen (rest session)
  | _, _, .handle _ => False

section Arms

variable {debug : Bool} {allowedExtensionId : Option String} {value : Json}
  {token : Option String} {seen seen' : Nat → Prop}

theorem Gated.mono {arm : Arm} (h : Gated debug allowedExtensionId value token seen arm)
    (hsub : ∀ t, seen t → seen' t) : Gated debug allowedExtensionId value token seen' arm := by
  induction arm generalizing token seen seen' with
  | next | leave => trivial
  | send _ _ ih | purge _ _ ih | rotate _ ih => exact ih h hsub
  | now rest ih => exact fun t => ih t (h t) fun u hu => hu.imp_left (hsub u)
  | valid expected nowMs rest ih =>
    obtain ⟨htype, htoken, hprovided, hseen, hfalse, htrue⟩ := h
    exact ⟨htype, htoken, hprovided, hsub _ hseen, ih false hfalse hsub, htrue⟩
  | issue _ nowMs rest ih =>
    exact ⟨h.1, hsub _ h.2.1, fun session => ih session (h.2.2 session) hsub⟩
  | handle _ => exact h.elim

/-- `authed` before a handler. -/
theorem gated_ifAuthed {msgType : String} (hvalue : value.strOr "type" "" = msgType)
    (hne : msgType ≠ "auth.handshake.request") (body : Handler Unit) :
    Gated debug allowedExtensionId value token seen (ifAuthed token value body) := by
  have htype : value.strOr "type" "" ≠ "auth.handshake.request" := by rwa [hvalue]
  unfold ifAuthed authed
  cases token with
  | none => trivial
  | some expected =>
    dsimp only
    split
    · next hprovided =>
      exact fun now => ⟨htype, rfl, hprovided, Or.inr rfl, trivial, body, rfl⟩
    · trivial

/-- A handshake reaches no handler, and issues a session only when every check has passed. -/
theorem gated_handshake (htype : value.strOr "type" "" = "auth.handshake.request") :
    Gated debug allowedExtensionId value token seen (handshake debug allowedExtensionId value) := by
  unfold handshake
  intro now
  dsimp only
  split
  · trivial
  · next hversion =>
    split
    · trivial
    · next hcomplete =>
      rw [not_or] at hcomplete
      split
      · trivial
      · next hskew =>
        split
        · trivial
        · next hallowed =>
          refine ⟨⟨htype, ?_, ?_, hcomplete.2, hallowed, ?_⟩, Or.inr rfl, fun _ => trivial⟩
          · simpa using hversion
          · omega
          · simpa using hskew

/-- Every arm of `handle_socket` checks its message before it runs a handler. -/
theorem gated_dispatch (env : External) :
    Gated debug allowedExtensionId value token seen
      (dispatch env debug allowedExtensionId token value) := by
  unfold dispatch
  dsimp only
  split
  · next htype => exact gated_handshake htype
  all_goals first
    | next htype => exact gated_ifAuthed htype (by decide) _
    | trivial

end Arms

/-! ## Histories -/

section Histories

variable {h : List (Fired Server ServerEvent)} {f : Fired Server ServerEvent} {a : Accepted}

/-- The step that a task takes accepts a handshake when it is about to issue a session. -/
theorem acceptedBy_act {s : Server} (s' : Server) {c : Nat} (an : Answers) {conn : Connection}
    {value : Json} {arm : Arm} (hconn : s.connections[c]? = some conn)
    (htask : conn.task = .handling value arm) :
    acceptedBy ⟨s, .act c an, s'⟩ =
      match arm with
      | .issue _ nowMs _ =>
        some
          { conn := c
            received := conn.received
            value
            issuedAt := nowMs
            token := randomToken an.uuids.1 an.uuids.2 }
      | _ => none := by
  simp only [acceptedBy, hconn, htask]
  cases arm <;> rfl

/-- A step that accepts a handshake is the issue of its session. -/
theorem acceptedBy_cases (hf : acceptedBy f = some a) :
    ∃ an conn extensionId rest, f.label = .act a.conn an ∧ f.pre.connections[a.conn]? = some conn ∧
      conn.task = .handling a.value (.issue extensionId a.issuedAt rest) := by
  unfold acceptedBy at hf
  split at hf
  · next c an hlabel =>
    split at hf
    · next conn hconn =>
      split at hf
      · next value extensionId nowMs rest htask =>
        obtain rfl := Option.some.inj hf
        exact ⟨an, conn, extensionId, rest, hlabel, hconn, htask⟩
      · cases hf
    · cases hf
  · cases hf

theorem acceptedIn_cons : AcceptedIn (f :: h) a ↔ acceptedBy f = some a ∨ AcceptedIn h a := by
  simp [AcceptedIn]

theorem acceptedIn_of_none (hf : acceptedBy f = none) :
    AcceptedIn (f :: h) a ↔ AcceptedIn h a := by
  simp [acceptedIn_cons, hf]

/-- A step that accepts no handshake on a connection keeps the one accepted last there. -/
theorem lastAccepted_cons_of {c : Nat} (hf : ∀ b, acceptedBy f = some b → b.conn ≠ c) :
    lastAccepted c (f :: h) = lastAccepted c h := by
  have hnone : (acceptedBy f).filter (fun a => decide (a.conn = c)) = none := by
    simpa [Option.filter_eq_none_iff] using hf
  simp [lastAccepted, hnone]

theorem lastAccepted_cons_self (hf : acceptedBy f = some a) :
    lastAccepted a.conn (f :: h) = some a := by
  simp [lastAccepted, hf]

theorem lastAccepted_acceptedIn {c : Nat} (ha : lastAccepted c h = some a) :
    AcceptedIn h a ∧ a.conn = c := by
  obtain ⟨f, hf, hfa⟩ := List.exists_of_findSome?_eq_some ha
  rw [Option.filter_eq_some_iff] at hfa
  exact ⟨⟨f, hf, hfa.1⟩, by simpa using hfa.2⟩

/-- No handshake is accepted on a connection that does not exist yet. -/
theorem lastAccepted_eq_none {c : Nat} (hnone : ∀ b, AcceptedIn h b → b.conn ≠ c) :
    lastAccepted c h = none := by
  cases ha : lastAccepted c h with
  | none => rfl
  | some b => exact absurd (lastAccepted_acceptedIn ha).2 (hnone b (lastAccepted_acceptedIn ha).1)

theorem ReadClock.cons {c n t : Nat} {value : Json} (hr : ReadClock h c n value t) :
    ReadClock (f :: h) c n value t := by
  obtain ⟨g, hg, hrest⟩ := hr
  exact ⟨g, List.mem_cons_of_mem _ hg, hrest⟩

theorem Checked.cons {c n t : Nat} {value : Json} {token : String}
    (hc : Checked h c n value token t) : Checked (f :: h) c n value token t := by
  obtain ⟨hr, g, hg, hrest⟩ := hc
  exact ⟨hr.cons, g, List.mem_cons_of_mem _ hg, hrest⟩

theorem Passed.cons {c n : Nat} {value : Json} (hp : Passed h c n value)
    (hf : ∀ b, acceptedBy f = some b → b.conn ≠ c) : Passed (f :: h) c n value := by
  obtain ⟨htype, a, ha, htoken, t, hchecked, ht⟩ := hp
  exact ⟨htype, a, (lastAccepted_cons_of hf).trans ha, htoken, t, hchecked.cons, ht⟩

theorem Upgraded.cons {c : Nat} {t : String} (hu : Upgraded h c t) : Upgraded (f :: h) c t := by
  obtain ⟨g, hg, hrest⟩ := hu
  exact ⟨g, List.mem_cons_of_mem _ hg, hrest⟩

end Histories

/-! ## The invariant -/

/-- Where the task of a connection can be: at an arm that checks its message first, or in a handler
whose message has passed its check. -/
structure Followed (debug : Bool) (allowedExtensionId : Option String)
    (h : List (Fired Server ServerEvent)) (c : Nat) (conn : Connection) : Prop where
  token : conn.sessionToken = (lastAccepted c h).map Accepted.token
  upgraded : conn.task ≠ .returned → Upgraded h c conn.t
  arm : ∀ value arm, conn.task = .handling value arm →
    Gated debug allowedExtensionId value conn.sessionToken (ReadClock h c conn.received value) arm ∨
      Passed h c conn.received value ∧ ∃ body, arm = .handle body

/-- The sessions are those of the accepted handshakes, each with its own token, and every connection
is followed. -/
structure Gate (debug : Bool) (allowedExtensionId : Option String)
    (h : List (Fired Server ServerEvent)) (s : Server) : Prop where
  pinned : s.companion.allowedExtensionId = allowedExtensionId
  sessions : ∀ x ∈ s.companion.sessions, ∃ a, AcceptedIn h a ∧ a.token = x.token ∧
    x.expiresAtMs = a.issuedAt + sessionTtlMs
  accepted : ∀ a, AcceptedIn h a → Accepts debug allowedExtensionId a.value a.issuedAt ∧
    ReadClock h a.conn a.received a.value a.issuedAt ∧ a.conn < s.connections.length ∧
      a.token ∈ s.generated ∧ a.token ≠ ""
  unique : ∀ a b, AcceptedIn h a → AcceptedIn h b → a.token = b.token → a = b
  connections : ∀ c conn, s.connections[c]? = some conn →
    Followed debug allowedExtensionId h c conn

section Invariant

variable {debug : Bool} {pinned : Option String} {h : List (Fired Server ServerEvent)}
  {f : Fired Server ServerEvent} {s s' : Server} {c : Nat} {conn : Connection}

/-- The other connections are followed on. -/
theorem Followed.cons (hc : Followed debug pinned h c conn)
    (hf : ∀ b, acceptedBy f = some b → b.conn ≠ c) : Followed debug pinned (f :: h) c conn where
  token := by rw [lastAccepted_cons_of hf, hc.token]
  upgraded htask := (hc.upgraded htask).cons
  arm value arm htask := (hc.arm value arm htask).imp
    (fun hg => hg.mono fun _ ht => ht.cons) (And.imp_left fun hp => hp.cons hf)

/-- A connection whose task has gone on without a handshake being accepted. -/
theorem Followed.goOn (hc : Followed debug pinned h c conn) (hf : acceptedBy f = none)
    (hlive : conn.task ≠ .returned) {task : Task} {sent : List Json}
    (harm : ∀ value arm, task = .handling value arm →
      Gated debug pinned value conn.sessionToken (ReadClock (f :: h) c conn.received value) arm ∨
        Passed (f :: h) c conn.received value ∧ ∃ body, arm = .handle body) :
    Followed debug pinned (f :: h) c { conn with task, sent } where
  token := by rw [lastAccepted_cons_of (by simp [hf])]; exact hc.token
  upgraded _ := (hc.upgraded hlive).cons
  arm := harm

/-- A step that accepts no handshake, adds no session and follows the connections that it changes.
-/
theorem Gate.cons (hG : Gate debug pinned h s) (hf : acceptedBy f = none)
    (hpinned : s'.companion.allowedExtensionId = s.companion.allowedExtensionId)
    (hsessions : ∀ x ∈ s'.companion.sessions, x ∈ s.companion.sessions)
    (hgenerated : ∀ x ∈ s.generated, x ∈ s'.generated)
    (hlength : s.connections.length ≤ s'.connections.length)
    (hconns : ∀ d conn, s'.connections[d]? = some conn →
      Followed debug pinned (f :: h) d conn ∨ s.connections[d]? = some conn) :
    Gate debug pinned (f :: h) s' where
  pinned := hpinned.trans hG.pinned
  sessions x hx := by
    obtain ⟨a, ha, hax⟩ := hG.sessions x (hsessions x hx)
    exact ⟨a, (acceptedIn_of_none hf).2 ha, hax⟩
  accepted a ha := by
    obtain ⟨haccepts, hread, hlt, hgen, hne⟩ := hG.accepted a ((acceptedIn_of_none hf).1 ha)
    exact ⟨haccepts, hread.cons, by omega, hgenerated _ hgen, hne⟩
  unique a b ha hb :=
    hG.unique a b ((acceptedIn_of_none hf).1 ha) ((acceptedIn_of_none hf).1 hb)
  connections d conn hd := by
    rcases hconns d conn hd with hfollowed | hold
    · exact hfollowed
    · exact (hG.connections d conn hold).cons (by simp [hf])

/-- A task goes on without a handshake being accepted, after a change of the companion that adds no
session. -/
theorem Gate.goOn (hG : Gate debug pinned h s) (hconn : s.connections[c]? = some conn)
    (hlive : conn.task ≠ .returned) (t : Server) (hconns : t.connections = s.connections)
    (hpinned : t.companion.allowedExtensionId = s.companion.allowedExtensionId)
    (hsessions : ∀ x ∈ t.companion.sessions, x ∈ s.companion.sessions)
    (hgenerated : ∀ x ∈ s.generated, x ∈ t.generated) {task : Task} {sent : List Json}
    (hf : acceptedBy f = none)
    (harm : ∀ value arm, task = .handling value arm →
      Gated debug pinned value conn.sessionToken (ReadClock (f :: h) c conn.received value) arm ∨
        Passed (f :: h) c conn.received value ∧ ∃ body, arm = .handle body) :
    Gate debug pinned (f :: h) (t.goOn c { conn with sent } task) := by
  apply Gate.cons hG hf
  · exact hpinned
  · exact hsessions
  · exact hgenerated
  · rw [Server.goOn_length, hconns]
  · intro d conn' hd
    rcases Server.set_connection hd with ⟨rfl, rfl⟩ | ⟨_, hold⟩
    · exact Or.inl ((hG.connections _ _ hconn).goOn hf hlive harm)
    · exact Or.inr (hconns ▸ hold)

/-- The task goes on to an arm that still checks its message first. -/
theorem Gate.goOnGated (hG : Gate debug pinned h s) (hconn : s.connections[c]? = some conn)
    (hlive : conn.task ≠ .returned) (t : Server) (hconns : t.connections = s.connections)
    (hpinned : t.companion.allowedExtensionId = s.companion.allowedExtensionId)
    (hsessions : ∀ x ∈ t.companion.sessions, x ∈ s.companion.sessions)
    (hgenerated : ∀ x ∈ s.generated, x ∈ t.generated) (hf : acceptedBy f = none) {value : Json}
    {rest : Arm} {sent : List Json}
    (hrest : Gated debug pinned value conn.sessionToken (ReadClock (f :: h) c conn.received value)
      rest) :
    Gate debug pinned (f :: h) (t.goOn c { conn with sent } (.handling value rest)) := by
  refine hG.goOn hconn hlive t hconns hpinned hsessions hgenerated hf ?_
  rintro _ _ ⟨⟩
  exact Or.inl hrest

/-- A session that is valid is the one of the handshake that its connection accepted last, so the
message has passed its check. -/
theorem Gate.passed (hG : Gate debug pinned h s) (hconn : s.connections[c]? = some conn)
    (hf : acceptedBy f = none) {value : Json} {expected : String} {t : Nat}
    (htype : value.strOr "type" "" ≠ "auth.handshake.request")
    (htoken : conn.sessionToken = some expected)
    (hprovided : value.strOr "sessionToken" "" = expected)
    (hvalid : s.companion.sessionValid expected t = true)
    (hchecked : Checked (f :: h) c conn.received value expected t) :
    Passed (f :: h) c conn.received value := by
  have hlast := (hG.connections c conn hconn).token
  rw [htoken, eq_comm, Option.map_eq_some_iff] at hlast
  obtain ⟨a, ha, rfl⟩ := hlast
  have hin := (lastAccepted_acceptedIn ha).1
  -- The session that was found was issued with the token, so its handshake is the last one.
  simp only [CompanionState.sessionValid, List.any_eq_true, Bool.and_eq_true,
    decide_eq_true_eq] at hvalid
  obtain ⟨x, hx, hxtoken, hxlive⟩ := hvalid
  obtain ⟨b, hb, hbtoken, hexpires⟩ := hG.sessions x hx
  have hba : b = a := hG.unique b a hb hin (hbtoken.trans hxtoken)
  subst hba
  refine ⟨htype, b, (lastAccepted_cons_of (by simp [hf])).trans ha, ?_, t, hchecked, by omega⟩
  -- The token is not empty, so it is not the default of a message without one.
  have hne := (hG.accepted b hin).2.2.2.2
  unfold Json.strOr at hprovided
  cases hget : value.getStr "sessionToken" with
  | none =>
    rw [hget] at hprovided
    exact absurd hprovided.symm hne
  | some provided =>
    rw [hget] at hprovided
    exact congrArg some hprovided

/-- A session is issued: its handshake is accepted with a token that was never used. -/
theorem Gate.issue (hG : Gate debug pinned h s) (hconn : s.connections[c]? = some conn)
    (hlive : conn.task ≠ .returned) {a : Accepted} (hf : acceptedBy f = some a) (ha : a.conn = c)
    (hreceived : a.received = conn.received)
    (haccepts : Accepts debug pinned a.value a.issuedAt)
    (hread : ReadClock h c conn.received a.value a.issuedAt) (hfresh : a.token ∉ s.generated)
    (hne : a.token ≠ "") {x : Session} (hx : x.token = a.token)
    (hexpires : x.expiresAtMs = a.issuedAt + sessionTtlMs) {arm : Arm}
    (harm : Gated debug pinned a.value (some a.token) (ReadClock h c conn.received a.value) arm) :
    Gate debug pinned (f :: h)
      ({ s with
        companion := s.companion.pushSession x
        generated := a.token :: s.generated }.goOn c { conn with sessionToken := some a.token }
        (.handling a.value arm)) where
  pinned := hG.pinned
  sessions y hy := by
    rcases List.mem_append.1 hy with hold | hnew
    · obtain ⟨b, hb, hby⟩ := hG.sessions y hold
      exact ⟨b, acceptedIn_cons.2 (Or.inr hb), hby⟩
    · rw [List.mem_singleton] at hnew
      subst hnew
      exact ⟨a, acceptedIn_cons.2 (Or.inl hf), hx.symm, hexpires⟩
  accepted b hb := by
    rw [Server.goOn_length]
    rcases acceptedIn_cons.1 hb with hnew | hold
    · rw [hf, Option.some.injEq] at hnew
      subst hnew
      refine ⟨haccepts, ?_, ?_, List.mem_cons_self, hne⟩
      · rw [ha, hreceived]
        exact hread.cons
      · rw [ha]
        exact (List.getElem?_eq_some_iff.1 hconn).1
    · obtain ⟨hacc, hclock, hlt, hgen, hbne⟩ := hG.accepted b hold
      exact ⟨hacc, hclock.cons, hlt, List.mem_cons_of_mem _ hgen, hbne⟩
  unique b b' hb hb' heq := by
    -- The token of an earlier handshake was generated before, the new one was not.
    have hold : ∀ b₀, AcceptedIn h b₀ → b₀.token ≠ a.token := fun b₀ hb₀ h0 =>
      hfresh (h0 ▸ (hG.accepted b₀ hb₀).2.2.2.1)
    rcases acceptedIn_cons.1 hb with hnew | hb <;> rcases acceptedIn_cons.1 hb' with hnew' | hb'
    · exact Option.some.inj (hnew.symm.trans hnew')
    · rw [hf, Option.some.injEq] at hnew
      exact absurd (heq.symm.trans (congrArg Accepted.token hnew.symm)) (hold b' hb')
    · rw [hf, Option.some.injEq] at hnew'
      exact absurd (heq.trans (congrArg Accepted.token hnew'.symm)) (hold b hb)
    · exact hG.unique b b' hb hb' heq
  connections d conn' hd := by
    rcases Server.set_connection hd with ⟨rfl, rfl⟩ | ⟨hdc, hold⟩
    · subst ha
      exact {
        token := by rw [lastAccepted_cons_self hf]; rfl
        upgraded := fun _ => ((hG.connections _ _ hconn).upgraded hlive).cons
        arm := fun value arm' htask => by
          obtain ⟨rfl, rfl⟩ := Task.handling.inj htask
          exact Or.inl (harm.mono fun _ ht => ht.cons) }
    · apply (hG.connections d conn' hold).cons
      intro b hb
      rw [hf, Option.some.injEq] at hb
      subst hb
      exact fun hbd => hdc (hbd.symm.trans ha)

/-- What the task of a connection does next keeps the invariant. -/
theorem Gate.act (hG : Gate debug pinned h s) (hconn : s.connections[c]? = some conn)
    {value : Json} {arm : Arm} (htask : conn.task = .handling value arm) {an : Answers}
    (hs : s.act c conn value an arm = some s') :
    Gate debug pinned (⟨s, .act c an, s'⟩ :: h) s' := by
  have hlive : conn.task ≠ .returned := by simp [htask]
  have hby := acceptedBy_act s' an hconn htask
  have hat : At s c conn.received value arm := ⟨conn, hconn, rfl, htask⟩
  rcases (hG.connections c conn hconn).arm value arm htask with hgated | ⟨hpassed, body, rfl⟩
  · cases arm with
    | next =>
      obtain rfl := Option.some.inj hs
      exact hG.goOn hconn hlive s rfl rfl (fun _ => id) (fun _ => id) hby (by simp)
    | leave =>
      obtain rfl := Option.some.inj hs
      exact hG.goOn hconn hlive s rfl rfl (fun _ => id) (fun _ => id) hby (by simp)
    | send message rest =>
      obtain rfl := Option.some.inj hs
      exact hG.goOnGated hconn hlive s rfl rfl (fun _ => id) (fun _ => id) hby
        (Gated.mono hgated fun _ ht => ht.cons)
    | now rest =>
      obtain rfl := Option.some.inj hs
      refine hG.goOnGated hconn hlive s rfl rfl (fun _ => id) (fun _ => id) hby
        (Gated.mono (hgated s.now) fun u hu => ?_)
      rcases hu with hu | rfl
      · exact hu.cons
      · exact ⟨_, List.mem_cons_self, an, rest, rfl, hat, rfl⟩
    | purge nowMs rest =>
      obtain rfl := Option.some.inj hs
      exact hG.goOnGated hconn hlive { s with companion := s.companion.purgeExpiredSessions nowMs }
        rfl rfl (fun _ hx => List.mem_of_mem_filter hx) (fun _ => id) hby
        (Gated.mono hgated fun _ ht => ht.cons)
    | valid expected nowMs rest =>
      obtain rfl := Option.some.inj hs
      obtain ⟨htype, htoken, hprovided, hread, hfalse, body, hbody⟩ := hgated
      refine hG.goOn hconn hlive s rfl rfl (fun _ => id) (fun _ => id) hby ?_
      rintro _ _ ⟨⟩
      by_cases hvalid : s.companion.sessionValid expected nowMs = true
      · exact Or.inr ⟨hG.passed hconn hby htype htoken hprovided hvalid
          ⟨hread.cons, _, List.mem_cons_self, an, rest, rfl, hat, hvalid⟩, body, hvalid ▸ hbody⟩
      · rw [Bool.not_eq_true] at hvalid
        rw [hvalid]
        exact Or.inl (hfalse.mono fun _ ht => ht.cons)
    | issue extensionId nowMs rest =>
      simp only [Server.act] at hs
      split at hs
      · cases hs
      · next hfresh =>
        obtain rfl := Option.some.inj hs
        obtain ⟨haccepts, hread, hrest⟩ := hgated
        exact hG.issue hconn hlive hby rfl rfl haccepts hread hfresh (randomToken_ne_empty _ _) rfl
          rfl (hrest ⟨randomToken an.uuids.1 an.uuids.2, nowMs + sessionTtlMs, extensionId⟩)
    | rotate rest =>
      simp only [Server.act] at hs
      split at hs
      · cases hs
      · obtain rfl := Option.some.inj hs
        exact hG.goOnGated hconn hlive
          { s with
            companion := s.companion.rotateBootstrapToken (randomToken an.uuids.1 an.uuids.2)
            generated := randomToken an.uuids.1 an.uuids.2 :: s.generated }
          rfl rfl (fun _ => id) (fun _ => List.mem_cons_of_mem _) hby
          (Gated.mono hgated fun _ ht => ht.cons)
    | handle body => exact hgated.elim
  · obtain rfl := Option.some.inj hs
    obtain ⟨stores, sent, task, heq, hnext⟩ := Server.actHandler_cases c conn value an body
    rw [heq] at hby ⊢
    refine hG.goOn hconn hlive { s with companion := { s.companion with stores } } rfl rfl
      (fun _ => id) (fun _ => id) hby ?_
    intro value' arm' harm
    obtain ⟨rfl, next, rfl⟩ := hnext value' arm' harm
    exact Or.inr ⟨hpassed.cons (by simp [hby]), next, rfl⟩

/-- A new connection is followed from its upgrade on. -/
theorem Gate.upgrade (hG : Gate debug pinned h s) (origin : Option String) (t : String) :
    Gate debug pinned (⟨s, .upgrade origin t, s.upgrade debug origin t⟩ :: h)
      (s.upgrade debug origin t) := by
  rcases Server.upgrade_cases (s := s) debug origin t with heq | ⟨conn, heq, ht, htoken, htask⟩
  · rw [heq]
    exact Gate.cons hG rfl rfl (fun _ => id) (fun _ => id) le_rfl fun _ _ => Or.inr
  · rw [heq]
    have hold : ∀ b, AcceptedIn h b → b.conn ≠ s.connections.length := fun b hb =>
      Nat.ne_of_lt (hG.accepted b hb).2.2.1
    refine Gate.cons hG rfl rfl (fun _ => id) (fun _ => id) (by simp) fun d conn' hd => ?_
    rcases Server.push_connection hd with ⟨rfl, rfl⟩ | hd
    · exact Or.inl {
        token := by
          rw [lastAccepted_cons_of (by simp [acceptedBy]), lastAccepted_eq_none hold, htoken]
          rfl
        upgraded := fun hlive => by
          rcases htask with ⟨_, hcurrent⟩ | hreturned
          · exact ⟨_, List.mem_cons_self, origin, ht ▸ rfl, rfl, by simp, ht ▸ hcurrent⟩
          · exact absurd hreturned hlive
        arm := fun value arm harm => by
          rcases htask with ⟨hlisten, _⟩ | hreturned
          · simp [hlisten] at harm
          · simp [hreturned] at harm }
    · exact Or.inr hd

/-- A frame that arrives at a listening connection. -/
theorem Gate.receive (env : External) (hG : Gate debug pinned h s)
    (hconn : s.connections[c]? = some conn) (htask : conn.task = .listening) (frame : Frame) :
    Gate debug pinned
      (⟨s, .receive c frame, { s with
        connections := s.connections.set c (conn.receive env debug s.companion frame) }⟩ :: h)
      { s with connections := s.connections.set c (conn.receive env debug s.companion frame) } := by
  have hc := hG.connections c conn hconn
  have hlive : conn.task ≠ .returned := by simp [htask]
  obtain ⟨ht, htoken, harm⟩ := Connection.receive_spec env debug s.companion htask frame
  refine Gate.cons hG rfl rfl (fun _ => id) (fun _ => id) (by simp) fun d conn' hd => ?_
  rcases Server.set_connection hd with ⟨rfl, rfl⟩ | ⟨_, hold⟩
  · exact Or.inl {
      token := by rw [htoken, lastAccepted_cons_of (by simp [acceptedBy]), hc.token]
      upgraded := fun _ => ht ▸ (hc.upgraded hlive).cons
      arm := fun value arm hvalue => by
        rw [harm value arm hvalue, htoken, hG.pinned]
        exact Or.inl (gated_dispatch env) }
  · exact Or.inr hold

/-- The invariant of every run. -/
theorem gate_run {env : External} {bootstrapToken : String} {stores : Stores} {now : Nat}
    (hr : Run (Server.step env debug) (Server.start bootstrapToken pinned stores now) h s) :
    Gate debug pinned h s := by
  refine Run.invHist (Gate debug pinned) ?_ ?_ hr
  · exact ⟨rfl, by simp [Server.start], by simp [AcceptedIn], by simp [AcceptedIn],
      by simp [Server.start]⟩
  · intro h s l s' _ hG hs
    rcases Server.step_cases hs with ⟨origin, t, rfl, rfl⟩ |
      ⟨c, frame, conn, rfl, hconn, htask, rfl⟩ | ⟨c, a, conn, value, arm, rfl, hconn, htask, hact⟩ |
      ⟨now, rfl, hl⟩
    · exact hG.upgrade origin t
    · exact hG.receive env hconn htask frame
    · exact hG.act hconn htask hact
    · have hby : acceptedBy ⟨s, l, { s with now }⟩ = none := by
        rcases hl with rfl | ⟨ms, rfl⟩ <;> rfl
      exact Gate.cons hG hby rfl (fun _ => id) (fun _ => id) le_rfl fun _ _ => Or.inr

end Invariant

/-! ## The gate -/

/-- The step sends a request to the lyrics provider. -/
def Fetches (f : Fired Server ServerEvent) : Prop :=
  ∃ c a n value url next, f.label = .act c a ∧ At f.pre c n value (.handle (.fetch url next))

/-- A message may reach the stores: it has passed its check on a connection that was upgraded with
the bootstrap token and whose last handshake was acceptable when it was accepted. -/
structure Authorised (debug : Bool) (allowedExtensionId : Option String)
    (h : List (Fired Server ServerEvent)) (c : Nat) (conn : Connection) (value : Json) : Prop where
  upgraded : Upgraded h c conn.t
  passed : Passed h c conn.received value
  accepted : ∀ a, lastAccepted c h = some a → Accepts debug allowedExtensionId a.value a.issuedAt ∧
    ReadClock h c a.received a.value a.issuedAt

/-- A step changes the stores or asks the lyrics provider only in the handler of a message that is
authorised. -/
theorem stores_gate {env : External} {debug : Bool} {bootstrapToken : String}
    {pinned : Option String} {stores : Stores} {now : Nat} {h : List (Fired Server ServerEvent)}
    {f : Fired Server ServerEvent} {s : Server}
    (hr : Run (Server.step env debug) (Server.start bootstrapToken pinned stores now) (f :: h) s) :
    (f.post.companion.stores = f.pre.companion.stores ∧ ¬ Fetches f) ∨
      ∃ c a conn value body, f.label = .act c a ∧ f.pre.connections[c]? = some conn ∧
        conn.task = .handling value (.handle body) ∧ Authorised debug pinned h c conn value := by
  obtain ⟨hr, hs, _⟩ := hr.uncons
  have hG := gate_run hr
  obtain ⟨pre, l, post⟩ := f
  dsimp only at hs hG ⊢
  rcases Server.step_cases hs with ⟨origin, t, rfl, rfl⟩ |
    ⟨c, frame, conn, rfl, hconn, htask, rfl⟩ | ⟨c, a, conn, value, arm, rfl, hconn, htask, hact⟩ |
    ⟨now, rfl, hl⟩
  · refine Or.inl ⟨?_, by simp [Fetches]⟩
    rcases Server.upgrade_cases (s := pre) debug origin t with heq | ⟨_, heq, _⟩ <;> rw [heq]
  · exact Or.inl ⟨rfl, by simp [Fetches]⟩
  · by_cases hbody : ∃ body, arm = .handle body
    · obtain ⟨body, rfl⟩ := hbody
      have hc := hG.connections c conn hconn
      have hpassed : Passed h c conn.received value := by
        rcases hc.arm value _ htask with hgated | hpassed
        · exact hgated.elim
        · exact hpassed.1
      refine Or.inr ⟨c, a, conn, value, body, rfl, hconn, htask, hc.upgraded (by simp [htask]),
        hpassed, fun b hb => ?_⟩
      obtain ⟨hin, rfl⟩ := lastAccepted_acceptedIn hb
      exact ⟨(hG.accepted b hin).1, (hG.accepted b hin).2.1⟩
    · refine Or.inl ⟨(Server.act_stores hact).resolve_right hbody, ?_⟩
      rintro ⟨c', a', n, value', url, next, hl, conn', hconn', _, htask'⟩
      obtain ⟨rfl, rfl⟩ := ServerEvent.act.inj hl
      rw [hconn, Option.some.injEq] at hconn'
      subst hconn'
      rw [htask, Task.handling.injEq] at htask'
      exact hbody ⟨_, htask'.2⟩
  · refine Or.inl ⟨rfl, ?_⟩
    rcases hl with rfl | ⟨ms, rfl⟩ <;> simp [Fetches]

/-! A pinned extension makes a handshake and allows the lyrics network. -/

def handshakeText : String :=
  "\x7b\"type\":\"auth.handshake.request\",\"protocolVersion\":\"1.0.0\"," ++
    "\"extensionId\":\"abcdefgh\",\"nonce\":\"0123456789abcdef\",\"requestedAtMs\":1000\x7d"

def networkText : String :=
  "\x7b\"type\":\"settings.lyrics.network\",\"allowed\":true,\"sessionToken\":\"" ++
    randomToken 1 2 ++ "\"\x7d"

/-- The parser, on these two messages. -/
def extensionMessages : External where
  toString _ := ""
  fromStr text :=
    if text = handshakeText then
      some <| .obj [("type", .str "auth.handshake.request"), ("protocolVersion", .str "1.0.0"),
        ("extensionId", .str "abcdefgh"), ("nonce", .str "0123456789abcdef"),
        ("requestedAtMs", .int 1000)]
    else if text = networkText then
      some <| .obj [("type", .str "settings.lyrics.network"), ("allowed", .bool true),
        ("sessionToken", .str (randomToken 1 2))]
    else none
  decodeBase64 _ := none

/-- The answers without any model, with the next two UUIDs. -/
def answersOf (u v : BitVec 128) : Answers where
  uuids := (u, v)
  translator := (.offlineMock, none)
  asrPlan _ := none
  asrModel := ("", .offlineMock)
  whisper _ := .error ""
  tracks := none
  tie := 0

/-- The handshake of a connection: the clock, the purge, the session, the rotation and the
response, and then its handler is done. -/
def handshakeEvents (c : Nat) (u v : BitVec 128) : List ServerEvent :=
  [.receive c (.text handshakeText), .act c (answersOf 0 0), .act c (answersOf 0 0),
    .act c (answersOf u v), .act c (answersOf v u), .act c (answersOf 0 0), .act c (answersOf 0 0)]

theorem stores_gate_network : ∃ h f s,
    Run (Server.step extensionMessages false)
      (Server.start "bootstrap" (some "abcdefgh") (.new none) 1000) (f :: h) s ∧
    f.post.companion.stores ≠ f.pre.companion.stores ∧
    ∃ c a conn value body, f.label = .act c a ∧ f.pre.connections[c]? = some conn ∧
      conn.task = .handling value (.handle body) ∧
      Authorised false (some "abcdefgh") h c conn value := by
  have hend : (exec (Server.step extensionMessages false)
      (Server.start "bootstrap" (some "abcdefgh") (.new none) 1000)
      ([.upgrade none "bootstrap"] ++ handshakeEvents 0 1 2 ++
        [.receive 0 (.text networkText), .act 0 (answersOf 0 0), .act 0 (answersOf 0 0),
          .act 0 (answersOf 0 0), .act 0 (answersOf 0 0)])).map
      (fun x => x.1.head?.map fun f => (f.pre.companion.stores.lyricsNetworkAllowed,
        f.post.companion.stores.lyricsNetworkAllowed)) = some (some (false, true)) := by
    decide +kernel
  obtain ⟨⟨h, s⟩, hx, hlast⟩ := Option.map_eq_some_iff.1 hend
  obtain ⟨f, hf, hflag⟩ := Option.map_eq_some_iff.1 hlast
  obtain ⟨rest, rfl⟩ := List.head?_eq_some_iff.1 hf
  obtain ⟨hpre, hpost⟩ := Prod.mk.inj hflag
  have hne : f.post.companion.stores ≠ f.pre.companion.stores := by
    intro heq
    rw [heq, hpre] at hpost
    cases hpost
  have hr := exec_run hx
  exact ⟨rest, f, s, hr, hne, (stores_gate hr).resolve_left fun hsame => hne hsame.1⟩

end LanguageLlm.Desktop
