import LanguageLlm.Desktop.Handshakes

/-!
# The extension and the companion

`ensureCompanionSession` of the extension and `handle_socket` of the companion, which run side by
side on one machine: the sockets of the extension are connections of the companion, among those of
other programs, and both read one clock. What the extension writes on a socket and what the
companion sends on it arrive in order, each at some later time.

`session_of_pair`: whenever the extension holds a session, the companion holds the same one, and
until it expires no message of the extension is turned away.
-/

namespace LanguageLlm.Desktop

open Lib
open Client (Link LinkEvent BootstrapInfo)

/-- A socket of the extension, with the bootstrap token in its URL and the connection that it is
upgraded to. -/
structure Wire where
  token : String
  conn : Option Nat
  /-- The texts that the extension has written and the companion has not received. -/
  inbox : List String
  /-- How many messages of the companion the socket has delivered. -/
  delivered : Nat

structure Pair where
  link : Link
  server : Server
  wires : List Wire
  /-- The token of the session that the extension holds. -/
  token : Option String

def Pair.start (bootstrapToken : String) (allowedExtensionId : Option String) (stores : Stores)
    (now : Nat) : Pair where
  link := .fresh now
  server := .start bootstrapToken allowedExtensionId stores now
  wires := []
  token := none

inductive PairEvent where
  /-- A call of `ensureCompanionSession`, a timeout, the end of a socket or of a backoff. -/
  | link (e : LinkEvent)
  /-- The native host answers, with any port and token, or fails. -/
  | bootstrapped (res : Option BootstrapInfo)
  /-- The companion upgrades a socket. -/
  | upgraded (k : Nat)
  /-- A socket opens; `request` is the text of the handshake that is written then, if its call still
  waits. -/
  | opened (k : Nat) (nonce : BitVec 128) (request : String)
  /-- A socket delivers the next message of the companion. -/
  | message (k : Nat)
  /-- The extension sends a text on its session. -/
  | send (text : String)
  /-- The companion receives the next text of a socket. -/
  | receive (k : Nat)
  /-- Another event of the companion, of these sockets or of other programs'. -/
  | server (e : ServerEvent)
  /-- `set_allowed_extension_id`. -/
  | pin (allowedExtensionId : Option String)
  | elapse (ms : Nat)

namespace Pair

/-- The events of the extension that the companion has no part in. -/
def isOwn : LinkEvent → Bool
  | .bootstrapped _ | .opened _ | .message .. | .elapse _ => false
  | _ => true

def setWire (s : Pair) (k : Nat) (w : Wire) : Pair := { s with wires := s.wires.set k w }

/-- `waitOpen` has resolved for the socket: the call goes on with its handshake. -/
def awaitsOpen (s : Pair) (k : Nat) : Bool :=
  match s.link.call with
  | some (.opening _ j) => j = k
  | _ => false

/-- The call waits for the first message of the socket. -/
def awaitsReply (s : Pair) (k : Nat) : Bool :=
  match s.link.call with
  | some (.handshake _ j) => j = k
  | _ => false

/-- A socket is upgraded, with the origin of the extension. -/
def upgrades (debug : Bool) (extensionId : String) (s : Pair) (k : Nat) (w : Wire) : Option Pair :=
  let origin := "chrome-extension://" ++ extensionId
  if w.conn = none ∧ s.server.companion.originAllowed debug origin = true then
    some ({ s with server := s.server.upgrade debug (some origin) w.token }.setWire k
      { w with conn := some s.server.connections.length })
  else none

/-- A socket that was upgraded opens, and the call writes its request. -/
def opens (env : External) (extensionId : String) (s : Pair) (k : Nat) (w : Wire)
    (nonce : BitVec 128) (request : String) : Option Pair :=
  if w.conn.isSome ∧ ReadsRequest env extensionId nonce s.link.now request then
    (s.link.step (.opened k)).map fun link =>
      { s with link }.setWire k
        { w with inbox := if s.awaitsOpen k then w.inbox ++ [request] else w.inbox }
  else none

/-- The next message on the connection of a socket. -/
def nextMessage (s : Pair) (w : Wire) : Option Json :=
  w.conn.bind fun c => (s.server.connections[c]?).bind fun conn => conn.sent[w.delivered]?

/-- A message is delivered; `session.token` is that of the reply when the handshake has ended. -/
def delivers (s : Pair) (k : Nat) (w : Wire) : Option Pair :=
  (s.nextMessage w).bind fun m => (s.link.step (.message k (some m))).map fun link =>
    { s with
      link
      token := if s.awaitsReply k ∧ link.call = none then m.getStr "sessionToken" else s.token
      }.setWire k { w with delivered := w.delivered + 1 }

/-- `session.send`: what is written on a socket that is not open is lost. -/
def sends (env : External) (s : Pair) (text : String) : Option Pair :=
  match s.link.session, s.token with
  | some e, some tok =>
    if OfSession env tok text then
      match s.wires[e.ws]? with
      | some w =>
        if s.link.sockets[e.ws]?.map Client.Socket.readyState = some .open then
          some (s.setWire e.ws { w with inbox := w.inbox ++ [text] })
        else some s
      | none => none
    else none
  | _, _ => none

def receives (env : External) (debug : Bool) (s : Pair) (k : Nat) (w : Wire) : Option Pair :=
  match w.conn, w.inbox with
  | some c, text :: rest =>
    (s.server.step env debug (.receive c (.text text))).map fun server =>
      { s with server }.setWire k { w with inbox := rest }
  | _, _ => none

/-- The companion's own events: texts arrive on the connections of other programs only. -/
def isOther (s : Pair) : ServerEvent → Bool
  | .receive c (.text _) => s.wires.all fun w => w.conn ≠ some c
  | .elapse _ => false
  | _ => true

def step (env : External) (debug : Bool) (extensionId : String) (s : Pair) :
    PairEvent → Option Pair
  | .link e =>
    if isOwn e then (s.link.step e).map fun link => { s with link } else none
  | .bootstrapped res =>
    (s.link.step (.bootstrapped res)).map fun link =>
      let wire : Wire :=
        { token := (res.map BootstrapInfo.bootstrapToken).getD ""
          conn := none
          inbox := []
          delivered := 0 }
      { s with
        link
        wires := s.wires ++ List.replicate (link.sockets.length - s.link.sockets.length) wire }
  | .upgraded k => (s.wires[k]?).bind fun w => s.upgrades debug extensionId k w
  | .opened k nonce request =>
    (s.wires[k]?).bind fun w => s.opens env extensionId k w nonce request
  | .message k => (s.wires[k]?).bind fun w => s.delivers k w
  | .send text => s.sends env text
  | .receive k => (s.wires[k]?).bind fun w => s.receives env debug k w
  | .server e =>
    if s.isOther e then (s.server.step env debug e).map fun server => { s with server } else none
  | .pin allowedExtensionId =>
    some { s with
      server := { s.server with
        companion := { s.server.companion with allowedExtensionId } } }
  | .elapse ms =>
    some { s with
      link := { s.link with now := s.link.now + ms }
      server := { s.server with now := s.server.now + ms } }

end Pair

/-! ## The extension's side -/

section Link

variable {l l' : Link} {k attempt : Nat}

theorem attemptFailed_call_ne (l : Link) (attempt a k : Nat) :
    (l.attemptFailed attempt).call ≠ some (.handshake a k) := by
  unfold Link.attemptFailed
  dsimp only
  split
  · simp
  · simp

/-- A socket that has not opened yet. -/
def Unopened (l : Link) (k : Nat) : Prop :=
  ∃ ws, l.sockets[k]? = some ws ∧ ws.readyState = .connecting

/-- The sockets are the old ones, and none that has opened connects again. -/
structure SameSockets (l l' : Link) : Prop where
  length : l'.sockets.length = l.sockets.length
  unopened : ∀ j, Unopened l' j → Unopened l j

theorem SameSockets.of_eq (h : l'.sockets = l.sockets) : SameSockets l l' where
  length := by rw [h]
  unopened j hj := by
    unfold Unopened at hj
    rwa [h] at hj

theorem SameSockets.of_modify {f : Client.Socket → Client.Socket}
    (h : l'.sockets = l.sockets.modify k f)
    (hf : ∀ ws, (f ws).readyState = .connecting → ws.readyState = .connecting) :
    SameSockets l l' where
  length := by rw [h, List.length_modify]
  unopened j hj := by
    obtain ⟨ws, hws, hstate⟩ := hj
    rw [h, List.getElem?_modify] at hws
    obtain ⟨ws', hws', rfl⟩ := Option.map_eq_some_iff.1 hws
    refine ⟨ws', hws', ?_⟩
    split at hstate
    · exact hf ws' hstate
    · exact hstate

theorem SameSockets.of_closeSocket (k : Nat) (h : l'.sockets = (l.closeSocket k).sockets) :
    SameSockets l l' := by
  refine .of_modify h fun ws hstate => ?_
  split at hstate
  · cases hstate
  · cases hstate
  · exact hstate
  · exact hstate

theorem sockets_errored (l : Link) (k : Nat) (ws : Client.Socket) :
    (l.errored k ws).sockets =
      l.sockets.modify k fun ws => { ws with readyState := .closed, errored := true } := by
  unfold Link.errored
  dsimp only
  split
  · split
    · split <;> simp [Link.modifySocket]
    · split <;> simp [Link.modifySocket]
  · split <;> simp [Link.modifySocket]

/-- What the extension does without the companion starts no handshake and changes no session. -/
theorem own_spec {e : LinkEvent} (he : Pair.isOwn e = true) (h : l.step e = some l') :
    SameSockets l l' ∧ l'.session = l.session ∧
      ∀ a j, l'.call = some (.handshake a j) → l.call = some (.handshake a j) := by
  have hfail (l₁ : Link) (a b j : Nat) (hcall : (l₁.attemptFailed a).call = some (.handshake b j)) :
      l.call = some (.handshake b j) := absurd hcall (attemptFailed_call_ne l₁ a b j)
  cases Link.moves h with
  | ensure hcall =>
    unfold Link.ensure
    split
    · split
      · exact ⟨.of_eq rfl, rfl, fun _ _ => id⟩
      · exact ⟨.of_closeSocket _ rfl, rfl, by simp⟩
    · exact ⟨.of_eq rfl, rfl, by simp⟩
  | refused | connecting | fellBack | opened | replied | ignored | elapse => cases he
  | errored hw =>
    refine ⟨.of_modify (sockets_errored ..) (by simp), ?_⟩
    unfold Link.errored
    dsimp only
    split
    · split
      · refine ⟨?_, fun b j hcall => hfail _ _ b j hcall⟩
        split <;> simp [Link.modifySocket]
      · split <;> simp [Link.modifySocket]
    · split <;> simp [Link.modifySocket]
  | closed hw =>
    unfold Link.closed
    dsimp only
    split
    · exact ⟨.of_modify (by rw [Link.setConnectionState_sockets]; rfl) (by simp),
        by simp [Link.modifySocket], by simp [Link.modifySocket]⟩
    · exact ⟨.of_modify rfl (by simp), rfl, fun _ _ => id⟩
  | openTimeout | messageTimeout =>
    exact ⟨.of_eq (by simp), by simp, fun b j hcall => hfail _ _ b j hcall⟩
  | wake => exact ⟨.of_eq rfl, rfl, by simp⟩
  | close => exact ⟨.of_closeSocket _ rfl, rfl, fun _ _ => id⟩

theorem bootstrapped_spec {res : Option BootstrapInfo} (h : l.step (.bootstrapped res) = some l') :
    l.sockets.length ≤ l'.sockets.length ∧ l'.session = l.session ∧
      (∀ a j, l'.call ≠ some (.handshake a j)) ∧
      ∀ j, j < l.sockets.length → Unopened l' j → Unopened l j := by
  cases Link.moves h with
  | refused =>
    exact ⟨by simp, by simp, fun a j => attemptFailed_call_ne _ _ a j,
      fun j _ => (SameSockets.of_eq (by simp)).unopened j⟩
  | connecting =>
    refine ⟨by simp, by simp, by simp, fun j hj ⟨ws, hws, hstate⟩ => ⟨ws, ?_, hstate⟩⟩
    exact (List.getElem?_append_left hj).symm.trans hws
  | fellBack =>
    exact ⟨by simp, by simp, by simp, fun j _ => (SameSockets.of_eq (by simp)).unopened j⟩

theorem opened_spec (h : l.step (.opened k) = some l') :
    SameSockets l l' ∧ Unopened l k ∧ ¬ Unopened l' k ∧ l'.session = l.session ∧
      ∀ a j, l'.call = some (.handshake a j) →
        l.call = some (.handshake a j) ∨ j = k := by
  cases Link.moves h with
  | opened hw hconnecting =>
    have hsockets : (l.opened k).sockets =
        l.sockets.modify k fun ws => { ws with readyState := .open } := by
      unfold Link.opened
      dsimp only
      split
      · split <;> rfl
      · rfl
    refine ⟨.of_modify hsockets (by simp), ⟨_, hw, hconnecting⟩, ?_, ?_⟩
    · rintro ⟨ws, hws, hstate⟩
      rw [hsockets, List.getElem?_modify, hw] at hws
      simp only [if_true] at hws
      obtain rfl := Option.some.inj hws
      cases hstate
    · unfold Link.opened
      dsimp only
      split
      · split
        · exact ⟨rfl, by simp⟩
        · exact ⟨rfl, fun a j => Or.inl⟩
      · exact ⟨rfl, fun a j => Or.inl⟩

/-- A message is the reply to a handshake or does nothing. -/
theorem message_spec {m : Json} (h : l.step (.message k (some m)) = some l') :
    SameSockets l l' ∧ ¬ Unopened l k ∧
      ((∀ a, l.call ≠ some (.handshake a k)) ∧ l' = l ∨
        (∃ a, l.call = some (.handshake a k)) ∧
          (l'.call = none ∧ Client.isAuthHandshakeResponse m = true ∧
              l'.session = some ⟨k, (m.get "expiresAtMs").bind Client.asNumber⟩ ∨
            l'.call ≠ none ∧ (∀ a j, l'.call ≠ some (.handshake a j)) ∧
              l'.session = l.session)) := by
  have hopen : ¬ Unopened l k := by
    rintro ⟨ws, hws, hstate⟩
    simp [Link.step, hws, hstate] at h
  cases Link.moves h with
  | ignored hcall => exact ⟨.of_eq rfl, hopen, Or.inl ⟨hcall, rfl⟩⟩
  | replied hw _ hcall =>
    refine ⟨?_, hopen, Or.inr ⟨⟨_, hcall⟩, ?_⟩⟩
    · unfold Link.handshakeReply
      dsimp only
      split
      · split
        · exact .of_eq (by simp)
        · split
          · exact .of_closeSocket k (by simp)
          · exact .of_modify (f := fun ws => { ws with listening := true })
              (Link.setConnectionState_sockets ..) fun ws => id
      · exact .of_closeSocket k (by simp)
    · unfold Link.handshakeReply
      dsimp only
      split
      · next hresponse =>
        split
        · exact Or.inr ⟨Link.attemptFailed_call _ _, attemptFailed_call_ne _ _, by simp⟩
        · split
          · refine Or.inr ⟨Link.attemptFailed_call _ _, attemptFailed_call_ne _ _, ?_⟩
            simp [Link.closeSocket, Link.modifySocket]
          · exact Or.inl ⟨rfl, hresponse, rfl⟩
      · refine Or.inr ⟨Link.attemptFailed_call _ _, attemptFailed_call_ne _ _, ?_⟩
        simp [Link.closeSocket, Link.modifySocket]

end Link

/-! ## Both sides -/

namespace Pair

/-- The first message on the connection of a socket is the reply of a session. -/
def Joined (s : Pair) (k : Nat) (tok : String) (expiresAtMs : Nat) : Prop :=
  ∃ (w : Wire) (c : Nat) (conn : Connection) (rest : List Json), s.wires[k]? = some w ∧
    w.conn = some c ∧ s.server.connections[c]? = some conn ∧
    conn.sent = sessionReply tok expiresAtMs :: rest

/-- What may be on its way to the companion on a socket: before it opens, also the request that is
written then. -/
def MayHold (env : External) (extensionId : String) (s : Pair) (k : Nat) (w : Wire)
    (inbox : List String) : Prop :=
  inbox = w.inbox ∨ Unopened s.link k ∧ IsFirst env extensionId inbox

/-- What holds in every state. -/
structure Agree (env : External) (extensionId : String) (s : Pair) : Prop where
  sockets : s.wires.length = s.link.sockets.length
  timely : s.server.Timely
  wired : ∀ (k : Nat) (w : Wire) (c : Nat), s.wires[k]? = some w → w.conn = some c →
    ∃ conn, s.server.connections[c]? = some conn ∧
      ∀ inbox, s.MayHold env extensionId k w inbox → Wired env extensionId s.server conn inbox
  apart : ∀ (j k : Nat) (w w' : Wire) (c : Nat), s.wires[j]? = some w → s.wires[k]? = some w' →
    w.conn = some c → w'.conn = some c → j = k
  unopened : ∀ (k : Nat) (w : Wire), s.wires[k]? = some w → w.conn = none ∨ Unopened s.link k →
    w.inbox = [] ∧ w.delivered = 0
  shaking : ∀ attempt k, s.link.call = some (.handshake attempt k) →
    ∃ w, s.wires[k]? = some w ∧ w.delivered = 0
  held : ∀ e, s.link.session = some e → ∃ (tok : String) (expiresAtMs : Nat),
    s.token = some tok ∧ e.expiresAtMs = some ((expiresAtMs : Int) : Rat) ∧
      s.Joined e.ws tok expiresAtMs

/-- Connections stay those of their sockets, and what was sent on them stays sent. -/
structure Extends (s s' : Pair) : Prop where
  wires : ∀ (k : Nat) (w : Wire) (c : Nat), s.wires[k]? = some w → w.conn = some c →
    ∃ w', s'.wires[k]? = some w' ∧ w'.conn = some c
  conns : ∀ (c : Nat) (conn : Connection), s.server.connections[c]? = some conn →
    ∃ conn', s'.server.connections[c]? = some conn' ∧ conn.sent <+: conn'.sent

section Steps

variable {env : External} {debug : Bool} {extensionId tok : String} {expiresAtMs k : Nat}
  {s s' : Pair} {w w' : Wire}

theorem Joined.extends (h : s.Joined k tok expiresAtMs) (he : s.Extends s') :
    s'.Joined k tok expiresAtMs := by
  obtain ⟨w, c, conn, rest, hw, hc, hconn, hsent⟩ := h
  obtain ⟨w', hw', hc'⟩ := he.wires k w c hw hc
  obtain ⟨conn', hconn', more, hmore⟩ := he.conns c conn hconn
  exact ⟨w', c, conn', rest ++ more, hw', hc', hconn', by rw [← hmore, hsent, List.cons_append]⟩

/-- The session stays when neither it nor its token changes. -/
theorem Agree.held_of (hA : s.Agree env extensionId) (he : s.Extends s')
    (hsession : s'.link.session = s.link.session) (htoken : s'.token = s.token)
    (e : Client.CompanionSession) (hsome : s'.link.session = some e) :
    ∃ (tok : String) (expiresAtMs : Nat), s'.token = some tok ∧
      e.expiresAtMs = some ((expiresAtMs : Int) : Rat) ∧ s'.Joined e.ws tok expiresAtMs := by
  rw [hsession] at hsome
  obtain ⟨tok, expiresAtMs, htok, hexpires, hjoined⟩ := hA.held e hsome
  exact ⟨tok, expiresAtMs, htoken.trans htok, hexpires, hjoined.extends he⟩

/-- A socket after one of them was changed: that one or another. -/
theorem getElem?_set_wire {wires : List Wire} {j : Nat} {w₁ : Wire}
    (h : (wires.set k w')[j]? = some w₁) : j = k ∧ w₁ = w' ∨ j ≠ k ∧ wires[j]? = some w₁ := by
  by_cases hjk : k = j
  · subst hjk
    rw [List.getElem?_set_self (by
      have hlt := (List.getElem?_eq_some_iff.1 h).1
      rwa [List.length_set] at hlt)] at h
    exact Or.inl ⟨rfl, (Option.some.inj h).symm⟩
  · rw [List.getElem?_set_ne hjk] at h
    exact Or.inr ⟨fun heq => hjk heq.symm, h⟩

theorem setWire_self (hw : s.wires[k]? = some w) : (s.setWire k w').wires[k]? = some w' :=
  List.getElem?_set_self (List.getElem?_eq_some_iff.1 hw).1

theorem setWire_ne {j : Nat} (hne : j ≠ k) : (s.setWire k w').wires[j]? = s.wires[j]? :=
  List.getElem?_set_ne hne.symm

/-- The companion takes no part in it: the sockets are as they were, or there are new ones. -/
theorem Agree.link (hA : s.Agree env extensionId) {link : Link} {new : List Wire}
    (hlength : (s.wires ++ new).length = link.sockets.length)
    (hnew : ∀ w ∈ new, w.conn = none ∧ w.inbox = [] ∧ w.delivered = 0)
    (hunopened : ∀ j, j < s.wires.length → Unopened link j → Unopened s.link j)
    (hsession : link.session = s.link.session)
    (hcall : ∀ a j, link.call = some (.handshake a j) → s.link.call = some (.handshake a j)) :
    Agree env extensionId { s with link, wires := s.wires ++ new } := by
  have hcases {j : Nat} {w : Wire} (hw : (s.wires ++ new)[j]? = some w) :
      s.wires[j]? = some w ∨ w ∈ new := by
    rw [List.getElem?_append] at hw
    split at hw
    · exact Or.inl hw
    · exact Or.inr (List.mem_of_getElem? hw)
  have hold {j : Nat} {w : Wire} {c : Nat} (hw : (s.wires ++ new)[j]? = some w)
      (hc : w.conn = some c) : s.wires[j]? = some w := by
    refine (hcases hw).resolve_right fun hmem => ?_
    have hnone := (hnew w hmem).1
    rw [hc] at hnone
    cases hnone
  have hkeep {j : Nat} {w : Wire} (hw : s.wires[j]? = some w) : (s.wires ++ new)[j]? = some w :=
    (List.getElem?_append_left (List.getElem?_eq_some_iff.1 hw).1).trans hw
  have hstill {j : Nat} {w : Wire} (hw : s.wires[j]? = some w) (hj : Unopened link j) :
      Unopened s.link j := hunopened j (List.getElem?_eq_some_iff.1 hw).1 hj
  refine ⟨hlength, hA.timely, fun j w c hw hc => ?_,
    fun i j w w' c hi hj hc hc' => hA.apart i j w w' c (hold hi hc) (hold hj hc') hc hc',
    fun j w hw hfresh => ?_, fun a j hj => ?_,
    hA.held_of ⟨fun j w c hw hc => ⟨w, hkeep hw, hc⟩,
      fun c conn hconn => ⟨conn, hconn, List.prefix_refl _⟩⟩ hsession rfl⟩
  · obtain ⟨conn, hconn, hwired⟩ := hA.wired j w c (hold hw hc) hc
    exact ⟨conn, hconn, fun inbox hinbox =>
      hwired inbox (hinbox.imp_right fun h => ⟨hstill (hold hw hc) h.1, h.2⟩)⟩
  · rcases hcases hw with hw' | hmem
    · exact hA.unopened j w hw' (hfresh.imp_right (hstill hw'))
    · exact (hnew w hmem).2
  · obtain ⟨w, hw, hzero⟩ := hA.shaking a j (hcall a j hj)
    exact ⟨w, hkeep hw, hzero⟩

/-- An event of the companion alone. -/
theorem Agree.server (hA : s.Agree env extensionId) {e : ServerEvent} {server : Server}
    (hother : s.isOther e = true) (hs : s.server.step env debug e = some server) :
    Agree env extensionId { s with server } := by
  have helapse (ms : Nat) : e ≠ .elapse ms := by
    rintro rfl
    cases hother
  obtain ⟨hT, -, -, hconns⟩ := Server.step_spec extensionId hA.timely helapse hs
  refine ⟨hA.sockets, hT, fun j w c hw hc => ?_, hA.apart, hA.unopened, hA.shaking,
    hA.held_of ⟨fun j w c hw hc => ⟨w, hw, hc⟩, fun c conn hconn => ?_⟩ rfl rfl⟩
  · obtain ⟨conn, hconn, hwired⟩ := hA.wired j w c hw hc
    obtain ⟨conn', hconn', -, hkeeps⟩ := hconns c conn hconn
    refine ⟨conn', hconn', fun inbox hinbox => hkeeps _ (hwired inbox hinbox) ?_⟩
    rintro text rfl
    have hnone := List.all_eq_true.1 hother w (List.mem_of_getElem? hw)
    exact absurd hc (of_decide_eq_true hnone)
  · obtain ⟨conn', hconn', hprefix, -⟩ := hconns c conn hconn
    exact ⟨conn', hconn', hprefix⟩

theorem Agree.apart_set (hA : s.Agree env extensionId)
    (hother : ∀ (j : Nat) (w₁ : Wire) (c : Nat), j ≠ k → s.wires[j]? = some w₁ →
      w₁.conn = some c → w'.conn ≠ some c) (i j : Nat) (w₁ w₂ : Wire) (c : Nat)
    (hi : (s.wires.set k w')[i]? = some w₁) (hj : (s.wires.set k w')[j]? = some w₂)
    (hc : w₁.conn = some c) (hc' : w₂.conn = some c) : i = j := by
  rcases getElem?_set_wire hi with ⟨hik, heq⟩ | ⟨hik, hold⟩
  · rcases getElem?_set_wire hj with ⟨hjk, -⟩ | ⟨hjk, hold'⟩
    · rw [hik, hjk]
    · exact absurd (heq ▸ hc) (hother j w₂ c hjk hold' hc')
  · rcases getElem?_set_wire hj with ⟨hjk, heq⟩ | ⟨hjk, hold'⟩
    · exact absurd (heq ▸ hc') (hother i w₁ c hik hold hc)
    · exact hA.apart i j w₁ w₂ c hold hold' hc hc'

theorem Agree.others (hA : s.Agree env extensionId) (hw : s.wires[k]? = some w)
    (hsame : w'.conn = w.conn) (j : Nat) (w₁ : Wire) (c : Nat) (hjk : j ≠ k)
    (hj : s.wires[j]? = some w₁) (hc : w₁.conn = some c) : w'.conn ≠ some c :=
  fun hc' => hjk (hA.apart j k w₁ w c hj hw hc (hsame ▸ hc'))

theorem Agree.unopened_set (hA : s.Agree env extensionId) {link : Link}
    (hfresh : w'.conn = none ∨ Unopened link k → w'.inbox = [] ∧ w'.delivered = 0)
    (hunopened : ∀ j, Unopened link j → Unopened s.link j) (j : Nat) (w₁ : Wire)
    (hj : (s.wires.set k w')[j]? = some w₁) (h : w₁.conn = none ∨ Unopened link j) :
    w₁.inbox = [] ∧ w₁.delivered = 0 := by
  rcases getElem?_set_wire hj with ⟨rfl, rfl⟩ | ⟨-, hold⟩
  · exact hfresh h
  · exact hA.unopened j w₁ hold (h.imp_right (hunopened j))

/-- A socket that is changed keeps its connection. -/
theorem conn_set (hw : s.wires[k]? = some w) (hsame : ∀ c, w.conn = some c → w'.conn = some c)
    (j : Nat) (w₁ : Wire) (c : Nat) (hj : s.wires[j]? = some w₁) (hc : w₁.conn = some c) :
    ∃ w₂, (s.wires.set k w')[j]? = some w₂ ∧ w₂.conn = some c := by
  by_cases hjk : j = k
  · subst hjk
    obtain rfl := Option.some.inj (hw.symm.trans hj)
    exact ⟨_, setWire_self hw, hsame c hc⟩
  · exact ⟨w₁, (setWire_ne hjk).trans hj, hc⟩

theorem Agree.shaking_set (hA : s.Agree env extensionId) (hw : s.wires[k]? = some w)
    (hzero : w'.delivered = w.delivered) {a j : Nat}
    (hcall : s.link.call = some (.handshake a j)) :
    ∃ w₁, (s.wires.set k w')[j]? = some w₁ ∧ w₁.delivered = 0 := by
  obtain ⟨w₁, hw₁, hdelivered⟩ := hA.shaking a j hcall
  by_cases hjk : j = k
  · subst hjk
    obtain rfl := Option.some.inj (hw.symm.trans hw₁)
    exact ⟨_, setWire_self hw, hzero.trans hdelivered⟩
  · exact ⟨w₁, (setWire_ne hjk).trans hw₁, hdelivered⟩

theorem awaitsReply_iff :
    s.awaitsReply k = true ↔ ∃ a, s.link.call = some (.handshake a k) := by
  unfold awaitsReply
  split
  · next a j hcall =>
    rw [decide_eq_true_eq, hcall]
    constructor
    · rintro rfl
      exact ⟨a, rfl⟩
    · rintro ⟨b, heq⟩
      cases heq
      rfl
  · next hcall =>
    refine iff_of_false (by simp) ?_
    rintro ⟨a, ha⟩
    exact hcall a k ha

/-- The companion receives the next text of a socket. -/
theorem Agree.receives (hA : s.Agree env extensionId) (hid : extensionId ≠ "")
    (hw : s.wires[k]? = some w) (hs : s.receives env debug k w = some s') :
    s'.Agree env extensionId := by
  unfold Pair.receives at hs
  split at hs
  · next c text rest hc hinbox =>
    obtain ⟨server, hserver, rfl⟩ := Option.map_eq_some_iff.1 hs
    obtain ⟨hT, -, -, hconns⟩ :=
      Server.step_spec extensionId hA.timely (by simp) hserver
    have hopened : ¬ (w.conn = none ∨ Unopened s.link k) := by
      intro h
      have hempty := (hA.unopened k w hw h).1
      rw [hinbox] at hempty
      cases hempty
    have hself : ∃ conn, server.connections[c]? = some conn ∧
        Wired env extensionId server conn rest := by
      obtain ⟨conn, hconn, hwired⟩ := hA.wired k w c hw hc
      replace hwired := hwired _ (Or.inl rfl)
      rw [hinbox] at hwired
      rcases Server.step_cases hserver with ⟨_, _, heq, -⟩ |
        ⟨d, frame, conn', heq, hconn', htask, rfl⟩ | ⟨_, _, _, _, _, heq, -⟩ |
        ⟨_, -, heq | ⟨_, heq⟩⟩
      · cases heq
      · obtain ⟨rfl, rfl⟩ := ServerEvent.receive.inj heq
        obtain rfl := Option.some.inj (hconn.symm.trans hconn')
        exact ⟨_, List.getElem?_set_self (List.getElem?_eq_some_iff.1 hconn).1,
          (hwired.receive hid htask).follows (.of_eq rfl rfl)⟩
      · cases heq
      · cases heq
      · cases heq
    refine ⟨(List.length_set ..).trans hA.sockets, hT, fun j w₁ d hj hd => ?_,
      hA.apart_set (hA.others hw rfl), hA.unopened_set (fun h => absurd h hopened) fun _ => id,
      fun a j hcall => hA.shaking_set hw (by rfl) hcall,
      hA.held_of ⟨conn_set hw fun _ => id, fun d conn hconn => ?_⟩ rfl rfl⟩
    · rcases getElem?_set_wire hj with ⟨rfl, rfl⟩ | ⟨hne, hold⟩
      · obtain rfl := Option.some.inj (hc.symm.trans hd)
        obtain ⟨conn, hconn, hwired⟩ := hself
        refine ⟨conn, hconn, fun inbox hmay => ?_⟩
        rcases hmay with rfl | ⟨hunopened, -⟩
        · exact hwired
        · exact absurd (Or.inr hunopened) hopened
      · obtain ⟨conn, hconn, hwired⟩ := hA.wired j w₁ d hold hd
        obtain ⟨conn', hconn', -, hkeeps⟩ := hconns d conn hconn
        refine ⟨conn', hconn', fun inbox hmay => hkeeps _ (hwired inbox hmay) ?_⟩
        rintro text' heq
        obtain ⟨rfl, -⟩ := ServerEvent.receive.inj heq
        exact hne (hA.apart j k w₁ w c hold hw hd hc)
    · obtain ⟨conn', hconn', hprefix, -⟩ := hconns d conn hconn
      exact ⟨conn', hconn', hprefix⟩
  · cases hs

/-- The extension sends a text on its session. -/
theorem Agree.sends (hA : s.Agree env extensionId) {text : String}
    (hs : s.sends env text = some s') : s'.Agree env extensionId := by
  unfold Pair.sends at hs
  split at hs
  · next e tok he htok =>
    split at hs
    · next hof =>
      split at hs
      · next w hw =>
        split at hs
        · next hopen =>
          obtain rfl := Option.some.inj hs
          have hopened : ¬ (w.conn = none ∨ Unopened s.link e.ws) := by
            rintro (hnone | ⟨ws, hws, hstate⟩)
            · obtain ⟨_, _, -, -, w', c, _, _, hw', hc, -⟩ := hA.held e he
              obtain rfl := Option.some.inj (hw.symm.trans hw')
              rw [hc] at hnone
              cases hnone
            · rw [hws, Option.map_some, hstate] at hopen
              cases hopen
          refine ⟨(List.length_set ..).trans hA.sockets, hA.timely, fun j w₁ c hj hc => ?_,
            hA.apart_set (hA.others hw rfl),
            hA.unopened_set (fun h => absurd h hopened) fun _ => id,
            fun a j hcall => hA.shaking_set hw (by rfl) hcall,
            hA.held_of ⟨conn_set hw fun _ => id, fun c conn hconn =>
              ⟨conn, hconn, List.prefix_refl _⟩⟩ rfl rfl⟩
          rcases getElem?_set_wire hj with ⟨rfl, rfl⟩ | ⟨-, hold⟩
          · obtain ⟨conn, hconn, hwired⟩ := hA.wired _ w c hw hc
            refine ⟨conn, hconn, fun inbox hmay => ?_⟩
            obtain rfl := hmay.resolve_right fun h => hopened (Or.inr h.1)
            replace hwired := hwired _ (Or.inl rfl)
            obtain ⟨tok', x, htok', -, w', c', conn', rest, hw', hc', hconn', hsent⟩ := hA.held e he
            obtain rfl := Option.some.inj (htok.symm.trans htok')
            obtain rfl := Option.some.inj (hw.symm.trans hw')
            obtain rfl := Option.some.inj (hc.symm.trans hc')
            obtain rfl := Option.some.inj (hconn.symm.trans hconn')
            obtain ⟨htoken, hinbox, harm, hlives⟩ := hwired.of_reply hsent
            refine .joined htoken hsent (fun text' hmem => ?_) harm hlives
            rcases List.mem_append.1 hmem with hmem | hmem
            · exact hinbox text' hmem
            · exact List.mem_singleton.1 hmem ▸ hof
          · exact hA.wired j w₁ c hold hc
        · obtain rfl := Option.some.inj hs
          exact hA
      · cases hs
    · cases hs
  · cases hs

/-- A socket delivers a message of the companion. -/
theorem Agree.delivers (hA : s.Agree env extensionId) (hw : s.wires[k]? = some w)
    (hs : s.delivers k w = some s') : s'.Agree env extensionId := by
  unfold Pair.delivers at hs
  obtain ⟨m, hm, hs⟩ := Option.bind_eq_some_iff.1 hs
  obtain ⟨link, hlink, rfl⟩ := Option.map_eq_some_iff.1 hs
  obtain ⟨hsockets, hopened, hcases⟩ := message_spec hlink
  unfold Pair.nextMessage at hm
  obtain ⟨c, hc, hm⟩ := Option.bind_eq_some_iff.1 hm
  obtain ⟨conn, hconn, hm⟩ := Option.bind_eq_some_iff.1 hm
  have hdelivering : ¬ (w.conn = none ∨ Unopened link k) := by
    rintro (hnone | hunopened)
    · rw [hc] at hnone
      cases hnone
    · exact hopened (hsockets.unopened k hunopened)
  have hextends : s.Extends ({ s with
      link
      token := if s.awaitsReply k ∧ link.call = none then m.getStr "sessionToken" else s.token
      }.setWire k { w with delivered := w.delivered + 1 }) :=
    ⟨conn_set hw fun _ => id, fun c conn hconn => ⟨conn, hconn, List.prefix_refl _⟩⟩
  refine ⟨?_, hA.timely, fun j w₁ d hj hd => ?_, hA.apart_set (hA.others hw rfl),
    hA.unopened_set (fun h => absurd h hdelivering) hsockets.unopened, fun a j hcall => ?_,
    fun e he => ?_⟩
  · exact (List.length_set ..).trans (hA.sockets.trans hsockets.length.symm)
  · rcases getElem?_set_wire hj with ⟨rfl, rfl⟩ | ⟨-, hold⟩
    · exact (hA.wired j w d hw hd).imp fun conn h => ⟨h.1, fun inbox hmay =>
        h.2 inbox (hmay.imp_right fun h' => ⟨hsockets.unopened j h'.1, h'.2⟩)⟩
    · exact (hA.wired j w₁ d hold hd).imp fun conn h => ⟨h.1, fun inbox hmay =>
        h.2 inbox (hmay.imp_right fun h' => ⟨hsockets.unopened j h'.1, h'.2⟩)⟩
  · rcases hcases with ⟨hnot, rfl⟩ | ⟨-, ⟨hnone, -⟩ | ⟨-, hnot, -⟩⟩
    · have hjk : j ≠ k := by
        rintro rfl
        exact hnot a hcall
      obtain ⟨w₁, hw₁, hdelivered⟩ := hA.shaking a j hcall
      exact ⟨w₁, (setWire_ne hjk).trans hw₁, hdelivered⟩
    · have hcall' : link.call = some (.handshake a j) := hcall
      rw [hnone] at hcall'
      cases hcall'
    · exact absurd hcall (hnot a j)
  · rcases hcases with ⟨hnot, rfl⟩ | ⟨⟨a, hcall⟩, ⟨hnone, hresponse, hsession⟩ |
      ⟨hne, -, hsession⟩⟩
    · refine hA.held_of hextends rfl (if_neg fun h => ?_) e he
      obtain ⟨a, hcall⟩ := awaitsReply_iff.1 h.1
      exact hnot a hcall
    · obtain rfl := Option.some.inj (hsession.symm.trans he)
      obtain ⟨w₁, hw₁, hzero⟩ := hA.shaking a k hcall
      obtain rfl := Option.some.inj (hw.symm.trans hw₁)
      rw [hzero, ← List.head?_eq_getElem?] at hm
      obtain ⟨conn', hconn', hwired⟩ := hA.wired k w c hw hc
      obtain rfl := Option.some.inj (hconn.symm.trans hconn')
      rcases (hwired _ (Or.inl rfl)).head hm with ⟨tok, expiresAtMs, rest, rfl, hsent⟩ | hrefusal
      · refine ⟨tok, expiresAtMs, ?_, rfl, _, c, conn, rest, setWire_self hw, hc, hconn, hsent⟩
        exact if_pos ⟨awaitsReply_iff.2 ⟨a, hcall⟩, hnone⟩
      · rw [not_response_of_isRefusal hrefusal] at hresponse
        cases hresponse
    · exact hA.held_of hextends hsession (if_neg fun h => hne h.2) e he

/-- A socket is upgraded. -/
theorem Agree.upgrades (hA : s.Agree env extensionId) (hw : s.wires[k]? = some w)
    (hs : s.upgrades debug extensionId k w = some s') : s'.Agree env extensionId := by
  unfold Pair.upgrades at hs
  dsimp only at hs
  split at hs
  · next h =>
    obtain ⟨hnone, horigin⟩ := h
    obtain rfl := Option.some.inj hs
    have hupgrade : s.server.step env debug
        (.upgrade (some ("chrome-extension://" ++ extensionId)) w.token) =
          some (s.server.upgrade debug (some ("chrome-extension://" ++ extensionId)) w.token) :=
      rfl
    obtain ⟨hT, -, -, hconns⟩ := Server.step_spec extensionId hA.timely (by simp) hupgrade
    obtain ⟨conn, hconn, hnew⟩ := Server.upgrade_wired env extensionId horigin w.token
    obtain ⟨hempty, hzero⟩ := hA.unopened k w hw (Or.inl hnone)
    have hlt (j : Nat) (w₁ : Wire) (c : Nat) (hj : s.wires[j]? = some w₁) (hc : w₁.conn = some c) :
        c < s.server.connections.length := by
      obtain ⟨conn, hconn, -⟩ := hA.wired j w₁ c hj hc
      exact (List.getElem?_eq_some_iff.1 hconn).1
    refine ⟨(List.length_set ..).trans hA.sockets, hT, fun j w₁ c hj hc => ?_,
      hA.apart_set fun j w₁ c _ hj hc heq => ?_,
      hA.unopened_set (fun _ => ⟨hempty, hzero⟩) fun _ => id,
      fun a j hcall => hA.shaking_set hw (by rfl) hcall,
      hA.held_of ⟨conn_set hw (by rw [hnone]; rintro _ ⟨⟩), fun c conn hconn => ?_⟩ rfl rfl⟩
    · rcases getElem?_set_wire hj with ⟨-, rfl⟩ | ⟨-, hold⟩
      · obtain rfl := Option.some.inj hc
        exact ⟨conn, hconn, fun inbox hmay =>
          hnew inbox (hmay.imp (fun heq => heq.trans hempty) And.right)⟩
      · obtain ⟨conn₁, hconn₁, hwired⟩ := hA.wired j w₁ c hold hc
        obtain ⟨conn₂, hconn₂, -, hkeeps⟩ := hconns c conn₁ hconn₁
        exact ⟨conn₂, hconn₂, fun inbox hmay => hkeeps _ (hwired inbox hmay) (by simp)⟩
    · have hself := Option.some.inj heq
      have hless := hlt j w₁ c hj hc
      omega
    · obtain ⟨conn', hconn', hprefix, -⟩ := hconns c conn hconn
      exact ⟨conn', hconn', hprefix⟩
  · cases hs

/-- A socket opens. -/
theorem Agree.opens (hA : s.Agree env extensionId) (hw : s.wires[k]? = some w)
    {nonce : BitVec 128} {request : String}
    (hs : s.opens env extensionId k w nonce request = some s') : s'.Agree env extensionId := by
  unfold Pair.opens at hs
  split at hs
  · next h =>
    obtain ⟨hsome, hrequest⟩ := h
    obtain ⟨link, hlink, rfl⟩ := Option.map_eq_some_iff.1 hs
    obtain ⟨hsockets, hunopened, hopened, hsession, hcalls⟩ := opened_spec hlink
    obtain ⟨hempty, hzero⟩ := hA.unopened k w hw (Or.inr hunopened)
    have hnot : ¬ (w.conn = none ∨ Unopened link k) := by
      rintro (hnone | hstill)
      · rw [hnone] at hsome
        cases hsome
      · exact hopened hstill
    refine ⟨?_, hA.timely, fun j w₁ c hj hc => ?_, hA.apart_set (hA.others hw rfl),
      hA.unopened_set (fun h => absurd h hnot) hsockets.unopened, fun a j hcall => ?_,
      hA.held_of ⟨conn_set hw fun _ => id, fun c conn hconn => ⟨conn, hconn, List.prefix_refl _⟩⟩
        hsession rfl⟩
    · exact (List.length_set ..).trans (hA.sockets.trans hsockets.length.symm)
    · rcases getElem?_set_wire hj with ⟨rfl, rfl⟩ | ⟨-, hold⟩
      · obtain ⟨conn, hconn, hwired⟩ := hA.wired j w c hw hc
        refine ⟨conn, hconn, fun inbox hmay => hwired inbox ?_⟩
        obtain rfl := hmay.resolve_right fun h => hnot (Or.inr h.1)
        dsimp only
        split
        · refine Or.inr ⟨hunopened, request, nonce, _, ?_, hrequest⟩
          rw [hempty, List.nil_append]
        · exact Or.inl rfl
      · exact (hA.wired j w₁ c hold hc).imp fun conn h => ⟨h.1, fun inbox hmay =>
          h.2 inbox (hmay.imp_right fun h' => ⟨hsockets.unopened j h'.1, h'.2⟩)⟩
    · rcases hcalls a j hcall with hcall | rfl
      · exact hA.shaking_set hw (by rfl) hcall
      · exact ⟨_, setWire_self hw, hzero⟩
  · cases hs

/-- Time passes, or the extension is pinned. -/
theorem Agree.server_eq (hA : s.Agree env extensionId) {server : Server} {link : Link}
    (hconns : server.connections = s.server.connections) (hnow : s.server.now ≤ server.now)
    (hsessions : server.companion.sessions = s.server.companion.sessions)
    (hsockets : link.sockets = s.link.sockets) (hcall : link.call = s.link.call)
    (hsession : link.session = s.link.session) :
    Agree env extensionId { s with link, server } := by
  have hsame : SameSockets s.link link := .of_eq hsockets
  refine ⟨by rw [hsockets]; exact hA.sockets, fun c conn value arm hconn htask => ?_,
    fun j w c hj hc => ?_, hA.apart,
    fun j w hj hfresh => hA.unopened j w hj (hfresh.imp_right (hsame.unopened j)),
    fun a j hj => hA.shaking a j (hcall ▸ hj),
    hA.held_of ⟨fun j w c hj hc => ⟨w, hj, hc⟩, fun c conn hconn => ?_⟩ hsession rfl⟩
  · dsimp only at hconn
    rw [hconns] at hconn
    exact (hA.timely c conn value arm hconn htask).mono hnow
  · obtain ⟨conn, hconn, hwired⟩ := hA.wired j w c hj hc
    refine ⟨conn, by rw [hconns]; exact hconn, fun inbox hmay => ?_⟩
    have hstill := hwired inbox (hmay.imp_right fun h => ⟨hsame.unopened j h.1, h.2⟩)
    refine hstill.follows ⟨hnow, fun session hmem _ => ?_⟩
    rw [hsessions]
    exact hmem
  · exact ⟨conn, by rw [hconns]; exact hconn, List.prefix_refl _⟩

theorem Agree.step (hA : s.Agree env extensionId) (hid : extensionId ≠ "") {l : PairEvent}
    (hs : s.step env debug extensionId l = some s') : s'.Agree env extensionId := by
  cases l with
  | link e =>
    simp only [Pair.step] at hs
    split at hs
    · next hown =>
      obtain ⟨link, hlink, rfl⟩ := Option.map_eq_some_iff.1 hs
      obtain ⟨hsockets, hsession, hcall⟩ := own_spec hown hlink
      have hlength : (s.wires ++ []).length = link.sockets.length := by
        rw [List.append_nil, hA.sockets, hsockets.length]
      have hA' := hA.link hlength (by simp) (fun j _ => hsockets.unopened j) hsession hcall
      rwa [List.append_nil] at hA'
    · cases hs
  | bootstrapped res =>
    obtain ⟨link, hlink, rfl⟩ := Option.map_eq_some_iff.1 hs
    obtain ⟨hle, hsession, hcall, hunopened⟩ := bootstrapped_spec hlink
    refine hA.link ?_ (fun w hw => ?_) (hA.sockets ▸ hunopened) hsession
      fun a j hj => absurd hj (hcall a j)
    · rw [List.length_append, List.length_replicate, hA.sockets]
      omega
    · rw [List.eq_of_mem_replicate hw]
      exact ⟨rfl, rfl, rfl⟩
  | upgraded k =>
    obtain ⟨w, hw, hs⟩ := Option.bind_eq_some_iff.1 hs
    exact hA.upgrades hw hs
  | opened k nonce request =>
    obtain ⟨w, hw, hs⟩ := Option.bind_eq_some_iff.1 hs
    exact hA.opens hw hs
  | message k =>
    obtain ⟨w, hw, hs⟩ := Option.bind_eq_some_iff.1 hs
    exact hA.delivers hw hs
  | send text => exact hA.sends hs
  | receive k =>
    obtain ⟨w, hw, hs⟩ := Option.bind_eq_some_iff.1 hs
    exact hA.receives hid hw hs
  | server e =>
    simp only [Pair.step] at hs
    split at hs
    · next hother =>
      obtain ⟨server, hserver, rfl⟩ := Option.map_eq_some_iff.1 hs
      exact hA.server hother hserver
    · cases hs
  | pin allowedExtensionId =>
    obtain rfl := Option.some.inj hs
    exact hA.server_eq rfl (Nat.le_refl _) rfl rfl rfl rfl
  | elapse ms =>
    obtain rfl := Option.some.inj hs
    exact hA.server_eq rfl (Nat.le_add_right _ _) rfl rfl rfl rfl

end Steps

theorem agree_of_run {env : External} {debug : Bool} {extensionId bootstrapToken : String}
    {pinned : Option String} {stores : Stores} {now : Nat} {h : List (Fired Pair PairEvent)}
    {s : Pair} (hid : extensionId ≠ "")
    (hr : Run (Pair.step env debug extensionId) (.start bootstrapToken pinned stores now) h s) :
    s.Agree env extensionId := by
  refine Run.inv (Pair.Agree env extensionId) ?_ (fun s l s' hA hs => hA.step hid hs) hr
  refine ⟨rfl, ?_, ?_, ?_, ?_, ?_, ?_⟩
  · rintro c conn value arm ⟨⟩
  · rintro k w c ⟨⟩
  · rintro j k w w' c ⟨⟩
  · rintro k w ⟨⟩
  · rintro attempt k ⟨⟩
  · rintro e ⟨⟩

end Pair

/-- The parser, on one request. -/
def requestMessages : External where
  toString _ := ""
  fromStr text :=
    if text = "request" then some (Client.createAuthHandshakeRequest "abcdefgh" (hexEncode 5) 1000)
    else none
  decodeBase64 _ := none

/-- The extension connects and gets a session. -/
def pairEvents : List PairEvent :=
  [.link .ensure, .bootstrapped (some ⟨true, 4000, "bootstrap"⟩), .upgraded 0,
    .opened 0 5 "request", .receive 0] ++
    [answersOf 0 0, answersOf 0 0, answersOf 1 2, answersOf 2 1, answersOf 0 0, answersOf 0 0].map
      (fun a => .server (.act 0 a)) ++ [.message 0]

end LanguageLlm.Desktop
