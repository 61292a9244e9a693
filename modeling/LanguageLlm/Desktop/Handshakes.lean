import LanguageLlm.Client.Messages
import LanguageLlm.Client.Worker
import LanguageLlm.Desktop.AuthGate

/-!
# The connections of the extension

What the companion does on a connection on which the extension asks for a session and then sends
the messages of this session: `Wired` says where such a connection is, from its request to its last
message, and no event of the companion leads out of it.
-/

namespace LanguageLlm.Desktop

open Lib

/-- The companion reads the fields of `createAuthHandshakeRequest`, with the nonce of
`connectCompanion`: the hexadecimal digits of sixteen random bytes. -/
def ReadsRequest (env : External) (extensionId : String) (nonce : BitVec 128)
    (requestedAtMs : Nat) (text : String) : Prop :=
  ∃ value, env.fromStr text = some value ∧
    value.strOr "type" "" = "auth.handshake.request" ∧
    value.strOr "protocolVersion" "" = Client.protocolVersion ∧
    value.strOr "extensionId" "" = extensionId ∧ value.strOr "nonce" "" = hexEncode nonce ∧
    (value.get "requestedAtMs").bind Json.asU64 = some requestedAtMs

/-- The request is read where JSON is parsed as it was written. -/
theorem readsRequest_create {env : External} {extensionId text : String} {nonce : BitVec 128}
    {requestedAtMs : Nat} (hlt : requestedAtMs < 2 ^ 64)
    (h : env.fromStr text =
      some (Client.createAuthHandshakeRequest extensionId (hexEncode nonce) requestedAtMs)) :
    ReadsRequest env extensionId nonce requestedAtMs text := by
  refine ⟨_, h, rfl, rfl, rfl, rfl, ?_⟩
  have hget : (Client.createAuthHandshakeRequest extensionId (hexEncode nonce) requestedAtMs).get
      "requestedAtMs" = some (.int requestedAtMs) := rfl
  rw [hget, Option.bind_some, Json.asU64, if_pos (by omega), Int.toNat_natCast]

/-- What the extension sends on a session: a message with the token of the session that is no
handshake. -/
def OfSession (env : External) (tok text : String) : Prop :=
  ∃ value, env.fromStr text = some value ∧ value.strOr "sessionToken" "" = tok ∧
    value.strOr "type" "" ≠ "auth.handshake.request"

/-- What holds of a text that the companion parses. -/
instance decidableParsed (env : External) (text : String) (P : Json → Prop) [DecidablePred P] :
    Decidable (∃ value, env.fromStr text = some value ∧ P value) :=
  match h : env.fromStr text with
  | none => .isFalse (by simp)
  | some value => decidable_of_iff (P value) (by simp)

instance (env : External) (tok text : String) : Decidable (OfSession env tok text) :=
  decidableParsed env text _

instance (env : External) (extensionId : String) (nonce : BitVec 128) (requestedAtMs : Nat)
    (text : String) : Decidable (ReadsRequest env extensionId nonce requestedAtMs text) :=
  decidableParsed env text _

/-! ## What a task may still do -/

/-- The clock is not earlier than the times that the arm has read and will read. -/
def Arm.Timely : Arm → Nat → Prop
  | next, _ | leave, _ | handle _, _ => True
  | send _ rest, time | rotate rest, time => rest.Timely time
  | now rest, time => ∀ t, time ≤ t → (rest t).Timely t
  | purge nowMs rest, time => nowMs ≤ time ∧ rest.Timely time
  | valid _ nowMs rest, time => nowMs ≤ time ∧ ∀ ok, (rest ok).Timely time
  | issue _ nowMs rest, time => nowMs ≤ time ∧ ∀ session, (rest session).Timely time

/-- No message is turned away as long as the session with this token is valid. -/
def Arm.Trusts (tok : String) : Arm → Prop
  | next | leave | handle _ => True
  | send message rest => message ≠ authError ∧ rest.Trusts tok
  | .now rest => ∀ t, (rest t).Trusts tok
  | purge _ rest => rest.Trusts tok
  | valid token _ rest =>
    token = tok ∧ (rest true).Trusts tok ∧ rest false = .send authError .next
  | issue .. | rotate _ => False

/-- The reply to a handshake that is accepted. -/
def sessionReply (tok : String) (expiresAtMs : Nat) : Json :=
  makeHandshakeResponse tok expiresAtMs "0.1.1"

/-- A reply that turns the extension away: it is not allowed, or its request came too late. -/
def IsRefusal (message : Json) : Prop :=
  ∃ text, message = handshakeFailure "origin-rejected" text ∨
    message = handshakeFailure "rate-limited" text

/-- The extension is turned away, or gets a session and its reply. -/
def Arm.Shakes (extensionId : String) : Arm → Prop
  | send message rest => IsRefusal message ∧ rest = leave
  | .now rest => ∀ t, (rest t).Shakes extensionId
  | purge _ rest => rest.Shakes extensionId
  | issue requested _ rest => requested = extensionId ∧
      ∀ session, rest session =
        .rotate (.send (sessionReply session.token session.expiresAtMs) .next)
  | next | leave | handle _ | valid .. | rotate _ => False

section Arms

variable {extensionId tok : String} {value : Json} {time time' : Nat}

theorem Arm.Timely.mono {arm : Arm} (h : arm.Timely time) (hle : time ≤ time') :
    arm.Timely time' := by
  induction arm generalizing time time' with
  | next | leave | handle => trivial
  | send _ rest ih | rotate rest ih => exact ih h hle
  | now rest ih => exact fun t ht => h t (hle.trans ht)
  | purge _ rest ih => exact ⟨h.1.trans hle, ih h.2 hle⟩
  | valid _ _ rest ih => exact ⟨h.1.trans hle, fun ok => ih ok (h.2 ok) hle⟩
  | issue _ _ rest ih => exact ⟨h.1.trans hle, fun session => ih session (h.2 session) hle⟩

theorem timely_ifAuthed (sessionToken : Option String) (body : Handler Unit) :
    (ifAuthed sessionToken value body).Timely time := by
  unfold ifAuthed authed
  cases sessionToken with
  | none => trivial
  | some expected =>
    dsimp only
    split
    · intro t _
      refine ⟨Nat.le_refl t, Nat.le_refl t, fun ok => ?_⟩
      cases ok <;> trivial
    · trivial

theorem timely_handshake (debug : Bool) (allowedExtensionId : Option String) :
    (handshake debug allowedExtensionId value).Timely time := by
  intro t _
  dsimp only
  split
  · trivial
  split
  · trivial
  split
  · trivial
  split
  · trivial
  · exact ⟨Nat.le_refl t, Nat.le_refl t, fun _ => trivial⟩

theorem timely_dispatch (env : External) (debug : Bool)
    (allowedExtensionId sessionToken : Option String) (value : Json) :
    (dispatch env debug allowedExtensionId sessionToken value).Timely time := by
  unfold dispatch
  dsimp only
  split
  · exact timely_handshake debug allowedExtensionId
  all_goals first | exact timely_ifAuthed sessionToken _ | trivial

theorem trusts_ifAuthed (htoken : value.strOr "sessionToken" "" = tok) (body : Handler Unit) :
    (ifAuthed (some tok) value body).Trusts tok := by
  unfold ifAuthed authed
  dsimp only
  rw [if_pos htoken]
  exact fun t => ⟨rfl, trivial, rfl⟩

/-- A message of the session starts with its check. -/
theorem trusts_dispatch (env : External) (debug : Bool) (allowedExtensionId : Option String)
    (htoken : value.strOr "sessionToken" "" = tok)
    (htype : value.strOr "type" "" ≠ "auth.handshake.request") :
    (dispatch env debug allowedExtensionId (some tok) value).Trusts tok := by
  unfold dispatch
  dsimp only
  split
  · next heq => exact absurd heq htype
  all_goals first
    | exact trusts_ifAuthed htoken _
    | exact ⟨by simp [authError], trivial⟩

theorem length_le_utf8ByteSize (s : String) : s.length ≤ s.utf8ByteSize := by
  rw [← String.size_toByteArray, ← String.utf8Encode_toList, List.utf8Encode, List.size_toByteArray,
    ← String.length_toList]
  induction s.toList with
  | nil => exact Nat.le_refl 0
  | cons c cs ih =>
    rw [List.flatMap_cons, List.length_append, List.length_cons, String.length_utf8EncodeChar]
    have hpos := c.utf8Size_pos
    omega

theorem le_utf8ByteSize_hexEncode (u : BitVec 128) : 16 ≤ (hexEncode u).utf8ByteSize := by
  refine Nat.le_trans ?_ (length_le_utf8ByteSize _)
  have hpad : (List.leftpad 32 '0' (Nat.toDigits 16 u.toNat)).length = max 32 _ :=
    List.length_leftpad
  rw [hexEncode, String.length_ofList, hpad]
  omega

/-- The request of the extension is turned away for two reasons only. -/
theorem shakes_dispatch {env : External} {text : String} {nonce : BitVec 128} {requestedAtMs : Nat}
    (debug : Bool) (allowedExtensionId sessionToken : Option String) (hid : extensionId ≠ "")
    (hrequest : ReadsRequest env extensionId nonce requestedAtMs text)
    (hvalue : env.fromStr text = some value) :
    (dispatch env debug allowedExtensionId sessionToken value).Shakes extensionId := by
  obtain ⟨value', hvalue', htype, hversion, hext, hnonce, -⟩ := hrequest
  rw [hvalue, Option.some.injEq] at hvalue'
  subst hvalue'
  have hdispatch : dispatch env debug allowedExtensionId sessionToken value =
      handshake debug allowedExtensionId value := by
    unfold dispatch
    dsimp only
    rw [htype]
    rfl
  have hversions : versionsCompatible Client.protocolVersion protocolVersion = true := by
    decide +kernel
  have hsize := le_utf8ByteSize_hexEncode nonce
  rw [hdispatch]
  unfold handshake
  dsimp only
  rw [hversion, hext, hnonce, hversions]
  intro t
  change (if true = false then _ else _ : Arm).Shakes extensionId
  rw [if_neg (by decide), if_neg (by simp [hid]; omega)]
  split
  · exact ⟨⟨_, Or.inr rfl⟩, rfl⟩
  split
  · exact ⟨⟨_, Or.inl rfl⟩, rfl⟩
  · exact ⟨rfl, fun _ => rfl⟩

end Arms

/-! ## The companion's side -/

/-- A session is valid until a time. -/
def Server.Lives (s : Server) (extensionId tok : String) (expiresAtMs : Nat) : Prop :=
  s.now < expiresAtMs → ∃ session ∈ s.companion.sessions,
    session.token = tok ∧ session.expiresAtMs = expiresAtMs ∧ session.extensionId = extensionId

/-- The arms of all tasks know the time. -/
def Server.Timely (s : Server) : Prop :=
  ∀ (c : Nat) (conn : Connection) (value : Json) (arm : Arm), s.connections[c]? = some conn →
    conn.task = .handling value arm → arm.Timely s.now

/-- No session is lost before it expires. -/
structure Server.Follows (s s' : Server) : Prop where
  now : s.now ≤ s'.now
  sessions : ∀ session ∈ s.companion.sessions, s'.now < session.expiresAtMs →
    session ∈ s'.companion.sessions

/-- The request alone is on its way. -/
def IsFirst (env : External) (extensionId : String) (inbox : List String) : Prop :=
  ∃ text nonce requestedAtMs, inbox = [text] ∧
    ReadsRequest env extensionId nonce requestedAtMs text

/-- Where the connection of a socket of the extension is; `inbox` is what is on its way to it. -/
inductive Wired (env : External) (extensionId : String) (s : Server) (conn : Connection)
    (inbox : List String) : Prop
  /-- The request of the extension is awaited. -/
  | asked (htoken : conn.sessionToken = none) (hsent : conn.sent = [])
      (htask : conn.task = .listening)
      (hinbox : inbox = [] ∨ IsFirst env extensionId inbox)
  | shaking {value : Json} {arm : Arm} (htoken : conn.sessionToken = none) (hsent : conn.sent = [])
      (hinbox : inbox = []) (htask : conn.task = .handling value arm)
      (harm : arm.Shakes extensionId)
  | leaving {value message : Json} (htask : conn.task = .handling value .leave)
      (hsent : conn.sent = [message]) (hmessage : IsRefusal message)
  /-- The session is there, its reply is not sent yet. -/
  | granted {value : Json} {arm : Arm} {tok : String} {expiresAtMs : Nat}
      (htoken : conn.sessionToken = some tok) (hsent : conn.sent = []) (hinbox : inbox = [])
      (htask : conn.task = .handling value arm)
      (harm : arm = .rotate (.send (sessionReply tok expiresAtMs) .next) ∨
        arm = .send (sessionReply tok expiresAtMs) .next)
      (hlives : s.Lives extensionId tok expiresAtMs)
  | joined {tok : String} {expiresAtMs : Nat} {rest : List Json}
      (htoken : conn.sessionToken = some tok)
      (hsent : conn.sent = sessionReply tok expiresAtMs :: rest)
      (hinbox : ∀ text ∈ inbox, OfSession env tok text)
      (harm : ∀ value arm, conn.task = .handling value arm →
        arm.Trusts tok ∨ expiresAtMs ≤ s.now ∧ arm = .send authError .next)
      (hlives : s.Lives extensionId tok expiresAtMs)
  | ended (htask : conn.task = .returned) (hsent : ∀ message ∈ conn.sent.head?, IsRefusal message)

section Server

variable {env : External} {debug : Bool} {extensionId tok : String} {expiresAtMs c : Nat}
  {s s' : Server} {conn : Connection} {value : Json} {a : Answers} {arm : Arm}
  {inbox : List String}

theorem Server.Follows.of_eq (hnow : s'.now = s.now)
    (hsessions : s'.companion.sessions = s.companion.sessions) : s.Follows s' :=
  ⟨hnow.ge, fun _ h _ => hsessions ▸ h⟩

theorem Server.Lives.follows (h : s.Lives extensionId tok expiresAtMs) (hf : s.Follows s') :
    s'.Lives extensionId tok expiresAtMs := by
  intro hlt
  obtain ⟨session, hmem, htoken, hexpires, hid⟩ := h (Nat.lt_of_le_of_lt hf.now hlt)
  exact ⟨session, hf.sessions session hmem (hexpires ▸ hlt), htoken, hexpires, hid⟩

/-- What other tasks do leaves a connection where it is. -/
theorem Wired.follows (h : Wired env extensionId s conn inbox) (hf : s.Follows s') :
    Wired env extensionId s' conn inbox := by
  cases h with
  | asked htoken hsent htask hinbox => exact .asked htoken hsent htask hinbox
  | shaking htoken hsent hinbox htask harm => exact .shaking htoken hsent hinbox htask harm
  | leaving htask hsent hmessage => exact .leaving htask hsent hmessage
  | granted htoken hsent hinbox htask harm hlives =>
    exact .granted htoken hsent hinbox htask harm (hlives.follows hf)
  | joined htoken hsent hinbox harm hlives =>
    refine .joined htoken hsent hinbox (fun value arm htask => ?_) (hlives.follows hf)
    exact (harm value arm htask).imp_right fun h => ⟨h.1.trans hf.now, h.2⟩
  | ended htask hsent => exact .ended htask hsent

/-- The first message on a connection of the extension. -/
theorem Wired.head (h : Wired env extensionId s conn inbox) {message : Json}
    (hhead : conn.sent.head? = some message) :
    (∃ tok expiresAtMs rest, message = sessionReply tok expiresAtMs ∧
      conn.sent = sessionReply tok expiresAtMs :: rest) ∨ IsRefusal message := by
  cases h with
  | asked _ hsent | shaking _ hsent | granted _ hsent =>
    rw [hsent] at hhead
    cases hhead
  | leaving _ hsent hmessage =>
    rw [hsent] at hhead
    obtain rfl := Option.some.inj hhead
    exact Or.inr hmessage
  | joined htoken hsent =>
    rw [hsent] at hhead
    obtain rfl := Option.some.inj hhead
    exact Or.inl ⟨_, _, _, rfl, hsent⟩
  | ended _ hsent => exact Or.inr (hsent message hhead)

theorem ne_of_isRefusal {message : Json} (h : IsRefusal message) :
    message ≠ sessionReply tok expiresAtMs := by
  obtain ⟨text, rfl | rfl⟩ := h
  · simp [handshakeFailure, sessionReply, makeHandshakeResponse]
  · simp [handshakeFailure, sessionReply, makeHandshakeResponse]

theorem not_response_of_isRefusal {message : Json} (h : IsRefusal message) :
    Client.isAuthHandshakeResponse message = false := by
  obtain ⟨text, rfl | rfl⟩ := h
  · rfl
  · rfl

/-- The connection of a socket with the origin of the extension. -/
theorem Server.upgrade_wired (env : External) (extensionId : String) {origin : String}
    (horigin : s.companion.originAllowed debug origin = true) (t : String) :
    ∃ conn, (s.upgrade debug (some origin) t).connections[s.connections.length]? = some conn ∧
      ∀ inbox, inbox = [] ∨ IsFirst env extensionId inbox →
        Wired env extensionId (s.upgrade debug (some origin) t) conn inbox := by
  have hall : (some origin).all (s.companion.originAllowed debug) = true := horigin
  unfold upgrade
  rw [if_pos hall]
  refine ⟨_, List.getElem?_concat_length, fun inbox hinbox => ?_⟩
  split
  · exact .asked rfl rfl rfl hinbox
  · refine .ended rfl ?_
    rintro _ ⟨⟩
    exact ⟨_, Or.inl rfl⟩

/-- A connection whose first message is the reply of a session. -/
theorem Wired.of_reply (h : Wired env extensionId s conn inbox) {rest : List Json}
    (hreply : conn.sent = sessionReply tok expiresAtMs :: rest) :
    conn.sessionToken = some tok ∧ (∀ text ∈ inbox, OfSession env tok text) ∧
      (∀ value arm, conn.task = .handling value arm →
        arm.Trusts tok ∨ expiresAtMs ≤ s.now ∧ arm = .send authError .next) ∧
      s.Lives extensionId tok expiresAtMs := by
  cases h with
  | asked _ hsent | shaking _ hsent | granted _ hsent =>
    rw [hsent] at hreply
    cases hreply
  | leaving _ hsent hmessage =>
    rw [hsent] at hreply
    exact absurd (List.cons.inj hreply).1 (ne_of_isRefusal hmessage)
  | joined htoken hsent hinbox harm hlives =>
    rw [hsent] at hreply
    have hsame := (List.cons.inj hreply).1
    simp only [sessionReply, makeHandshakeResponse, Json.nat, Json.obj.injEq, List.cons.injEq,
      Prod.mk.injEq, Json.str.injEq, Json.int.injEq, Nat.cast_inj, true_and, and_true] at hsame
    obtain ⟨rfl, rfl⟩ := hsame
    exact ⟨htoken, hinbox, harm, hlives⟩
  | ended _ hsent =>
    rw [hreply] at hsent
    exact absurd rfl (ne_of_isRefusal (hsent _ rfl))

/-- What an action of a task does. -/
theorem Server.act_spec (htimely : arm.Timely s.now) (hs : s.act c conn value a arm = some s') :
    s'.now = s.now ∧ s.Follows s' ∧ ∃ conn', s'.connections = s.connections.set c conn' ∧
      conn.sent <+: conn'.sent ∧
      ∀ value' arm', conn'.task = .handling value' arm' → arm'.Timely s.now := by
  cases arm with
  | next | leave =>
    obtain rfl := Option.some.inj hs
    exact ⟨rfl, .of_eq rfl rfl, _, rfl, List.prefix_refl _, by rintro _ _ ⟨⟩⟩
  | send message rest =>
    obtain rfl := Option.some.inj hs
    refine ⟨rfl, .of_eq rfl rfl, _, rfl, List.prefix_append _ _, ?_⟩
    rintro _ _ ⟨⟩
    exact htimely
  | now rest =>
    obtain rfl := Option.some.inj hs
    refine ⟨rfl, .of_eq rfl rfl, _, rfl, List.prefix_refl _, ?_⟩
    rintro _ _ ⟨⟩
    exact htimely s.now (Nat.le_refl _)
  | purge nowMs rest =>
    obtain rfl := Option.some.inj hs
    refine ⟨rfl, ⟨Nat.le_refl _, fun session hmem hlt => ?_⟩, _, rfl, List.prefix_refl _, ?_⟩
    · exact List.mem_filter.2 ⟨hmem, decide_eq_true (Nat.lt_of_le_of_lt htimely.1 hlt)⟩
    · rintro _ _ ⟨⟩
      exact htimely.2
  | valid token nowMs rest =>
    obtain rfl := Option.some.inj hs
    refine ⟨rfl, .of_eq rfl rfl, _, rfl, List.prefix_refl _, ?_⟩
    rintro _ _ ⟨⟩
    exact htimely.2 _
  | issue requested nowMs rest =>
    simp only [act] at hs
    split at hs
    · cases hs
    · obtain rfl := Option.some.inj hs
      refine ⟨rfl, ⟨Nat.le_refl _, fun session hmem _ => ?_⟩, _, rfl, List.prefix_refl _, ?_⟩
      · exact List.mem_append_left _ hmem
      · rintro _ _ ⟨⟩
        exact htimely.2 _
  | rotate rest =>
    simp only [act] at hs
    split at hs
    · cases hs
    · obtain rfl := Option.some.inj hs
      refine ⟨rfl, ⟨Nat.le_refl _, fun session hmem _ => hmem⟩, _, rfl, List.prefix_refl _, ?_⟩
      rintro _ _ ⟨⟩
      exact htimely
  | handle body =>
    obtain rfl := Option.some.inj hs
    cases body with
    | pure _ | panic =>
      exact ⟨rfl, .of_eq rfl rfl, _, rfl, List.prefix_refl _, by rintro _ _ ⟨⟩⟩
    | send message next =>
      refine ⟨rfl, .of_eq rfl rfl, _, rfl, List.prefix_append _ _, ?_⟩
      rintro _ _ ⟨⟩
      trivial
    | now next | ask next | fetch url next =>
      refine ⟨rfl, .of_eq rfl rfl, _, rfl, List.prefix_refl _, ?_⟩
      rintro _ _ ⟨⟩
      trivial
    | lock update next =>
      refine ⟨rfl, ⟨Nat.le_refl _, fun session hmem _ => hmem⟩, _, rfl, List.prefix_refl _, ?_⟩
      rintro _ _ ⟨⟩
      trivial

/-- A session that is valid is found. -/
theorem sessionValid_of_lives (h : s.Lives extensionId tok expiresAtMs) (hlt : s.now < expiresAtMs)
    {nowMs : Nat} (hle : nowMs ≤ s.now) : s.companion.sessionValid tok nowMs = true := by
  obtain ⟨session, hmem, htoken, hexpires, -⟩ := h hlt
  refine List.any_eq_true.2 ⟨session, hmem, ?_⟩
  rw [Bool.and_eq_true, decide_eq_true_eq, decide_eq_true_eq, hexpires]
  exact ⟨htoken, Nat.lt_of_le_of_lt hle hlt⟩

/-- A task of a session goes on. -/
theorem joined_goOn (hconn : s.connections[c]? = some conn) {rest : List Json}
    (htoken : conn.sessionToken = some tok)
    (hinbox : ∀ text ∈ inbox, OfSession env tok text) {sent : List Json} {task : Task}
    (hsent : sent = sessionReply tok expiresAtMs :: rest)
    (hsame : s'.connections = s.connections) (hlives : s'.Lives extensionId tok expiresAtMs)
    (harm : ∀ value arm, task = .handling value arm →
      arm.Trusts tok ∨ expiresAtMs ≤ s'.now ∧ arm = .send authError .next) :
    ∃ conn', (s'.goOn c { conn with sent } task).connections[c]? = some conn' ∧
      Wired env extensionId (s'.goOn c { conn with sent } task) conn' inbox := by
  have hlt : c < s'.connections.length := hsame ▸ (List.getElem?_eq_some_iff.1 hconn).1
  exact ⟨_, List.getElem?_set_self hlt, .joined htoken hsent hinbox harm hlives⟩

/-- An action of the task of a session. -/
theorem Wired.act_joined (hconn : s.connections[c]? = some conn)
    (htask : conn.task = .handling value arm) (htimely : arm.Timely s.now) {rest : List Json}
    (htoken : conn.sessionToken = some tok)
    (hsent : conn.sent = sessionReply tok expiresAtMs :: rest)
    (hinbox : ∀ text ∈ inbox, OfSession env tok text)
    (harm : arm.Trusts tok ∨ expiresAtMs ≤ s.now ∧ arm = .send authError .next)
    (hlives : s.Lives extensionId tok expiresAtMs) (hs : s.act c conn value a arm = some s') :
    ∃ conn', s'.connections[c]? = some conn' ∧ Wired env extensionId s' conn' inbox := by
  have hfollows := (Server.act_spec htimely hs).2.1
  have hlives' := hlives.follows hfollows
  have happend (message : Json) : conn.sent ++ [message] =
      sessionReply tok expiresAtMs :: (rest ++ [message]) := by
    rw [hsent, List.cons_append]
  cases arm with
  | next | leave =>
    obtain rfl := Option.some.inj hs
    exact joined_goOn hconn htoken hinbox hsent rfl hlives (by rintro _ _ ⟨⟩)
  | send message arm =>
    obtain rfl := Option.some.inj hs
    refine joined_goOn hconn htoken hinbox (happend message) rfl hlives ?_
    rintro _ _ ⟨⟩
    rcases harm with harm | ⟨-, harm⟩
    · exact Or.inl harm.2
    · obtain ⟨rfl, rfl⟩ := Arm.send.inj harm
      exact Or.inl trivial
  | now arm =>
    obtain rfl := Option.some.inj hs
    refine joined_goOn hconn htoken hinbox hsent rfl hlives ?_
    rintro _ _ ⟨⟩
    rcases harm with harm | ⟨-, harm⟩
    · exact Or.inl (harm _)
    · cases harm
  | purge nowMs arm =>
    obtain rfl := Option.some.inj hs
    refine joined_goOn hconn htoken hinbox hsent rfl hlives' ?_
    rintro _ _ ⟨⟩
    rcases harm with harm | ⟨-, harm⟩
    · exact Or.inl harm
    · cases harm
  | valid token nowMs arm =>
    obtain rfl := Option.some.inj hs
    refine joined_goOn hconn htoken hinbox hsent rfl hlives ?_
    rintro _ _ ⟨⟩
    rcases harm with ⟨rfl, htrue, hfalse⟩ | ⟨-, harm⟩
    · cases hvalid : s.companion.sessionValid token nowMs with
      | true => exact Or.inl htrue
      | false =>
        refine Or.inr ⟨Nat.le_of_not_lt fun hlt => ?_, hfalse⟩
        rw [sessionValid_of_lives hlives hlt htimely.1] at hvalid
        cases hvalid
    · cases harm
  | issue | rotate =>
    rcases harm with harm | ⟨-, harm⟩
    · exact harm.elim
    · cases harm
  | handle body =>
    obtain rfl := Option.some.inj hs
    cases body with
    | pure _ | panic =>
      exact joined_goOn hconn htoken hinbox hsent rfl hlives (by rintro _ _ ⟨⟩)
    | send message next =>
      refine joined_goOn hconn htoken hinbox (happend message) rfl hlives ?_
      rintro _ _ ⟨⟩
      exact Or.inl trivial
    | now next | ask next | fetch url next =>
      refine joined_goOn hconn htoken hinbox hsent rfl hlives ?_
      rintro _ _ ⟨⟩
      exact Or.inl trivial
    | lock update next =>
      refine joined_goOn hconn htoken hinbox hsent rfl hlives' ?_
      rintro _ _ ⟨⟩
      exact Or.inl trivial

/-- An action of the task of the handshake. -/
theorem Wired.act_shaking (hconn : s.connections[c]? = some conn)
    (htoken : conn.sessionToken = none) (hsent : conn.sent = []) (harm : arm.Shakes extensionId)
    (hs : s.act c conn value a arm = some s') :
    ∃ conn', s'.connections[c]? = some conn' ∧ Wired env extensionId s' conn' [] := by
  have hlt : c < s.connections.length := (List.getElem?_eq_some_iff.1 hconn).1
  cases arm with
  | send message rest =>
    obtain rfl := Option.some.inj hs
    obtain ⟨hmessage, rfl⟩ := harm
    refine ⟨_, List.getElem?_set_self hlt, .leaving rfl ?_ hmessage⟩
    rw [hsent, List.nil_append]
  | now rest =>
    obtain rfl := Option.some.inj hs
    exact ⟨_, List.getElem?_set_self hlt, .shaking htoken hsent rfl rfl (harm _)⟩
  | purge nowMs rest =>
    obtain rfl := Option.some.inj hs
    exact ⟨_, List.getElem?_set_self hlt, .shaking htoken hsent rfl rfl harm⟩
  | issue requested nowMs rest =>
    simp only [Server.act] at hs
    split at hs
    · cases hs
    · obtain rfl := Option.some.inj hs
      obtain ⟨rfl, hrest⟩ := harm
      refine ⟨_, List.getElem?_set_self hlt, .granted rfl hsent rfl rfl (Or.inl (hrest _)) ?_⟩
      exact fun _ => ⟨_, List.mem_append_right _ (List.mem_singleton_self _), rfl, rfl, rfl⟩
  | next | leave | handle | valid | rotate => cases harm

/-- An action of the task of a connection of the extension. -/
theorem Wired.act (h : Wired env extensionId s conn inbox)
    (hconn : s.connections[c]? = some conn) (htask : conn.task = .handling value arm)
    (htimely : arm.Timely s.now) (hs : s.act c conn value a arm = some s') :
    ∃ conn', s'.connections[c]? = some conn' ∧ Wired env extensionId s' conn' inbox := by
  have hlt : c < s.connections.length := (List.getElem?_eq_some_iff.1 hconn).1
  cases h with
  | asked _ _ htask' =>
    rw [htask'] at htask
    cases htask
  | shaking htoken hsent hinbox htask' harm =>
    obtain ⟨rfl, rfl⟩ := Task.handling.inj (htask'.symm.trans htask)
    subst hinbox
    exact Wired.act_shaking hconn htoken hsent harm hs
  | leaving htask' hsent hmessage =>
    obtain ⟨rfl, rfl⟩ := Task.handling.inj (htask'.symm.trans htask)
    obtain rfl := Option.some.inj hs
    refine ⟨_, List.getElem?_set_self hlt, .ended rfl fun message hhead => ?_⟩
    rw [hsent] at hhead
    exact Option.some.inj hhead ▸ hmessage
  | @granted _ _ tok expiresAtMs htoken hsent hinbox htask' harm hlives =>
    obtain ⟨rfl, rfl⟩ := Task.handling.inj (htask'.symm.trans htask)
    subst hinbox
    rcases harm with rfl | rfl
    · simp only [Server.act] at hs
      split at hs
      · cases hs
      · obtain rfl := Option.some.inj hs
        exact ⟨_, List.getElem?_set_self hlt,
          .granted htoken hsent rfl rfl (Or.inr rfl) (hlives.follows (.of_eq rfl rfl))⟩
    · obtain rfl := Option.some.inj hs
      have hreply : conn.sent ++ [sessionReply tok expiresAtMs] =
          sessionReply tok expiresAtMs :: [] := by
        rw [hsent, List.nil_append]
      refine ⟨_, List.getElem?_set_self hlt, .joined htoken hreply (by simp) ?_ hlives⟩
      rintro _ _ ⟨⟩
      exact Or.inl trivial
  | joined htoken hsent hinbox harm hlives =>
    exact Wired.act_joined hconn htask htimely htoken hsent hinbox (harm _ _ htask) hlives hs
  | ended htask' =>
    rw [htask'] at htask
    cases htask

/-- The next text of the extension arrives. -/
theorem Wired.receive {text : String} (h : Wired env extensionId s conn (text :: inbox))
    (hid : extensionId ≠ "") (htask : conn.task = .listening) :
    Wired env extensionId s (conn.receive env debug s.companion (.text text)) inbox := by
  cases h with
  | asked htoken hsent _ hinbox =>
    obtain ⟨text', nonce, requestedAtMs, heq, hrequest⟩ := hinbox.resolve_left (by simp)
    obtain ⟨rfl, rfl⟩ := List.cons.inj heq
    obtain ⟨value, hvalue, -⟩ := id hrequest
    have hshakes := shakes_dispatch debug
      s.companion.allowedExtensionId conn.sessionToken hid hrequest hvalue
    unfold Connection.receive
    dsimp only
    rw [hvalue]
    exact .shaking htoken hsent rfl rfl hshakes
  | shaking _ _ _ htask' | leaving htask' | granted _ _ _ htask' | ended htask' =>
    rw [htask] at htask'
    cases htask'
  | joined htoken hsent hinbox _ hlives =>
    obtain ⟨hof, hinbox⟩ := List.forall_mem_cons.1 hinbox
    obtain ⟨value, hvalue, hprovided, htype⟩ := hof
    unfold Connection.receive
    dsimp only
    rw [hvalue]
    refine .joined htoken hsent hinbox ?_ hlives
    rintro _ _ ⟨⟩
    rw [htoken]
    exact Or.inl (trusts_dispatch env debug _ hprovided htype)

/-- The socket ends, or a ping arrives. -/
theorem Wired.frame (h : Wired env extensionId s conn inbox) (htask : conn.task = .listening)
    {frame : Frame} (hframe : ∀ text, frame ≠ .text text) :
    Wired env extensionId s (conn.receive env debug s.companion frame) inbox := by
  have hended : Wired env extensionId s { conn with task := .returned } inbox := by
    cases h with
    | asked _ hsent | shaking _ hsent | granted _ hsent => exact .ended rfl (by simp [hsent])
    | leaving htask' | ended htask' =>
      rw [htask] at htask'
      cases htask'
    | joined htoken hsent hinbox _ hlives =>
      exact .joined htoken hsent hinbox (by rintro _ _ ⟨⟩) hlives
  cases frame with
  | text text => exact absurd rfl (hframe text)
  | close | ended => exact hended
  | ping | pong => exact h

theorem prefix_receive (env : External) (debug : Bool) (companion : CompanionState)
    (conn : Connection) (frame : Frame) :
    conn.sent <+: (conn.receive env debug companion frame).sent := by
  cases frame with
  | text text =>
    unfold Connection.receive
    dsimp only
    split
    · exact List.prefix_refl _
    · exact List.prefix_append _ _
  | close | ended | ping | pong => exact List.prefix_refl _

/-- What an event of the companion does to a connection. -/
theorem Server.step_spec (extensionId : String) {e : ServerEvent} (hT : s.Timely)
    (he : ∀ ms, e ≠ .elapse ms) (hs : s.step env debug e = some s') :
    s'.Timely ∧ s'.now = s.now ∧ s.Follows s' ∧
      ∀ (c : Nat) (conn : Connection), s.connections[c]? = some conn →
        ∃ conn', s'.connections[c]? = some conn' ∧ conn.sent <+: conn'.sent ∧
          ∀ inbox, Wired env extensionId s conn inbox →
            (∀ text, e ≠ .receive c (.text text)) → Wired env extensionId s' conn' inbox := by
  rcases Server.step_cases hs with ⟨origin, t, rfl, rfl⟩ |
    ⟨d, frame, conn, rfl, hconn, htask, rfl⟩ |
    ⟨d, a, conn, value, arm, rfl, hconn, htask, hact⟩ | ⟨now, rfl, rfl | ⟨ms, rfl⟩⟩
  · rcases Server.upgrade_cases (s := s) debug origin t with heq | ⟨conn, heq, -, -, htask⟩
    · rw [heq]
      exact ⟨hT, rfl, .of_eq rfl rfl, fun c conn hconn =>
        ⟨conn, hconn, List.prefix_refl _, fun inbox h _ => h⟩⟩
    · rw [heq]
      refine ⟨fun c conn' value arm hd hhandling => ?_, rfl, .of_eq rfl rfl, fun c conn' hd => ?_⟩
      · rcases push_connection hd with ⟨rfl, rfl⟩ | hold
        · rcases htask with ⟨hlisten, -⟩ | hreturned
          · rw [hlisten] at hhandling
            cases hhandling
          · rw [hreturned] at hhandling
            cases hhandling
        · exact hT c conn' value arm hold hhandling
      · have hlt := (List.getElem?_eq_some_iff.1 hd).1
        refine ⟨conn', ?_, List.prefix_refl _, fun inbox h _ => h.follows (.of_eq rfl rfl)⟩
        exact (List.getElem?_append_left hlt).trans hd
  · have hlt := (List.getElem?_eq_some_iff.1 hconn).1
    refine ⟨fun c conn' value arm hd hhandling => ?_, rfl, .of_eq rfl rfl, fun c conn' hd => ?_⟩
    · rcases set_connection hd with ⟨rfl, rfl⟩ | ⟨-, hold⟩
      · obtain ⟨-, -, harm⟩ := Connection.receive_spec env debug s.companion htask frame
        rw [harm value arm hhandling]
        exact timely_dispatch ..
      · exact hT c conn' value arm hold hhandling
    · by_cases hdc : d = c
      · subst hdc
        obtain rfl := Option.some.inj (hconn.symm.trans hd)
        refine ⟨_, List.getElem?_set_self hlt, prefix_receive .., fun inbox h htext => ?_⟩
        refine Wired.follows (h.frame htask fun text hframe => ?_) (.of_eq rfl rfl)
        exact htext text (by rw [hframe])
      · refine ⟨conn', ?_, List.prefix_refl _, fun inbox h _ => h.follows (.of_eq rfl rfl)⟩
        exact (List.getElem?_set_ne hdc).trans hd
  · have hlt := (List.getElem?_eq_some_iff.1 hconn).1
    have htimely := hT d conn value arm hconn htask
    obtain ⟨hnow, hfollows, conn', hset, hprefix, harm⟩ := act_spec htimely hact
    refine ⟨fun c conn₁ value₁ arm₁ hd hhandling => ?_, hnow, hfollows, fun c conn₁ hd => ?_⟩
    · rw [hset] at hd
      rw [hnow]
      rcases set_connection hd with ⟨rfl, rfl⟩ | ⟨-, hold⟩
      · exact harm value₁ arm₁ hhandling
      · exact hT c conn₁ value₁ arm₁ hold hhandling
    · by_cases hdc : d = c
      · subst hdc
        obtain rfl := Option.some.inj (hconn.symm.trans hd)
        have hself : s'.connections[d]? = some conn' := by
          rw [hset]
          exact List.getElem?_set_self hlt
        refine ⟨conn', hself, hprefix, fun inbox h _ => ?_⟩
        obtain ⟨conn'', hconn'', hwired⟩ := h.act hconn htask htimely hact
        exact Option.some.inj (hconn''.symm.trans hself) ▸ hwired
      · refine ⟨conn₁, ?_, List.prefix_refl _, fun inbox h _ => h.follows hfollows⟩
        rw [hset]
        exact (List.getElem?_set_ne hdc).trans hd
  · obtain rfl : now = s.now := by
      have heq : some s = some { s with now } := hs
      exact congrArg Server.now (Option.some.inj heq).symm
    exact ⟨hT, rfl, .of_eq rfl rfl, fun c conn hconn =>
      ⟨conn, hconn, List.prefix_refl _, fun inbox h _ => h⟩⟩
  · exact absurd rfl (he ms)

end Server

end LanguageLlm.Desktop
