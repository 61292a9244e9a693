import LanguageLlm.Desktop.AuthGate

/-!
# How often a bootstrap token is used

A connection is upgraded with the bootstrap token of the time, and `rotate_bootstrap_token` replaces
the token when a handshake was accepted. The token is not looked at again between the two, so a
handshake may be accepted on a token that was used before. `single_use_iff` says exactly when none
is.
-/

namespace LanguageLlm.Desktop

open Lib

/-- The bootstrap token that an accepted handshake relies on: its connection was upgraded with it.
-/
def reliedOn (f : Fired Server ServerEvent) : Option String :=
  (acceptedBy f).bind fun a => f.pre.connections[a.conn]?.map Connection.t

/-- The handshakes that were accepted on the strength of a bootstrap token. -/
def issuedOn (b : String) (h : List (Fired Server ServerEvent)) : List Accepted :=
  h.filterMap fun f => if reliedOn f = some b then acceptedBy f else none

/-- A task is about to rotate the bootstrap token. -/
def Task.rotates : Task → Bool
  | .handling _ (.rotate _) => true
  | _ => false

/-- A handshake is accepted only on the current bootstrap token, and not while another handshake has
issued its session but not rotated the token yet. -/
def Current (f : Fired Server ServerEvent) : Prop :=
  ∀ b ∈ reliedOn f, b = f.pre.companion.bootstrapToken ∧
    ∀ conn ∈ f.pre.connections, conn.task.rotates = false

instance (f : Fired Server ServerEvent) : Decidable (Current f) :=
  inferInstanceAs (Decidable (∀ b ∈ reliedOn f, _))

/-! ## The arms of a handshake -/

/-- A task at this arm rotates the bootstrap token next. -/
def Arm.rotates : Arm → Bool
  | .rotate _ => true
  | _ => false

/-- The bootstrap token is rotated right after a session was issued, and only then. -/
def Arm.Ordered : Arm → Prop
  | .next | .leave | .handle _ => True
  | .send _ rest | .purge _ rest | .rotate rest => rest.rotates = false ∧ Ordered rest
  | .now rest => ∀ t, (rest t).rotates = false ∧ Ordered (rest t)
  | .valid _ _ rest => ∀ ok, (rest ok).rotates = false ∧ Ordered (rest ok)
  | .issue _ _ rest => ∀ session, (rest session).rotates = true ∧ Ordered (rest session)

theorem ordered_ifAuthed (token : Option String) (value : Json) (body : Handler Unit) :
    (ifAuthed token value body).rotates = false ∧ (ifAuthed token value body).Ordered := by
  unfold ifAuthed authed
  cases token with
  | none => exact ⟨rfl, rfl, trivial⟩
  | some expected =>
    dsimp only
    split
    · refine ⟨rfl, fun now => ⟨rfl, rfl, fun ok => ?_⟩⟩
      cases ok with
      | true => exact ⟨rfl, trivial⟩
      | false => exact ⟨rfl, rfl, trivial⟩
    · exact ⟨rfl, rfl, trivial⟩

theorem ordered_handshake (debug : Bool) (allowedExtensionId : Option String) (value : Json) :
    (handshake debug allowedExtensionId value).rotates = false ∧
      (handshake debug allowedExtensionId value).Ordered := by
  refine ⟨rfl, fun now => ?_⟩
  dsimp only
  split
  · exact ⟨rfl, rfl, trivial⟩
  · split
    · exact ⟨rfl, rfl, trivial⟩
    · split
      · exact ⟨rfl, rfl, trivial⟩
      · split
        · exact ⟨rfl, rfl, trivial⟩
        · exact ⟨rfl, rfl, fun session => ⟨rfl, rfl, rfl, trivial⟩⟩

theorem ordered_dispatch (env : External) (debug : Bool) (allowedExtensionId : Option String)
    (token : Option String) (value : Json) :
    (dispatch env debug allowedExtensionId token value).rotates = false ∧
      (dispatch env debug allowedExtensionId token value).Ordered := by
  unfold dispatch
  dsimp only
  split
  · exact ordered_handshake debug allowedExtensionId value
  all_goals first
    | exact ordered_ifAuthed token value _
    | exact ⟨rfl, rfl, trivial⟩

/-! ## The tokens that were used -/

/-- A handshake was accepted on the strength of the token. -/
def Used (h : List (Fired Server ServerEvent)) (b : String) : Prop := ∃ f ∈ h, reliedOn f = some b

/-- The task of a connection is about to rotate the bootstrap token. -/
def Rotating (conns : List Connection) (c : Nat) : Prop :=
  ∃ conn, conns[c]? = some conn ∧ conn.task.rotates = true

/-- A connection that has not returned was upgraded with the current token or with a used one. -/
structure OnToken (h : List (Fired Server ServerEvent)) (current : String) (conn : Connection) :
    Prop where
  live : conn.task ≠ .returned → conn.t = current ∨ Used h conn.t
  ordered : ∀ value arm, conn.task = .handling value arm → arm.Ordered

/-- What is known of the tokens as long as every handshake was accepted on the current one: it was
used exactly while a task is about to rotate it. -/
structure Tokens (h : List (Fired Server ServerEvent)) (s : Server) : Prop where
  current : s.companion.bootstrapToken ∈ s.generated
  generated : ∀ b, Used h b → b ∈ s.generated
  rotating : Used h s.companion.bootstrapToken ↔ ∃ c, Rotating s.connections c
  alone : ∀ c d, Rotating s.connections c → Rotating s.connections d → c = d
  connections : ∀ (c : Nat) conn, s.connections[c]? = some conn →
    OnToken h s.companion.bootstrapToken conn

section Invariant

variable {h : List (Fired Server ServerEvent)} {f : Fired Server ServerEvent} {s s' : Server}
  {c d : Nat} {conn : Connection} {b : String}

theorem used_cons : Used (f :: h) b ↔ reliedOn f = some b ∨ Used h b := by simp [Used]

theorem used_of_none (hf : reliedOn f = none) : Used (f :: h) b ↔ Used h b := by
  simp [used_cons, hf]

theorem reliedOn_of_none (hf : acceptedBy f = none) : reliedOn f = none := by simp [reliedOn, hf]

theorem rotating_set {conns : List Connection} {conn conn' : Connection}
    (hconn : conns[c]? = some conn) :
    Rotating (conns.set c conn') d ↔
      d = c ∧ conn'.task.rotates = true ∨ d ≠ c ∧ Rotating conns d := by
  have hlt : c < conns.length := (List.getElem?_eq_some_iff.1 hconn).1
  by_cases hdc : d = c
  · subst hdc
    simp [Rotating, hlt]
  · simp [Rotating, hdc, Ne.symm hdc]

/-- A task that is not about to rotate goes on to where it is not either. -/
theorem rotating_set_of_not {conns : List Connection} {conn conn' : Connection}
    (hconn : conns[c]? = some conn) (hrotates : conn.task.rotates = false)
    (hrotates' : conn'.task.rotates = false) :
    Rotating (conns.set c conn') d ↔ Rotating conns d := by
  rw [rotating_set hconn]
  constructor
  · rintro (⟨_, hset⟩ | ⟨_, hold⟩)
    · rw [hrotates'] at hset
      cases hset
    · exact hold
  · intro hold
    refine Or.inr ⟨?_, hold⟩
    rintro rfl
    obtain ⟨x, hx, hxr⟩ := hold
    rw [hconn, Option.some.injEq] at hx
    rw [← hx, hrotates] at hxr
    cases hxr

theorem rotating_push {conns : List Connection} (hconn : conn.task.rotates = false) :
    Rotating (conns ++ [conn]) d ↔ Rotating conns d := by
  constructor
  · rintro ⟨x, hx, hrotates⟩
    rcases Server.push_connection hx with ⟨_, rfl⟩ | hx
    · rw [hconn] at hrotates
      cases hrotates
    · exact ⟨x, hx, hrotates⟩
  · rintro ⟨x, hx, hrotates⟩
    exact ⟨x, by rw [List.getElem?_append_left (List.getElem?_eq_some_iff.1 hx).1, hx], hrotates⟩

theorem not_rotating : (∀ c, ¬ Rotating s.connections c) ↔
    ∀ conn ∈ s.connections, conn.task.rotates = false := by
  constructor
  · intro hnone conn hconn
    obtain ⟨c, hc⟩ := List.mem_iff_getElem?.1 hconn
    rw [← Bool.not_eq_true]
    exact fun hrotates => hnone c ⟨conn, hc, hrotates⟩
  · rintro hall c ⟨conn, hc, hrotates⟩
    rw [hall conn (List.mem_of_getElem? hc)] at hrotates
    cases hrotates

theorem OnToken.cons {current : String} (hc : OnToken h current conn) :
    OnToken (f :: h) current conn where
  live hlive := (hc.live hlive).imp_right fun hu => used_cons.2 (Or.inr hu)
  ordered := hc.ordered

/-- A step that uses no token and leaves the tokens and the tasks that are about to rotate. -/
theorem Tokens.cons (hT : Tokens h s) (hf : reliedOn f = none)
    (htoken : s'.companion.bootstrapToken = s.companion.bootstrapToken)
    (hgenerated : s'.generated = s.generated)
    (hrotating : ∀ d, Rotating s'.connections d ↔ Rotating s.connections d)
    (hconns : ∀ (d : Nat) conn, s'.connections[d]? = some conn →
      OnToken h s.companion.bootstrapToken conn ∨ s.connections[d]? = some conn) :
    Tokens (f :: h) s' where
  current := by rw [htoken, hgenerated]; exact hT.current
  generated b hb := hgenerated ▸ hT.generated b ((used_of_none hf).1 hb)
  rotating := by rw [htoken, used_of_none hf, hT.rotating]; exact (exists_congr hrotating).symm
  alone c d hc hd := hT.alone c d ((hrotating c).1 hc) ((hrotating d).1 hd)
  connections d conn hd := by
    rw [htoken]
    rcases hconns d conn hd with hnew | hold
    · exact hnew.cons
    · exact (hT.connections d conn hold).cons

/-- The task of a connection goes on, without using or rotating a token. -/
theorem Tokens.goOn (hT : Tokens h s) (hconn : s.connections[c]? = some conn)
    (hlive : conn.task ≠ .returned) (hrotates : conn.task.rotates = false)
    (hf : reliedOn f = none) (t : Server) (hconns : t.connections = s.connections)
    (htoken : t.companion.bootstrapToken = s.companion.bootstrapToken)
    (hgenerated : t.generated = s.generated) {task : Task} {sent : List Json}
    (htask : task.rotates = false)
    (harm : ∀ value arm, task = .handling value arm → arm.Ordered) :
    Tokens (f :: h) (t.goOn c { conn with sent } task) := by
  apply Tokens.cons hT hf
  · exact htoken
  · exact hgenerated
  · intro d
    simp only [Server.goOn, hconns]
    exact rotating_set_of_not hconn hrotates htask
  · intro d conn' hd
    rw [Server.goOn, hconns] at hd
    rcases Server.set_connection hd with ⟨_, rfl⟩ | ⟨_, hold⟩
    · exact Or.inl ⟨fun _ => (hT.connections c conn hconn).live hlive, harm⟩
    · exact Or.inr hold

theorem rotates_handling {value : Json} {arm : Arm} :
    (Task.handling value arm).rotates = arm.rotates := by
  cases arm <;> rfl

/-- The task goes on from one arm to the next, and rotates at neither. -/
theorem Tokens.goOnArm (hT : Tokens h s) (hconn : s.connections[c]? = some conn) {value : Json}
    {arm : Arm} (htask : conn.task = .handling value arm) (harm : arm.rotates = false)
    (hf : reliedOn f = none) (t : Server) (hconns : t.connections = s.connections)
    (htoken : t.companion.bootstrapToken = s.companion.bootstrapToken)
    (hgenerated : t.generated = s.generated) {rest : Arm} {sent : List Json}
    (hrest : rest.rotates = false ∧ rest.Ordered) :
    Tokens (f :: h) (t.goOn c { conn with sent } (.handling value rest)) := by
  apply hT.goOn hconn _ _ hf t hconns htoken hgenerated
  · exact rotates_handling.trans hrest.1
  · rintro _ _ ⟨⟩
    exact hrest.2
  · simp [htask]
  · rw [htask, rotates_handling, harm]

/-- A session is issued on the strength of a token that was not used. -/
theorem Tokens.issue (hT : Tokens h s) (hconn : s.connections[c]? = some conn)
    (hf : reliedOn f = some conn.t) (hcurrent : conn.t = s.companion.bootstrapToken)
    (hnone : ∀ d, ¬ Rotating s.connections d) {token : String} {x : Session} {value : Json}
    {arm : Arm} (hrotates : arm.rotates = true) (hordered : arm.Ordered) :
    Tokens (f :: h)
      ({ s with
        companion := s.companion.pushSession x
        generated := token :: s.generated }.goOn c { conn with sessionToken := some token }
        (.handling value arm)) := by
  have hrot : ∀ d, Rotating (s.connections.set c
      { conn with sessionToken := some token, task := .handling value arm }) d ↔ d = c := by
    intro d
    rw [rotating_set hconn]
    constructor
    · rintro (⟨hdc, _⟩ | ⟨_, hold⟩)
      · exact hdc
      · exact absurd hold (hnone d)
    · rintro rfl
      refine Or.inl ⟨rfl, ?_⟩
      cases arm <;> first | rfl | cases hrotates
  have hused : Used (f :: h) s.companion.bootstrapToken := used_cons.2 (Or.inl (hcurrent ▸ hf))
  exact {
    current := List.mem_cons_of_mem _ hT.current
    generated := fun b hb => by
      apply List.mem_cons_of_mem
      rcases used_cons.1 hb with hnew | hold
      · rw [hf, Option.some.injEq] at hnew
        rw [← hnew, hcurrent]
        exact hT.current
      · exact hT.generated b hold
    rotating := iff_of_true hused ⟨c, (hrot c).2 rfl⟩
    alone := fun d d' hd hd' => ((hrot d).1 hd).trans ((hrot d').1 hd').symm
    connections := fun d conn' hd => by
      rcases Server.set_connection hd with ⟨_, rfl⟩ | ⟨_, hold⟩
      · refine ⟨fun _ => Or.inl hcurrent, ?_⟩
        rintro _ _ ⟨⟩
        exact hordered
      · exact (hT.connections d conn' hold).cons }

/-- The token is rotated: the old one was used, and the new one was not. -/
theorem Tokens.rotate (hT : Tokens h s) (hconn : s.connections[c]? = some conn)
    (hrotates : conn.task.rotates = true) (hf : reliedOn f = none) {token : String}
    (hfresh : token ∉ s.generated) {task : Task} (htask : task.rotates = false)
    (harm : ∀ value arm, task = .handling value arm → arm.Ordered) :
    Tokens (f :: h)
      ({ s with
        companion := s.companion.rotateBootstrapToken token
        generated := token :: s.generated }.goOn c conn task) := by
  have hc : Rotating s.connections c := ⟨conn, hconn, hrotates⟩
  have hused : Used h s.companion.bootstrapToken := hT.rotating.2 ⟨c, hc⟩
  have hrot : ∀ d, ¬ Rotating (s.connections.set c { conn with task }) d := by
    intro d
    rw [rotating_set hconn]
    rintro (⟨_, hset⟩ | ⟨hdc, hold⟩)
    · rw [htask] at hset
      cases hset
    · exact hdc (hT.alone d c hold hc)
  have hlive : ∀ (d : Nat) conn, s.connections[d]? = some conn → conn.task ≠ .returned →
      Used (f :: h) conn.t := by
    intro d conn hd hl
    rw [used_of_none hf]
    rcases (hT.connections d conn hd).live hl with heq | hu
    · exact heq ▸ hused
    · exact hu
  exact {
    current := List.mem_cons_self
    generated := fun b hb => List.mem_cons_of_mem _ (hT.generated b ((used_of_none hf).1 hb))
    rotating := iff_of_false (fun hu => hfresh (hT.generated _ ((used_of_none hf).1 hu)))
      fun ⟨d, hd⟩ => hrot d hd
    alone := fun d _ hd => absurd hd (hrot d)
    connections := fun d conn' hd => by
      rcases Server.set_connection hd with ⟨_, rfl⟩ | ⟨_, hold⟩
      · refine ⟨fun _ => Or.inr (hlive c conn hconn ?_), harm⟩
        intro hreturned
        rw [hreturned] at hrotates
        cases hrotates
      · exact ⟨fun hl => Or.inr (hlive d conn' hold hl), (hT.connections d conn' hold).ordered⟩ }

/-- What the task of a connection does next, when it accepts no handshake on a used token. -/
theorem Tokens.act (hT : Tokens h s) (hconn : s.connections[c]? = some conn) {value : Json}
    {arm : Arm} (htask : conn.task = .handling value arm) {an : Answers}
    (hs : s.act c conn value an arm = some s') (hcurrent : Current ⟨s, .act c an, s'⟩) :
    Tokens (⟨s, .act c an, s'⟩ :: h) s' := by
  have hlive : conn.task ≠ .returned := by simp [htask]
  have hrotates : conn.task.rotates = arm.rotates := by rw [htask, rotates_handling]
  have hby := acceptedBy_act s' an hconn htask
  have hordered := (hT.connections c conn hconn).ordered value arm htask
  cases arm with
  | next =>
    obtain rfl := Option.some.inj hs
    exact hT.goOn hconn hlive hrotates (reliedOn_of_none hby) s rfl rfl rfl rfl (by simp)
  | leave =>
    obtain rfl := Option.some.inj hs
    exact hT.goOn hconn hlive hrotates (reliedOn_of_none hby) s rfl rfl rfl rfl (by simp)
  | send message rest =>
    obtain rfl := Option.some.inj hs
    exact hT.goOnArm hconn htask rfl (reliedOn_of_none hby) s rfl rfl rfl hordered
  | now rest =>
    obtain rfl := Option.some.inj hs
    exact hT.goOnArm hconn htask rfl (reliedOn_of_none hby) s rfl rfl rfl (hordered s.now)
  | purge nowMs rest =>
    obtain rfl := Option.some.inj hs
    exact hT.goOnArm hconn htask rfl (reliedOn_of_none hby)
      { s with companion := s.companion.purgeExpiredSessions nowMs } rfl rfl rfl hordered
  | valid token nowMs rest =>
    obtain rfl := Option.some.inj hs
    exact hT.goOnArm hconn htask rfl (reliedOn_of_none hby) s rfl rfl rfl (hordered _)
  | issue extensionId nowMs rest =>
    simp only [Server.act] at hs
    split at hs
    · cases hs
    · obtain rfl := Option.some.inj hs
      have hf :=
        congrArg (fun o => Option.bind o fun a => s.connections[a.conn]?.map Connection.t) hby
      simp only [Option.bind_some, hconn, Option.map_some] at hf
      obtain ⟨htoken, hnone⟩ := hcurrent conn.t hf
      exact hT.issue hconn hf htoken (not_rotating.2 hnone) (hordered _).1 (hordered _).2
  | rotate rest =>
    simp only [Server.act] at hs
    split at hs
    · cases hs
    · next hfresh =>
      obtain rfl := Option.some.inj hs
      refine hT.rotate hconn hrotates (reliedOn_of_none hby) hfresh
        (rotates_handling.trans hordered.1) ?_
      rintro _ _ ⟨⟩
      exact hordered.2
  | handle body =>
    obtain rfl := Option.some.inj hs
    obtain ⟨stores, sent, task, heq, hnext⟩ := Server.actHandler_cases c conn value an body
    rw [heq] at hby ⊢
    refine hT.goOn hconn hlive hrotates (reliedOn_of_none hby)
      { s with companion := { s.companion with stores } } rfl rfl rfl ?_ ?_
    · cases task with
      | listening | returned => rfl
      | handling value' arm' =>
        obtain ⟨_, next, rfl⟩ := hnext value' arm' rfl
        rfl
    · intro value' arm' harm
      obtain ⟨_, next, rfl⟩ := hnext value' arm' harm
      trivial

/-- A connection is upgraded with the current token. -/
theorem Tokens.upgrade (hT : Tokens h s) (debug : Bool) (origin : Option String) (t : String) :
    Tokens (⟨s, .upgrade origin t, s.upgrade debug origin t⟩ :: h) (s.upgrade debug origin t) := by
  have hf : ∀ s', reliedOn ⟨s, .upgrade origin t, s'⟩ = none := fun _ => rfl
  rcases Server.upgrade_cases (s := s) debug origin t with heq | ⟨conn, heq, ht, _, htask⟩
  · rw [heq]
    exact Tokens.cons hT (hf _) rfl rfl (fun _ => Iff.rfl) fun _ _ => Or.inr
  · rw [heq]
    have hrotates : conn.task.rotates = false := by
      rcases htask with ⟨htask, _⟩ | htask <;> rw [htask] <;> rfl
    refine Tokens.cons hT (hf _) rfl rfl (fun d => rotating_push hrotates) fun d conn' hd => ?_
    rcases Server.push_connection hd with ⟨_, rfl⟩ | hold
    · refine Or.inl ⟨fun hlive => Or.inl ?_, fun value arm harm => ?_⟩
      · rcases htask with ⟨_, hcurrent⟩ | hreturned
        · rw [ht, hcurrent]
        · exact absurd hreturned hlive
      · rcases htask with ⟨htask, _⟩ | htask <;> simp [htask] at harm
    · exact Or.inr hold

/-- A frame that arrives at a listening connection. -/
theorem Tokens.receive (hT : Tokens h s) (env : External) (debug : Bool)
    (hconn : s.connections[c]? = some conn) (htask : conn.task = .listening) (frame : Frame) :
    Tokens
      (⟨s, .receive c frame, { s with
        connections := s.connections.set c (conn.receive env debug s.companion frame) }⟩ :: h)
      { s with connections := s.connections.set c (conn.receive env debug s.companion frame) } := by
  obtain ⟨ht, _, harm⟩ := Connection.receive_spec env debug s.companion htask frame
  have hdispatch := ordered_dispatch env debug s.companion.allowedExtensionId conn.sessionToken
  have hrotates : (conn.receive env debug s.companion frame).task.rotates = false := by
    cases htask' : (conn.receive env debug s.companion frame).task with
    | listening | returned => rfl
    | handling value arm =>
      rw [rotates_handling, harm value arm htask']
      exact (hdispatch value).1
  refine Tokens.cons hT rfl rfl rfl
    (fun d => rotating_set_of_not hconn (by rw [htask]; rfl) hrotates) fun d conn' hd => ?_
  rcases Server.set_connection hd with ⟨_, rfl⟩ | ⟨_, hold⟩
  · refine Or.inl ⟨fun _ => ht ▸ (hT.connections c conn hconn).live (by simp [htask]), ?_⟩
    intro value arm harm'
    rw [harm value arm harm']
    exact (hdispatch value).2
  · exact Or.inr hold

/-- As long as every handshake is accepted on the current token alone. -/
theorem tokens_run {env : External} {debug : Bool} {bootstrapToken : String}
    {pinned : Option String} {stores : Stores} {now : Nat}
    (hr : Run (Server.step env debug) (Server.start bootstrapToken pinned stores now) h s)
    (hcurrent : ∀ f ∈ h, Current f) : Tokens h s := by
  refine Run.invWhen Current Tokens ?_ ?_ hr hcurrent
  · constructor <;> simp [Server.start, Used, Rotating]
  · intro h s l s' _ hT hcur hs
    rcases Server.step_cases hs with ⟨origin, t, rfl, rfl⟩ |
      ⟨c, frame, conn, rfl, hconn, htask, rfl⟩ | ⟨c, a, conn, value, arm, rfl, hconn, htask, hact⟩ |
      ⟨now, rfl, hl⟩
    · exact hT.upgrade debug origin t
    · exact hT.receive env debug hconn htask frame
    · exact hT.act hconn htask hact hcur
    · have hf : reliedOn ⟨s, l, { s with now }⟩ = none := by
        rcases hl with rfl | ⟨ms, rfl⟩ <;> rfl
      exact Tokens.cons hT hf rfl rfl (fun _ => Iff.rfl) fun _ _ => Or.inr

theorem reliedOn_cases (hb : reliedOn f = some b) :
    ∃ (c : Nat) (conn : Connection), f.pre.connections[c]? = some conn ∧ conn.t = b ∧
      conn.task ≠ .returned := by
  obtain ⟨a, ha, hconn⟩ := Option.bind_eq_some_iff.1 hb
  obtain ⟨conn, hconn, ht⟩ := Option.map_eq_some_iff.1 hconn
  obtain ⟨_, conn', _, _, _, hconn', htask⟩ := acceptedBy_cases ha
  rw [hconn, Option.some.injEq] at hconn'
  subst hconn'
  exact ⟨a.conn, conn, hconn, ht, by simp [htask]⟩

/-- A handshake is accepted on the current token alone exactly when its token was not used. -/
theorem current_iff (hT : Tokens h f.pre) :
    Current f ↔ ∀ b, reliedOn f = some b → ¬ Used h b := by
  refine forall_congr' fun b => imp_congr_right fun hb => ?_
  obtain ⟨c, conn, hconn, rfl, hlive⟩ := reliedOn_cases hb
  constructor
  · rintro ⟨hcurrent, hnone⟩ hused
    rw [hcurrent, hT.rotating] at hused
    obtain ⟨d, hd⟩ := hused
    exact not_rotating.2 hnone d hd
  · intro hunused
    have hcurrent := ((hT.connections c conn hconn).live hlive).resolve_right hunused
    refine ⟨hcurrent, not_rotating.1 fun d hd => hunused ?_⟩
    rw [hcurrent, hT.rotating]
    exact ⟨d, hd⟩

/-! ## Single use -/

theorem issuedOn_length_cons : (issuedOn b (f :: h)).length =
    (issuedOn b h).length + if reliedOn f = some b then 1 else 0 := by
  unfold issuedOn
  rw [List.filterMap_cons]
  split_ifs with hf
  · obtain ⟨a, ha, _⟩ := Option.bind_eq_some_iff.1 hf
    simp [ha]
  · rfl

theorem used_iff : Used h b ↔ 0 < (issuedOn b h).length := by
  induction h with
  | nil => simp [Used, issuedOn]
  | cons f h ih =>
    rw [used_cons, ih, issuedOn_length_cons]
    split_ifs with hf
    · simp [hf]
    · simp [hf]

/-- The tokens are used once each when the earlier ones are and the last one was not used. -/
theorem single_use_cons : (∀ b, (issuedOn b (f :: h)).length ≤ 1) ↔
    (∀ b, (issuedOn b h).length ≤ 1) ∧ ∀ b, reliedOn f = some b → ¬ Used h b := by
  simp only [issuedOn_length_cons, used_iff]
  constructor
  · intro hle
    refine ⟨fun b => by have := hle b; omega, fun b hb => ?_⟩
    have hb' := hle b
    rw [if_pos hb] at hb'
    omega
  · rintro ⟨hle, hunused⟩ b
    have hb' := hle b
    split_ifs with hf
    · have := hunused b hf
      omega
    · omega

end Invariant

/-- A bootstrap token is good for one session exactly when every handshake is accepted on the
current token, while no other handshake is about to rotate it. -/
theorem single_use_iff {env : External} {debug : Bool} {bootstrapToken : String}
    {pinned : Option String} {stores : Stores} {now : Nat} {h : List (Fired Server ServerEvent)}
    {s : Server}
    (hr : Run (Server.step env debug) (Server.start bootstrapToken pinned stores now) h s) :
    (∀ b, (issuedOn b h).length ≤ 1) ↔ ∀ f ∈ h, Current f := by
  induction hr with
  | nil => simp [issuedOn]
  | cons hr _ ih =>
    rw [single_use_cons, ih, List.forall_mem_cons, and_comm]
    exact and_congr_left fun hcurrent => (current_iff (tokens_run hr hcurrent)).symm

/-- The extension connects again with the token that it was given anew. -/
theorem single_use_reconnect : ∃ h s,
    Run (Server.step extensionMessages false)
      (Server.start "bootstrap" (some "abcdefgh") (.new none) 1000) h s ∧
    (issuedOn "bootstrap" h).map Accepted.conn = [0] ∧
    (issuedOn (randomToken 2 1) h).map Accepted.conn = [1] ∧
    ∀ b, (issuedOn b h).length ≤ 1 := by
  have hend : (exec (Server.step extensionMessages false)
      (Server.start "bootstrap" (some "abcdefgh") (.new none) 1000)
      ([.bootstrap, .upgrade none "bootstrap"] ++ handshakeEvents 0 1 2 ++
        [.bootstrap, .upgrade none (randomToken 2 1)] ++ handshakeEvents 1 3 4)).map
      (fun x => ((issuedOn "bootstrap" x.1).map Accepted.conn,
        (issuedOn (randomToken 2 1) x.1).map Accepted.conn, x.1.all fun f => decide (Current f))) =
      some ([0], [1], true) := by
    decide +kernel
  obtain ⟨⟨h, s⟩, hx, hfacts⟩ := Option.map_eq_some_iff.1 hend
  simp only [Prod.mk.injEq, List.all_eq_true, decide_eq_true_eq] at hfacts
  have hr := exec_run hx
  exact ⟨h, s, hr, hfacts.1, hfacts.2.1, (single_use_iff hr).2 hfacts.2.2⟩

/-- Two connections that were upgraded with one token make a handshake each, and the first one makes
another. -/
theorem not_single_use : ∃ h s,
    Run (Server.step extensionMessages false)
      (Server.start "bootstrap" (some "abcdefgh") (.new none) 1000) h s ∧
    (issuedOn "bootstrap" h).map Accepted.conn = [0, 1, 0] ∧
    ¬ ∀ b, (issuedOn b h).length ≤ 1 := by
  have hend : (exec (Server.step extensionMessages false)
      (Server.start "bootstrap" (some "abcdefgh") (.new none) 1000)
      ([.upgrade none "bootstrap", .upgrade none "bootstrap"] ++ handshakeEvents 0 1 2 ++
        handshakeEvents 1 3 4 ++ handshakeEvents 0 5 6)).map
      (fun x => (issuedOn "bootstrap" x.1).map Accepted.conn) = some [0, 1, 0] := by
    decide +kernel
  obtain ⟨⟨h, s⟩, hx, hissued⟩ := Option.map_eq_some_iff.1 hend
  refine ⟨h, s, exec_run hx, hissued, fun hle => ?_⟩
  have hlength := congrArg List.length hissued
  rw [List.length_map] at hlength
  have hle' := hle "bootstrap"
  rw [hlength] at hle'
  exact absurd hle' (by decide)

end LanguageLlm.Desktop
