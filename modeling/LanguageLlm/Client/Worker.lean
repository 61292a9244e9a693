import LanguageLlm.Client.LateEvents

/-!
# The background worker

The message handlers of `background.ts` run `session = await ensureCompanionSession(session)` at any
time, also while the call of another handler is suspended: the calls of `Link`, any number at once,
share the sockets and the variable `session`. `one_session_iff` says in which runs the worker is
left with one open socket.
-/

namespace LanguageLlm.Client

open Lib

/-- The module's variables and the worker's sockets, and the calls of the handlers; one that has
returned or thrown is `none`. The `call` of the link is not used. -/
structure Worker where
  link : Link
  calls : List (Option Call)

/-- The call waits for an event of the socket. -/
def Call.awaits (k : Nat) : Call → Bool
  | opening _ ws | handshake _ ws => ws = k
  | bootstrap _ | sleeping _ | fallback => false

namespace Worker

def fresh (now : Nat) : Worker where
  link := .fresh now
  calls := []

/-- The link in which no call is suspended. -/
def idle (w : Worker) : Link := { w.link with call := none }

/-- The link in which only the `i`-th call is suspended. -/
def view (w : Worker) (i : Nat) : Link := { w.link with call := w.calls[i]?.join }

/-- The worker once the `i`-th call has gone on. -/
def update (w : Worker) (i : Nat) (s : Link) : Worker where
  link := { s with call := none }
  calls := w.calls.set i s.call

/-- The call that waits for the socket. -/
def owner (w : Worker) (k : Nat) : Option Nat :=
  w.calls.findIdx? fun call => call.any (Call.awaits k)

/-- An event of the `i`-th call. -/
def resume (w : Worker) (i : Nat) (e : LinkEvent) : Option Worker :=
  ((w.view i).step e).map (w.update i)

/-- An event of a socket, with the call that waits for it. -/
def socketEvent (w : Worker) (k : Nat) (e : LinkEvent) : Option Worker :=
  match w.owner k with
  | some i => w.resume i e
  | none => (w.idle.step e).map fun s => { w with link := { s with call := none } }

/-- `session = await ensureCompanionSession(session)` up to its first await. -/
def ensure (w : Worker) : Worker :=
  let s := w.idle.ensure
  { link := { s with call := none }, calls := w.calls ++ [s.call] }

end Worker

/-- What can happen to the worker. -/
inductive WorkerEvent where
  | ensure
  | bootstrapped (i : Nat) (res : Option BootstrapInfo)
  | opened (ws : Nat)
  | message (ws : Nat) (frame : Option Json)
  | errored (ws : Nat)
  | closed (ws : Nat)
  | openTimeout (i : Nat)
  | messageTimeout (i : Nat)
  | wake (i : Nat)
  | elapse (ms : Nat)

def Worker.step (w : Worker) : WorkerEvent → Option Worker
  | .ensure => some w.ensure
  | .bootstrapped i res => w.resume i (.bootstrapped res)
  | .opened k => w.socketEvent k (.opened k)
  | .message k frame => w.socketEvent k (.message k frame)
  | .errored k => w.socketEvent k (.errored k)
  | .closed k => w.socketEvent k (.closed k)
  | .openTimeout i => w.resume i .openTimeout
  | .messageTimeout i => w.resume i .messageTimeout
  | .wake i => w.resume i .wake
  | .elapse ms => some { w with link := { w.link with now := w.link.now + ms } }

/-! ## The claim and the condition -/

/-- The socket is open. -/
def Link.IsOpen (s : Link) (k : Nat) : Prop :=
  ∃ ws : Socket, s.sockets[k]? = some ws ∧ ws.readyState = .open

/-- One socket is open at most, and it is that of the session. -/
structure OneSession (s : Link) : Prop where
  one : ∀ j k, s.IsOpen j → s.IsOpen k → j = k
  held : ∀ k, s.IsOpen k → s.session.map CompanionSession.ws = some k

/-- A call is in progress. -/
def Calling (w : Worker) : Prop := ∃ (i : Nat) (call : Call), w.calls[i]? = some (some call)

/-- Another call than the `i`-th is in progress. -/
def OtherCall (w : Worker) (i : Nat) : Prop :=
  ∃ (j : Nat) (call : Call), j ≠ i ∧ w.calls[j]? = some (some call)

/-- While no call is in progress the worker has one session at most. -/
def WorkerAgrees (w : Worker) : Prop := ¬ Calling w → OneSession w.link

/-- The frame completes a handshake. -/
def Accepts (frame : Option Json) : Prop :=
  ∃ body version, frame = some body ∧ isAuthHandshakeResponse body = true ∧
    body.getStr "protocolVersion" = some version ∧ majorPart version = majorPart protocolVersion

/-- A socket opens only while a call is in progress; and unless another call is in progress, a
handshake is completed when no other socket is open, and a call gives up when no socket is open but
that of the session. -/
def WorkerEvent.Lone (w : Worker) : WorkerEvent → Prop
  | opened _ => Calling w
  | message k frame =>
    ∀ i attempt, w.owner k = some i → w.calls[i]? = some (some (.handshake attempt k)) →
      Accepts frame → OtherCall w i ∨ ∀ j, w.link.IsOpen j → j = k
  | bootstrapped i _ => w.calls[i]? = some (some .fallback) → OtherCall w i ∨ OneSession w.link
  | ensure | errored _ | closed _ | openTimeout _ | messageTimeout _ | wake _ | elapse _ => True

/-! ## Calls that go on -/

section Calls

variable {w : Worker} {i k : Nat} {s : Link}

theorem oneSession_of_held (h : ∀ k, s.IsOpen k → s.session.map CompanionSession.ws = some k) :
    OneSession s :=
  ⟨fun j k hj hk => Option.some.inj ((h j hj).symm.trans (h k hk)), h⟩

theorem OneSession.of_open {t : Link} (h : OneSession s) (hsession : t.session = s.session)
    (hopen : ∀ k, t.IsOpen k → s.IsOpen k) : OneSession t :=
  oneSession_of_held fun k hk => (congrArg _ hsession).trans (h.held k (hopen k hk))

theorem owner_awaits (h : w.owner k = some i) :
    ∃ call, w.calls[i]? = some (some call) ∧ call.awaits k = true := by
  obtain ⟨hi, hcall, -⟩ := List.findIdx?_eq_some_iff_getElem.1 h
  cases hc : w.calls[i] with
  | none =>
    rw [hc] at hcall
    cases hcall
  | some call =>
    rw [hc] at hcall
    exact ⟨call, by rw [List.getElem?_eq_getElem hi, hc], hcall⟩

theorem calling_update_iff (hi : i < w.calls.length) :
    Calling (w.update i s) ↔ s.call ≠ none ∨ OtherCall w i := by
  constructor
  · rintro ⟨j, call, hj⟩
    change (w.calls.set i s.call)[j]? = _ at hj
    by_cases hji : j = i
    · subst hji
      rw [List.getElem?_set_self hi] at hj
      exact Or.inl (by rw [Option.some.inj hj]; nofun)
    · rw [List.getElem?_set_ne (Ne.symm hji)] at hj
      exact Or.inr ⟨j, call, hji, hj⟩
  · rintro (hcall | ⟨j, call, hji, hj⟩)
    · obtain ⟨call, hcall⟩ := Option.ne_none_iff_exists'.1 hcall
      exact ⟨i, call, (List.getElem?_set_self hi).trans (congrArg some hcall)⟩
    · exact ⟨j, call, (List.getElem?_set_ne (Ne.symm hji)).trans hj⟩

theorem agrees_update_iff (hi : i < w.calls.length) :
    WorkerAgrees (w.update i s) ↔ s.call ≠ none ∨ OtherCall w i ∨ OneSession s := by
  rw [WorkerAgrees, calling_update_iff hi]
  have hsame : OneSession (w.update i s).link ↔ OneSession s :=
    ⟨fun h => ⟨h.one, h.held⟩, fun h => ⟨h.one, h.held⟩⟩
  rw [hsame]
  tauto

theorem view_call (hcall : w.calls[i]? = some (some call)) : (w.view i).call = some call := by
  rw [Worker.view, hcall]
  rfl

end Calls

/-! ## What an event does to the sockets -/

section Sockets

variable {s s' : Link} {k : Nat}

/-- The sockets stay and none of them is connecting again, and a new session has a socket that was
open. -/
structure Later (s s' : Link) : Prop where
  stays : ∀ (k : Nat) (ws : Socket), s.sockets[k]? = some ws →
    ∃ ws' : Socket, s'.sockets[k]? = some ws' ∧
      (ws'.readyState = .connecting → ws.readyState = .connecting)
  session : s'.session = s.session ∨ ∃ e, s'.session = some e ∧ s.IsOpen e.ws

theorem Later.of_same (hsockets : s'.sockets = s.sockets) (hsession : s'.session = s.session) :
    Later s s' :=
  ⟨fun k ws hws => ⟨ws, by rw [hsockets, hws], fun h => h⟩, Or.inl hsession⟩

theorem Later.modify {f : Socket → Socket}
    (hf : ∀ ws, (f ws).readyState = .connecting → ws.readyState = .connecting)
    (hsockets : s'.sockets = (s.modifySocket k f).sockets)
    (hsession : s'.session = s.session ∨ ∃ e, s'.session = some e ∧ s.IsOpen e.ws) :
    Later s s' := by
  refine ⟨fun j ws hws => ?_, hsession⟩
  rw [hsockets, Link.modifySocket_sockets, hws]
  split
  · exact ⟨f ws, rfl, hf ws⟩
  · exact ⟨ws, rfl, fun h => h⟩

theorem isOpen_modifySocket {f : Socket → Socket}
    (hf : ∀ ws, (f ws).readyState = .open → ws.readyState = .open) {j : Nat}
    (h : (s.modifySocket k f).IsOpen j) : s.IsOpen j := by
  obtain ⟨ws, hws, hopen⟩ := h
  rw [Link.modifySocket_sockets] at hws
  split at hws
  · obtain ⟨old, hold, rfl⟩ := Option.map_eq_some_iff.1 hws
    exact ⟨old, hold, hf old hopen⟩
  · exact ⟨ws, hws, hopen⟩

theorem isOpen_congr (hsockets : s'.sockets = s.sockets) : s'.IsOpen k ↔ s.IsOpen k := by
  rw [Link.IsOpen, Link.IsOpen, hsockets]

/-- What a completed handshake does. -/
theorem handshakeReply_accepts (attempt : Nat) {frame : Option Json} (h : Accepts frame) :
    (s.handshakeReply attempt k frame).call = none ∧
      (s.handshakeReply attempt k frame).session.map CompanionSession.ws = some k ∧
      (s.handshakeReply attempt k frame).sockets =
        (s.modifySocket k fun ws => { ws with listening := true }).sockets := by
  obtain ⟨body, version, rfl, hresponse, hversion, hmajor⟩ := h
  simp [Link.handshakeReply, hresponse, hversion, hmajor]

/-- And every other reply. -/
theorem handshakeReply_fails (attempt : Nat) {frame : Option Json} (h : ¬ Accepts frame) :
    (s.handshakeReply attempt k frame).call ≠ none ∧
      (s.handshakeReply attempt k frame).session = s.session ∧
      ((s.handshakeReply attempt k frame).sockets = s.sockets ∨
        (s.handshakeReply attempt k frame).sockets = (s.closeSocket k).sockets) := by
  unfold Link.handshakeReply
  split
  · exact ⟨Link.attemptFailed_call _ _, by simp, by simp⟩
  · next body =>
    split
    · next hresponse =>
      split
      · exact ⟨Link.attemptFailed_call _ _, by simp, by simp⟩
      · next version hversion =>
        split
        · exact ⟨Link.attemptFailed_call _ _,
            by simp [Link.closeSocket, Link.modifySocket], by simp⟩
        · next hmajor => exact absurd ⟨body, version, rfl, hresponse, hversion, not_not.1 hmajor⟩ h
    · exact ⟨Link.attemptFailed_call _ _, by simp [Link.closeSocket, Link.modifySocket], by simp⟩

/-- The sockets and the session of one link after another: `Later`, and no socket has opened. -/
structure OpensNone (s s' : Link) : Prop where
  later : Later s s'
  none : ∀ j, s'.IsOpen j → s.IsOpen j

theorem OpensNone.of_same (hsockets : s'.sockets = s.sockets) (hsession : s'.session = s.session) :
    OpensNone s s' :=
  ⟨.of_same hsockets hsession, fun _ => (isOpen_congr hsockets).1⟩

theorem OpensNone.modify {f : Socket → Socket}
    (hconnecting : ∀ ws, (f ws).readyState = .connecting → ws.readyState = .connecting)
    (hopen : ∀ ws, (f ws).readyState = .open → ws.readyState = .open)
    (hsockets : s'.sockets = (s.modifySocket k f).sockets)
    (hsession : s'.session = s.session ∨ ∃ e, s'.session = some e ∧ s.IsOpen e.ws) :
    OpensNone s s' :=
  ⟨.modify hconnecting hsockets hsession, fun _ hj => isOpen_modifySocket hopen
    ((isOpen_congr hsockets).1 hj)⟩

theorem opensNone_closeSocket (hsockets : s'.sockets = (s.closeSocket k).sockets)
    (hsession : s'.session = s.session) :
    OpensNone s s' :=
  .modify Link.quiets_close.connecting_of Link.quiets_close.open_of hsockets (Or.inl hsession)

/-- A new socket is connecting. -/
theorem opensNone_append {ws : Socket} (hws : ws.readyState = .connecting)
    (hsockets : s'.sockets = s.sockets ++ [ws])
    (hsession : s'.session = s.session) : OpensNone s s' := by
  refine ⟨⟨fun j old hold => ⟨old, ?_, fun h => h⟩, Or.inl hsession⟩,
    fun j ⟨found, hfound, hopen⟩ => ?_⟩
  · obtain ⟨hlt, -⟩ := List.getElem?_eq_some_iff.1 hold
    rw [hsockets, List.getElem?_append_left hlt, hold]
  · rw [hsockets, List.getElem?_append] at hfound
    split at hfound
    · exact ⟨found, hfound, hopen⟩
    · rw [List.getElem?_singleton] at hfound
      split at hfound
      · cases hfound
        rw [hws] at hopen
        cases hopen
      · cases hfound

theorem opensNone_handshakeReply (attempt : Nat) (frame : Option Json) (hopen : s.IsOpen k) :
    OpensNone s (s.handshakeReply attempt k frame) := by
  by_cases haccepts : Accepts frame
  · obtain ⟨-, hsession, hsockets⟩ := handshakeReply_accepts (s := s) (k := k) attempt haccepts
    obtain ⟨e, he, hws⟩ := Option.map_eq_some_iff.1 hsession
    exact .modify (f := fun w => { w with listening := true }) (fun _ h => h) (fun _ h => h)
      hsockets
      (Or.inr ⟨e, he, hws ▸ hopen⟩)
  · obtain ⟨-, hsession, hsame | hclosed⟩ := handshakeReply_fails (s := s) (k := k) attempt haccepts
    · exact .of_same hsame hsession
    · exact opensNone_closeSocket hclosed hsession

theorem opensNone_errored (s : Link) (k : Nat) (ws : Socket) : OpensNone s (s.errored k ws) := by
  have hmodify : ∀ t : Link, t.sockets =
    (s.modifySocket k fun w => { w with readyState := .closed, errored := true }).sockets →
      t.session = s.session → OpensNone s t :=
    fun t hsockets hsession => .modify (k := k)
      (f := fun w => { w with readyState := .closed, errored := true })
      (fun _ h => nomatch h) (fun _ h => nomatch h) hsockets (Or.inl hsession)
  unfold Link.errored
  dsimp only
  split <;> split
  · split <;> exact hmodify _ (by simp) (by simp [Link.modifySocket])
  · split <;> exact hmodify _ (by simp) (by simp [Link.modifySocket])
  · exact hmodify _ (by simp) (by simp [Link.modifySocket])
  · exact hmodify _ (by simp) (by simp [Link.modifySocket])

theorem opensNone_closed (s : Link) (k : Nat) (ws : Socket) : OpensNone s (s.closed k ws) := by
  unfold Link.closed
  dsimp only
  split
  · exact .modify (k := k) (f := fun w => { w with readyState := .closed, ended := true })
      (fun _ h => nomatch h)
      (fun _ h => nomatch h) (by simp) (Or.inl (by simp [Link.modifySocket]))
  · exact .modify (k := k) (f := fun w => { w with readyState := .closed, ended := true })
      (fun _ h => nomatch h)
      (fun _ h => nomatch h) rfl (Or.inl rfl)

theorem opensNone_ensure (s : Link) : OpensNone s s.ensure := by
  unfold Link.ensure
  split
  · split
    · exact .of_same rfl rfl
    · exact opensNone_closeSocket rfl rfl
  · exact .of_same rfl rfl

end Sockets

/-! ## One step of the worker -/

section Step

variable {w w' : Worker} {i k : Nat} {s : Link}

/-- The socket of the session has been opened. -/
def Opened (s : Link) : Prop :=
  ∀ e, s.session = some e → ∃ ws : Socket, s.sockets[e.ws]? = some ws ∧ ws.readyState ≠ .connecting

theorem Opened.later {s' : Link} (h : Opened s) (hlater : Later s s') : Opened s' := by
  intro e he
  rcases hlater.session with hsame | ⟨e', he', ws, hws, hopen⟩
  · obtain ⟨ws, hws, hnot⟩ := h e (hsame ▸ he)
    obtain ⟨ws', hws', hconnecting⟩ := hlater.stays e.ws ws hws
    exact ⟨ws', hws', fun h => hnot (hconnecting h)⟩
  · rw [he] at he'
    cases he'
    obtain ⟨ws', hws', hconnecting⟩ := hlater.stays e.ws ws hws
    refine ⟨ws', hws', fun h => ?_⟩
    rw [hconnecting h] at hopen
    cases hopen

theorem agrees_of_same (hw : WorkerAgrees w)
    (hcalls : ∀ {i : Nat} {call : Call}, w.calls[i]? = some (some call) →
    ∃ j : Nat, ∃ call', w'.calls[j]? = some (some call')) (hopens : OpensNone w.link w'.link)
    (hsession : w'.link.session = w.link.session) : WorkerAgrees w' := by
  intro hnot
  refine (hw fun ⟨i, call, hcall⟩ => hnot ?_).of_open hsession hopens.none
  obtain ⟨j, call', hcall'⟩ := hcalls hcall
  exact ⟨j, call', hcall'⟩

/-- A call that is resumed was suspended. -/
theorem resume_cases {e : LinkEvent} (h : w.resume i e = some w') :
    ∃ s, (w.view i).step e = some s ∧ w' = w.update i s := by
  obtain ⟨s, hs, rfl⟩ := Option.map_eq_some_iff.1 h
  exact ⟨s, hs, rfl⟩

theorem lt_of_call {call : Call} (h : w.calls[i]? = some (some call)) : i < w.calls.length :=
  (List.getElem?_eq_some_iff.1 h).1

theorem call_of_view (hview : (w.view i).call ≠ none) :
    ∃ call, w.calls[i]? = some (some call) ∧ (w.view i).call = some call := by
  obtain ⟨call, hcall⟩ := Option.ne_none_iff_exists'.1 hview
  refine ⟨call, ?_, hcall⟩
  exact Option.join_eq_some_iff.1 hcall

/-- The worker agrees as long as the call that went on is still suspended. -/
theorem agrees_of_suspended (hcall : w.calls[i]? = some (some call)) (hs : s.call ≠ none) :
    WorkerAgrees (w.update i s) :=
  (agrees_update_iff (lt_of_call hcall)).2 (Or.inl hs)

theorem agrees_bootstrapped_iff {res : Option BootstrapInfo}
    (h : w.resume i (.bootstrapped res) = some w') :
    WorkerAgrees w' ↔ WorkerEvent.Lone w (.bootstrapped i res) := by
  obtain ⟨s, hs, rfl⟩ := resume_cases h
  -- a call that went on in an attempt has no fallback
  have hattempt : ∀ {attempt : Nat}, (w.view i).call = some (.bootstrap attempt) →
      s.call ≠ none → (WorkerAgrees (w.update i s) ↔ WorkerEvent.Lone w (.bootstrapped i res)) := by
    intro attempt hview hsuspended
    obtain ⟨call, hcall, hview'⟩ := call_of_view (by rw [hview]; nofun)
    refine iff_of_true (agrees_of_suspended hcall hsuspended) fun hfallback => ?_
    rw [hfallback] at hcall
    cases hcall
    rw [hview] at hview'
    cases hview'
  cases Link.moves hs with
  | refused hview => exact hattempt hview (Link.attemptFailed_call _ _)
  | connecting hview => exact hattempt hview nofun
  | fellBack hview next =>
    obtain ⟨call, hcall, hview'⟩ := call_of_view (by rw [hview]; nofun)
    rw [hview] at hview'
    cases hview'
    rw [agrees_update_iff (lt_of_call hcall), WorkerEvent.Lone]
    generalize hs' : ({ (w.view i).setConnectionState next with call := none } : Link) = s'
    have hsockets : s'.sockets = w.link.sockets := by
      subst hs'
      simp [Worker.view]
    have hsession : s'.session = w.link.session := by
      subst hs'
      simp [Worker.view]
    have hone : OneSession s' ↔ OneSession w.link :=
      ⟨fun h => h.of_open hsession.symm fun _ => (isOpen_congr hsockets).2,
        fun h => h.of_open hsession fun _ => (isOpen_congr hsockets).1⟩
    have hnone : s'.call = none := by
      subst hs'
      rfl
    rw [hone]
    exact ⟨fun h _ => h.resolve_left (not_not.2 hnone), fun h => Or.inr (h hcall)⟩

/-- The call that went on is suspended again. -/
theorem agrees_resume_suspended {e : LinkEvent} (h : w.resume i e = some w')
    (hview : (w.view i).call ≠ none)
    (hstep : ∀ s, (w.view i).step e = some s → s.call ≠ none) : WorkerAgrees w' := by
  obtain ⟨s, hs, rfl⟩ := resume_cases h
  obtain ⟨call, hcall, -⟩ := call_of_view hview
  exact agrees_of_suspended hcall (hstep s hs)

/-- An event that only a suspended call takes, and that leaves it suspended. -/
theorem agrees_resume_waiting {e : LinkEvent} (h : w.resume i e = some w')
    (hstep : ∀ s s' : Link, s.step e = some s' → s.call ≠ none ∧ s'.call ≠ none) :
    WorkerAgrees w' := by
  obtain ⟨s, hs, -⟩ := resume_cases h
  exact agrees_resume_suspended h (hstep _ s hs).1 fun s' hs' => (hstep _ s' hs').2

theorem agrees_openTimeout (h : w.resume i .openTimeout = some w') : WorkerAgrees w' := by
  refine agrees_resume_waiting h fun s s' hs => ?_
  cases Link.moves hs with
  | openTimeout hcall => exact ⟨by rw [hcall]; nofun, Link.attemptFailed_call _ _⟩

theorem agrees_messageTimeout (h : w.resume i .messageTimeout = some w') : WorkerAgrees w' := by
  refine agrees_resume_waiting h fun s s' hs => ?_
  cases Link.moves hs with
  | messageTimeout hcall => exact ⟨by rw [hcall]; nofun, Link.attemptFailed_call _ _⟩

theorem agrees_wake (h : w.resume i .wake = some w') : WorkerAgrees w' := by
  refine agrees_resume_waiting h fun s s' hs => ?_
  cases Link.moves hs with
  | wake hcall => exact ⟨by rw [hcall]; nofun, nofun⟩

/-- A call that waits for a socket, and its view. -/
theorem view_of_owner (h : w.owner k = some i) : ∃ call, w.calls[i]? = some (some call) ∧
    (w.view i).call = some call ∧ ∃ attempt, call = .opening attempt k ∨
      call = .handshake attempt k := by
  obtain ⟨call, hcall, hawaits⟩ := owner_awaits h
  refine ⟨call, hcall, view_call hcall, ?_⟩
  cases call with
  | opening attempt ws =>
    have hws : ws = k := by simpa [Call.awaits] using hawaits
    exact ⟨attempt, Or.inl (by rw [hws])⟩
  | handshake attempt ws =>
    have hws : ws = k := by simpa [Call.awaits] using hawaits
    exact ⟨attempt, Or.inr (by rw [hws])⟩
  | bootstrap | sleeping | fallback => simp [Call.awaits] at hawaits

/-- An event of a socket that suspends the calls it finds, opens no socket and keeps the session. -/
theorem agrees_socketEvent {e : LinkEvent} (hw : WorkerAgrees w) (h : w.socketEvent k e = some w')
    (hcall : ∀ s s' : Link, s.step e = some s' → s.call ≠ none → s'.call ≠ none)
    (hopens : ∀ s s' : Link, s.step e = some s' → OpensNone s s')
    (hsession : ∀ s s' : Link, s.step e = some s' → s'.session = s.session) : WorkerAgrees w' := by
  unfold Worker.socketEvent at h
  split at h
  · next i howner =>
    obtain ⟨call, hsome, hview, -⟩ := view_of_owner howner
    have hsuspended : (w.view i).call ≠ none := by rw [hview]; nofun
    exact agrees_resume_suspended h hsuspended fun s hs => hcall _ s hs hsuspended
  · obtain ⟨s, hs, rfl⟩ := Option.map_eq_some_iff.1 h
    refine agrees_of_same hw (fun hj => ⟨_, _, hj⟩) ?_ (hsession w.idle s hs)
    exact ⟨⟨(hopens _ _ hs).later.stays, (hopens _ _ hs).later.session⟩,
      fun j hj => (hopens _ _ hs).none j hj⟩

theorem errored_call_of {s : Link} (ws : Socket) (hcall : s.call ≠ none) :
    (s.errored k ws).call ≠ none := by
  unfold Link.errored
  dsimp only
  split
  · next attempt j _ =>
    split
    · exact Link.attemptFailed_call _ _
    · split <;> simpa [Link.modifySocket] using hcall
  · split <;> simpa [Link.modifySocket] using hcall

theorem errored_session (s : Link) (k : Nat) (ws : Socket) :
    (s.errored k ws).session = s.session := by
  unfold Link.errored
  dsimp only
  split
  · split <;> split <;> simp [Link.modifySocket]
  · split <;> simp [Link.modifySocket]

theorem agrees_errored (hw : WorkerAgrees w) (h : w.socketEvent k (.errored k) = some w') :
    WorkerAgrees w' := by
  apply agrees_socketEvent hw h
  · intro s s' hs hcall
    cases Link.moves hs
    exact errored_call_of _ hcall
  · intro s s' hs
    cases Link.moves hs
    exact opensNone_errored s k _
  · intro s s' hs
    cases Link.moves hs
    exact errored_session s k _

theorem agrees_closed (hw : WorkerAgrees w) (h : w.socketEvent k (.closed k) = some w') :
    WorkerAgrees w' := by
  apply agrees_socketEvent hw h
  · intro s s' hs hcall
    cases Link.moves hs
    exact (Link.closed_idle s k _).2.2.1 ▸ hcall
  · intro s s' hs
    cases Link.moves hs
    exact opensNone_closed s k _
  · intro s s' hs
    cases Link.moves hs
    exact (Link.closed_idle s k _).2.1

theorem opened_fields (s : Link) (k : Nat) : (s.opened k).session = s.session ∧
    (s.opened k).sockets = (s.modifySocket k fun ws => { ws with readyState := .open }).sockets ∧
    (s.call ≠ none → (s.opened k).call ≠ none) := by
  unfold Link.opened
  dsimp only
  split
  · split
    · exact ⟨rfl, rfl, fun _ => nofun⟩
    · exact ⟨rfl, rfl, fun h => h⟩
  · exact ⟨rfl, rfl, fun h => h⟩

/-- A socket opens for the call that waits for it, or else the session does not hold it. -/
theorem agrees_opened_iff (hopened : Opened w.link) (h : w.socketEvent k (.opened k) = some w') :
    WorkerAgrees w' ↔ WorkerEvent.Lone w (.opened k) := by
  unfold Worker.socketEvent at h
  split at h
  · next i howner =>
    obtain ⟨call, hsome, hview, -⟩ := view_of_owner howner
    have hsuspended : (w.view i).call ≠ none := by rw [hview]; nofun
    refine iff_of_true (agrees_resume_suspended h hsuspended fun s hs => ?_) ⟨i, call, hsome⟩
    cases Link.moves hs
    exact (opened_fields _ k).2.2 hsuspended
  · obtain ⟨s, hs, rfl⟩ := Option.map_eq_some_iff.1 h
    obtain ⟨ws, hws, hconnecting, rfl⟩ : ∃ ws, w.idle.sockets[k]? = some ws ∧
        ws.readyState = .connecting ∧ s = w.idle.opened k := by
      cases Link.moves hs with
      | opened hws hconnecting => exact ⟨_, hws, hconnecting, rfl⟩
    obtain ⟨hsession, hsockets, -⟩ := opened_fields w.idle k
    refine ⟨fun hagrees => ?_, fun hcalling hnot => absurd hcalling hnot⟩
    by_contra hnot
    have hopen : Link.IsOpen (w.idle.opened k) k := by
      refine ⟨{ ws with readyState := .open }, ?_, rfl⟩
      rw [hsockets, Link.modifySocket_sockets, if_pos rfl, hws]
      rfl
    have hheld := (hagrees fun hcalling => hnot hcalling).held k hopen
    obtain ⟨e, he, hek⟩ := Option.map_eq_some_iff.1 hheld
    -- the socket of the session has been opened before
    obtain ⟨ws', hws', hnot'⟩ := hopened e (hsession ▸ he)
    have hsame : ws = ws' := Option.some.inj (hws.symm.trans (hek ▸ hws'))
    exact hnot' (hsame ▸ hconnecting)

theorem isOpen_listening {s : Link} {j : Nat} :
    (s.modifySocket k fun ws => { ws with listening := true }).IsOpen j ↔ s.IsOpen j := by
  refine ⟨isOpen_modifySocket (f := fun ws => { ws with listening := true }) fun _ h => h,
    fun ⟨ws, hws, hopen⟩ => ?_⟩
  rw [Link.IsOpen, Link.modifySocket_sockets, hws]
  split
  · exact ⟨{ ws with listening := true }, rfl, hopen⟩
  · exact ⟨ws, rfl, hopen⟩

/-- After a handshake one socket is open if no other was. -/
theorem oneSession_accepted_iff {s : Link} {attempt : Nat} {frame : Option Json}
    (h : Accepts frame) :
    OneSession (s.handshakeReply attempt k frame) ↔ ∀ j, s.IsOpen j → j = k := by
  obtain ⟨-, hsession, hsockets⟩ := handshakeReply_accepts (s := s) (k := k) attempt h
  have hopen : ∀ j, (s.handshakeReply attempt k frame).IsOpen j ↔ s.IsOpen j :=
    fun j => (isOpen_congr hsockets).trans isOpen_listening
  constructor
  · intro hone j hj
    have hheld := hone.held j ((hopen j).2 hj)
    exact (Option.some.inj (hsession.symm.trans hheld)).symm
  · intro hall
    refine oneSession_of_held fun j hj => ?_
    rw [hsession, hall j ((hopen j).1 hj)]

/-- The reply that a call in its handshake was waiting for. -/
theorem agrees_reply_iff {attempt : Nat} {frame : Option Json} (howner : w.owner k = some i)
    (hcall : w.calls[i]? = some (some (.handshake attempt k))) :
    WorkerAgrees (w.update i ((w.view i).handshakeReply attempt k frame)) ↔
      WorkerEvent.Lone w (.message k frame) := by
  by_cases haccepts : Accepts frame
  · have hnone := (handshakeReply_accepts (s := w.view i) (k := k) attempt haccepts).1
    rw [agrees_update_iff (lt_of_call hcall), oneSession_accepted_iff haccepts, WorkerEvent.Lone]
    constructor
    · intro hagrees i' attempt' howner' _ _
      rw [howner] at howner'
      cases howner'
      exact hagrees.resolve_left (not_not.2 hnone)
    · intro hlone
      exact Or.inr (hlone i attempt howner hcall haccepts)
  · have hfails := (handshakeReply_fails (s := w.view i) (k := k) attempt haccepts).1
    refine iff_of_true (agrees_of_suspended hcall hfails) ?_
    intro _ _ _ _ haccepts'
    exact absurd haccepts' haccepts

theorem agrees_message_iff {frame : Option Json} (hw : WorkerAgrees w)
    (h : w.socketEvent k (.message k frame) = some w') :
    WorkerAgrees w' ↔ WorkerEvent.Lone w (.message k frame) := by
  unfold Worker.socketEvent at h
  split at h
  · next i howner =>
    obtain ⟨call, hcall, hview, attempt, hcase⟩ := view_of_owner howner
    obtain ⟨s, hs, rfl⟩ := resume_cases h
    cases Link.moves hs with
    | ignored hother =>
      -- a socket that is still to be opened
      rcases hcase with rfl | rfl
      · refine iff_of_true (agrees_of_suspended hcall (by rw [hview]; nofun)) ?_
        intro i' attempt' howner' hcall'
        rw [howner] at howner'
        cases howner'
        rw [hcall] at hcall'
        cases hcall'
      · exact absurd hview (hother attempt)
    | replied hws hopen hhandshake =>
      rw [hview] at hhandshake
      cases hhandshake
      exact agrees_reply_iff howner hcall
  · next hnone =>
    obtain ⟨s, hs, rfl⟩ := Option.map_eq_some_iff.1 h
    have hsame : s = w.idle := by
      cases Link.moves hs with
      | replied _ _ hcall => cases hcall
      | ignored => rfl
    subst hsame
    have hcalls : ∀ {i : Nat} {call : Call}, w.calls[i]? = some (some call) →
        ∃ i' call', w.calls[i']? = some (some call') := fun hcall => ⟨_, _, hcall⟩
    refine iff_of_true (agrees_of_same hw hcalls (.of_same rfl rfl) rfl) ?_
    intro i' attempt' howner'
    rw [hnone] at howner'
    cases howner'

/-- `ensureCompanionSession` returns the session it was given, or is suspended. -/
theorem agrees_ensure (hw : WorkerAgrees w) : WorkerAgrees w.ensure := by
  rcases Link.ensure_cases w.idle with hsame | hsuspended
  · have hcalls : ∀ {i : Nat} {call : Call}, w.calls[i]? = some (some call) →
        w.ensure.calls[i]? = some (some call) :=
      fun hj => (List.getElem?_append_left (lt_of_call hj)).trans hj
    have hsockets : w.idle.ensure.sockets = w.idle.sockets := congrArg Link.sockets hsame
    have hsession : w.idle.ensure.session = w.idle.session := congrArg Link.session hsame
    exact agrees_of_same hw (fun hj => ⟨_, _, hcalls hj⟩) (.of_same hsockets hsession) hsession
  · obtain ⟨call, hcall⟩ := Option.ne_none_iff_exists'.1 hsuspended
    refine fun hnot => absurd ⟨w.calls.length, call, ?_⟩ hnot
    exact (List.getElem?_concat_length ..).trans (congrArg some hcall)

/-! ## Every run -/

theorem later_attemptFailed (s : Link) (attempt : Nat) : Later s (s.attemptFailed attempt) :=
  .of_same (by simp) (by simp)

theorem later_step {s s' : Link} {e : LinkEvent} (h : s.step e = some s') : Later s s' := by
  cases Link.moves h with
  | ensure => exact (opensNone_ensure s).later
  | refused | openTimeout | messageTimeout => exact later_attemptFailed s _
  | connecting =>
    have hws : Socket.readyState ⟨.connecting, false, false, false⟩ = .connecting := rfl
    exact (opensNone_append hws (by simp) (by simp)).later
  | fellBack => exact .of_same (by simp) (by simp)
  | @opened k =>
    obtain ⟨hsession, hsockets, -⟩ := opened_fields s k
    exact .modify (f := fun ws => { ws with readyState := .open }) (fun _ h => nomatch h)
      hsockets (Or.inl hsession)
  | replied hws hopen _ frame => exact (opensNone_handshakeReply _ frame ⟨_, hws, hopen⟩).later
  | ignored | wake | elapse => exact .of_same rfl rfl
  | errored => exact (opensNone_errored s _ _).later
  | closed => exact (opensNone_closed s _ _).later
  | close => exact (opensNone_closeSocket rfl rfl).later

theorem opened_resume {e : LinkEvent} (hw : Opened w.link) (h : w.resume i e = some w') :
    Opened w'.link := by
  obtain ⟨s, hs, rfl⟩ := resume_cases h
  have hlater := later_step hs
  exact hw.later ⟨hlater.stays, hlater.session⟩

theorem opened_socketEvent {e : LinkEvent} (hw : Opened w.link) (h : w.socketEvent k e = some w') :
    Opened w'.link := by
  unfold Worker.socketEvent at h
  split at h
  · exact opened_resume hw h
  · obtain ⟨s, hs, rfl⟩ := Option.map_eq_some_iff.1 h
    have hlater := later_step hs
    exact hw.later ⟨hlater.stays, hlater.session⟩

theorem opened_of_step {e : WorkerEvent} (hw : Opened w.link) (h : w.step e = some w') :
    Opened w'.link := by
  cases e with
  | ensure =>
    cases h
    have hlater := (opensNone_ensure w.idle).later
    exact hw.later ⟨hlater.stays, hlater.session⟩
  | bootstrapped i res => exact opened_resume hw h
  | opened k => exact opened_socketEvent hw h
  | message k frame => exact opened_socketEvent hw h
  | errored k => exact opened_socketEvent hw h
  | closed k => exact opened_socketEvent hw h
  | openTimeout i => exact opened_resume hw h
  | messageTimeout i => exact opened_resume hw h
  | wake i => exact opened_resume hw h
  | elapse ms =>
    cases h
    exact hw

theorem agrees_step_iff {e : WorkerEvent} (hopened : Opened w.link) (hw : WorkerAgrees w)
    (h : w.step e = some w') :
    WorkerAgrees w' ↔ e.Lone w := by
  cases e with
  | ensure =>
    cases h
    exact iff_of_true (agrees_ensure hw) trivial
  | bootstrapped i res => exact agrees_bootstrapped_iff h
  | opened k => exact agrees_opened_iff hopened h
  | message k frame => exact agrees_message_iff hw h
  | errored k => exact iff_of_true (agrees_errored hw h) trivial
  | closed k => exact iff_of_true (agrees_closed hw h) trivial
  | openTimeout i => exact iff_of_true (agrees_openTimeout h) trivial
  | messageTimeout i => exact iff_of_true (agrees_messageTimeout h) trivial
  | wake i => exact iff_of_true (agrees_wake h) trivial
  | elapse ms =>
    cases h
    exact iff_of_true (agrees_of_same hw (fun hj => ⟨_, _, hj⟩) (.of_same rfl rfl) rfl) trivial

end Step

/-- Two handlers that find no session, and each connect. -/
def racingCalls : List WorkerEvent :=
  [.ensure, .ensure, .bootstrapped 0 (some { ok := true, port := 17321, bootstrapToken := "b" }),
    .bootstrapped 1 (some { ok := true, port := 17321, bootstrapToken := "b" }), .opened 0,
      .opened 1,
    .message 0 (some (handshakeResponse 1800000)), .message 1 (some (handshakeResponse 1800000))]

theorem exec_racingCalls : ∃ h w, exec Worker.step (.fresh 0) racingCalls = some (h, w) ∧
    w.calls = [none, none] ∧
    w.link.sockets.map Socket.readyState = [.open, .open] := by
  have hend : (exec Worker.step (.fresh 0) racingCalls).map
    (fun p => (p.2.calls, p.2.link.sockets.map Socket.readyState)) =
      some ([none, none], [.open, .open]) := by
    decide +kernel
  obtain ⟨⟨h, w⟩, hexec, hp⟩ := Option.map_eq_some_iff.1 hend
  simp only [Prod.mk.injEq] at hp
  exact ⟨h, w, hexec, hp⟩

end LanguageLlm.Client
