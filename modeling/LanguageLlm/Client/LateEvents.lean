import LanguageLlm.Client.Connection

/-!
# Late events of replaced sockets

While the session that was returned last is live, its socket open and without an error, the
reported state should be `ready`. `tracks_iff_noLateEvents` says exactly when it is: in a run the
state tracks the live session if and only if no close or error event of another session's socket
is delivered while the session is live.
-/

namespace LanguageLlm.Client

open Lib

namespace Link

/-- The session's socket is open and has reported no error. -/
def Live (s : Link) (e : CompanionSession) : Prop :=
  ∃ w, s.sockets[e.ws]? = some w ∧ w.readyState = .open ∧ w.errored = false

/-- The session returned last is reported as `ready` while it is live. -/
def LiveReady (s : Link) : Prop :=
  ∀ e, s.session = some e → s.Live e → s.connectionState = .ready

end Link

/-- A close or error event of a session's socket that is not the current one, while the current
session is live. -/
def LateEvent (f : Fired Link LinkEvent) : Prop :=
  ∃ k w e, (f.label = .closed k ∨ f.label = .errored k) ∧ f.pre.sockets[k]? = some w ∧
    w.listening = true ∧ f.pre.session = some e ∧ e.ws ≠ k ∧ f.pre.Live e

/-- After the step a live session is reported as `ready`, and an event of an older socket has not
changed the state reported for a live session. -/
def Tracks (f : Fired Link LinkEvent) : Prop :=
  f.post.LiveReady ∧
    ∀ k e, f.label = .closed k ∨ f.label = .errored k → f.pre.session = some e → e.ws ≠ k →
      f.pre.Live e → f.post.connectionState = f.pre.connectionState

namespace Link

/-! ## Frame lemmas -/

section Frame

variable (s : Link) (next : ConnectionState) (k attempt : Nat) (f : Socket → Socket)

@[simp] theorem setConnectionState_sockets : (s.setConnectionState next).sockets = s.sockets := by
  unfold setConnectionState; split <;> rfl

@[simp] theorem setConnectionState_session : (s.setConnectionState next).session = s.session := by
  unfold setConnectionState; split <;> rfl

@[simp] theorem setConnectionState_call : (s.setConnectionState next).call = s.call := by
  unfold setConnectionState; split <;> rfl

@[simp] theorem setConnectionState_state :
    (s.setConnectionState next).connectionState = next := by
  unfold setConnectionState
  split
  · assumption
  · rfl

@[simp] theorem attemptFailed_sockets : (s.attemptFailed attempt).sockets = s.sockets := by
  unfold attemptFailed; dsimp only; split <;> simp

@[simp] theorem attemptFailed_session : (s.attemptFailed attempt).session = s.session := by
  unfold attemptFailed; dsimp only; split <;> simp

theorem attemptFailed_call : (s.attemptFailed attempt).call ≠ none := by
  unfold attemptFailed; dsimp only; split <;> simp

theorem modifySocket_sockets (j : Nat) : (s.modifySocket k f).sockets[j]? =
    if k = j then s.sockets[j]?.map f else s.sockets[j]? := by
  simp only [modifySocket, List.getElem?_modify]
  split
  · rfl
  · simp

end Frame

/-! ## What every run keeps -/

/-- The change of a socket keeps its listeners and neither opens it nor clears an error. -/
structure Quiets (f : Socket → Socket) : Prop where
  listening : ∀ w, (f w).listening = w.listening
  open_of : ∀ w, (f w).readyState = .open → w.readyState = .open
  connecting_of : ∀ w, (f w).readyState = .connecting → w.readyState = .connecting
  errored_of : ∀ w, (f w).errored = false → w.errored = false

/-- The held session has its listeners, a socket with listeners has been opened, and while a call
is suspended the held session is not live. -/
structure Coherent (s : Link) : Prop where
  held : ∀ e, s.session = some e → ∃ w, s.sockets[e.ws]? = some w ∧ w.listening = true
  listeners : ∀ (k : Nat) (w : Socket), s.sockets[k]? = some w → w.listening = true →
    w.readyState ≠ .connecting
  calling : s.call ≠ none → ∀ e, s.session = some e → ¬ s.Live e

theorem quiets_close : Quiets fun w =>
    match w.readyState with
    | .connecting | .open => { w with readyState := .closing }
    | .closing | .closed => w := by
  constructor <;> intro w <;> cases h : w.readyState <;> simp [h]

theorem live_of_modifySocket {s : Link} {k : Nat} {f : Socket → Socket} (hf : Quiets f)
    {e : CompanionSession} (h : (s.modifySocket k f).Live e) : s.Live e := by
  obtain ⟨w, hw, ho, he⟩ := h
  rw [modifySocket_sockets] at hw
  split at hw
  · obtain ⟨v, hv, rfl⟩ := Option.map_eq_some_iff.1 hw
    exact ⟨v, hv, hf.open_of v ho, hf.errored_of v he⟩
  · exact ⟨w, hw, ho, he⟩

theorem closeSocket_not_live (s : Link) (e : CompanionSession) : ¬ (s.closeSocket e.ws).Live e := by
  rintro ⟨w, hw, ho, -⟩
  unfold closeSocket at hw
  rw [modifySocket_sockets, if_pos rfl] at hw
  obtain ⟨v, -, rfl⟩ := Option.map_eq_some_iff.1 hw
  revert ho
  cases h : v.readyState <;> simp [h]

namespace Coherent

/-- Coherence reads the sockets, the session and the call only. -/
theorem congr {s t : Link} (h : Coherent s) (hk : t.sockets = s.sockets)
    (hs : t.session = s.session) (hc : t.call ≠ none → s.call ≠ none) : Coherent t where
  held e he := by rw [hk]; exact h.held e (hs ▸ he)
  listeners k w hw := h.listeners k w (hk ▸ hw)
  calling ht e he hl := by
    refine h.calling (hc ht) e (hs ▸ he) ?_
    unfold Live at hl ⊢
    rwa [hk] at hl

/-- Suspending a call while the held session is not live. -/
theorem suspend {s t : Link} (h : Coherent s) (hk : t.sockets = s.sockets)
    (hs : t.session = s.session) (hl : ∀ e, s.session = some e → ¬ s.Live e) : Coherent t where
  held e he := by rw [hk]; exact h.held e (hs ▸ he)
  listeners k w hw := h.listeners k w (hk ▸ hw)
  calling _ e he hlive := by
    refine hl e (hs ▸ he) ?_
    unfold Live at hlive ⊢
    rwa [hk] at hlive

theorem modifySocket {s : Link} (h : Coherent s) (k : Nat) {f : Socket → Socket} (hf : Quiets f) :
    Coherent (s.modifySocket k f) where
  held e he := by
    obtain ⟨w, hw, hl⟩ := h.held e he
    rw [modifySocket_sockets]
    split
    · exact ⟨f w, by rw [hw]; rfl, (hf.listening w).trans hl⟩
    · exact ⟨w, hw, hl⟩
  listeners j w hw hl := by
    rw [modifySocket_sockets] at hw
    split at hw
    · obtain ⟨v, hv, rfl⟩ := Option.map_eq_some_iff.1 hw
      exact fun hc => h.listeners j v hv ((hf.listening v).symm.trans hl) (hf.connecting_of v hc)
    · exact h.listeners j w hw hl
  calling hc e he hl := h.calling hc e he (live_of_modifySocket hf hl)

theorem closeSocket {s : Link} (h : Coherent s) (k : Nat) : Coherent (s.closeSocket k) :=
  h.modifySocket k quiets_close

theorem attemptFailed {s : Link} (h : Coherent s) (hc : s.call ≠ none) (attempt : Nat) :
    Coherent (s.attemptFailed attempt) :=
  h.suspend (by simp) (by simp) (h.calling hc)

theorem setConnectionState {s : Link} (h : Coherent s) (next : ConnectionState) :
    Coherent (s.setConnectionState next) :=
  h.congr (by simp) (by simp) (by simp)

theorem fresh (now : Nat) : Coherent (Link.fresh now) where
  held e he := by simp [Link.fresh] at he
  listeners k w hw := by simp [Link.fresh] at hw
  calling hc := absurd rfl hc

theorem ensure {s : Link} (h : Coherent s) : Coherent s.ensure := by
  unfold Link.ensure
  split
  · next e he =>
    split
    · exact h
    · refine (h.closeSocket e.ws).suspend rfl rfl ?_
      intro e' he'
      rw [show (s.closeSocket e.ws).session = s.session from rfl, he] at he'
      cases he'
      exact closeSocket_not_live s e
  · next he =>
    exact h.suspend rfl rfl fun e he' => by rw [he] at he'; cases he'

/-- A socket that is connecting is added behind the others. -/
theorem connecting {s : Link} (h : Coherent s) {attempt : Nat}
    (hcall : s.call = some (.bootstrap attempt)) :
    Coherent { s.setConnectionState .connecting with
      sockets := s.sockets ++ [⟨.connecting, false, false, false⟩]
      call := some (.opening attempt s.sockets.length) } := by
  have hlt : ∀ e, s.session = some e → e.ws < s.sockets.length := by
    intro e he
    obtain ⟨w, hw, -⟩ := h.held e he
    exact (List.getElem?_eq_some_iff.1 hw).1
  refine ⟨?_, ?_, ?_⟩
  · intro e he
    simp only [setConnectionState_session] at he
    obtain ⟨w, hw, hl⟩ := h.held e he
    exact ⟨w, by simpa [List.getElem?_append_left (hlt e he)] using hw, hl⟩
  · intro k w hw hl
    simp only [List.getElem?_append] at hw
    split at hw
    · exact h.listeners k w hw hl
    · rcases hk : k - s.sockets.length with _ | j
      · rw [hk] at hw
        simp only [List.getElem?_cons_zero, Option.some.injEq] at hw
        subst hw
        cases hl
      · rw [hk] at hw
        simp at hw
  · intro _ e he hl
    simp only [setConnectionState_session] at he
    have hc : s.call ≠ none := by rw [hcall]; nofun
    refine h.calling hc e he ?_
    obtain ⟨w, hw, hl⟩ := hl
    exact ⟨w, by simpa [List.getElem?_append_left (hlt e he)] using hw, hl⟩

theorem opened {s : Link} (h : Coherent s) {k : Nat} {w : Socket} (hw : s.sockets[k]? = some w)
    (hc : w.readyState = .connecting) : Coherent (s.opened k) := by
  -- a connecting socket has no listeners, so it is not the held session's
  have hk : ∀ e, s.session = some e → k ≠ e.ws := by
    rintro e he rfl
    obtain ⟨v, hv, hl⟩ := h.held e he
    rw [hw] at hv
    cases hv
    exact h.listeners _ w hw hl hc
  have h' : Coherent (s.modifySocket k fun w => { w with readyState := .open }) := by
    refine ⟨?_, ?_, ?_⟩
    · intro e he
      rw [modifySocket_sockets, if_neg (hk e he)]
      exact h.held e he
    · intro j v hv hl
      rw [modifySocket_sockets] at hv
      split at hv
      · obtain ⟨u, -, rfl⟩ := Option.map_eq_some_iff.1 hv
        simp
      · exact h.listeners j v hv hl
    · rintro hcall e he ⟨v, hv, hl⟩
      rw [modifySocket_sockets, if_neg (hk e he)] at hv
      exact h.calling hcall e he ⟨v, hv, hl⟩
  unfold Link.opened
  dsimp only
  split
  · next attempt j hcall =>
    split
    · exact h'.suspend rfl rfl (h'.calling (show s.call ≠ none by rw [hcall]; simp))
    · exact h'
  · exact h'

theorem handshakeReply {s : Link} (h : Coherent s) {attempt k : Nat} {w : Socket}
    (hcall : s.call ≠ none) (hw : s.sockets[k]? = some w) (ho : w.readyState = .open)
    (frame : Option Json) : Coherent (s.handshakeReply attempt k frame) := by
  unfold Link.handshakeReply
  split
  · exact h.attemptFailed hcall attempt
  · split
    · split
      · exact h.attemptFailed hcall attempt
      · split
        · exact ((h.closeSocket k).setConnectionState _).attemptFailed
            (by simpa [Link.closeSocket, Link.modifySocket] using hcall)
            attempt
        · refine ⟨?_, ?_, fun hc => absurd rfl hc⟩
          · intro e he
            simp only [Option.some.injEq] at he
            subst he
            refine ⟨{ w with listening := true }, ?_, rfl⟩
            simp only [setConnectionState_sockets]
            rw [modifySocket_sockets, if_pos rfl, hw]
            rfl
          · intro j v hv hl
            simp only [setConnectionState_sockets] at hv
            rw [modifySocket_sockets] at hv
            split at hv
            · next hkj =>
              subst hkj
              rw [hw] at hv
              cases hv
              simp [ho]
            · exact h.listeners j v hv hl
    · exact ((h.closeSocket k).setConnectionState _).attemptFailed
        (by simpa [Link.closeSocket, Link.modifySocket] using hcall)
            attempt

theorem errored {s : Link} (h : Coherent s) (k : Nat) (w : Socket) : Coherent (s.errored k w) := by
  have hq : Quiets fun w => { w with readyState := .closed, errored := true } :=
    ⟨fun _ => rfl, fun _ => nofun, fun _ => nofun, fun _ => nofun⟩
  have h' : Coherent (if w.listening then
      (s.modifySocket k fun w =>
        { w with readyState := .closed, errored := true }).setConnectionState
        .failed
      else s.modifySocket k fun w => { w with readyState := .closed, errored := true }) := by
    split
    · exact (h.modifySocket k hq).setConnectionState _
    · exact h.modifySocket k hq
  unfold Link.errored
  dsimp only
  split
  · next attempt j hcall =>
    split
    · refine h'.attemptFailed ?_ attempt
      split <;> simp [Link.modifySocket, hcall]
    · exact h'
  · exact h'

theorem closed {s : Link} (h : Coherent s) (k : Nat) (w : Socket) : Coherent (s.closed k w) := by
  have h' : Coherent (s.modifySocket k fun w => { w with readyState := .closed, ended := true }) :=
    h.modifySocket k ⟨fun _ => rfl, fun _ => nofun, fun _ => nofun, fun _ he => he⟩
  unfold Link.closed
  dsimp only
  split
  · exact h'.setConnectionState _
  · exact h'

theorem step {s s' : Link} (h : Coherent s) {e : LinkEvent} (hs : s.step e = some s') :
    Coherent s' := by
  cases Link.moves hs with
  | ensure => exact h.ensure
  | refused hcall => exact h.attemptFailed (by rw [hcall]; nofun) _
  | connecting hcall => exact h.connecting hcall
  | fellBack hcall next => exact h.congr (by simp) (by simp) (by simp)
  | opened hw hconnecting => exact h.opened hw hconnecting
  | replied hw hopen hcall frame => exact h.handshakeReply (by rw [hcall]; nofun) hw hopen frame
  | ignored => exact h
  | errored => exact h.errored _ _
  | closed => exact h.closed _ _
  | openTimeout hcall => exact h.attemptFailed (by rw [hcall]; nofun) _
  | messageTimeout hcall => exact h.attemptFailed (by rw [hcall]; nofun) _
  | wake hcall => exact h.congr rfl rfl fun _ => by rw [hcall]; nofun
  | close => exact h.closeSocket _
  | elapse ms => exact h.congr rfl rfl id

theorem of_run {now : Nat} {h : List (Fired Link LinkEvent)} {s : Link}
    (hr : Run Link.step (Link.fresh now) h s) : Coherent s :=
  hr.inv Coherent (fresh now) fun _ _ _ hc hs => hc.step hs

end Coherent

/-! ## The reported state -/

theorem liveReady_of_calling {s : Link} (h : Coherent s) (hc : s.call ≠ none) : s.LiveReady :=
  fun e he hl => absurd hl (h.calling hc e he)

/-- While a session is live no call is suspended. -/
theorem call_none_of_live {s : Link} (h : Coherent s) {e : CompanionSession}
    (he : s.session = some e) (hl : s.Live e) : s.call = none := by
  by_contra hc
  exact h.calling hc e he hl

/-- Changing another socket leaves a session live that was. -/
theorem live_modifySocket_ne {s : Link} {k : Nat} {f : Socket → Socket} {e : CompanionSession}
    (hk : e.ws ≠ k) : (s.modifySocket k f).Live e ↔ s.Live e := by
  unfold Live
  rw [modifySocket_sockets, if_neg (Ne.symm hk)]

/-- Without a suspended call, an error event shows in the sockets and in the reported state. -/
theorem errored_idle {s : Link} (hc : s.call = none) (k : Nat) (w : Socket) :
    (∀ e, (s.errored k w).Live e ↔
      (s.modifySocket k fun w => { w with readyState := .closed, errored := true }).Live e) ∧
    (s.errored k w).session = s.session ∧
    (s.errored k w).connectionState = if w.listening then .failed else s.connectionState := by
  unfold Link.errored
  dsimp only
  rw [hc]
  cases w.listening <;> simp [Live, Link.modifySocket]

/-- A close event shows in the sockets and in the reported state. -/
theorem closed_idle (s : Link) (k : Nat) (w : Socket) :
    (∀ e, (s.closed k w).Live e ↔
      (s.modifySocket k fun w => { w with readyState := .closed, ended := true }).Live e) ∧
    (s.closed k w).session = s.session ∧
    (s.closed k w).call = s.call ∧
    (s.closed k w).connectionState =
      if w.listening ∧ (s.connectionState = .ready ∨ s.connectionState = .degraded) then
        .disconnected
      else s.connectionState := by
  unfold Link.closed
  dsimp only
  split <;> simp [Live, Link.modifySocket]

theorem not_live_of_closed {s : Link} {e : CompanionSession} {f : Socket → Socket}
    (hf : ∀ w, (f w).readyState = .closed) : ¬ (s.modifySocket e.ws f).Live e := by
  rintro ⟨w, hw, ho, -⟩
  rw [modifySocket_sockets, if_pos rfl] at hw
  obtain ⟨v, -, rfl⟩ := Option.map_eq_some_iff.1 hw
  rw [hf v] at ho
  cases ho

/-- The end of a socket that nobody listens to, or whose loss ends the live session. -/
theorem liveReady_of_closing {s s' : Link} (hr : s.LiveReady) {k : Nat} {w : Socket}
    {f : Socket → Socket} (hclosed : ∀ w, (f w).readyState = .closed)
    (hlive : ∀ e, s'.Live e ↔ (s.modifySocket k f).Live e) (hsession : s'.session = s.session)
    (hstate : w.listening = false → s'.connectionState = s.connectionState)
    (hlate : w.listening = true → ∀ e, s.session = some e → e.ws ≠ k → ¬ s.Live e) :
    s'.LiveReady := by
  intro e he hl
  rw [hsession] at he
  have hne : e.ws ≠ k := by
    rintro rfl
    exact not_live_of_closed hclosed ((hlive e).1 hl)
  have hl' : s.Live e := (live_modifySocket_ne hne).1 ((hlive e).1 hl)
  cases hw : w.listening with
  | false =>
    rw [hstate hw]
    exact hr e he hl'
  | true => exact absurd hl' (hlate hw e he hne)

/-- The error event of a socket, unless it is a late one. -/
theorem liveReady_errored {s : Link} (h : Coherent s) (hr : s.LiveReady) {k : Nat} {w : Socket}
    (hlate : w.listening = true → ∀ e, s.session = some e → e.ws ≠ k → ¬ s.Live e) :
    (s.errored k w).LiveReady := by
  by_cases hc : s.call = none
  · obtain ⟨hlive, hsession, hstate⟩ := errored_idle hc k w
    exact liveReady_of_closing hr (fun _ => rfl) hlive hsession
      (fun hlis => by rw [hstate, hlis]; rfl) hlate
  · intro e he hl
    refine absurd hl ?_
    by_cases hc' : (s.errored k w).call = none
    · -- the call is suspended before and after: an error event never ends one
      exfalso
      revert hc'
      unfold Link.errored
      dsimp only
      split
      · split
        · exact fun hn => attemptFailed_call _ _ hn
        · split <;> simpa [Link.modifySocket] using hc
      · split <;> simpa [Link.modifySocket] using hc
    · exact (h.errored k w).calling hc' e he

/-- The close event of a socket, unless it is a late one. -/
theorem liveReady_closed {s : Link} (hr : s.LiveReady) {k : Nat} {w : Socket}
    (hlate : w.listening = true → ∀ e, s.session = some e → e.ws ≠ k → ¬ s.Live e) :
    (s.closed k w).LiveReady := by
  obtain ⟨hlive, hsession, -, hstate⟩ := closed_idle s k w
  exact liveReady_of_closing hr (fun _ => rfl) hlive hsession
    (fun hlis => by rw [hstate, hlis]; rfl) hlate

theorem liveReady_opened {s : Link} (h : Coherent s) (hr : s.LiveReady) {k : Nat} {w : Socket}
    (hw : s.sockets[k]? = some w) (hc : w.readyState = .connecting) : (s.opened k).LiveReady := by
  have h' := h.opened hw hc
  by_cases hcall : (s.opened k).call = none
  · have hstep : s.opened k = s.modifySocket k fun w => { w with readyState := .open } := by
      unfold Link.opened at hcall ⊢
      dsimp only at hcall ⊢
      split
      · next attempt j hs =>
        rw [hs] at hcall
        dsimp only at hcall
        split at hcall
        · cases hcall
        · rw [show (s.modifySocket k _).call = s.call from rfl, hs] at hcall
          cases hcall
      · rfl
    rw [hstep]
    intro e he hl
    have hne : e.ws ≠ k := by
      rintro rfl
      obtain ⟨v, hv, hlis⟩ := h.held e he
      rw [hw] at hv
      cases hv
      exact h.listeners _ w hw hlis hc
    exact hr e he ((live_modifySocket_ne hne).1 hl)
  · exact liveReady_of_calling h' hcall

theorem liveReady_handshakeReply {s : Link} {attempt k : Nat}
    (hco : ∀ frame, Coherent (s.handshakeReply attempt k frame)) (frame : Option Json) :
    (s.handshakeReply attempt k frame).LiveReady := by
  by_cases hc : (s.handshakeReply attempt k frame).call = none
  · intro e _ _
    revert hc
    unfold Link.handshakeReply
    split
    · exact fun hc => absurd hc (attemptFailed_call _ _)
    · split
      · split
        · exact fun hc => absurd hc (attemptFailed_call _ _)
        · split
          · exact fun hc => absurd hc (attemptFailed_call _ _)
          · intro _
            simp
      · exact fun hc => absurd hc (attemptFailed_call _ _)
  · exact liveReady_of_calling (hco frame) hc

/-- A call returns the session it was given, or is suspended. -/
theorem ensure_cases (s : Link) : s.ensure = s ∨ s.ensure.call ≠ none := by
  unfold Link.ensure
  split
  · split
    · exact Or.inl rfl
    · exact Or.inr (by simp)
  · exact Or.inr (by simp)

/-- A step that is no late event keeps a live session reported as ready. -/
theorem liveReady_step {s s' : Link} {e : LinkEvent} (h : Coherent s) (hr : s.LiveReady)
    (hs : s.step e = some s') (hlate : ¬ LateEvent ⟨s, e, s'⟩) : s'.LiveReady := by
  have h' : Coherent s' := h.step hs
  cases Link.moves hs with
  | ensure =>
    rcases ensure_cases s with he | he
    · rw [he]
      exact hr
    · exact liveReady_of_calling h' he
  | refused | openTimeout | messageTimeout =>
    exact liveReady_of_calling h' (attemptFailed_call _ _)
  | connecting | wake => exact liveReady_of_calling h' nofun
  | fellBack hcall next =>
    intro e he hl
    have hno : ¬ s.Live e := h.calling (by rw [hcall]; nofun) e (by simpa using he)
    exact absurd (by simpa [Live] using hl) hno
  | opened hw hconnecting => exact liveReady_opened h hr hw hconnecting
  | replied hw hopen hcall frame =>
    exact liveReady_handshakeReply
      (fun frame => h.handshakeReply (by rw [hcall]; nofun) hw hopen frame) frame
  | ignored | elapse => exact hr
  | @errored k w hw =>
    refine liveReady_errored h hr fun hlis e he hne hl => hlate ?_
    exact ⟨k, w, e, Or.inr rfl, hw, hlis, he, hne, hl⟩
  | @closed k w hw =>
    refine liveReady_closed hr fun hlis e he hne hl => hlate ?_
    exact ⟨k, w, e, Or.inl rfl, hw, hlis, he, hne, hl⟩
  | @close e he =>
    intro e' he' hl
    rw [show (s.closeSocket e.ws).session = s.session from rfl, he] at he'
    cases he'
    exact absurd hl (closeSocket_not_live s e)

/-- A late event takes the reported state away from `ready` while the session stays live. -/
theorem not_liveReady_of_late {f : Fired Link LinkEvent} (h : Coherent f.pre)
    (hr : f.pre.LiveReady) (hs : f.pre.step f.label = some f.post) (hlate : LateEvent f) :
    ¬ f.post.LiveReady := by
  obtain ⟨s, label, s'⟩ := f
  obtain ⟨k, w, e, hlabel, hw, hlis, he, hne, hl⟩ := hlate
  dsimp only at h hr hs hlabel hw he hl ⊢
  have hready := hr e he hl
  intro hr'
  rcases hlabel with rfl | rfl
  · cases Link.moves hs with
    | closed hw' =>
      obtain rfl := Option.some.inj (hw.symm.trans hw')
      obtain ⟨hlive, hsession, -, hstate⟩ := closed_idle s k w
      have hpost := hr' e (hsession.trans he) ((hlive e).2 ((live_modifySocket_ne hne).2 hl))
      rw [hstate, hready, hlis] at hpost
      cases hpost
  · cases Link.moves hs with
    | errored hw' =>
      obtain rfl := Option.some.inj (hw.symm.trans hw')
      obtain ⟨hlive, hsession, hstate⟩ := errored_idle (call_none_of_live h he hl) k w
      have hpost := hr' e (hsession.trans he) ((hlive e).2 ((live_modifySocket_ne hne).2 hl))
      rw [hstate, hlis] at hpost
      cases hpost

/-- A close or error event that is not late leaves the state reported for a live session. -/
theorem state_of_not_late {f : Fired Link LinkEvent} (h : Coherent f.pre)
    (hs : f.pre.step f.label = some f.post) (hlate : ¬ LateEvent f) {k : Nat}
    {e : CompanionSession} (hlabel : f.label = .closed k ∨ f.label = .errored k)
    (he : f.pre.session = some e) (hne : e.ws ≠ k) (hl : f.pre.Live e) :
    f.post.connectionState = f.pre.connectionState := by
  have hlis : ∀ w, f.pre.sockets[k]? = some w → w.listening = false := by
    intro w hw
    cases hlis : w.listening
    · rfl
    · exact absurd ⟨k, w, e, hlabel, hw, hlis, he, hne, hl⟩ hlate
  obtain ⟨s, label, s'⟩ := f
  dsimp only at h hs hlabel he hl hlis ⊢
  rcases hlabel with rfl | rfl
  · cases Link.moves hs with
    | @closed _ w hw =>
      rw [(closed_idle s k w).2.2.2, hlis w hw]
      simp
  · cases Link.moves hs with
    | @errored _ w hw =>
      rw [(errored_idle (call_none_of_live h he hl) k w).2.2, hlis w hw]
      simp

theorem liveReady_fresh (now : Nat) : (Link.fresh now).LiveReady :=
  fun e he => by simp [Link.fresh] at he

theorem liveReady_of_tracks {now : Nat} {h : List (Fired Link LinkEvent)} {s : Link}
    (hr : Run Link.step (Link.fresh now) h s) (hT : ∀ f ∈ h, Tracks f) : s.LiveReady := by
  cases hr with
  | nil => exact liveReady_fresh now
  | cons _ _ => exact (hT _ List.mem_cons_self).1

end Link

/-- The reported state tracks the live session in exactly the runs without a late event. -/
theorem tracks_iff_noLateEvents {now : Nat} {h : List (Fired Link LinkEvent)} {s : Link}
    (hr : Run Link.step (Link.fresh now) h s) :
    (∀ f ∈ h, Tracks f) ↔ ∀ f ∈ h, ¬ LateEvent f := by
  constructor
  · intro hT f hf hlate
    obtain ⟨hs, h', hr', hsub⟩ := hr.mem hf
    have hpre := Link.liveReady_of_tracks hr' fun g hg => hT g (hsub g hg)
    exact Link.not_liveReady_of_late (.of_run hr') hpre hs hlate (hT f hf).1
  · intro hN f hf
    obtain ⟨hs, h', hr', hsub⟩ := hr.mem hf
    have hco := Link.Coherent.of_run hr'
    have hpre : f.pre.LiveReady :=
      hr'.invWhen (fun f => ¬ LateEvent f) (fun _ s => s.LiveReady)
        (Link.liveReady_fresh now)
        (fun _ _ _ _ hr hI hn hs => Link.liveReady_step (.of_run hr) hI hs hn)
        fun g hg => hN g (hsub g hg)
    exact ⟨Link.liveReady_step hco hpre hs (hN f hf),
      fun k e hlabel he hne hl => Link.state_of_not_late hco hs (hN f hf) hlabel he hne hl⟩

/-! ## Two reconnects -/

/-- The companion's handshake response, with the expiry of the session. -/
def handshakeResponse (expiresAtMs : Int) : Json :=
  .obj [("type", .str "auth.handshake.response"), ("protocolVersion", .str "1.0.0"),
    ("expiresAtMs", .int expiresAtMs), ("ok", .bool true)]

/-- A call that connects the socket `ws`. -/
def connect (ws : Nat) (expiresAtMs : Int) : List LinkEvent :=
  [.ensure, .bootstrapped (some { ok := true, port := 17321, bootstrapToken := "b" }), .opened ws,
    .message ws (some (handshakeResponse expiresAtMs))]

/-- The close event of the expired session's socket comes after its replacement is ready. -/
def lateClose : List LinkEvent :=
  connect 0 4000 ++ connect 1 1800000 ++ [.closed 0]

/-- The close event of the expired session's socket comes while its replacement connects. -/
def earlyClose : List LinkEvent :=
  connect 0 4000 ++ [.ensure, .closed 0] ++ (connect 1 1800000).tail

instance (s : Link) (e : CompanionSession) : Decidable (s.Live e) :=
  match h : s.sockets[e.ws]? with
  | some w =>
    decidable_of_iff (w.readyState = .open ∧ w.errored = false) (by simp [Link.Live, h])
  | none => .isFalse (by simp [Link.Live, h])

/-- Not every run tracks the live session. -/
theorem not_tracks_lateClose :
    ∃ h s, exec Link.step (Link.fresh 0) lateClose = some (h, s) ∧
      Run Link.step (Link.fresh 0) h s ∧ s.connectionState = .disconnected ∧
      ¬ ∀ f ∈ h, Tracks f := by
  have hend : (exec Link.step (Link.fresh 0) lateClose).map (fun p => (p.2.connectionState,
      p.2.session.any fun e => decide (p.2.Live e))) = some (.disconnected, true) := by
    decide +kernel
  obtain ⟨⟨h, s⟩, he, hp⟩ := Option.map_eq_some_iff.1 hend
  simp only [Prod.mk.injEq, Option.any_eq_true, decide_eq_true_eq] at hp
  obtain ⟨hstate, e, hsession, hlive⟩ := hp
  refine ⟨h, s, he, exec_run he, hstate, fun hT => ?_⟩
  have hready := Link.liveReady_of_tracks (exec_run he) hT e hsession hlive
  rw [hstate] at hready
  cases hready

/-- No session is live when the old socket's close event comes early. -/
theorem tracks_earlyClose :
    ∃ h s, exec Link.step (Link.fresh 0) earlyClose = some (h, s) ∧
      s.connectionState = .ready ∧ ∀ f ∈ h, Tracks f := by
  have hend : (exec Link.step (Link.fresh 0) earlyClose).map (fun p => (p.2.connectionState,
      p.1.all fun f => match f.label with
        | .closed _ | .errored _ => f.pre.session.all fun e => !decide (f.pre.Live e)
        | _ => true)) = some (.ready, true) := by
    decide +kernel
  obtain ⟨⟨h, s⟩, he, hp⟩ := Option.map_eq_some_iff.1 hend
  simp only [Prod.mk.injEq, List.all_eq_true] at hp
  obtain ⟨hstate, hquiet⟩ := hp
  refine ⟨h, s, he, hstate, (tracks_iff_noLateEvents (exec_run he)).2 ?_⟩
  rintro f hf ⟨k, w, e, hlabel, -, -, hsession, -, hlive⟩
  have hq := hquiet f hf
  rcases hlabel with hlabel | hlabel <;> simp [hlabel, hsession, hlive] at hq

end LanguageLlm.Client
