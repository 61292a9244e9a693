import LanguageLlm.Client.Delivery

/-!
# Requests and their replies

A background handler sends a request and calls `waitType` for the type of its reply
(`background.ts`); the companion answers the requests of its socket in the order it received them,
with any number of messages for each. Nothing in a reply says which request it answers, so a
promise gets whatever message of its type comes first: the late reply to a request that timed out,
or the reply to a concurrent one.

`resolves_own_reply` shows when the pairing is right all the same: every request is sent while no
reply of the types it waits for is queued, in flight, owed to an earlier request or waited for,
and while nobody waits for a type that its own answer may contain.
-/

namespace LanguageLlm.Client

open Lib Session

/-- A request that the companion has not answered yet: its number and the types of the messages
that its answer may consist of. -/
structure Request where
  id : Nat
  mayAnswer : List String

/-- A frame on its way to the client, with the number of the request it answers. -/
structure Frame where
  parsed : Option Json
  answers : Nat

/-- The session and its FIFO socket. `issuedFor` lists the request of each `waitType` promise and
`answered` the request that each arrived frame answers. -/
structure Wire where
  session : Session
  outbox : List Request
  inbox : List Frame
  requests : Nat
  issuedFor : List Nat
  answered : List Nat

def Wire.fresh (handlers : List Nat) (now : Nat) : Wire where
  session := .fresh handlers now
  outbox := []
  inbox := []
  requests := 0
  issuedFor := []
  answered := []

/-- What can happen on the wire. A request waits for the reply types `awaits` (two of them in
`lyrics.fetch-lrclib`); the companion answers the oldest request. -/
inductive WireEvent where
  | request (awaits : List (String × Nat)) (mayAnswer : List String)
  | answer (frames : List (Option Json))
  | deliver
  | timeout (p : Nat)
  | subscribe (handler : Nat)
  | unsubscribe (handler : Nat)
  | elapse (ms : Nat)

/-- The type of a frame that parses to an object with one. -/
def frameType? (frame : Option Json) : Option String := frame.bind fun body => body.getStr "type"

namespace Wire

/-- `waitType` for the reply of the request numbered `r`. -/
def await (w : Wire) (r : Nat) (T : String × Nat) : Wire :=
  { w with session := w.session.waitType T.1 T.2, issuedFor := w.issuedFor ++ [r] }

/-- `send` followed by the `waitType` calls, in one task. -/
def request (w : Wire) (awaits : List (String × Nat)) (mayAnswer : List String) : Wire :=
  let r := w.requests
  let sent : Wire := { w with requests := r + 1, outbox := w.outbox ++ [{ id := r, mayAnswer }] }
  awaits.foldl (fun w T => w.await r T) sent

/-- The companion answers its oldest request. -/
def answer (w : Wire) (frames : List (Option Json)) : Option Wire :=
  match w.outbox with
  | [] => none
  | r :: outbox =>
    if ∀ frame ∈ frames, ∀ T ∈ frameType? frame, T ∈ r.mayAnswer then
      some { w with
        outbox := outbox
        inbox := w.inbox ++ frames.map fun parsed => { parsed, answers := r.id } }
    else none

def step (w : Wire) : WireEvent → Option Wire
  | .request awaits mayAnswer => some (w.request awaits mayAnswer)
  | .answer frames => w.answer frames
  | .deliver =>
    match w.inbox with
    | [] => none
    | frame :: inbox =>
      (w.session.step (.message frame.parsed)).map fun session =>
        { w with session, inbox, answered := w.answered ++ [frame.answers] }
  | .timeout p => (w.session.step (.timeout p)).map fun session => { w with session }
  | .subscribe handler =>
    (w.session.step (.subscribe handler)).map fun session => { w with session }
  | .unsubscribe handler =>
    (w.session.step (.unsubscribe handler)).map fun session => { w with session }
  | .elapse ms => (w.session.step (.elapse ms)).map fun session => { w with session }

end Wire

/-- Every resolved promise holds a frame that answers the request it was issued for. -/
def Correlated (w : Wire) : Prop :=
  ∀ p m, w.session.ResolvedWith p m → ∃ r, w.issuedFor[p]? = some r ∧ w.answered[m.serial]? = some r

/-- Nobody waits for `T`, and no reply of type `T` is queued, in flight or owed to a request. -/
structure Quiet (w : Wire) (T : String) : Prop where
  waiters : ∀ p, ¬ w.session.Waiting p T
  queue : ∀ m ∈ w.session.queue, m.type? ≠ some T
  inbox : ∀ f ∈ w.inbox, frameType? f.parsed ≠ some T
  outbox : ∀ r ∈ w.outbox, T ∉ r.mayAnswer

/-- A request sent while the types it waits for are quiet and nobody waits for a type that its
answer may contain. Other events are unrestricted. -/
def OneAtATime (f : Fired Wire WireEvent) : Prop :=
  match f.label with
  | .request awaits mayAnswer =>
    (∀ T ∈ awaits, Quiet f.pre T.1) ∧ ∀ T ∈ mayAnswer, ∀ p, ¬ f.pre.session.Waiting p T
  | _ => True

/-! ## The pairing invariant -/

/-- For a waiting promise every reply of its type that is in flight or owed is one to its request,
and what was resolved was resolved with a reply to its own request. -/
structure Paired (w : Wire) : Prop where
  sound : Sound w.session
  issued_length : w.issuedFor.length = w.session.promises.length
  answered_length : w.answered.length = w.session.arrived
  inbox : ∀ {p T r}, w.session.Waiting p T → w.issuedFor[p]? = some r →
    ∀ f ∈ w.inbox, frameType? f.parsed = some T → f.answers = r
  outbox : ∀ {p T r}, w.session.Waiting p T → w.issuedFor[p]? = some r →
    ∀ q ∈ w.outbox, T ∈ q.mayAnswer → q.id = r
  correlated : Correlated w

namespace Paired

theorem fresh (handlers : List Nat) (now : Nat) : Paired (Wire.fresh handlers now) where
  sound := Sound.fresh handlers now
  issued_length := rfl
  answered_length := rfl
  inbox hw := by simp [Wire.fresh, Session.fresh, Waiting] at hw
  outbox hw := by simp [Wire.fresh, Session.fresh, Waiting] at hw
  correlated p m hm := by simp [Wire.fresh, Session.fresh, ResolvedWith] at hm

/-- A session step that makes nobody wait and resolves nothing keeps the pairing. -/
theorem quiet {w : Wire} (h : Paired w) {session : Session} (hs : Sound session)
    (hl : session.promises.length = w.session.promises.length)
    (ha : session.arrived = w.session.arrived)
    (hw : ∀ {p T}, session.Waiting p T → w.session.Waiting p T)
    (hr : ∀ {p m}, session.ResolvedWith p m → w.session.ResolvedWith p m) :
    Paired { w with session } where
  sound := hs
  issued_length := h.issued_length.trans hl.symm
  answered_length := h.answered_length.trans ha.symm
  inbox hp := h.inbox (hw hp)
  outbox hp := h.outbox (hw hp)
  correlated p m hm := h.correlated p m (hr hm)

/-- The companion's answer is in flight for the request it answers. -/
theorem answer {w w' : Wire} (h : Paired w) {frames : List (Option Json)}
    (hs : w.answer frames = some w') : Paired w' := by
  unfold Wire.answer at hs
  split at hs
  · cases hs
  · next q outbox ho =>
    split at hs
    · next hmay =>
      simp only [Option.some.injEq] at hs
      subst hs
      refine ⟨h.sound, h.issued_length, h.answered_length, ?_, ?_, h.correlated⟩
      · intro p T r hp hr f hf hT
        rcases List.mem_append.1 hf with hf | hf
        · exact h.inbox hp hr f hf hT
        · obtain ⟨parsed, hparsed, rfl⟩ := List.mem_map.1 hf
          exact h.outbox hp hr q (ho ▸ List.mem_cons_self) (hmay parsed hparsed T hT)
      · intro p T r hp hr q' hq'
        exact h.outbox hp hr q' (ho ▸ List.mem_cons_of_mem _ hq')
    · cases hs

/-- Waiting for a quiet type on behalf of the request `r`: replies of that type can only be owed
by `r` itself. -/
theorem await {w : Wire} (h : Paired w) (r : Nat) (T : String × Nat)
    (hq : ∀ m ∈ w.session.queue, m.type? ≠ some T.1)
    (hi : ∀ f ∈ w.inbox, frameType? f.parsed ≠ some T.1)
    (ho : ∀ q ∈ w.outbox, T.1 ∈ q.mayAnswer → q.id = r) :
    Paired (w.await r T) ∧ (w.await r T).session.queue = w.session.queue := by
  rcases waitType_cases w.session T.1 T.2 with ⟨m, hm, -⟩ | ⟨-, he⟩
  · have hty := List.find?_some hm
    exact absurd (of_decide_eq_true hty) (hq m (List.mem_of_find?_eq_some hm))
  · have hs : (w.await r T).session = w.session.waitType T.1 T.2 := rfl
    rw [he] at hs
    -- the new promise is the last one, issued for `r`; every other one was there before
    have hold : ∀ {p U r'}, (w.await r T).session.Waiting p U →
        (w.await r T).issuedFor[p]? = some r' →
        (w.session.Waiting p U ∧ w.issuedFor[p]? = some r') ∨ (U = T.1 ∧ r' = r) := by
      intro p U r' hp hr'
      rw [hs] at hp
      simp only [Wire.await] at hr'
      rcases waiting_append.1 hp with hp | ⟨rfl, rfl⟩
      · rw [List.getElem?_append_left (h.issued_length ▸ waiting_lt hp)] at hr'
        exact Or.inl ⟨hp, hr'⟩
      · rw [← h.issued_length] at hr'
        simp only [List.getElem?_concat_length, Option.some.injEq] at hr'
        exact Or.inr ⟨rfl, hr'.symm⟩
    refine ⟨⟨?_, ?_, ?_, ?_, ?_, ?_⟩, by rw [hs]⟩
    · exact h.sound.waitType _ _
    · rw [hs]
      simp [Wire.await, h.issued_length]
    · rw [hs]
      exact h.answered_length
    · intro p U r' hp hr' f hf hU
      rcases hold hp hr' with ⟨hp, hr'⟩ | ⟨rfl, -⟩
      · exact h.inbox hp hr' f hf hU
      · exact absurd hU (hi f hf)
    · intro p U r' hp hr' q hq' hU
      rcases hold hp hr' with ⟨hp, hr'⟩ | ⟨rfl, rfl⟩
      · exact h.outbox hp hr' q hq' hU
      · exact ho q hq' hU
    · intro p m hm
      rw [hs] at hm
      obtain ⟨r', hr', ha⟩ := h.correlated p m (resolvedWith_append hm)
      refine ⟨r', ?_, ha⟩
      simp only [Wire.await]
      rw [List.getElem?_append_left (List.getElem?_eq_some_iff.1 hr').1]
      exact hr'

theorem awaits {w : Wire} (h : Paired w) (r : Nat) (Ts : List (String × Nat))
    (hq : ∀ T ∈ Ts, ∀ m ∈ w.session.queue, m.type? ≠ some T.1)
    (hi : ∀ T ∈ Ts, ∀ f ∈ w.inbox, frameType? f.parsed ≠ some T.1)
    (ho : ∀ T ∈ Ts, ∀ q ∈ w.outbox, T.1 ∈ q.mayAnswer → q.id = r) :
    Paired (Ts.foldl (fun w T => w.await r T) w) := by
  induction Ts generalizing w with
  | nil => exact h
  | cons T Ts ih =>
    obtain ⟨h', hqueue⟩ := h.await r T (hq T List.mem_cons_self) (hi T List.mem_cons_self)
      (ho T List.mem_cons_self)
    refine ih h' ?_ ?_ ?_
    · intro U hU
      rw [hqueue]
      exact hq U (List.mem_cons_of_mem _ hU)
    · exact fun U hU => hi U (List.mem_cons_of_mem _ hU)
    · exact fun U hU => ho U (List.mem_cons_of_mem _ hU)

theorem request {w : Wire} (h : Paired w) {Ts : List (String × Nat)} {mayAnswer : List String}
    (hT : ∀ T ∈ Ts, Quiet w T.1)
    (hmay : ∀ T ∈ mayAnswer, ∀ p, ¬ w.session.Waiting p T) :
    Paired (w.request Ts mayAnswer) := by
  have hsent : Paired { w with
      requests := w.requests + 1
      outbox := w.outbox ++ [{ id := w.requests, mayAnswer }] } := by
    refine ⟨h.sound, h.issued_length, h.answered_length, h.inbox, ?_, h.correlated⟩
    intro p T r hp hr q hq hT
    rcases List.mem_append.1 hq with hq | hq
    · exact h.outbox hp hr q hq hT
    · rw [List.mem_singleton] at hq
      subst hq
      exact absurd hp (hmay T hT p)
  refine hsent.awaits w.requests Ts (fun T hm => (hT T hm).queue) (fun T hm => (hT T hm).inbox) ?_
  intro T hm q hq hTq
  rcases List.mem_append.1 hq with hq | hq
  · exact absurd hTq ((hT T hm).outbox q hq)
  · rw [List.mem_singleton] at hq
    subst hq
    rfl

/-- One more frame arrives: what was resolved before still holds a reply to its own request. -/
theorem correlated_append {w : Wire} (h : Paired w) (a : Nat) {p : Nat} {m : Message}
    (hm : w.session.ResolvedWith p m) :
    ∃ r, w.issuedFor[p]? = some r ∧ (w.answered ++ [a])[m.serial]? = some r := by
  obtain ⟨r, hr, ha⟩ := h.correlated p m hm
  refine ⟨r, hr, ?_⟩
  rw [List.getElem?_append_left (List.getElem?_eq_some_iff.1 ha).1]
  exact ha

/-- A frame that nobody waits for leaves the socket. -/
theorem unclaimed {w : Wire} (h : Paired w) {f : Frame} {inbox : List Frame}
    (hi : w.inbox = f :: inbox) {session : Session} (hs : Sound session)
    (hp : session.promises = w.session.promises)
    (ha : session.arrived = w.session.arrived + 1) :
    Paired { w with session, inbox, answered := w.answered ++ [f.answers] } := by
  have hw : ∀ {p T}, session.Waiting p T → w.session.Waiting p T := by
    intro p T hw
    rwa [Waiting, hp] at hw
  refine ⟨hs, ?_, ?_, fun hq hr g hg => ?_, fun hq => h.outbox (hw hq), fun p m hm => ?_⟩
  · rw [hp]
    exact h.issued_length
  · simp [h.answered_length, ha]
  · exact h.inbox (hw hq) hr g (hi ▸ List.mem_cons_of_mem _ hg)
  · refine h.correlated_append f.answers ?_
    rwa [ResolvedWith, hp] at hm

/-- A frame resolves a promise that waits for its type: it answers that promise's request. -/
theorem claimed {w : Wire} (h : Paired w) {f : Frame} {inbox : List Frame}
    (hi : w.inbox = f :: inbox) {p : Nat} {T : String} (hw : w.session.Waiting p T)
    (hT : frameType? f.parsed = some T) {session : Session} {body : Json}
    (hp : session.promises = w.session.promises)
    (ha : session.arrived = w.session.arrived + 1)
    (hs : Sound (session.settle p (.resolved { serial := w.session.arrived, body }))) :
    Paired { w with
      session := session.settle p (.resolved { serial := w.session.arrived, body })
      inbox
      answered := w.answered ++ [f.answers] } := by
  have hplt : p < w.issuedFor.length := h.issued_length ▸ waiting_lt hw
  have hold : ∀ {q U}, (session.settle p (.resolved
      { serial := w.session.arrived, body })).Waiting q U → w.session.Waiting q U := by
    intro q U hq
    have hq := (waiting_settle.1 hq).2
    rwa [Waiting, hp] at hq
  refine ⟨hs, ?_, ?_, fun hq hr g hg => ?_, fun hq => h.outbox (hold hq), fun q m hm => ?_⟩
  · simp [settle, h.issued_length, hp]
  · simp [settle, h.answered_length, ha]
  · exact h.inbox (hold hq) hr g (hi ▸ List.mem_cons_of_mem _ hg)
  · rcases resolvedWith_settle hm with hm | ⟨rfl, hm, -⟩
    · refine h.correlated_append f.answers ?_
      rwa [ResolvedWith, hp] at hm
    · simp only [Settled.resolved.injEq] at hm
      subst hm
      refine ⟨w.issuedFor[q], List.getElem?_eq_getElem hplt, ?_⟩
      have hans : f.answers = w.issuedFor[q] :=
        h.inbox hw (List.getElem?_eq_getElem hplt) f (hi ▸ List.mem_cons_self) hT
      simp only [← h.answered_length, List.getElem?_concat_length, hans]

/-- The oldest frame in flight is delivered: whoever it resolves waited for its type, so it
answers that promise's request. -/
theorem deliver {w : Wire} (h : Paired w) {f : Frame} {inbox : List Frame}
    (hi : w.inbox = f :: inbox) {session : Session}
    (hs : w.session.step (.message f.parsed) = some session) :
    Paired { w with session, inbox, answered := w.answered ++ [f.answers] } := by
  have hsound : Sound session := h.sound.step hs
  cases hp : f.parsed with
  | none =>
    rw [hp] at hs
    simp only [Session.step, Option.some.injEq] at hs
    subst hs
    exact h.unclaimed hi hsound rfl rfl
  | some body =>
    rw [hp] at hs
    simp only [Session.step, Option.some.injEq] at hs
    subst hs
    rcases onMessageEvent_cases ({ w.session with arrived := w.session.arrived + 1 } : Session)
      { serial := w.session.arrived, body } with ⟨T, p, -, hT, hpend, he⟩ | ⟨-, he⟩
    · have hwait : w.session.Waiting p T := h.sound.pending hpend
      rw [he] at hsound ⊢
      refine h.claimed hi hwait ?_ rfl rfl hsound
      rw [hp]
      exact hT
    · rw [he] at hsound ⊢
      exact h.unclaimed hi hsound (by simp) (by simp)

theorem step {w w' : Wire} (h : Paired w) {e : WireEvent} (hs : w.step e = some w')
    (hC : OneAtATime ⟨w, e, w'⟩) : Paired w' := by
  cases e with
  | request awaits mayAnswer =>
    simp only [Wire.step, Option.some.injEq] at hs
    subst hs
    exact h.request hC.1 hC.2
  | answer frames => exact h.answer hs
  | deliver =>
    simp only [Wire.step] at hs
    split at hs
    · cases hs
    · next f inbox hi =>
      obtain ⟨session, hstep, rfl⟩ := Option.map_eq_some_iff.1 hs
      exact h.deliver hi hstep
  | timeout p =>
    simp only [Wire.step] at hs
    obtain ⟨session, hstep, rfl⟩ := Option.map_eq_some_iff.1 hs
    have hsound := h.sound.step hstep
    obtain ⟨rfl, t, ht, rfl⟩ := step_timeout hstep
    obtain ⟨T, hT⟩ := h.sound.timers ht
    rw [timeout_of_waiting hT] at hsound ⊢
    refine h.quiet hsound (by simp [settle, clearTimeout])
      rfl (fun hw => (waiting_settle.1 hw).2) ?_
    intro p m hm
    rcases resolvedWith_settle hm with hm | ⟨-, hm, -⟩
    · exact hm
    · cases hm
  | subscribe handler | unsubscribe handler | elapse ms =>
    simp only [Wire.step] at hs
    obtain ⟨session, hstep, rfl⟩ := Option.map_eq_some_iff.1 hs
    have hsound := h.sound.step hstep
    simp only [Session.step, Option.some.injEq] at hstep
    subst hstep
    exact h.quiet hsound rfl rfl (fun hw => hw) (fun hm => hm)

end Paired

/-! ## Correlation -/

/-- In the runs whose requests are sent one at a time for each reply type, every promise that
resolves does so with a reply to its own request. -/
theorem resolves_own_reply {handlers : List Nat} {now : Nat} {h : List (Fired Wire WireEvent)}
    {w : Wire} (hr : Run Wire.step (Wire.fresh handlers now) h w)
    (hC : ∀ f ∈ h, OneAtATime f) : Correlated w :=
  (hr.invWhen OneAtATime (fun _ w => Paired w) (Paired.fresh handlers now)
    (fun _ _ _ _ _ hw hf hs => hw.step hs hf) hC).correlated

/-- A page-translation request that is answered in time. -/
theorem resolves_own_reply_page :
    ∃ h w, exec Wire.step (Wire.fresh [] 0)
        [.request [("page.translate.result", 60000)] ["page.translate.result"],
          .answer [some (reply "page.translate.result")], .deliver] = some (h, w) ∧
      w.session.ResolvedWith 0 { serial := 0, body := reply "page.translate.result" } ∧
      Correlated w := by
  have he : exec Wire.step (Wire.fresh [] 0)
      [.request [("page.translate.result", 60000)] ["page.translate.result"],
        .answer [some (reply "page.translate.result")], .deliver] = some (_, _) := rfl
  refine ⟨_, _, he, ⟨_, rfl⟩, resolves_own_reply (exec_run he) ?_⟩
  intro f hf
  simp only [List.mem_cons, List.not_mem_nil, or_false] at hf
  rcases hf with rfl | rfl | rfl
  · trivial
  · trivial
  · refine ⟨fun T _ => ⟨?_, ?_, ?_, ?_⟩, ?_⟩ <;> simp [Wire.fresh, Session.fresh, Waiting]

/-- The request for one page times out; its reply arrives late and is queued; the request for the
next page takes it. -/
def lateReply : List WireEvent :=
  [.request [("page.translate.result", 60000)] ["page.translate.result"], .elapse 60000,
    .timeout 0, .answer [some (reply "page.translate.result")], .deliver,
    .request [("page.translate.result", 60000)] ["page.translate.result"]]

/-- Two requests of one type overlap, and the first reply goes to the second. -/
def concurrentRequests : List WireEvent :=
  [.request [("study.sync.result", 10000)] ["study.sync.result"],
    .request [("study.sync.result", 10000)] ["study.sync.result"],
    .answer [some (reply "study.sync.result")], .deliver]

/-- A late and a concurrent reply both go to the wrong request. -/
theorem not_correlated :
    (∃ h w, Run Wire.step (Wire.fresh [] 0) h w ∧ h.reverse.map Fired.label = lateReply ∧
      ¬ Correlated w) ∧
    (∃ h w, Run Wire.step (Wire.fresh [] 0) h w ∧
      h.reverse.map Fired.label = concurrentRequests ∧ ¬ Correlated w) := by
  constructor
  · have he : exec Wire.step (Wire.fresh [] 0) lateReply = some (_, _) := rfl
    refine ⟨_, _, exec_run he, rfl, fun hc => ?_⟩
    obtain ⟨r, hr, ha⟩ :=
      hc 1 { serial := 0, body := reply "page.translate.result" } ⟨_, rfl⟩
    have hr : some 1 = some r := hr
    have ha : some 0 = some r := ha
    cases hr
    cases ha
  · have he : exec Wire.step (Wire.fresh [] 0) concurrentRequests = some (_, _) := rfl
    refine ⟨_, _, exec_run he, rfl, fun hc => ?_⟩
    obtain ⟨r, hr, ha⟩ :=
      hc 1 { serial := 0, body := reply "study.sync.result" } ⟨_, rfl⟩
    have hr : some 1 = some r := hr
    have ha : some 0 = some r := ha
    cases hr
    cases ha

end LanguageLlm.Client
