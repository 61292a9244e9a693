import LanguageLlm.Client.Waiters

/-!
# Delivery of messages to waiters and to the fan-in

A message of a type somebody waits for should reach one of its waiters, and no message should be
consumed twice. Neither holds for every order of events: a second `waitType` of one type takes the
entry of the first, whose timeout then deletes the entry of the second; and a message that was
handed to the fan-in stays in the queue, where a later `waitType` finds it again.

`delivered_once` shows that these are the only two causes: in every run in which `waitType(T)` is
called only while nobody waits for `T`, and not to take a fanned-in message from the queue,
messages are delivered exactly once.
-/

namespace LanguageLlm.Client

open Lib Session

/-- What should hold of a run `h` that ends in `s`. -/
structure DeliveredOnce (h : List (Fired Session Event)) (s : Session) : Prop where
  /-- A message of a type somebody waits for resolves exactly one of those who wait for it. -/
  toOneWaiter : ∀ f ∈ h, ∀ body T, f.label = .message (some body) →
    body.getStr "type" = some T → (∃ p, f.pre.Waiting p T) →
    ∃! p, f.pre.Waiting p T ∧ f.post.ResolvedWith p { serial := f.pre.arrived, body }
  /-- No two promises are resolved with one message. -/
  oneWaiter : ∀ p q m n, s.ResolvedWith p m → s.ResolvedWith q n → m.serial = n.serial → p = q
  /-- A message handed to the fan-in resolves no promise. -/
  waiterOrFanIn : ∀ p m, s.ResolvedWith p m → ∀ n ∈ s.fanned, n.serial ≠ m.serial
  /-- No message is handed to the fan-in twice. -/
  fanInOnce : (s.fanned.map Message.serial).Nodup

/-- A `waitType` call while nobody waits for its type, which takes no fanned-in message from the
queue. Other events are unrestricted. -/
def Undisturbed (f : Fired Session Event) : Prop :=
  match f.label with
  | .waitType T _ =>
    T ≠ "" ∧ (∀ p, ¬ f.pre.Waiting p T) ∧
      ∀ m, f.pre.queue.find? (hasType T) = some m → ∀ n ∈ f.pre.fanned, n.serial ≠ m.serial
  | _ => True

/-! ## Every waiter has its entry -/

/-- Every unsettled promise is the one that `pending` holds for its type. -/
def Sole (s : Session) : Prop :=
  ∀ p T, s.Waiting p T → T ≠ "" ∧ s.pending.get? T = some p

theorem Sole.settle_drop {s : Session} (h : Sole s) {T : String} {p : Nat}
    (hp : s.pending.get? T = some p) (r : Settled) :
    Sole (({ s.clearTimeout p with pending := s.pending.delete T } : Session).settle p r) := by
  intro q U hq
  obtain ⟨hne, hw⟩ := waiting_settle.1 hq
  obtain ⟨hU, hget⟩ := h q U hw
  refine ⟨hU, ?_⟩
  have hUT : U ≠ T := by
    rintro rfl
    rw [hp] at hget
    cases hget
    exact hne rfl
  rw [settle_pending, OrderedMap.get?_delete_ne _ hUT]
  exact hget

theorem Sole.waitType {s : Session} (h : Sole s) {T : String} (hT : T ≠ "")
    (hno : ∀ p, ¬ s.Waiting p T) (ms : Nat) : Sole (s.waitType T ms) := by
  rcases waitType_cases s T ms with ⟨m, -, he⟩ | ⟨-, he⟩
  · rw [he]
    intro q U hq
    obtain ⟨hne, hw⟩ := waiting_settle.1 hq
    rcases waiting_append.1 hw with hw | ⟨rfl, -⟩
    · exact h q U hw
    · exact absurd rfl hne
  · rw [he]
    intro q U hq
    rcases waiting_append.1 hq with hw | ⟨rfl, rfl⟩
    · have hUT : U ≠ T := by
        rintro rfl
        exact hno q hw
      refine ⟨(h q U hw).1, ?_⟩
      simp only [OrderedMap.get?_set_ne _ _ hUT]
      exact (h q U hw).2
    · exact ⟨hT, OrderedMap.get?_set_self _ _ _⟩

theorem Sole.onMessageEvent {s : Session} (h : Sole s) (m : Message) :
    Sole (s.onMessageEvent m) := by
  rcases onMessageEvent_cases s m with ⟨T, p, -, -, hp, he⟩ | ⟨-, he⟩
  · rw [he]
    exact h.settle_drop hp _
  · rw [he]
    intro q U hq
    have hw : s.Waiting q U := by simpa [Waiting] using hq
    simpa using h q U hw

theorem Sole.step {s s' : Session} (h : Sole s) (hs : Sound s) {e : Event}
    (hstep : s.step e = some s') (hC : Undisturbed ⟨s, e, s'⟩) : Sole s' := by
  cases e with
  | waitType T ms =>
    simp only [Session.step, Option.some.injEq] at hstep
    subst hstep
    exact h.waitType hC.1 hC.2.1 ms
  | timeout p =>
    obtain ⟨rfl, t, ht, rfl⟩ := step_timeout hstep
    obtain ⟨T, hT⟩ := hs.timers ht
    rw [timeout_of_waiting hT]
    exact h.settle_drop (h _ T hT).2 _
  | message frame =>
    have h' : Sole { s with arrived := s.arrived + 1 } := h
    cases frame with
    | none =>
      simp only [Session.step, Option.some.injEq] at hstep
      subst hstep
      exact h'
    | some body =>
      simp only [Session.step, Option.some.injEq] at hstep
      subst hstep
      exact h'.onMessageEvent _
  | subscribe handler | unsubscribe handler | elapse ms =>
    simp only [Session.step, Option.some.injEq] at hstep
    subst hstep
    exact h

/-! ## Every message has one consumer -/

/-- What stays in the queue when its first message of the type is spliced out. -/
theorem serial_ne_of_mem_eraseP {T : String} {m : Message} : ∀ {l : List Message},
    l.find? (hasType T) = some m → (l.map Message.serial).Nodup →
    ∀ n ∈ l.eraseP (hasType T), n.serial ≠ m.serial := by
  intro l
  induction l with
  | nil => intro hm; cases hm
  | cons k l ih =>
    intro hm hn n hmem
    simp only [List.map_cons, List.nodup_cons, List.mem_map, not_exists, not_and] at hn
    rw [List.find?_cons] at hm
    rw [List.eraseP_cons] at hmem
    cases hk : hasType T k
    · simp only [hk] at hm hmem
      rcases List.mem_cons.1 hmem with rfl | hmem
      · exact fun e => hn.1 m (List.mem_of_find?_eq_some hm) e.symm
      · exact ih hm hn.2 n hmem
    · simp only [hk, Option.some.injEq] at hm hmem
      subst hm
      exact hn.1 n hmem

/-- Where the messages that arrived are: queued, handed to the fan-in or given to a promise.
Only a fanned-in message may also be in the queue. -/
structure Ledger (s : Session) : Prop where
  queue_lt : ∀ m ∈ s.queue, m.serial < s.arrived
  queue_nodup : (s.queue.map Message.serial).Nodup
  fanned_lt : ∀ m ∈ s.fanned, m.serial < s.arrived
  fanned_nodup : (s.fanned.map Message.serial).Nodup
  resolved_lt : ∀ {p m}, s.ResolvedWith p m → m.serial < s.arrived
  resolved_queue : ∀ {p m}, s.ResolvedWith p m → ∀ n ∈ s.queue, n.serial ≠ m.serial
  resolved_fanned : ∀ {p m}, s.ResolvedWith p m → ∀ n ∈ s.fanned, n.serial ≠ m.serial
  resolved_inj : ∀ {p q m n}, s.ResolvedWith p m → s.ResolvedWith q n → m.serial = n.serial →
    p = q

namespace Ledger

theorem fresh (handlers : List Nat) (now : Nat) : Ledger (Session.fresh handlers now) where
  queue_lt := by simp [Session.fresh]
  queue_nodup := by simp [Session.fresh]
  fanned_lt := by simp [Session.fresh]
  fanned_nodup := by simp [Session.fresh]
  resolved_lt h := by simp [Session.fresh, ResolvedWith] at h
  resolved_queue h := by simp [Session.fresh, ResolvedWith] at h
  resolved_fanned h := by simp [Session.fresh, ResolvedWith] at h
  resolved_inj h := by simp [Session.fresh, ResolvedWith] at h

/-- A message that has arrived and is neither queued, fanned in nor consumed resolves a promise:
the ledger stays in order when it leaves the queue for the promise. -/
theorem resolve {s t : Session} (h : Ledger s) (p : Nat) (m : Message)
    (hq : ∀ n ∈ t.queue, n ∈ s.queue) (hqn : (t.queue.map Message.serial).Nodup)
    (hf : t.fanned = s.fanned) (ha : s.arrived ≤ t.arrived) (hm : m.serial < t.arrived)
    (hr : ∀ {q n}, t.ResolvedWith q n → s.ResolvedWith q n ∨ (q = p ∧ n = m))
    (hmq : ∀ n ∈ t.queue, n.serial ≠ m.serial) (hmf : ∀ n ∈ s.fanned, n.serial ≠ m.serial)
    (hmr : ∀ {q n}, s.ResolvedWith q n → n.serial ≠ m.serial) : Ledger t where
  queue_lt n hn := Nat.lt_of_lt_of_le (h.queue_lt n (hq n hn)) ha
  queue_nodup := hqn
  fanned_lt n hn := Nat.lt_of_lt_of_le (h.fanned_lt n (hf ▸ hn)) ha
  fanned_nodup := hf ▸ h.fanned_nodup
  resolved_lt := by
    intro q n hn
    rcases hr hn with hn | ⟨-, rfl⟩
    · exact Nat.lt_of_lt_of_le (h.resolved_lt hn) ha
    · exact hm
  resolved_queue := by
    intro q n hn k hk
    rcases hr hn with hn | ⟨-, rfl⟩
    · exact h.resolved_queue hn k (hq k hk)
    · exact hmq k hk
  resolved_fanned := by
    intro q n hn k hk
    rw [hf] at hk
    rcases hr hn with hn | ⟨-, rfl⟩
    · exact h.resolved_fanned hn k hk
    · exact hmf k hk
  resolved_inj := by
    intro q q' n n' hn hn' he
    rcases hr hn with hn | ⟨rfl, rfl⟩
    · rcases hr hn' with hn' | ⟨rfl, rfl⟩
      · exact h.resolved_inj hn hn' he
      · exact absurd he (hmr hn)
    · rcases hr hn' with hn' | ⟨rfl, rfl⟩
      · exact absurd he.symm (hmr hn')
      · rfl

theorem waitType {s : Session} (h : Ledger s) {T : String} (ms : Nat)
    (hC : ∀ m, s.queue.find? (hasType T) = some m → ∀ n ∈ s.fanned, n.serial ≠ m.serial) :
    Ledger (s.waitType T ms) := by
  rcases waitType_cases s T ms with ⟨m, hm, he⟩ | ⟨-, he⟩
  · rw [he]
    have hmem : m ∈ s.queue := List.mem_of_find?_eq_some hm
    have hsub : (s.queue.eraseP (hasType T)).Sublist s.queue := List.eraseP_sublist
    refine h.resolve s.promises.length m ?_ ?_ rfl (Nat.le_refl _) (h.queue_lt m hmem) ?_ ?_
      (hC m hm) (fun hn => (h.resolved_queue hn m hmem).symm)
    · intro n hn
      exact hsub.subset hn
    · exact h.queue_nodup.sublist (hsub.map _)
    · intro q n hn
      rcases resolvedWith_settle hn with hn | ⟨rfl, hr, -⟩
      · exact Or.inl (resolvedWith_append hn)
      · simp only [Settled.resolved.injEq] at hr
        exact Or.inr ⟨rfl, hr.symm⟩
    · exact serial_ne_of_mem_eraseP hm h.queue_nodup
  · rw [he]
    exact {
      queue_lt := h.queue_lt
      queue_nodup := h.queue_nodup
      fanned_lt := h.fanned_lt
      fanned_nodup := h.fanned_nodup
      resolved_lt := fun hn => h.resolved_lt (resolvedWith_append hn)
      resolved_queue := fun hn => h.resolved_queue (resolvedWith_append hn)
      resolved_fanned := fun hn => h.resolved_fanned (resolvedWith_append hn)
      resolved_inj := fun hn hn' =>
        h.resolved_inj (resolvedWith_append hn) (resolvedWith_append hn') }

/-- A new message goes to the end of the queue and possibly to the fan-in. -/
theorem enqueue {s t : Session} (h : Ledger s) (m : Message) (hm : m.serial = s.arrived)
    (hf : t.fanned = s.fanned ∨ t.fanned = m :: s.fanned) (hq : t.queue = s.queue ++ [m])
    (ha : t.arrived = s.arrived + 1)
    (hr : ∀ {q n}, t.ResolvedWith q n → s.ResolvedWith q n) : Ledger t where
  queue_lt := by
    intro n hn
    rw [hq] at hn
    rw [ha]
    rcases List.mem_append.1 hn with hn | hn
    · exact Nat.lt_succ_of_lt (h.queue_lt n hn)
    · rw [List.mem_singleton] at hn
      subst hn
      omega
  queue_nodup := by
    rw [hq, List.map_append, List.map_cons, List.map_nil]
    refine List.Nodup.append h.queue_nodup (List.nodup_singleton _) ?_
    intro x hx hx'
    rw [List.mem_singleton] at hx'
    subst hx'
    obtain ⟨n, hn, he⟩ := List.mem_map.1 hx
    exact absurd (he.trans hm) (Nat.ne_of_lt (h.queue_lt n hn))
  fanned_lt := by
    intro n hn
    rw [ha]
    rcases hf with hf | hf <;> rw [hf] at hn
    · exact Nat.lt_succ_of_lt (h.fanned_lt n hn)
    · rcases List.mem_cons.1 hn with rfl | hn
      · omega
      · exact Nat.lt_succ_of_lt (h.fanned_lt n hn)
  fanned_nodup := by
    rcases hf with hf | hf <;> rw [hf]
    · exact h.fanned_nodup
    · refine List.nodup_cons.2 ⟨?_, h.fanned_nodup⟩
      intro hmem
      obtain ⟨n, hn, he⟩ := List.mem_map.1 hmem
      exact absurd (he.trans hm) (Nat.ne_of_lt (h.fanned_lt n hn))
  resolved_lt hn := ha ▸ Nat.lt_succ_of_lt (h.resolved_lt (hr hn))
  resolved_queue := by
    intro q n hn k hk
    rw [hq] at hk
    rcases List.mem_append.1 hk with hk | hk
    · exact h.resolved_queue (hr hn) k hk
    · rw [List.mem_singleton] at hk
      subst hk
      exact hm ▸ Nat.ne_of_gt (h.resolved_lt (hr hn))
  resolved_fanned := by
    intro q n hn k hk
    rcases hf with hf | hf <;> rw [hf] at hk
    · exact h.resolved_fanned (hr hn) k hk
    · rcases List.mem_cons.1 hk with rfl | hk
      · exact hm ▸ Nat.ne_of_gt (h.resolved_lt (hr hn))
      · exact h.resolved_fanned (hr hn) k hk
  resolved_inj hn hn' := h.resolved_inj (hr hn) (hr hn')

/-- The frame numbered `arrived` is new to the ledger. -/
theorem onMessageEvent {s : Session} (h : Ledger s) (body : Json) :
    Ledger (({ s with arrived := s.arrived + 1 } : Session).onMessageEvent
      { serial := s.arrived, body }) := by
  rcases onMessageEvent_cases ({ s with arrived := s.arrived + 1 } : Session)
    { serial := s.arrived, body } with ⟨T, p, -, -, -, he⟩ | ⟨-, he⟩
  · rw [he]
    refine h.resolve p { serial := s.arrived, body } (fun n hn => hn) h.queue_nodup rfl
      (Nat.le_succ _) (Nat.lt_succ_self _) ?_ ?_ ?_ ?_
    · intro q n hn
      rcases resolvedWith_settle hn with hn | ⟨rfl, hr, -⟩
      · exact Or.inl hn
      · simp only [Settled.resolved.injEq] at hr
        exact Or.inr ⟨rfl, hr.symm⟩
    · exact fun n hn => Nat.ne_of_lt (h.queue_lt n hn)
    · exact fun n hn => Nat.ne_of_lt (h.fanned_lt n hn)
    · exact fun hn => Nat.ne_of_lt (h.resolved_lt hn)
  · rw [he]
    refine h.enqueue { serial := s.arrived, body } rfl ?_ rfl (by simp) ?_
    · exact dispatchFanIn_fanned _ _
    · intro q n hn
      simpa [ResolvedWith] using hn

theorem step {s s' : Session} (h : Ledger s) (hs : Sound s) {e : Event}
    (hstep : s.step e = some s') (hC : Undisturbed ⟨s, e, s'⟩) : Ledger s' := by
  cases e with
  | waitType T ms =>
    simp only [Session.step, Option.some.injEq] at hstep
    subst hstep
    exact h.waitType ms hC.2.2
  | timeout p =>
    obtain ⟨rfl, t, ht, rfl⟩ := step_timeout hstep
    obtain ⟨T, hT⟩ := hs.timers ht
    rw [timeout_of_waiting hT]
    have hres : ∀ {q n}, (({ s.clearTimeout t.promise with pending := s.pending.delete T } :
        Session).settle t.promise (.rejected s!"timeout waiting for {T}")).ResolvedWith q n →
        s.ResolvedWith q n := by
      intro q n hn
      rcases resolvedWith_settle hn with hn | ⟨-, hr, -⟩
      · exact hn
      · cases hr
    exact {
      queue_lt := h.queue_lt
      queue_nodup := h.queue_nodup
      fanned_lt := h.fanned_lt
      fanned_nodup := h.fanned_nodup
      resolved_lt := fun hn => h.resolved_lt (hres hn)
      resolved_queue := fun hn => h.resolved_queue (hres hn)
      resolved_fanned := fun hn => h.resolved_fanned (hres hn)
      resolved_inj := fun hn hn' => h.resolved_inj (hres hn) (hres hn') }
  | message frame =>
    cases frame with
    | none =>
      simp only [Session.step, Option.some.injEq] at hstep
      subst hstep
      exact {
        queue_lt := fun n hn => Nat.lt_succ_of_lt (h.queue_lt n hn)
        queue_nodup := h.queue_nodup
        fanned_lt := fun n hn => Nat.lt_succ_of_lt (h.fanned_lt n hn)
        fanned_nodup := h.fanned_nodup
        resolved_lt := fun hn => Nat.lt_succ_of_lt (h.resolved_lt hn)
        resolved_queue := h.resolved_queue
        resolved_fanned := h.resolved_fanned
        resolved_inj := h.resolved_inj }
    | some body =>
      simp only [Session.step, Option.some.injEq] at hstep
      subst hstep
      exact h.onMessageEvent body
  | subscribe handler | unsubscribe handler | elapse ms =>
    simp only [Session.step, Option.some.injEq] at hstep
    subst hstep
    exact ⟨h.queue_lt, h.queue_nodup, h.fanned_lt, h.fanned_nodup, h.resolved_lt,
      h.resolved_queue, h.resolved_fanned, h.resolved_inj⟩

end Ledger

/-! ## Delivery -/

/-- What the undisturbed runs keep. -/
structure Tidy (s : Session) : Prop where
  sound : Sound s
  sole : Sole s
  ledger : Ledger s

theorem Tidy.of_run {handlers : List Nat} {now : Nat} {h : List (Fired Session Event)}
    {s : Session} (hr : Run Session.step (Session.fresh handlers now) h s)
    (hC : ∀ f ∈ h, Undisturbed f) : Tidy s := by
  refine hr.invWhen Undisturbed (fun _ s => Tidy s) ?_ ?_ hC
  · refine ⟨Sound.fresh handlers now, ?_, Ledger.fresh handlers now⟩
    intro p T hw
    simp [Waiting, Session.fresh] at hw
  · intro _ s e s' _ ht hu hs
    exact ⟨ht.sound.step hs, ht.sole.step ht.sound hs hu, ht.ledger.step ht.sound hs hu⟩

/-- In a tidy state a message of a type somebody waits for resolves that waiter and no other. -/
theorem Tidy.message_resolves {s : Session} (h : Tidy s) {body : Json} {T : String}
    (hT : body.getStr "type" = some T) {p : Nat} (hp : s.Waiting p T) :
    ∃! q, s.Waiting q T ∧
      (({ s with arrived := s.arrived + 1 } : Session).onMessageEvent
        { serial := s.arrived, body }).ResolvedWith q { serial := s.arrived, body } := by
  obtain ⟨hne, hget⟩ := h.sole p T hp
  refine ⟨p, ⟨hp, ?_⟩, fun q hq => ?_⟩
  · rcases onMessageEvent_cases ({ s with arrived := s.arrived + 1 } : Session)
      { serial := s.arrived, body } with ⟨U, q, -, hU, hq, he⟩ | ⟨hno, -⟩
    · have hUT : U = T := Option.some.inj (hU.symm.trans hT)
      subst hUT
      have hqp : q = p := Option.some.inj (hq.symm.trans hget)
      subst hqp
      rw [he]
      exact resolvedWith_settle_self hp
    · exact absurd (hget.symm.trans (hno T hT hne)) (by simp)
  · have hget' := (h.sole q T hq.1).2
    exact Option.some.inj (hget'.symm.trans hget)

/-- Messages are delivered exactly once in the undisturbed runs. -/
theorem delivered_once {handlers : List Nat} {now : Nat} {h : List (Fired Session Event)}
    {s : Session} (hr : Run Session.step (Session.fresh handlers now) h s)
    (hC : ∀ f ∈ h, Undisturbed f) : DeliveredOnce h s := by
  have ht := Tidy.of_run hr hC
  refine ⟨?_, fun p q m n hm hn => ht.ledger.resolved_inj hm hn,
    fun p m hm => ht.ledger.resolved_fanned hm, ht.ledger.fanned_nodup⟩
  intro f hf body T hl hT hex
  obtain ⟨p, hp⟩ := hex
  obtain ⟨hstep, h', hr', hsub⟩ := hr.mem hf
  have hpre : Tidy f.pre := Tidy.of_run hr' fun g hg => hC g (hsub g hg)
  rw [hl] at hstep
  simp only [Session.step, Option.some.injEq] at hstep
  rw [← hstep]
  exact hpre.message_resolves hT hp

/-! ## The two causes -/

/-- A reply without other fields. -/
def reply (type : String) : Json := .obj [("type", .str type)]

/-- One ping, answered. -/
theorem delivered_once_ping :
    ∃ h s, exec Session.step (Session.fresh [0] 0)
        [.waitType "session.pong" 3000, .message (some (reply "session.pong"))] = some (h, s) ∧
      s.ResolvedWith 0 { serial := 0, body := reply "session.pong" } ∧ DeliveredOnce h s := by
  have he : exec Session.step (Session.fresh [0] 0)
    [.waitType "session.pong" 3000, .message (some (reply "session.pong"))] = some (_, _) := rfl
  refine ⟨_, _, he, ⟨_, rfl⟩, delivered_once (exec_run he) ?_⟩
  intro f hf
  simp only [List.mem_cons, List.not_mem_nil, or_false] at hf
  rcases hf with rfl | rfl
  · trivial
  · refine ⟨by decide, ?_, ?_⟩
    · simp [Waiting, Session.fresh]
    · simp [Session.fresh]

/-- Two pings overlap: the timeout of the first deletes the entry of the second, whose pong then
goes to the queue although its waiter has half a second left. -/
def overlappingPings : List Event :=
  [.waitType "session.pong" 3000, .elapse 1000, .waitType "session.pong" 3000, .elapse 2000,
    .timeout 0, .elapse 500, .message (some (reply "session.pong"))]

/-- A translation is handed to the fan-in and then again to a later waiter. -/
def replayedTranslation : List Event :=
  [.message (some (reply "timeline.translation")), .waitType "timeline.translation" 10000]

/-- Each cause alone breaks the delivery: overlapping waiters without a fanned-in message, and a
fanned-in message without overlapping waiters. -/
theorem not_delivered_once :
    (∃ h s, Run Session.step (Session.fresh [0] 0) h s ∧ s.fanned = [] ∧ ¬ DeliveredOnce h s) ∧
    (∃ h s, Run Session.step (Session.fresh [0] 0) h s ∧
      (∀ f ∈ h, ∀ T ms, f.label = .waitType T ms → ∀ p, ¬ f.pre.Waiting p T) ∧
      ¬ DeliveredOnce h s) := by
  constructor
  · have he : exec Session.step (Session.fresh [0] 0) overlappingPings = some (_, _) := rfl
    refine ⟨_, _, exec_run he, rfl, fun hd => ?_⟩
    obtain ⟨p, ⟨-, T, hp⟩, -⟩ := hd.toOneWaiter _ List.mem_cons_self (reply "session.pong")
      "session.pong" rfl rfl ⟨1, rfl⟩
    match p, hp with
    | 0, hp => cases hp
    | 1, hp => cases hp
    | p + 2, hp => cases hp
  · have he : exec Session.step (Session.fresh [0] 0) replayedTranslation = some (_, _) := rfl
    refine ⟨_, _, exec_run he, ?_, fun hd => ?_⟩
    · intro f hf T ms hl p
      simp only [List.mem_cons, List.not_mem_nil, or_false] at hf
      rcases hf with rfl | rfl
      · exact fun hw => by cases hw
      · cases hl
    · exact hd.waiterOrFanIn 0 { serial := 0, body := reply "timeline.translation" } ⟨_, rfl⟩
        { serial := 0, body := reply "timeline.translation" } List.mem_cons_self rfl

end LanguageLlm.Client
