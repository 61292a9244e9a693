import LanguageLlm.Client.Session

/-!
# Waiters, timers and the pending map

What one event of a session does to its promises, stated once (`step_waiting`, `step_resolved`,
`step_pending`), and the two invariants that every run keeps: `pending` holds unsettled promises
of the right type (`PendingSound`), and only unsettled promises have an armed timer
(`TimersSound`). The converse of the first, that every unsettled promise of a type is the one
`pending` holds, is not kept: a second waiter of one type takes the entry of the first.
-/

namespace LanguageLlm.Client.Session

open Lib

/-- The promise `p` waits for a message of the type: it is neither answered nor timed out. -/
def Waiting (s : Session) (p : Nat) (type : String) : Prop :=
  s.promises[p]? = some { type, settled := none }

/-- The promise `p` was resolved with the message. -/
def ResolvedWith (s : Session) (p : Nat) (m : Message) : Prop :=
  ∃ type, s.promises[p]? = some { type, settled := some (.resolved m) }

theorem Waiting.type_unique {s : Session} {p : Nat} {T U : String} (h : s.Waiting p T)
    (h' : s.Waiting p U) : T = U := by
  have he := h.symm.trans h'
  simp only [Option.some.injEq, WaitPromise.mk.injEq, and_true] at he
  exact he

/-! ## The parts of a session that an operation leaves alone -/

section Frame

variable (s : Session) (p : Nat) (r : Settled) (m : Message)

@[simp] theorem settle_pending : (s.settle p r).pending = s.pending := rfl
@[simp] theorem settle_queue : (s.settle p r).queue = s.queue := rfl
@[simp] theorem settle_timers : (s.settle p r).timers = s.timers := rfl
@[simp] theorem settle_fanned : (s.settle p r).fanned = s.fanned := rfl
@[simp] theorem settle_arrived : (s.settle p r).arrived = s.arrived := rfl

@[simp] theorem dispatchFanIn_pending : (s.dispatchFanIn m).pending = s.pending := by
  unfold dispatchFanIn; split <;> (try split) <;> rfl

@[simp] theorem dispatchFanIn_queue : (s.dispatchFanIn m).queue = s.queue := by
  unfold dispatchFanIn; split <;> (try split) <;> rfl

@[simp] theorem dispatchFanIn_promises : (s.dispatchFanIn m).promises = s.promises := by
  unfold dispatchFanIn; split <;> (try split) <;> rfl

@[simp] theorem dispatchFanIn_timers : (s.dispatchFanIn m).timers = s.timers := by
  unfold dispatchFanIn; split <;> (try split) <;> rfl

@[simp] theorem dispatchFanIn_arrived : (s.dispatchFanIn m).arrived = s.arrived := by
  unfold dispatchFanIn; split <;> (try split) <;> rfl

/-- The fan-in gets the message or nothing. -/
theorem dispatchFanIn_fanned :
    (s.dispatchFanIn m).fanned = s.fanned ∨ (s.dispatchFanIn m).fanned = m :: s.fanned := by
  unfold dispatchFanIn
  split
  · split
    · exact Or.inr rfl
    · exact Or.inl rfl
  · exact Or.inl rfl

end Frame

theorem settle_promises (s : Session) (p q : Nat) (r : Settled) :
    (s.settle p r).promises[q]? =
      if p = q then (s.promises[q]?).map fun w => { w with settled := w.settled.or (some r) }
      else s.promises[q]? := by
  simp only [settle, List.getElem?_modify]
  split
  · rfl
  · simp

/-- Settling makes no promise wait that did not wait. -/
theorem waiting_settle {s : Session} {p q : Nat} {r : Settled} {T : String} :
    (s.settle p r).Waiting q T ↔ q ≠ p ∧ s.Waiting q T := by
  unfold Waiting
  rw [settle_promises]
  split
  · next h =>
    subst h
    simp only [Option.map_eq_some_iff, WaitPromise.mk.injEq, Option.or_eq_none_iff, reduceCtorEq,
      and_false, exists_false, ne_eq, not_true_eq_false, false_and]
  · next h =>
    have : q ≠ p := fun e => h e.symm
    simp [this]

/-- Settling with a message resolves at most the promise it names, and only if it waited. -/
theorem resolvedWith_settle {s : Session} {p q : Nat} {r : Settled} {m : Message}
    (h : (s.settle p r).ResolvedWith q m) :
    s.ResolvedWith q m ∨ (q = p ∧ r = .resolved m ∧ ∃ T, s.Waiting p T) := by
  obtain ⟨T, h⟩ := h
  rw [settle_promises] at h
  split at h
  · next hpq =>
    subst hpq
    obtain ⟨w, hw, he⟩ := Option.map_eq_some_iff.1 h
    simp only [WaitPromise.mk.injEq] at he
    obtain ⟨rfl, he⟩ := he
    obtain ⟨type, settled⟩ := w
    cases settled with
    | none =>
      simp only [Option.none_or, Option.some.injEq] at he
      exact Or.inr ⟨rfl, he, type, hw⟩
    | some r' =>
      simp only [Option.some_or, Option.some.injEq] at he
      subst he
      exact Or.inl ⟨type, hw⟩
  · exact Or.inl ⟨T, h⟩

theorem resolvedWith_settle_self {s : Session} {p : Nat} {m : Message} {T : String}
    (h : s.Waiting p T) : (s.settle p (.resolved m)).ResolvedWith p m := by
  refine ⟨T, ?_⟩
  rw [settle_promises]
  have h' : s.promises[p]? = some { type := T, settled := none } := h
  simp [h']

/-- Calling `waitType` appends one waiting promise. -/
theorem waiting_append {s : Session} {q : Nat} {T U : String} :
    ({ s with promises := s.promises ++ [{ type := U, settled := none }] } : Session).Waiting q T ↔
      s.Waiting q T ∨ (q = s.promises.length ∧ T = U) := by
  unfold Waiting
  simp only [List.getElem?_append]
  split
  · next h =>
    have : q ≠ s.promises.length := Nat.ne_of_lt h
    simp [this]
  · next h =>
    have hn : s.promises[q]? = none := List.getElem?_eq_none (Nat.le_of_not_lt h)
    rcases Nat.eq_or_lt_of_le (Nat.le_of_not_lt h) with he | hlt
    · subst he
      simp [eq_comm]
    · have : q ≠ s.promises.length := Nat.ne_of_gt hlt
      have hk : q - s.promises.length ≠ 0 := by omega
      simp [hn, this, hk]

theorem resolvedWith_append {s : Session} {q : Nat} {U : String} {m : Message}
    (h : ({ s with promises := s.promises ++ [{ type := U, settled := none }] } :
      Session).ResolvedWith q m) : s.ResolvedWith q m := by
  obtain ⟨T, h⟩ := h
  simp only [List.getElem?_append] at h
  split at h
  · exact ⟨T, h⟩
  · rcases hq : q - s.promises.length with _ | k
    · rw [hq] at h
      simp at h
    · rw [hq] at h
      simp at h

theorem waiting_lt {s : Session} {p : Nat} {T : String} (h : s.Waiting p T) :
    p < s.promises.length :=
  (List.getElem?_eq_some_iff.1 h).1

/-! ## What one event does -/

/-- A message goes to the waiter of its type, or else to the fan-in and the queue. -/
theorem onMessageEvent_cases (s : Session) (m : Message) :
    (∃ T p, T ≠ "" ∧ m.type? = some T ∧ s.pending.get? T = some p ∧
      s.onMessageEvent m =
        ({ s.clearTimeout p with pending := s.pending.delete T } : Session).settle p
          (.resolved m)) ∨
    ((∀ T, m.type? = some T → T ≠ "" → s.pending.get? T = none) ∧
      s.onMessageEvent m = { s.dispatchFanIn m with queue := s.queue ++ [m] }) := by
  unfold onMessageEvent
  rcases hT : m.type? with _ | T
  · refine Or.inr ⟨by simp, ?_⟩
    simp
  · by_cases hne : T = ""
    · subst hne
      refine Or.inr ⟨?_, by simp⟩
      intro U hU hU'
      cases hU
      exact absurd rfl hU'
    · rcases hp : s.pending.get? T with _ | p
      · refine Or.inr ⟨?_, ?_⟩
        · intro U hU _
          cases hU
          exact hp
        · simp [hne, hp]
      · exact Or.inl ⟨T, p, hne, rfl, hp, by simp [hne, hp, clearTimeout]⟩

/-- `waitType` takes the first queued message of its type, or registers the promise. -/
theorem waitType_cases (s : Session) (T : String) (ms : Nat) :
    (∃ m, s.queue.find? (hasType T) = some m ∧
      s.waitType T ms =
        ({ s with
            promises := s.promises ++ [{ type := T, settled := none }]
            queue := s.queue.eraseP (hasType T) } : Session).settle s.promises.length
          (.resolved m)) ∨
    (s.queue.find? (hasType T) = none ∧
      s.waitType T ms =
        { s with
          promises := s.promises ++ [{ type := T, settled := none }]
          timers := s.timers ++ [{ promise := s.promises.length, due := s.now + ms }]
          pending := s.pending.set T s.promises.length }) := by
  unfold waitType
  rcases hm : s.queue.find? (hasType T) with _ | m
  · exact Or.inr ⟨rfl, rfl⟩
  · exact Or.inl ⟨m, rfl, rfl⟩

/-- A timeout runs for an armed, due timer. -/
theorem step_timeout {s s' : Session} {p : Nat} (h : s.step (.timeout p) = some s') :
    s' = s.timeout p ∧ ∃ t ∈ s.timers, t.promise = p := by
  simp only [step] at h
  split at h
  · next ha =>
    simp only [Option.some.injEq] at h
    obtain ⟨t, ht, hp⟩ := List.any_eq_true.1 ha
    exact ⟨h.symm, t, ht, (of_decide_eq_true hp).1⟩
  · cases h

theorem timeout_of_waiting {s : Session} {p : Nat} {T : String} (h : s.Waiting p T) :
    s.timeout p =
      ({ s.clearTimeout p with pending := s.pending.delete T } : Session).settle p
        (.rejected s!"timeout waiting for {T}") := by
  have h' : s.promises[p]? = some { type := T, settled := none } := h
  simp only [timeout, h']
  rfl

/-! ## The invariants of every run -/

/-- `pending` holds unsettled promises, each under its type, and armed timers are those of
unsettled promises. -/
structure Sound (s : Session) : Prop where
  pending : ∀ {T p}, s.pending.get? T = some p → s.Waiting p T
  timers : ∀ {t}, t ∈ s.timers → ∃ T, s.Waiting t.promise T

namespace Sound

theorem fresh (handlers : List Nat) (now : Nat) : Sound (Session.fresh handlers now) where
  pending h := by simp [Session.fresh] at h
  timers h := by simp [Session.fresh] at h

/-- Settling the promise of a type and dropping its entry and its timers. -/
theorem settle_drop {s : Session} (h : Sound s) {T : String} {p : Nat} (hp : s.Waiting p T)
    (r : Settled) :
    Sound (({ s.clearTimeout p with pending := s.pending.delete T } : Session).settle p r) where
  pending := by
    intro U q hq
    rw [settle_pending, OrderedMap.get?_delete] at hq
    split at hq
    · cases hq
    · next hne =>
      have hw := h.pending hq
      refine waiting_settle.2 ⟨?_, hw⟩
      rintro rfl
      exact hne (hw.type_unique hp)
  timers := by
    intro t ht
    obtain ⟨hmem, hne⟩ := List.mem_filter.1 ht
    obtain ⟨U, hU⟩ := h.timers hmem
    exact ⟨U, waiting_settle.2 ⟨by simpa using hne, hU⟩⟩

theorem onMessageEvent {s : Session} (h : Sound s) (m : Message) : Sound (s.onMessageEvent m) := by
  rcases onMessageEvent_cases s m with ⟨T, p, -, -, hp, he⟩ | ⟨-, he⟩
  · rw [he]
    exact h.settle_drop (h.pending hp) _
  · rw [he]
    refine ⟨fun hq => ?_, fun ht => ?_⟩
    · simp only [dispatchFanIn_pending] at hq
      simpa [Waiting] using h.pending hq
    · simp only [dispatchFanIn_timers] at ht
      simpa [Waiting] using h.timers ht

theorem waitType {s : Session} (h : Sound s) (T : String) (ms : Nat) :
    Sound (s.waitType T ms) := by
  rcases waitType_cases s T ms with ⟨m, -, he⟩ | ⟨-, he⟩
  · rw [he]
    refine ⟨fun {U q} hq => ?_, fun {t} ht => ?_⟩
    · have hw : s.Waiting q U := h.pending hq
      exact waiting_settle.2 ⟨Nat.ne_of_lt (waiting_lt hw), waiting_append.2 (Or.inl hw)⟩
    · obtain ⟨U, hU⟩ := h.timers ht
      exact ⟨U, waiting_settle.2 ⟨Nat.ne_of_lt (waiting_lt hU), waiting_append.2 (Or.inl hU)⟩⟩
  · rw [he]
    refine ⟨fun {U q} hq => ?_, fun {t} ht => ?_⟩
    · simp only [OrderedMap.get?_set] at hq
      split at hq
      · next hU =>
        cases hq
        exact waiting_append.2 (Or.inr ⟨rfl, hU⟩)
      · exact waiting_append.2 (Or.inl (h.pending hq))
    · rcases List.mem_append.1 ht with ht | ht
      · obtain ⟨U, hU⟩ := h.timers ht
        exact ⟨U, waiting_append.2 (Or.inl hU)⟩
      · rw [List.mem_singleton] at ht
        subst ht
        exact ⟨T, waiting_append.2 (Or.inr ⟨rfl, rfl⟩)⟩

theorem timeout {s : Session} (h : Sound s) {p : Nat} {t : Timer} (ht : t ∈ s.timers)
    (hp : t.promise = p) : Sound (s.timeout p) := by
  obtain ⟨T, hT⟩ := h.timers ht
  rw [hp] at hT
  rw [timeout_of_waiting hT]
  exact h.settle_drop hT _

theorem step {s s' : Session} (h : Sound s) {e : Event} (hs : s.step e = some s') : Sound s' := by
  cases e with
  | waitType T ms =>
    simp only [Session.step, Option.some.injEq] at hs
    subst hs
    exact h.waitType T ms
  | timeout p =>
    obtain ⟨rfl, t, ht, hp⟩ := step_timeout hs
    exact h.timeout ht hp
  | message frame =>
    have h' : Sound { s with arrived := s.arrived + 1 } := ⟨h.pending, h.timers⟩
    cases frame with
    | none =>
      simp only [Session.step, Option.some.injEq] at hs
      subst hs
      exact h'
    | some body =>
      simp only [Session.step, Option.some.injEq] at hs
      subst hs
      exact h'.onMessageEvent _
  | subscribe handler | unsubscribe handler | elapse ms =>
    simp only [Session.step, Option.some.injEq] at hs
    subst hs
    exact ⟨h.pending, h.timers⟩

end Sound

end LanguageLlm.Client.Session
