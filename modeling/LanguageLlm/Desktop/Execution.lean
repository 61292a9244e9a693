import LanguageLlm.Desktop.WsServer

/-!
# Executions of handlers

A handler from its first action to its last, with what the rest of the companion does to the stores
between two actions as a parameter. `exec_of_run` ties the executions to the runs of the server.
-/

namespace LanguageLlm.Desktop

open Lib

variable {others : Stores → Stores → Prop} {α β : Type}

instance : Inhabited Answers :=
  ⟨{ uuids := default
     translator := (.offlineMock, none)
     asrPlan _ := none
     asrModel := ("", .offlineMock)
     whisper _ := .error ""
     tracks := none
     tie := 0 }⟩

namespace Handler

/-- A handler runs in the stores `s` up to its end, sends `out`, returns `a` and leaves the stores
`s'`; after each of its actions the stores change as `others` allows. -/
inductive Exec (others : Stores → Stores → Prop) {α : Type} :
    Handler α → Stores → List Json → α → Stores → Prop
  | pure (a : α) (s : Stores) : Exec others (pure a) s [] a s
  | send {message : Json} {next : Handler α} {s s₁ s' : Stores} {out : List Json} {a : α}
      (ho : others s s₁) (he : Exec others next s₁ out a s') :
      Exec others (send message next) s (message :: out) a s'
  | now {next : Nat → Handler α} (t : Nat) {s s₁ s' : Stores} {out : List Json} {a : α}
      (ho : others s s₁) (he : Exec others (next t) s₁ out a s') :
      Exec others (now next) s out a s'
  | ask {next : Answers → Handler α} (an : Answers) {s s₁ s' : Stores} {out : List Json} {a : α}
      (ho : others s s₁) (he : Exec others (next an) s₁ out a s') :
      Exec others (ask next) s out a s'
  | lock {update : Nat → Answers → Stores → Stores} {next : Nat → Answers → Stores → Handler α}
      (t : Nat) (an : Answers) {s s₁ s' : Stores} {out : List Json} {a : α}
      (ho : others (update t an s) s₁) (he : Exec others (next t an s) s₁ out a s') :
      Exec others (lock update next) s out a s'
  | fetch {url : String} {next : Option Json → Handler α} (response : Option Json)
      {s s₁ s' : Stores} {out : List Json} {a : α}
      (ho : others s s₁) (he : Exec others (next response) s₁ out a s') :
      Exec others (fetch url next) s out a s'

variable {s s' : Stores} {out : List Json}

@[simp]
theorem exec_pure_iff {a b : α} :
    Exec others (pure a) s out b s' ↔ b = a ∧ out = [] ∧ s' = s := by
  constructor
  · intro h
    cases h
    exact ⟨rfl, rfl, rfl⟩
  · rintro ⟨rfl, rfl, rfl⟩
    exact .pure ..

@[simp]
theorem exec_return_iff {a b : α} :
    Exec others (Pure.pure a) s out b s' ↔ b = a ∧ out = [] ∧ s' = s :=
  exec_pure_iff

@[simp]
theorem not_exec_panic {a : α} : ¬ Exec others panic s out a s' := nofun

/-- The parts of a sequence run one after the other. -/
theorem exec_bind {h : Handler α} {f : α → Handler β} {b : β}
    (he : Exec others (h.bind f) s out b s') :
    ∃ a out₁ s₁ out₂, Exec others h s out₁ a s₁ ∧ Exec others (f a) s₁ out₂ b s' ∧
      out = out₁ ++ out₂ := by
  induction h generalizing s out with
  | pure a => exact ⟨a, [], s, out, .pure a s, he, rfl⟩
  | panic => cases he
  | send message next ih =>
    cases he with
    | send ho he =>
      obtain ⟨a, out₁, s₁, out₂, h₁, h₂, rfl⟩ := ih he
      exact ⟨a, _, s₁, out₂, .send ho h₁, h₂, rfl⟩
  | now next ih =>
    cases he with
    | now t ho he =>
      obtain ⟨a, out₁, s₁, out₂, h₁, h₂, rfl⟩ := ih t he
      exact ⟨a, out₁, s₁, out₂, .now t ho h₁, h₂, rfl⟩
  | ask next ih =>
    cases he with
    | ask an ho he =>
      obtain ⟨a, out₁, s₁, out₂, h₁, h₂, rfl⟩ := ih an he
      exact ⟨a, out₁, s₁, out₂, .ask an ho h₁, h₂, rfl⟩
  | lock update next ih =>
    cases he with
    | lock t an ho he =>
      obtain ⟨a, out₁, s₁, out₂, h₁, h₂, rfl⟩ := ih t an _ he
      exact ⟨a, out₁, s₁, out₂, .lock t an ho h₁, h₂, rfl⟩
  | fetch url next ih =>
    cases he with
    | fetch response ho he =>
      obtain ⟨a, out₁, s₁, out₂, h₁, h₂, rfl⟩ := ih response he
      exact ⟨a, out₁, s₁, out₂, .fetch response ho h₁, h₂, rfl⟩

theorem Exec.bind {h : Handler α} {f : α → Handler β} {a : α} {b : β} {s₁ : Stores}
    {out₁ out₂ : List Json} (h₁ : Exec others h s out₁ a s₁)
    (h₂ : Exec others (f a) s₁ out₂ b s') : Exec others (h.bind f) s (out₁ ++ out₂) b s' := by
  induction h₁ with
  | pure => exact h₂
  | send ho _ ih => exact .send ho (ih h₂)
  | now t ho _ ih => exact .now t ho (ih h₂)
  | ask an ho _ ih => exact .ask an ho (ih h₂)
  | lock t an ho _ ih => exact .lock t an ho (ih h₂)
  | fetch response ho _ ih => exact .fetch response ho (ih h₂)

theorem exec_bind_iff {h : Handler α} {f : α → Handler β} {b : β} :
    Exec others (h >>= f) s out b s' ↔
      ∃ a out₁ s₁ out₂, Exec others h s out₁ a s₁ ∧ Exec others (f a) s₁ out₂ b s' ∧
        out = out₁ ++ out₂ := by
  constructor
  · exact exec_bind
  · rintro ⟨a, out₁, s₁, out₂, h₁, h₂, rfl⟩
    exact h₁.bind h₂

/-! The actions of the handlers. -/

@[simp]
theorem exec_reply_iff {message : Json} {u : Unit} :
    Exec others (reply message) s out u s' ↔ out = [message] ∧ others s s' := by
  constructor
  · intro h
    cases h with
    | send ho he =>
      cases he
      exact ⟨rfl, ho⟩
  · rintro ⟨rfl, ho⟩
    exact .send ho (.pure _ _)

@[simp]
theorem exec_nowMs_iff {t : Nat} : Exec others nowMs s out t s' ↔ out = [] ∧ others s s' := by
  constructor
  · intro h
    cases h with
    | now t ho he =>
      cases he
      exact ⟨rfl, ho⟩
  · rintro ⟨rfl, ho⟩
    exact .now t ho (.pure _ _)

@[simp]
theorem exec_answer_iff {f : Answers → α} {a : α} :
    Exec others (answer f) s out a s' ↔ (∃ an, f an = a) ∧ out = [] ∧ others s s' := by
  constructor
  · intro h
    cases h with
    | ask an ho he =>
      cases he
      exact ⟨⟨an, rfl⟩, rfl, ho⟩
  · rintro ⟨⟨an, rfl⟩, rfl, ho⟩
    exact .ask an ho (.pure _ _)

@[simp]
theorem exec_lockJobs_iff {f : Nat → JobRegistry → α × JobRegistry} {a : α} :
    Exec others (lockJobs f) s out a s' ↔
      ∃ t, (f t s.jobs).1 = a ∧ out = [] ∧ others { s with jobs := (f t s.jobs).2 } s' := by
  constructor
  · intro h
    cases h with
    | lock t an ho he =>
      cases he
      exact ⟨t, rfl, rfl, ho⟩
  · rintro ⟨t, rfl, rfl, ho⟩
    exact .lock t default ho (.pure _ _)

/-- A critical section of the capture queue: its mutex is not poisoned, and is not poisoned by it.
-/
@[simp]
theorem exec_lockCapture_iff {f : Answers → CaptureJobQueue → Option α × CaptureJobQueue} {a : α} :
    Exec others (lockCapture f) s out a s' ↔
      s.capturePoisoned = false ∧ ∃ an, (f an s.capture).1 = some a ∧ out = [] ∧
        others { s with capture := (f an s.capture).2 } s' := by
  constructor
  · intro h
    cases h with
    | lock t an ho he =>
      dsimp only at ho he
      split at he
      · cases he
      · next hp =>
        rw [if_neg hp] at ho
        split at he
        · next r hr =>
          cases he
          rw [hr, Option.isNone_some] at ho
          rw [Bool.not_eq_true] at hp
          refine ⟨hp, an, hr, rfl, ?_⟩
          rwa [hp]
        · cases he
  · rintro ⟨hp, an, ha, rfl, ho⟩
    have hpanic : ¬ s.capturePoisoned = true := by simp [hp]
    refine .lock 0 an (?_ : others _ s') ?_
    · rw [if_neg hpanic, ha, Option.isNone_some]
      rwa [hp] at ho
    · rw [if_neg hpanic, ha]
      exact .pure _ _

@[simp]
theorem exec_withSqlite_iff {f : Nat → Answers → SqliteStore → Option α × SqliteStore}
    {a : Option α} :
    Exec others (withSqlite f) s out a s' ↔
      ∃ t an, (s.sqlite.bind fun db => (f t an db).1) = a ∧ out = [] ∧
        others { s with sqlite := s.sqlite.map fun db => (f t an db).2 } s' := by
  constructor
  · intro h
    cases h with
    | lock t an ho he =>
      cases he
      exact ⟨t, an, rfl, rfl, ho⟩
  · rintro ⟨t, an, rfl, rfl, ho⟩
    exact .lock t an ho (.pure _ _)

/-- A `job.progress` message that is stamped at the time `t`. -/
def progressMessage (token jobId kind status : String) (fraction : Rat) (message : Option Json)
    (more : List (String × Json)) (t : Nat) : Json :=
  .obj <|
    [("type", .str "job.progress"), ("sessionToken", .str token),
      ("progress", .obj <|
        [("jobId", .str jobId), ("kind", .str kind), ("status", .str status),
          ("fraction", .float fraction)] ++
        (message.map fun m => ("message", m)).toList ++ [("updatedAtMs", .nat t)])] ++ more

@[simp]
theorem exec_sendProgress_iff {token jobId kind status : String} {fraction : Rat}
    {message : Option Json} {more : List (String × Json)} {u : Unit} :
    Exec others (sendProgress token jobId kind status fraction message more) s out u s' ↔
      ∃ t s₁, others s s₁ ∧ others s₁ s' ∧
        out = [progressMessage token jobId kind status fraction message more t] := by
  simp only [sendProgress, exec_bind_iff, exec_nowMs_iff, exec_reply_iff]
  constructor
  · rintro ⟨t, _, s₁, _, ⟨rfl, h₁⟩, ⟨rfl, h₂⟩, rfl⟩
    exact ⟨t, s₁, h₁, h₂, rfl⟩
  · rintro ⟨t, s₁, h₁, h₂, rfl⟩
    exact ⟨t, _, s₁, _, ⟨rfl, h₁⟩, ⟨rfl, h₂⟩, rfl⟩

/-! ## Executions without the others -/

/-- A handler runs alone, with one time and one answer throughout. -/
def perform (t : Nat) (an : Answers) : Handler α → Stores → Option (List Json × α × Stores)
  | pure a, s => some ([], a, s)
  | panic, _ => none
  | send message next, s =>
    (perform t an next s).map fun (out, a, s') => (message :: out, a, s')
  | now next, s => perform t an (next t) s
  | ask next, s => perform t an (next an) s
  | lock update next, s => perform t an (next t an s) (update t an s)
  | fetch _ next, s => perform t an (next an.tracks) s

theorem exec_of_perform [Std.Refl others] {t : Nat} {an : Answers} {h : Handler α} {a : α}
    (hp : perform t an h s = some (out, a, s')) : Exec others h s out a s' := by
  induction h generalizing s out with
  | pure a =>
    cases hp
    exact .pure ..
  | panic => cases hp
  | send message next ih =>
    obtain ⟨⟨out, a, s'⟩, hp, heq⟩ := Option.map_eq_some_iff.1 hp
    cases heq
    exact .send (Std.Refl.refl _) (ih hp)
  | now next ih => exact .now t (Std.Refl.refl _) (ih t hp)
  | ask next ih => exact .ask an (Std.Refl.refl _) (ih an hp)
  | lock update next ih => exact .lock t an (Std.Refl.refl _) (ih t an s hp)
  | fetch url next ih => exact .fetch an.tracks (Std.Refl.refl _) (ih an.tracks hp)

/-! ## Guarantees -/

/-- Every critical section of a handler changes the stores as `P` allows. -/
def Guarantees (P : Stores → Stores → Prop) : Handler α → Prop
  | pure _ | panic => True
  | send _ next => Guarantees P next
  | now next => ∀ t, Guarantees P (next t)
  | ask next => ∀ an, Guarantees P (next an)
  | lock update next => ∀ t an s, P s (update t an s) ∧ Guarantees P (next t an s)
  | fetch _ next => ∀ response, Guarantees P (next response)

variable {P : Stores → Stores → Prop}

theorem Guarantees.bind {h : Handler α} {f : α → Handler β} (hh : Guarantees P h)
    (hf : ∀ a, Guarantees P (f a)) : Guarantees P (h >>= f) := by
  induction h with
  | pure a => exact hf a
  | panic => trivial
  | send message next ih => exact ih hh
  | now next ih => exact fun t => ih t (hh t)
  | ask next ih => exact fun an => ih an (hh an)
  | lock update next ih => exact fun t an s => ⟨(hh t an s).1, ih t an s (hh t an s).2⟩
  | fetch url next ih => exact fun response => ih response (hh response)

theorem Guarantees.mono {Q : Stores → Stores → Prop} {h : Handler α} (hh : Guarantees P h)
    (hPQ : ∀ s s', P s s' → Q s s') : Guarantees Q h := by
  induction h with
  | pure | panic => trivial
  | send message next ih => exact ih hh
  | now next ih => exact fun t => ih t (hh t)
  | ask next ih => exact fun an => ih an (hh an)
  | lock update next ih => exact fun t an s => ⟨hPQ _ _ (hh t an s).1, ih t an s (hh t an s).2⟩
  | fetch url next ih => exact fun response => ih response (hh response)

/-- What a handler and the others keep, its execution keeps. -/
theorem Guarantees.exec [Std.Refl P] [IsTrans Stores P] {h : Handler α} {a : α}
    (hg : Guarantees P h) (hothers : ∀ s s', others s s' → P s s')
    (he : Exec others h s out a s') : P s s' := by
  induction he with
  | pure => exact Std.Refl.refl _
  | send ho _ ih => exact IsTrans.trans _ _ _ (hothers _ _ ho) (ih hg)
  | now t ho _ ih => exact IsTrans.trans _ _ _ (hothers _ _ ho) (ih (hg t))
  | ask an ho _ ih => exact IsTrans.trans _ _ _ (hothers _ _ ho) (ih (hg an))
  | lock t an ho _ ih =>
    obtain ⟨hown, hrest⟩ := hg t an _
    exact IsTrans.trans _ _ _ hown (IsTrans.trans _ _ _ (hothers _ _ ho) (ih hrest))
  | fetch response ho _ ih => exact IsTrans.trans _ _ _ (hothers _ _ ho) (ih (hg response))

/-! ## Handlers that return -/

/-- A handler keeps `I` and does not panic in stores that meet it. -/
def Returns (I : Stores → Prop) : Handler α → Prop
  | pure _ => True
  | panic => False
  | send _ next => Returns I next
  | now next => ∀ t, Returns I (next t)
  | ask next => ∀ an, Returns I (next an)
  | lock update next => ∀ t an s, I s → I (update t an s) ∧ Returns I (next t an s)
  | fetch _ next => ∀ response, Returns I (next response)

variable {I : Stores → Prop}

theorem Returns.bind {h : Handler α} {f : α → Handler β} (hh : Returns I h)
    (hf : ∀ a, Returns I (f a)) : Returns I (h >>= f) := by
  induction h with
  | pure a => exact hf a
  | panic => exact hh.elim
  | send message next ih => exact ih hh
  | now next ih => exact fun t => ih t (hh t)
  | ask next ih => exact fun an => ih an (hh an)
  | lock update next ih => exact fun t an s hI => ⟨(hh t an s hI).1, ih t an s (hh t an s hI).2⟩
  | fetch url next ih => exact fun response => ih response (hh response)

theorem Returns.lockCapture {f : Answers → CaptureJobQueue → Option α × CaptureJobQueue}
    (hpoisoned : ∀ s, I s → s.capturePoisoned = false)
    (hf : ∀ an s, I s → (f an s.capture).1.isSome ∧ I { s with capture := (f an s.capture).2 }) :
    Returns I (lockCapture f) := by
  intro t an s hI
  have hp := hpoisoned s hI
  obtain ⟨hsome, hI'⟩ := hf an s hI
  obtain ⟨a, ha⟩ := Option.isSome_iff_exists.1 hsome
  dsimp only
  rw [if_neg (by simp [hp]), if_neg (by simp [hp]), ha, Option.isNone_some]
  exact ⟨hp ▸ hI', trivial⟩

/-- A handler that returns has an execution, with any clock and any answers. -/
theorem Returns.exec [Std.Refl others] {h : Handler α} (hh : Returns I h) (hI : I s) :
    ∃ out a s', Exec others h s out a s' ∧ I s' := by
  induction h generalizing s with
  | pure a => exact ⟨[], a, s, .pure a s, hI⟩
  | panic => exact hh.elim
  | send message next ih =>
    obtain ⟨out, a, s', he, hI'⟩ := ih hh hI
    exact ⟨_, a, s', .send (Std.Refl.refl _) he, hI'⟩
  | now next ih =>
    obtain ⟨out, a, s', he, hI'⟩ := ih 0 (hh 0) hI
    exact ⟨out, a, s', .now 0 (Std.Refl.refl _) he, hI'⟩
  | ask next ih =>
    obtain ⟨out, a, s', he, hI'⟩ := ih default (hh default) hI
    exact ⟨out, a, s', .ask default (Std.Refl.refl _) he, hI'⟩
  | lock update next ih =>
    obtain ⟨hI₁, hnext⟩ := hh 0 default s hI
    obtain ⟨out, a, s', he, hI'⟩ := ih 0 default s hnext hI₁
    exact ⟨out, a, s', .lock 0 default (Std.Refl.refl _) he, hI'⟩
  | fetch url next ih =>
    obtain ⟨out, a, s', he, hI'⟩ := ih none (hh none) hI
    exact ⟨out, a, s', .fetch none (Std.Refl.refl _) he, hI'⟩

/-! ## Handlers without critical sections -/

/-- A handler without critical sections, which does not panic. -/
def Lockless : Handler α → Prop
  | pure _ => True
  | panic | lock _ _ => False
  | send _ next => Lockless next
  | now next => ∀ t, Lockless (next t)
  | ask next => ∀ an, Lockless (next an)
  | fetch _ next => ∀ response, Lockless (next response)

theorem Lockless.bind {h : Handler α} {f : α → Handler β} (hh : Lockless h)
    (hf : ∀ a, Lockless (f a)) : Lockless (h >>= f) := by
  induction h with
  | pure a => exact hf a
  | panic | lock => exact hh.elim
  | send message next ih => exact ih hh
  | now next ih => exact fun t => ih t (hh t)
  | ask next ih => exact fun an => ih an (hh an)
  | fetch url next ih => exact fun response => ih response (hh response)

theorem Lockless.guarantees {h : Handler α} (hh : Lockless h) : Guarantees P h := by
  induction h with
  | pure a => trivial
  | panic | lock => exact hh.elim
  | send message next ih => exact ih hh
  | now next ih => exact fun t => ih t (hh t)
  | ask next ih => exact fun an => ih an (hh an)
  | fetch url next ih => exact fun response => ih response (hh response)

theorem Lockless.returns {h : Handler α} (hh : Lockless h) : Returns I h := by
  induction h with
  | pure a => trivial
  | panic | lock => exact hh.elim
  | send message next ih => exact ih hh
  | now next ih => exact fun t => ih t (hh t)
  | ask next ih => exact fun an => ih an (hh an)
  | fetch url next ih => exact fun response => ih response (hh response)

theorem lockless_return {a : α} : Lockless (Pure.pure a : Handler α) := trivial

theorem lockless_reply {message : Json} : Lockless (reply message) := trivial

theorem lockless_nowMs : Lockless nowMs := fun _ => trivial

theorem lockless_answer {f : Answers → α} : Lockless (answer f) := fun _ => trivial

theorem lockless_sendProgress {token jobId kind status : String} {fraction : Rat}
    {message : Option Json} {more : List (String × Json)} :
    Lockless (sendProgress token jobId kind status fraction message more) :=
  lockless_nowMs.bind fun _ => lockless_reply

theorem lockless_sendError {token : Json} {code message : String} {more : List (String × Json)} :
    Lockless (sendError token code message more) :=
  lockless_reply

end Handler

/-! ## Runs of the server -/

open Handler

/-- What is left of a handler at `body'` completes its execution from `body`. -/
def Completes (others : Stores → Stores → Prop) (body : Handler Unit) (s : Stores)
    (sent : List Json) (body' : Handler Unit) (s' : Stores) : Prop :=
  ∀ {s₁ s₂ : Stores} {out : List Json}, others s' s₁ → Exec others body' s₁ out () s₂ →
    ∃ s₀, others s s₀ ∧ Exec others body s₀ (sent ++ out) () s₂

/-- A handler that a connection has started after it had sent `before`: its task has panicked, its
execution is complete, or it is at `body'` and an execution of `body'` completes it. -/
def Underway (others : Stores → Stores → Prop) (value : Json) (body : Handler Unit) (s : Stores)
    (before : List Json) (conn : Connection) (s' : Stores) : Prop :=
  conn.task = .returned ∨
  ∃ sent, conn.sent = before ++ sent ∧
    ((conn.task = .listening ∧ ∃ s₀ s₁, others s s₀ ∧ others s₁ s' ∧
        Exec others body s₀ sent () s₁) ∨
      ∃ body', conn.task = .handling value (.handle body') ∧ Completes others body s sent body' s')

section Runs

/-- An action changes one connection. -/
theorem Server.act_connections {s s' : Server} {c : Nat} {conn : Connection} {value : Json}
    {a : Answers} {arm : Arm} (hs : s.act c conn value a arm = some s') :
    ∃ conn', s'.connections = s.connections.set c conn' := by
  cases arm with
  | handle body =>
    obtain rfl := Option.some.inj hs
    cases body <;> exact ⟨_, rfl⟩
  | issue | rotate =>
    simp only [act] at hs
    split at hs
    · cases hs
    · obtain rfl := Option.some.inj hs
      exact ⟨_, rfl⟩
  | next | leave | send | now | purge | valid =>
    obtain rfl := Option.some.inj hs
    exact ⟨_, rfl⟩

variable {c : Nat} {value : Json} {body : Handler Unit} {stores : Stores} {before : List Json}

/-- The next action of a handler is the next one of its execution. -/
theorem Underway.act [Std.Refl others] {s : Server} {conn : Connection}
    {an : Answers} {body' : Handler Unit} {sent : List Json} (hconn : s.connections[c]? = some conn)
    (hsent : conn.sent = before ++ sent)
    (hc : Completes others body stores sent body' s.companion.stores) :
    ∃ conn', (s.actHandler c conn value an body').connections[c]? = some conn' ∧
      Underway others value body stores before conn'
        (s.actHandler c conn value an body').companion.stores := by
  have hlt : c < s.connections.length := (List.getElem?_eq_some_iff.1 hconn).1
  have hset (conn' : Connection) : (s.connections.set c conn')[c]? = some conn' :=
    List.getElem?_set_self hlt
  cases body' with
  | pure _ =>
    refine ⟨_, hset _, Or.inr ⟨sent, hsent, Or.inl ⟨rfl, ?_⟩⟩⟩
    obtain ⟨s₀, h₀, he⟩ := hc (Std.Refl.refl _) (.pure () _)
    rw [List.append_nil] at he
    exact ⟨s₀, _, h₀, Std.Refl.refl _, he⟩
  | panic => exact ⟨_, hset _, Or.inl rfl⟩
  | send message next =>
    refine ⟨_, hset _, Or.inr ⟨sent ++ [message], ?_, Or.inr ⟨next, rfl, fun ho he => ?_⟩⟩⟩
    · simp [hsent]
    · simpa using hc (Std.Refl.refl _) (.send ho he)
  | now next =>
    exact ⟨_, hset _, Or.inr ⟨sent, hsent, Or.inr ⟨_, rfl, fun ho he =>
      hc (Std.Refl.refl _) (.now _ ho he)⟩⟩⟩
  | ask next =>
    exact ⟨_, hset _, Or.inr ⟨sent, hsent, Or.inr ⟨_, rfl, fun ho he =>
      hc (Std.Refl.refl _) (.ask _ ho he)⟩⟩⟩
  | lock update next =>
    exact ⟨_, hset _, Or.inr ⟨sent, hsent, Or.inr ⟨_, rfl, fun ho he =>
      hc (Std.Refl.refl _) (.lock _ _ ho he)⟩⟩⟩
  | fetch url next =>
    exact ⟨_, hset _, Or.inr ⟨sent, hsent, Or.inr ⟨_, rfl, fun ho he =>
      hc (Std.Refl.refl _) (.fetch _ ho he)⟩⟩⟩

/-- The rest of the companion moves on between two actions. -/
theorem Underway.trans [IsTrans Stores others]
    {conn : Connection} {s s' : Stores} (hf : Underway others value body stores before conn s)
    (ho : others s s') : Underway others value body stores before conn s' := by
  rcases hf with hret | ⟨sent, hsent, ⟨hlisten, s₀, s₁, h₀, h₁, he⟩ | ⟨body', htask, hc⟩⟩
  · exact Or.inl hret
  · exact Or.inr ⟨sent, hsent, Or.inl ⟨hlisten, s₀, s₁, h₀, IsTrans.trans _ _ _ h₁ ho, he⟩⟩
  · exact Or.inr
      ⟨sent, hsent, Or.inr ⟨body', htask, fun ho' he => hc (IsTrans.trans _ _ _ ho ho') he⟩⟩

/-- What a connection runs after it has started a handler, up to its next message, is an execution
of that handler, when the steps of the others change the stores as `others` allows. -/
theorem exec_of_run {env : External} {debug : Bool} [Std.Refl others]
    [IsTrans Stores others]
    {h : List (Fired Server ServerEvent)} {s s' : Server} {conn : Connection}
    (hr : Run (Server.step env debug) s h s') (hconn : s.connections[c]? = some conn)
    (htask : conn.task = .handling value (.handle body))
    (hothers : ∀ f ∈ h, (∃ an, f.label = .act c an) ∨
      (∀ frame, f.label ≠ .receive c frame) ∧
        others f.pre.companion.stores f.post.companion.stores) :
    ∃ conn', s'.connections[c]? = some conn' ∧
      Underway others value body s.companion.stores conn.sent conn' s'.companion.stores := by
  induction hr with
  | nil =>
    exact ⟨conn, hconn, Or.inr ⟨[], by simp, Or.inr ⟨body, htask, fun ho he => ⟨_, ho, he⟩⟩⟩⟩
  | @cons h s₁ s₂ l hr hs ih =>
    obtain ⟨conn₁, hconn₁, hf⟩ := ih fun f hf => hothers f (List.mem_cons_of_mem _ hf)
    have hlt : c < s₁.connections.length := (List.getElem?_eq_some_iff.1 hconn₁).1
    have hkeeps (hl : ∀ an, l ≠ .act c an) (hconn₂ : s₂.connections[c]? = some conn₁) :
        ∃ conn', s₂.connections[c]? = some conn' ∧
          Underway others value body s.companion.stores conn.sent conn' s₂.companion.stores := by
      rcases hothers _ List.mem_cons_self with ⟨an, han⟩ | ⟨_, ho⟩
      · exact absurd han (hl an)
      · exact ⟨conn₁, hconn₂, hf.trans ho⟩
    rcases Server.step_cases hs with ⟨origin, t, rfl, rfl⟩ |
      ⟨d, frame, conn₂, rfl, hconn₂, htask₂, rfl⟩ | ⟨d, an, conn₂, value', arm, rfl, hconn₂,
        htask₂, hact⟩ |
      ⟨now, rfl, hl⟩
    · refine hkeeps (by simp) ?_
      rcases Server.upgrade_cases (s := s₁) debug origin t with heq | ⟨_, heq, _⟩ <;> rw [heq]
      · exact hconn₁
      · rw [List.getElem?_append_left hlt]
        exact hconn₁
    · have hne : d ≠ c := by
        rintro rfl
        rcases hothers _ List.mem_cons_self with ⟨an, han⟩ | ⟨hreceive, _⟩
        · cases han
        · exact hreceive frame rfl
      refine hkeeps (by simp) ?_
      rw [List.getElem?_set_ne hne]
      exact hconn₁
    · by_cases hdc : d = c
      · subst hdc
        rw [hconn₁, Option.some.injEq] at hconn₂
        subst hconn₂
        rcases hf with hret | ⟨sent, hsent, ⟨hlisten, _⟩ | ⟨body', hbody', hc⟩⟩
        · rw [hret] at htask₂
          cases htask₂
        · rw [hlisten] at htask₂
          cases htask₂
        · rw [hbody'] at htask₂
          obtain ⟨rfl, rfl⟩ := Task.handling.inj htask₂
          obtain rfl := Option.some.inj hact
          exact Underway.act hconn₁ hsent hc
      · obtain ⟨conn', heq⟩ := Server.act_connections hact
        refine hkeeps (by simpa using hdc) ?_
        rw [heq, List.getElem?_set_ne hdc]
        exact hconn₁
    · refine hkeeps ?_ hconn₁
      rcases hl with rfl | ⟨ms, rfl⟩ <;> simp

end Runs

end LanguageLlm.Desktop
