import LanguageLlm.Lib.Run

/-!
# The lifecycle of the service

`service.rs`: the tray, the start of the application and the buttons of the GUI start and stop the
loopback server, each in its own task. A call runs from one lock or await to the next.
`service_lifecycle_iff` says in which runs the flag, the handle and the port agree with the accept
loop.
-/

namespace LanguageLlm.Desktop

open Lib

/-! ## The calls -/

/-- The task of `axum::serve`, which ends when it is aborted. -/
structure AcceptLoop where
  id : Nat
  port : Nat
  deriving DecidableEq

/-- Where a call is: `start_service` before its check, its bind, the store of its handle and the
flag; and `stop_service` before it takes the handle, clears the flag and resets the port. -/
inductive ServiceCall where
  | checking
  | binding
  | storing (handle : AcceptLoop)
  | flagging (handle : AcceptLoop)
  | started (result : Except String Nat)
  | taking
  | clearing
  | resetting
  | stopped

def ServiceCall.isStart : ServiceCall → Bool
  | checking | binding | storing _ | flagging _ => true
  | started _ | taking | clearing | resetting | stopped => false

/-- The cells of `ManagerRuntime`, the accept loops that are alive, the number of those that were
spawned, and the calls. -/
structure Service where
  serviceRunning : Bool
  wsHandle : Option AcceptLoop
  port : Nat
  alive : List AcceptLoop
  spawned : Nat
  calls : List ServiceCall

/-- A call comes or goes on to its next lock or await; `bound` is what the bind answers. -/
inductive ServiceAction where
  | callStart
  | callStop
  | proceed (c : Nat) (bound : Except String Nat)

namespace Service

def new : Service where
  serviceRunning := false
  wsHandle := none
  port := 0
  alive := []
  spawned := 0
  calls := []

/-- `is_running`. -/
def isRunning (s : Service) : Bool := s.serviceRunning && decide (0 < s.port)

def setCall (s : Service) (c : Nat) (call : ServiceCall) : Service :=
  { s with calls := s.calls.set c call }

/-- `bind_loopback_server`: a free port is published, and the accept loop is spawned. -/
def bind (s : Service) (c port : Nat) : Service :=
  let handle : AcceptLoop := { id := s.spawned, port }
  { s with
    port
    alive := s.alive ++ [handle]
    spawned := s.spawned + 1
    calls := s.calls.set c (.storing handle) }

/-- The first section of `stop_service`. -/
def take (s : Service) : Service :=
  match s.wsHandle with
  | some handle => { s with wsHandle := none, alive := s.alive.filter (· ≠ handle) }
  | none => s

/-- A call goes on. The handle that `start_service` replaces is dropped, which does not end its
task. -/
def proceed (s : Service) (c : Nat) (bound : Except String Nat) : Option Service :=
  match s.calls[c]? with
  | some .checking => some (s.setCall c (if s.isRunning then .started (.ok s.port) else .binding))
  | some .binding =>
    match bound with
    | .ok port => if 0 < port ∧ ∀ t ∈ s.alive, t.port ≠ port then some (s.bind c port) else none
    | .error e => some (s.setCall c (.started (.error ("bind failed: " ++ e))))
  | some (.storing handle) => some ({ s with wsHandle := some handle }.setCall c (.flagging handle))
  | some (.flagging handle) =>
    some ({ s with serviceRunning := true }.setCall c (.started (.ok handle.port)))
  | some .taking => some (s.take.setCall c .clearing)
  | some .clearing => some ({ s with serviceRunning := false }.setCall c .resetting)
  | some .resetting => some ({ s with port := 0 }.setCall c .stopped)
  | some (.started _) | some .stopped | none => none

def step (s : Service) : ServiceAction → Option Service
  | .callStart => some { s with calls := s.calls ++ [.checking] }
  | .callStop => some { s with calls := s.calls ++ [.taking] }
  | .proceed c bound => s.proceed c bound

end Service

/-! ## The claim -/

/-- A start is in progress. -/
def Starting (s : Service) : Prop := ∃ call ∈ s.calls, call.isStart = true

/-- The accept loop is alive, its handle is stored and its port published. -/
def Published (s : Service) : Prop := ∃ t ∈ s.alive, s.wsHandle = some t ∧ s.port = t.port

/-- There is one accept loop at most; and while no start is in progress the service runs exactly
when its accept loop is published. -/
structure ServiceAgrees (s : Service) : Prop where
  one : s.alive.length ≤ 1
  running : ¬ Starting s → (s.isRunning = true ↔ Published s)

/-- The cells agree after the step, and no accept loop is alive when it ends a stop while no start
is in progress. -/
structure LifecycleHolds (f : Fired Service ServiceAction) : Prop where
  agrees : ServiceAgrees f.post
  ended : ∀ c bound, f.label = .proceed c bound → f.pre.calls[c]? = some .resetting →
    ¬ Starting f.post →
    f.post.alive = []

/-! ## The condition -/

/-- Another start than the call `c` is in progress. -/
def OtherStart (s : Service) (c : Nat) : Prop :=
  ∃ d call, d ≠ c ∧ s.calls[d]? = some call ∧ call.isStart = true

/-- What a call must find before it goes on. No accept loop is alive when one is spawned. Unless
another start is in progress, a start that returns at its check finds the accept loop published that
it reports, one whose bind fails finds it published if the service runs and the other way round, and
one that sets the flag finds it published unless the port is reset; a stop that takes the handle
finds the service not running, one that clears the flag finds nothing published, and one that resets
the port finds no accept loop. -/
def ServiceCall.Finds (s : Service) (c : Nat) (bound : Except String Nat) : ServiceCall → Prop
  | checking => s.isRunning = true → OtherStart s c ∨ Published s
  | binding =>
    match bound with
    | .ok _ => s.alive = []
    | .error _ => OtherStart s c ∨ (s.isRunning = true ↔ Published s)
  | storing _ => True
  | flagging _ => OtherStart s c ∨ (0 < s.port ↔ Published s)
  | taking => OtherStart s c ∨ s.isRunning = false
  | clearing => OtherStart s c ∨ ¬ Published s
  | resetting => OtherStart s c ∨ s.alive = []
  | started _ | stopped => True

def ServiceAction.Orderly (s : Service) : ServiceAction → Prop
  | callStart | callStop => True
  | proceed c bound => ∀ call, s.calls[c]? = some call → call.Finds s c bound

/-! ## One step -/

section Step

variable {s s' : Service} {c : Nat} {call old : ServiceCall}

/-- A call that goes on is in progress as a start, or another one is. -/
theorem starting_set_iff (hold : s.calls[c]? = some old) (hcalls : s'.calls = s.calls.set c call) :
    Starting s' ↔ call.isStart = true ∨ OtherStart s c := by
  obtain ⟨hlt, -⟩ := List.getElem?_eq_some_iff.1 hold
  rw [Starting, hcalls]
  constructor
  · rintro ⟨call', hmem, hstart⟩
    obtain ⟨d, hd⟩ := List.mem_iff_getElem?.1 hmem
    by_cases hdc : d = c
    · subst hdc
      rw [List.getElem?_set_self hlt] at hd
      cases hd
      exact Or.inl hstart
    · rw [List.getElem?_set_ne (Ne.symm hdc)] at hd
      exact Or.inr ⟨d, call', hdc, hd, hstart⟩
  · rintro (hstart | ⟨d, call', hdc, hd, hstart⟩)
    · exact ⟨call, List.mem_of_getElem? (List.getElem?_set_self hlt), hstart⟩
    · refine ⟨call', List.mem_of_getElem? (i := d) ?_, hstart⟩
      rw [List.getElem?_set_ne (Ne.symm hdc), hd]

/-- What is to be shown after a call that goes on. -/
theorem agrees_set_iff (hold : s.calls[c]? = some old) (hcalls : s'.calls = s.calls.set c call) :
    ServiceAgrees s' ↔ s'.alive.length ≤ 1 ∧
      (call.isStart = true ∨ OtherStart s c ∨ (s'.isRunning = true ↔ Published s')) := by
  have hstarting := starting_set_iff hold hcalls
  constructor
  · rintro ⟨hone, hrunning⟩
    refine ⟨hone, ?_⟩
    by_cases hstart : Starting s'
    · exact (hstarting.1 hstart).imp_right Or.inl
    · exact Or.inr (Or.inr (hrunning hstart))
  · rintro ⟨hone, hrest⟩
    refine ⟨hone, fun hstart => ?_⟩
    rcases hrest with hcall | hother | hiff
    · exact absurd (hstarting.2 (Or.inl hcall)) hstart
    · exact absurd (hstarting.2 (Or.inr hother)) hstart
    · exact hiff

/-- The free ports are not zero. -/
def PortsPositive (s : Service) : Prop := ∀ t ∈ s.alive, 0 < t.port

theorem alive_take (s : Service) : ∀ t ∈ s.take.alive, t ∈ s.alive := by
  intro t ht
  unfold Service.take at ht
  split at ht
  · exact (List.mem_filter.1 ht).1
  · exact ht

theorem length_alive_take (s : Service) : s.take.alive.length ≤ s.alive.length := by
  unfold Service.take
  split
  · exact List.length_filter_le ..
  · exact Nat.le_refl _

theorem not_published_take (s : Service) : ¬ Published s.take := by
  rintro ⟨t, -, hhandle, -⟩
  unfold Service.take at hhandle
  split at hhandle
  · cases hhandle
  · next hnone =>
    rw [hnone] at hhandle
    cases hhandle

theorem isRunning_take (s : Service) : s.take.isRunning = s.isRunning := by
  unfold Service.take
  split <;> rfl

theorem calls_take (s : Service) : s.take.calls = s.calls := by
  unfold Service.take
  split <;> rfl

/-- What is to be shown of a call that leaves no start in progress. -/
theorem agrees_end_iff (hold : s.calls[c]? = some old) (hcalls : s'.calls = s.calls.set c call)
    (hend : call.isStart = false) (hone : s'.alive.length ≤ 1) :
    ServiceAgrees s' ↔ OtherStart s c ∨ (s'.isRunning = true ↔ Published s') := by
  rw [agrees_set_iff hold hcalls]
  constructor
  · rintro ⟨-, hstart | hrest⟩
    · rw [hend] at hstart
      cases hstart
    · exact hrest
  · intro hrest
    exact ⟨hone, Or.inr hrest⟩

/-! One lemma for each section: the cells agree after it when it finds what it must find. -/

theorem agrees_checked_iff (bound : Except String Nat) (hs : ServiceAgrees s)
    (hcall : s.calls[c]? = some .checking) :
    ServiceAgrees (s.setCall c (if s.isRunning then .started (.ok s.port) else .binding)) ↔
      ServiceCall.checking.Finds s c bound := by
  rw [ServiceCall.Finds]
  cases hrunning : s.isRunning with
  | true =>
    refine Iff.trans (agrees_end_iff hcall rfl rfl hs.one) ?_
    have hflag : (s.setCall c (.started (.ok s.port))).isRunning = true := hrunning
    constructor
    · intro hrest _
      exact hrest.imp_right fun hiff => hiff.1 hflag
    · intro hfinds
      exact (hfinds rfl).imp_right fun hpublished => iff_of_true hflag hpublished
  | false =>
    rw [agrees_set_iff hcall rfl]
    exact iff_of_true ⟨hs.one, Or.inl rfl⟩ nofun

theorem agrees_bound_iff {port : Nat} (hcall : s.calls[c]? = some .binding) :
    ServiceAgrees (s.bind c port) ↔ s.alive = [] := by
  have hlength : (s.bind c port).alive.length = s.alive.length + 1 := List.length_append
  rw [agrees_set_iff hcall rfl, hlength]
  constructor
  · rintro ⟨hone, -⟩
    apply List.length_eq_zero_iff.1
    omega
  · intro hnone
    have hzero : s.alive.length = 0 := List.length_eq_zero_iff.2 hnone
    exact ⟨by omega, Or.inl rfl⟩

theorem agrees_taken_iff (hs : ServiceAgrees s) (hcall : s.calls[c]? = some .taking) :
    ServiceAgrees (s.take.setCall c .clearing) ↔ OtherStart s c ∨ s.isRunning = false := by
  have hcalls : (s.take.setCall c .clearing).calls = s.calls.set c .clearing :=
    congrArg (·.set c ServiceCall.clearing) (calls_take s)
  have hrunning : (s.take.setCall c .clearing).isRunning = s.isRunning := isRunning_take s
  have hpublished : ¬ Published (s.take.setCall c .clearing) := not_published_take s
  have hone : s.take.alive.length ≤ 1 := Nat.le_trans (length_alive_take s) hs.one
  refine Iff.trans (agrees_end_iff hcall hcalls rfl hone) ?_
  rw [hrunning, iff_false_right hpublished, Bool.not_eq_true]

theorem agrees_cleared_iff (hs : ServiceAgrees s) (hcall : s.calls[c]? = some .clearing) :
    ServiceAgrees ({ s with serviceRunning := false }.setCall c .resetting) ↔
      OtherStart s c ∨ ¬ Published s := by
  refine Iff.trans (agrees_end_iff hcall rfl rfl hs.one) ?_
  have hrunning : ({ s with serviceRunning := false }.setCall c .resetting).isRunning = false := rfl
  have hsame : Published ({ s with serviceRunning := false }.setCall c .resetting) ↔ Published s :=
    Iff.rfl
  rw [hrunning, hsame, iff_false_left Bool.false_ne_true]

theorem holds_reset_iff {bound : Except String Nat} (hports : PortsPositive s)
    (hs : ServiceAgrees s) (hcall : s.calls[c]? = some .resetting) :
    LifecycleHolds ⟨s, .proceed c bound, { s with port := 0 }.setCall c .stopped⟩ ↔
      OtherStart s c ∨ s.alive = [] := by
  have hstarting : Starting ({ s with port := 0 }.setCall c .stopped) ↔ _ :=
    starting_set_iff hcall rfl
  have hpublished : ¬ Published ({ s with port := 0 }.setCall c .stopped) := by
    rintro ⟨t, ht, -, hport⟩
    exact absurd (hports t ht) (by rw [← hport]; exact Nat.lt_irrefl 0)
  have hrunning : ({ s with port := 0 }.setCall c .stopped).isRunning ≠ true := by
    simp [Service.isRunning, Service.setCall]
  constructor
  · intro hholds
    by_cases hother : OtherStart s c
    · exact Or.inl hother
    · refine Or.inr (hholds.ended c bound rfl hcall fun hstart => ?_)
      rcases hstarting.1 hstart with hself | hother'
      · cases hself
      · exact hother hother'
  · intro hfinds
    refine ⟨?_, fun c' bound' hlabel _ hnot => ?_⟩
    · refine Iff.mpr (agrees_end_iff hcall rfl rfl hs.one) ?_
      exact Or.inr (iff_of_false hrunning hpublished)
    · rcases hfinds with hother | hnone
      · exact absurd (hstarting.2 (Or.inr hother)) hnot
      · exact hnone

/-- What a call finds decides whether the cells agree after it has gone on. -/
theorem holds_proceed_iff {bound : Except String Nat} (hports : PortsPositive s)
    (hs : ServiceAgrees s) (hcall : s.calls[c]? = some call) (hstep : s.proceed c bound = some s') :
    LifecycleHolds ⟨s, .proceed c bound, s'⟩ ↔ call.Finds s c bound := by
  -- only the last section of a stop has to end with no accept loop
  have hagrees : call ≠ .resetting →
      (LifecycleHolds ⟨s, .proceed c bound, s'⟩ ↔ ServiceAgrees s') := by
    intro hne
    refine ⟨fun h => h.agrees, fun h => ⟨h, fun c' bound' hlabel hreset => ?_⟩⟩
    cases hlabel
    rw [hcall] at hreset
    exact absurd (Option.some.inj hreset) hne
  unfold Service.proceed at hstep
  rw [hcall] at hstep
  cases call with
  | started | stopped => cases hstep
  | checking =>
    cases hstep
    rw [hagrees nofun]
    exact agrees_checked_iff bound hs hcall
  | binding =>
    rw [hagrees nofun]
    cases bound with
    | ok port =>
      dsimp only at hstep
      split at hstep
      · cases hstep
        exact agrees_bound_iff hcall
      · cases hstep
    | error e =>
      cases hstep
      exact agrees_end_iff hcall rfl rfl hs.one
  | storing handle =>
    cases hstep
    rw [hagrees nofun, agrees_set_iff hcall rfl]
    exact iff_of_true ⟨hs.one, Or.inl rfl⟩ trivial
  | flagging handle =>
    cases hstep
    rw [hagrees nofun]
    refine Iff.trans (agrees_end_iff hcall rfl rfl hs.one) ?_
    have hrunning :
        ({ s with serviceRunning := true }.setCall c (.started (.ok handle.port))).isRunning =
          decide (0 < s.port) := rfl
    rw [hrunning, decide_eq_true_eq]
    exact Iff.rfl
  | taking =>
    cases hstep
    rw [hagrees nofun]
    exact agrees_taken_iff hs hcall
  | clearing =>
    cases hstep
    rw [hagrees nofun]
    exact agrees_cleared_iff hs hcall
  | resetting =>
    cases hstep
    exact holds_reset_iff hports hs hcall

end Step

theorem holds_call_iff {s : Service} {call : ServiceCall} (hs : ServiceAgrees s) (l : ServiceAction)
    (hl : ∀ c bound, l ≠ .proceed c bound) :
    LifecycleHolds ⟨s, l, { s with calls := s.calls ++ [call] }⟩ := by
  refine ⟨⟨hs.one, fun hstart => ?_⟩, fun c bound hlabel => absurd hlabel (hl c bound)⟩
  refine hs.running fun ⟨call', hmem, hcall'⟩ => hstart ⟨call', List.mem_append_left _ hmem, hcall'⟩

theorem lifecycle_step_iff {s s' : Service} {l : ServiceAction} (hports : PortsPositive s)
    (hs : ServiceAgrees s)
    (hstep : s.step l = some s') : LifecycleHolds ⟨s, l, s'⟩ ↔ l.Orderly s := by
  cases l with
  | callStart =>
    cases hstep
    exact iff_of_true (holds_call_iff hs _ nofun) trivial
  | callStop =>
    cases hstep
    exact iff_of_true (holds_call_iff hs _ nofun) trivial
  | proceed c bound =>
    cases hcall : s.calls[c]? with
    | none =>
      simp [Service.step, Service.proceed, hcall] at hstep
    | some call =>
      rw [holds_proceed_iff hports hs hcall hstep, ServiceAction.Orderly, hcall]
      exact ⟨fun h call' hcall' => Option.some.inj hcall' ▸ h, fun h => h call rfl⟩

theorem portsPositive_step {s s' : Service} {l : ServiceAction} (hs : PortsPositive s)
    (hstep : s.step l = some s') :
    PortsPositive s' := by
  cases l with
  | callStart | callStop =>
    cases hstep
    exact hs
  | proceed c bound =>
    simp only [Service.step, Service.proceed] at hstep
    split at hstep
    · cases hstep
      exact hs
    · split at hstep
      · split at hstep
        · next hport =>
          cases hstep
          intro t ht
          rcases List.mem_append.1 ht with ht | ht
          · exact hs t ht
          · obtain rfl := List.mem_singleton.1 ht
            exact hport.1
        · cases hstep
      · cases hstep
        exact hs
    · cases hstep
      exact hs
    · cases hstep
      exact hs
    · cases hstep
      exact fun t ht => hs t (alive_take s t ht)
    · cases hstep
      exact hs
    · cases hstep
      exact hs
    · cases hstep
    · cases hstep
    · cases hstep

theorem serviceAgrees_new : ServiceAgrees .new where
  one := Nat.zero_le 1
  running _ := iff_of_false nofun fun ⟨_, ht, _⟩ => nomatch ht

/-- Two starts, each of which binds a port before the other has stored its handle. -/
def racingStarts : List ServiceAction :=
  [.callStart, .callStart, .proceed 0 (.ok 1), .proceed 1 (.ok 2), .proceed 0 (.ok 1),
    .proceed 1 (.ok 2)]

theorem exec_racingStarts : ∃ h s, exec Service.step .new racingStarts = some (h, s) ∧
    s.alive.length = 2 := by
  have hlength : (exec Service.step .new racingStarts).map (fun out => out.2.alive.length) =
    some 2 := by decide
  obtain ⟨⟨h, s⟩, hexec, hs⟩ := Option.map_eq_some_iff.1 hlength
  exact ⟨h, s, hexec, hs⟩

end LanguageLlm.Desktop
