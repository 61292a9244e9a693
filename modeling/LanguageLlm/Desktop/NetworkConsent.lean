import LanguageLlm.Desktop.AuthGate
import LanguageLlm.Desktop.Execution

/-!
# Consent to the lyrics network

The companion asks the lyrics provider for nothing but `lyrics.resolve`, and only when its flag is
set, which `settings.lyrics.network` and the command of the GUI set. `consent_of_run` says for every
interleaving of the connections whose consent a request rests on.
-/

namespace LanguageLlm.Desktop

open Lib Handler

/-! ## The server with its GUI -/

inductive NetworkEvent where
  | server (e : ServerEvent)
  /-- The command `set_lyrics_network`. -/
  | setLyricsNetwork (allowed : Bool)

def networkStep (env : External) (debug : Bool) (s : Server) : NetworkEvent → Option Server
  | .server e => s.step env debug e
  | .setLyricsNetwork allowed =>
    let stores := { s.companion.stores with lyricsNetworkAllowed := allowed }
    some { s with companion := { s.companion with stores } }

/-- The flag of a message `settings.lyrics.network`. -/
def messageFlag (value : Json) : Bool := ((value.get "allowed").bind Json.asBool).getD false

/-- The task of a connection is in the handler of its `n`-th message. -/
def InHandler (s : Server) (c n : Nat) (value : Json) (body : Handler Unit) : Prop :=
  ∃ conn, s.connections[c]? = some conn ∧ conn.received = n ∧
    conn.task = .handling value (.handle body)

/-- What a step sets the flag to: that of the GUI, or that of a message `settings.lyrics.network`
whose handler is in its critical section. -/
def settingOf (f : Fired Server NetworkEvent) : Option Bool :=
  match f.label with
  | .setLyricsNetwork allowed => some allowed
  | .server (.act c _) =>
    match (f.pre.connections[c]?).map Connection.task with
    | some (.handling value (.handle (.lock ..))) =>
      if value.strOr "type" "" = "settings.lyrics.network" then some (messageFlag value) else none
    | _ => none
  | .server _ => none

/-- The flag that was set last. -/
def lastSetting (initial : Bool) : List (Fired Server NetworkEvent) → Bool
  | [] => initial
  | f :: h => (settingOf f).getD (lastSetting initial h)

/-- For the `n`-th message of the connection the flag was read in a step of the history, and the
flag that was set last before was true. -/
def Granted (initial : Bool) (h : List (Fired Server NetworkEvent)) (c n : Nat) (value : Json) :
    Prop :=
  ∃ h₁ g h₂, h = h₁ ++ g :: h₂ ∧ (∃ a, g.label = .server (.act c a)) ∧
    (∃ token, InHandler g.pre c n value (handleLyricsResolve value token)) ∧
    lastSetting initial h₂ = true

/-! ## Handlers without a request -/

section Offline

variable {α β : Type}

/-- A handler sends no request and leaves the flag alone. -/
def Offline : Handler α → Prop
  | .pure _ | .panic => True
  | .send _ next => Offline next
  | .now next => ∀ t, Offline (next t)
  | .ask next => ∀ an, Offline (next an)
  | .lock update next => ∀ t an s,
    (update t an s).lyricsNetworkAllowed = s.lyricsNetworkAllowed ∧ Offline (next t an s)
  | .fetch .. => False

theorem Offline.bind {h : Handler α} {f : α → Handler β} (hh : Offline h)
    (hf : ∀ a, Offline (f a)) : Offline (h >>= f) := by
  induction h with
  | pure a => exact hf a
  | panic => trivial
  | send message next ih => exact ih hh
  | now next ih => exact fun t => ih t (hh t)
  | ask next ih => exact fun an => ih an (hh an)
  | lock update next ih => exact fun t an s => ⟨(hh t an s).1, ih t an s (hh t an s).2⟩
  | fetch url next => exact hh.elim

theorem offline_return (a : α) : Offline (Pure.pure a : Handler α) := trivial

theorem offline_reply (message : Json) : Offline (reply message) := trivial

theorem offline_nowMs : Offline nowMs := fun _ => trivial

theorem offline_answer (f : Answers → α) : Offline (answer f) := fun _ => trivial

theorem offline_lockJobs (f : Nat → JobRegistry → α × JobRegistry) : Offline (lockJobs f) :=
  fun _ _ _ => ⟨rfl, trivial⟩

theorem offline_withSqlite (f : Nat → Answers → SqliteStore → Option α × SqliteStore) :
    Offline (withSqlite f) :=
  fun _ _ _ => ⟨rfl, trivial⟩

theorem offline_lockMemory (f : MemoryStore → α × MemoryStore) : Offline (lockMemory f) :=
  fun _ _ _ => ⟨rfl, trivial⟩

theorem offline_lockCapture (f : Answers → CaptureJobQueue → Option α × CaptureJobQueue) :
    Offline (lockCapture f) := by
  intro t an s
  constructor
  · dsimp only
    split
    · rfl
    · rfl
  · dsimp only
    split
    · trivial
    · split
      · trivial
      · trivial

theorem offline_sendProgress {token jobId kind status : String} {fraction : Rat}
    {message : Option Json} {more : List (String × Json)} :
    Offline (sendProgress token jobId kind status fraction message more) :=
  offline_nowMs.bind fun _ => offline_reply _

theorem offline_sendError {token : Json} {code message : String} {more : List (String × Json)} :
    Offline (sendError token code message more) :=
  offline_reply _

end Offline

section Handlers

variable {env : External} {value : Json} {token : String}

theorem offline_runTranslateJob {jobId videoId : String} :
    Offline (runTranslateJob env token jobId videoId) := by
  refine (offline_answer _).bind fun translator => ?_
  refine (offline_lockJobs _).bind fun run => ?_
  cases run with
  | error => exact offline_return _
  | ok p =>
    refine (offline_lockJobs _).bind fun found => ?_
    refine offline_sendProgress.bind fun _ => ?_
    refine (offline_reply _).bind fun _ => ?_
    refine Offline.bind ?_ fun _ => offline_reply _
    exact (offline_withSqlite _).bind fun _ => offline_return _

theorem offline_runPageTranslateJob {jobId : String} :
    Offline (runPageTranslateJob token jobId) := by
  refine (offline_answer _).bind fun translator => ?_
  refine (offline_lockJobs _).bind fun run => ?_
  cases run with
  | none => exact offline_return _
  | some result => exact offline_sendProgress.bind fun _ => offline_reply _

theorem offline_runAsrJob {jobId videoId : String} {payload : Json} :
    Offline (runAsrJob token jobId videoId payload) := by
  refine (offline_answer _).bind fun plan => ?_
  split
  · exact offline_sendError.bind fun _ => offline_sendProgress
  · exact (offline_lockCapture _).bind fun _ => offline_sendProgress

theorem offline_handleJobSubmit : Offline (handleJobSubmit env value) := by
  unfold handleJobSubmit
  dsimp only
  split
  · exact offline_sendError
  · refine (offline_lockJobs _).bind fun _ => offline_sendProgress.bind fun _ => ?_
    split
    · exact offline_runTranslateJob
    · exact offline_runPageTranslateJob
    · exact offline_runAsrJob
    · refine (offline_lockJobs _).bind fun _ => offline_sendProgress.bind fun _ => ?_
      exact offline_reply _

theorem offline_handleJobCancel : Offline (handleJobCancel value token) := by
  refine (offline_lockJobs _).bind fun ok => (offline_lockCapture _).bind fun _ => ?_
  exact offline_sendProgress

theorem offline_handleJobPause : Offline (handleJobPause value token) := by
  refine (offline_lockCapture _).bind fun _ => (offline_lockJobs _).bind fun ok => ?_
  exact offline_sendProgress

theorem offline_handleJobResume : Offline (handleJobResume value token) := by
  refine (offline_lockCapture _).bind fun _ => (offline_lockJobs _).bind fun ok => ?_
  exact offline_sendProgress

theorem offline_runAsrOnPcm {pcm : PcmMono} {modelId : String} {mode : InferenceMode} :
    Offline (runAsrOnPcm pcm modelId mode) := by
  cases mode with
  | offlineMock => exact offline_return _
  | weights =>
    refine (offline_answer _).bind fun result => ?_
    cases result with
    | error e => exact offline_return _
    | ok text =>
      dsimp only
      split
      · exact offline_return _
      · exact offline_return _

theorem offline_transcribeCapture {jobId : String} : Offline (transcribeCapture jobId token) := by
  refine (offline_lockCapture _).bind fun decision => ?_
  split
  · exact offline_return _
  · split
    · exact offline_return _
    refine (offline_lockCapture _).bind fun snapshot => ?_
    split
    · exact offline_return _
    · refine (offline_lockCapture _).bind fun _ => offline_runAsrOnPcm.bind fun result => ?_
      obtain ⟨transcript, usedStub, asrFailed⟩ := result
      dsimp only
      split
      · exact offline_sendError
      · refine (offline_reply _).bind fun _ => ?_
        split
        · exact offline_sendProgress
        · exact offline_return _

theorem offline_handleAudioChunk : Offline (handleAudioChunk env value token) := by
  refine (offline_lockCapture _).bind fun ingested => ?_
  split
  · exact offline_return _
  · exact offline_sendError
  · exact offline_transcribeCapture

theorem offline_handleTimelineSource : Offline (handleTimelineSource env value) := by
  unfold handleTimelineSource
  split
  · exact offline_return _
  · split
    · exact (offline_withSqlite _).bind fun _ => offline_return _
    · exact offline_return _

theorem offline_handleTimelineHydrate : Offline (handleTimelineHydrate env value token) := by
  unfold handleTimelineHydrate
  dsimp only
  split
  · exact (offline_withSqlite _).bind fun _ => (offline_withSqlite _).bind fun _ => offline_reply _
  · exact (offline_withSqlite _).bind fun _ => (offline_withSqlite _).bind fun _ => offline_reply _

theorem offline_handleStudySync : Offline (handleStudySync env value token) := by
  refine Offline.bind ?_ fun _ => offline_reply _
  unfold studyResult
  dsimp only
  split
  · exact (offline_withSqlite _).bind fun _ => offline_return _
  · refine (offline_withSqlite _).bind fun found => ?_
    split
    · exact offline_return _
    · exact offline_return _
  · exact (offline_withSqlite _).bind fun _ => offline_return _
  · exact (offline_withSqlite _).bind fun _ => offline_return _
  · exact offline_return _

end Handlers

/-! ## Where a handler of the network is -/

/-- The handlers that a message may start. -/
inductive Begins (value : Json) : Handler Unit → Prop
  | offline {body : Handler Unit} (htype : value.strOr "type" "" ≠ "settings.lyrics.network")
      (hbody : Offline body) : Begins value body
  | setting (token : String) (htype : value.strOr "type" "" = "settings.lyrics.network") :
      Begins value (handleLyricsNetwork value token)
  | resolving (token : String) (htype : value.strOr "type" "" = "lyrics.resolve") :
      Begins value (handleLyricsResolve value token)

/-- Where they may be after the steps of the history. -/
inductive MayRun (initial : Bool) (h : List (Fired Server NetworkEvent)) (c n : Nat)
    (value : Json) : Handler Unit → Prop
  | begins {body : Handler Unit} (hbody : Begins value body) : MayRun initial h c n value body
  /-- The flag is set. -/
  | replying (message : Json) : MayRun initial h c n value (reply message)
  | done : MayRun initial h c n value (.pure ())
  /-- The flag was true. -/
  | asking {url : String} {next : Option Json → Handler Unit}
      (htype : value.strOr "type" "" = "lyrics.resolve") (hgranted : Granted initial h c n value)
      (hnext : ∀ response, Offline (next response)) : MayRun initial h c n value (.fetch url next)

theorem begins_dispatch (env : External) (debug : Bool)
    (allowedExtensionId sessionToken : Option String) (value : Json) :
    (dispatch env debug allowedExtensionId sessionToken value).Handles (Begins value) := by
  have hother {body : Handler Unit} {msgType : String} (htype : value.strOr "type" "" = msgType)
      (hne : msgType ≠ "settings.lyrics.network") (hbody : Offline body) :
      (ifAuthed sessionToken value body).Handles (Begins value) :=
    handles_ifAuthed (.offline (htype ▸ hne) hbody) ..
  unfold dispatch
  dsimp only
  split
  · apply handles_handshake
  · next htype =>
    exact hother htype (by decide) (offline_nowMs.bind fun _ => offline_reply _)
  · next htype => exact hother htype (by decide) offline_handleJobSubmit
  · next htype => exact hother htype (by decide) offline_handleJobCancel
  · next htype => exact hother htype (by decide) offline_handleJobPause
  · next htype => exact hother htype (by decide) offline_handleJobResume
  · next htype => exact hother htype (by decide) offline_handleAudioChunk
  · next htype => exact handles_ifAuthed (.resolving _ htype) ..
  · next htype =>
    refine hother htype (by decide) ((offline_lockMemory _).bind fun _ => ?_)
    exact (offline_withSqlite _).bind fun _ => offline_reply _
  · next htype => exact handles_ifAuthed (.setting _ htype) ..
  · next htype => exact hother htype (by decide) offline_handleTimelineSource
  · next htype => exact hother htype (by decide) offline_handleTimelineHydrate
  · next htype =>
    exact hother htype (by decide) ((offline_withSqlite _).bind fun _ => offline_reply _)
  · next htype =>
    exact hother htype (by decide) ((offline_withSqlite _).bind fun _ => offline_reply _)
  · next htype =>
    exact hother htype (by decide) ((offline_withSqlite _).bind fun _ => offline_reply _)
  · next htype => exact hother htype (by decide) offline_handleStudySync
  · next htype =>
    refine hother htype (by decide) (offline_nowMs.bind fun _ => ?_)
    exact (offline_withSqlite _).bind fun _ => offline_reply _
  · next htype =>
    exact hother htype (by decide) ((offline_withSqlite _).bind fun _ => offline_reply _)
  · next htype =>
    exact hother htype (by decide) ((offline_withSqlite _).bind fun _ => offline_reply _)
  · next htype =>
    exact hother htype (by decide) ((offline_withSqlite _).bind fun _ => offline_reply _)
  · trivial

/-! ## The server -/

/-- The handlers of the connection are where they may be. -/
def Consented (initial : Bool) (h : List (Fired Server NetworkEvent)) (c n : Nat) :
    Task → Prop
  | .handling value (.handle body) => MayRun initial h c n value body
  | .handling value arm => arm.Handles (Begins value)
  | .listening | .returned => True

/-- What holds in every state. -/
structure NetworkInv (initial : Bool) (h : List (Fired Server NetworkEvent)) (s : Server) :
    Prop where
  flag : s.companion.stores.lyricsNetworkAllowed = lastSetting initial h
  tasks : ∀ c conn, s.connections[c]? = some conn →
    Consented initial h c conn.received conn.task

section Server

variable {initial : Bool} {h : List (Fired Server NetworkEvent)} {s s' : Server} {c n : Nat}
  {conn : Connection} {value : Json} {a : Answers}

theorem Granted.cons (hg : Granted initial h c n value) (f : Fired Server NetworkEvent) :
    Granted initial (f :: h) c n value := by
  obtain ⟨h₁, g, h₂, rfl, hg⟩ := hg
  exact ⟨f :: h₁, g, h₂, rfl, hg⟩

theorem MayRun.cons {body : Handler Unit} (hr : MayRun initial h c n value body)
    (f : Fired Server NetworkEvent) : MayRun initial (f :: h) c n value body := by
  cases hr with
  | begins hbody => exact .begins hbody
  | replying message => exact .replying message
  | done => exact .done
  | asking htype hgranted hnext => exact .asking htype (hgranted.cons f) hnext

theorem Consented.cons {task : Task} (ht : Consented initial h c n task)
    (f : Fired Server NetworkEvent) : Consented initial (f :: h) c n task := by
  cases task with
  | listening | returned => trivial
  | handling value arm =>
    cases arm with
    | handle body => exact MayRun.cons ht f
    | next | leave | send | now | purge | valid | issue | rotate => exact ht

/-- A task that starts no handler yet. -/
theorem consented_of_handles {arm : Arm} (harm : arm.Handles (Begins value)) :
    Consented initial h c n (.handling value arm) := by
  cases arm with
  | handle body => exact .begins harm
  | next | leave | send | now | purge | valid | issue | rotate => exact harm

/-- A step that sets no flag and changes one connection. -/
theorem NetworkInv.change (hI : NetworkInv initial h s) {l : NetworkEvent}
    (hnone : settingOf ⟨s, l, s'⟩ = none)
    (hflag : s'.companion.stores.lyricsNetworkAllowed = s.companion.stores.lyricsNetworkAllowed)
    (hconns : ∀ d conn', s'.connections[d]? = some conn' →
      s.connections[d]? = some conn' ∨ 
        Consented initial (⟨s, l, s'⟩ :: h) d conn'.received conn'.task) :
    NetworkInv initial (⟨s, l, s'⟩ :: h) s' where
  flag := by rw [lastSetting, hnone, Option.getD_none, hflag, hI.flag]
  tasks d conn' hd := by
    rcases hconns d conn' hd with hold | hnew
    · exact (hI.tasks d conn' hold).cons _
    · exact hnew

/-- The task of a connection goes on without a critical section. -/
theorem NetworkInv.goOn (hI : NetworkInv initial h s) {l : NetworkEvent} {task : Task}
    (hnone : ∀ s', settingOf ⟨s, l, s'⟩ = none) (conn : Connection)
    (htask : ∀ h', Consented initial (h' :: h) c conn.received task) :
    NetworkInv initial (⟨s, l, s.goOn c conn task⟩ :: h) (s.goOn c conn task) := by
  refine hI.change (hnone _) rfl fun d conn' hd => ?_
  rcases Server.set_connection hd with ⟨rfl, rfl⟩ | ⟨-, hold⟩
  · exact Or.inr (htask _)
  · exact Or.inl hold

/-- A step that is not in a critical section sets nothing. -/
theorem settingOf_act_none (hconn : s.connections[c]? = some conn)
    (htask : ∀ value update next, conn.task ≠ .handling value (.handle (.lock update next))) :
    settingOf ⟨s, .server (.act c a), s'⟩ = none := by
  simp only [settingOf, hconn, Option.map_some]
  split
  · next value update next hlock => exact absurd (Option.some.inj hlock) (htask value update next)
  · rfl

theorem settingOf_lock (hconn : s.connections[c]? = some conn)
    {update : Nat → Answers → Stores → Stores} {next : Nat → Answers → Stores → Handler Unit}
    (htask : conn.task = .handling value (.handle (.lock update next))) :
    settingOf ⟨s, .server (.act c a), s'⟩ =
      if value.strOr "type" "" = "settings.lyrics.network" then some (messageFlag value)
      else none := by
  simp only [settingOf, hconn, Option.map_some, htask]

/-- A handler without a request goes on. -/
theorem NetworkInv.offline (hI : NetworkInv initial h s) (hconn : s.connections[c]? = some conn)
    {body : Handler Unit} (htask : conn.task = .handling value (.handle body))
    (htype : value.strOr "type" "" ≠ "settings.lyrics.network") (hbody : Offline body) :
    NetworkInv initial
      (⟨s, .server (.act c a), s.actHandler c conn value a body⟩ :: h)
      (s.actHandler c conn value a body) := by
  have hbegins : ∀ {h' : Fired Server NetworkEvent} {next : Handler Unit}, Offline next →
      Consented initial (h' :: h) c conn.received (.handling value (.handle next)) :=
    fun hnext => .begins (.offline htype hnext)
  have hnone : (∀ update next, body ≠ .lock update next) → ∀ s',
      settingOf ⟨s, .server (.act c a), s'⟩ = none := by
    intro hne s'
    refine settingOf_act_none hconn fun value' update next heq => ?_
    rw [htask, Task.handling.injEq, Arm.handle.injEq] at heq
    exact hne update next heq.2
  cases body with
  | pure u => exact hI.goOn (hnone nofun) _ fun _ => trivial
  | panic => exact hI.goOn (hnone nofun) _ fun _ => trivial
  | send message next => exact hI.goOn (hnone nofun) _ fun _ => hbegins hbody
  | now next => exact hI.goOn (hnone nofun) _ fun _ => hbegins (hbody _)
  | ask next => exact hI.goOn (hnone nofun) _ fun _ => hbegins (hbody _)
  | fetch url next => exact hbody.elim
  | lock update next =>
    refine hI.change ?_ (hbody _ _ _).1 fun d conn' hd => ?_
    · rw [settingOf_lock hconn htask, if_neg htype]
    · rcases Server.set_connection hd with ⟨rfl, rfl⟩ | ⟨-, hold⟩
      · exact Or.inr (hbegins (hbody _ _ _).2)
      · exact Or.inl hold

/-- The handler of `lyrics.resolve` reads the flag. -/
theorem NetworkInv.resolve (hI : NetworkInv initial h s) (hconn : s.connections[c]? = some conn)
    {token : String}
    (htask : conn.task = .handling value (.handle (handleLyricsResolve value token)))
    (htype : value.strOr "type" "" = "lyrics.resolve") :
    NetworkInv initial
      (⟨s, .server (.act c a), s.actHandler c conn value a (handleLyricsResolve value token)⟩ :: h)
      (s.actHandler c conn value a (handleLyricsResolve value token)) := by
  have hne : value.strOr "type" "" ≠ "settings.lyrics.network" := by
    rw [htype]
    decide
  refine hI.change ?_ rfl fun d conn' hd => ?_
  · rw [settingOf_lock hconn htask, if_neg hne]
  · rcases Server.set_connection hd with ⟨rfl, rfl⟩ | ⟨-, hold⟩
    · right
      change MayRun initial _ d conn.received value
        (if !s.companion.stores.lyricsNetworkAllowed then _ else _)
      split
      · exact .begins (.offline hne offline_sendError)
      · next hallowed =>
        rw [hI.flag, Bool.not_eq_true', Bool.not_eq_false] at hallowed
        refine .asking htype ?_ fun response => ?_
        · exact ⟨[], _, h, rfl, ⟨a, rfl⟩, ⟨token, conn, hconn, rfl, htask⟩, hallowed⟩
        · simp only [Handler.bind]
          split
          · refine Offline.bind ?_ fun _ => offline_nowMs.bind fun _ => offline_reply _
            exact (offline_lockMemory _).bind fun _ =>
              (offline_withSqlite _).bind fun _ => offline_return _
          · exact offline_sendError
    · exact Or.inl hold

/-- The handler of `settings.lyrics.network` sets the flag. -/
theorem NetworkInv.set (hI : NetworkInv initial h s) (hconn : s.connections[c]? = some conn)
    {token : String}
    (htask : conn.task = .handling value (.handle (handleLyricsNetwork value token)))
    (htype : value.strOr "type" "" = "settings.lyrics.network") :
    NetworkInv initial
      (⟨s, .server (.act c a), s.actHandler c conn value a (handleLyricsNetwork value token)⟩ :: h)
      (s.actHandler c conn value a (handleLyricsNetwork value token)) where
  flag := by
    rw [lastSetting, settingOf_lock hconn htask, if_pos htype]
    rfl
  tasks d conn' hd := by
    rcases Server.set_connection hd with ⟨rfl, rfl⟩ | ⟨-, hold⟩
    · exact .replying _
    · exact (hI.tasks d conn' hold).cons _

/-- A request is sent, and its answer is awaited. -/
theorem NetworkInv.fetch (hI : NetworkInv initial h s) (hconn : s.connections[c]? = some conn)
    {url : String} {next : Option Json → Handler Unit}
    (htask : conn.task = .handling value (.handle (.fetch url next)))
    (htype : value.strOr "type" "" = "lyrics.resolve")
    (hnext : ∀ response, Offline (next response)) :
    NetworkInv initial
      (⟨s, .server (.act c a), s.actHandler c conn value a (.fetch url next)⟩ :: h)
      (s.actHandler c conn value a (.fetch url next)) := by
  refine hI.goOn (fun s' => settingOf_act_none hconn fun value' update next' heq => ?_) _
    fun _ => ?_
  · rw [htask] at heq
    cases heq
  · refine .begins (.offline ?_ (hnext _))
    rw [htype]
    decide

/-- An action of a task. -/
theorem NetworkInv.act (hI : NetworkInv initial h s) (hconn : s.connections[c]? = some conn)
    {arm : Arm} (htask : conn.task = .handling value arm)
    (hs : s.act c conn value a arm = some s') :
    NetworkInv initial (⟨s, .server (.act c a), s'⟩ :: h) s' := by
  have hc := hI.tasks c conn hconn
  rw [htask] at hc
  have hnone : (∀ body, arm ≠ .handle body) → ∀ s',
      settingOf ⟨s, .server (.act c a), s'⟩ = none := by
    intro hne s'
    refine settingOf_act_none hconn fun value' update next heq => ?_
    rw [htask, Task.handling.injEq] at heq
    exact hne _ heq.2
  cases arm with
  | next =>
    obtain rfl := Option.some.inj hs
    exact hI.goOn (hnone (by rintro _ ⟨⟩)) _ fun _ => trivial
  | leave =>
    obtain rfl := Option.some.inj hs
    exact hI.goOn (hnone (by rintro _ ⟨⟩)) _ fun _ => trivial
  | send message rest =>
    obtain rfl := Option.some.inj hs
    exact hI.goOn (hnone (by rintro _ ⟨⟩)) _ fun _ => consented_of_handles hc
  | now rest =>
    obtain rfl := Option.some.inj hs
    exact hI.goOn (hnone (by rintro _ ⟨⟩)) _ fun _ => consented_of_handles (hc _)
  | valid token nowMs rest =>
    obtain rfl := Option.some.inj hs
    exact hI.goOn (hnone (by rintro _ ⟨⟩)) _ fun _ => consented_of_handles (hc _)
  | purge nowMs rest =>
    obtain rfl := Option.some.inj hs
    refine hI.change (hnone (by rintro _ ⟨⟩) _) rfl fun d conn' hd => ?_
    rcases Server.set_connection hd with ⟨rfl, rfl⟩ | ⟨-, hold⟩
    · exact Or.inr (consented_of_handles hc)
    · exact Or.inl hold
  | issue extensionId nowMs rest =>
    simp only [Server.act] at hs
    split at hs
    · cases hs
    · obtain rfl := Option.some.inj hs
      refine hI.change (hnone (by rintro _ ⟨⟩) _) rfl fun d conn' hd => ?_
      rcases Server.set_connection hd with ⟨rfl, rfl⟩ | ⟨-, hold⟩
      · exact Or.inr (consented_of_handles (hc _))
      · exact Or.inl hold
  | rotate rest =>
    simp only [Server.act] at hs
    split at hs
    · cases hs
    · obtain rfl := Option.some.inj hs
      refine hI.change (hnone (by rintro _ ⟨⟩) _) rfl fun d conn' hd => ?_
      rcases Server.set_connection hd with ⟨rfl, rfl⟩ | ⟨-, hold⟩
      · exact Or.inr (consented_of_handles hc)
      · exact Or.inl hold
  | handle body =>
    obtain rfl := Option.some.inj hs
    cases hc with
    | begins hbody =>
      cases hbody with
      | offline htype hbody => exact hI.offline hconn htask htype hbody
      | setting token htype => exact hI.set hconn htask htype
      | resolving token htype => exact hI.resolve hconn htask htype
    | replying message =>
      refine hI.goOn (fun s' => settingOf_act_none hconn fun value' update next heq => ?_) _
        fun _ => .done
      rw [htask] at heq
      cases heq
    | done =>
      refine hI.goOn (fun s' => settingOf_act_none hconn fun value' update next heq => ?_) _
        fun _ => trivial
      rw [htask] at heq
      cases heq
    | asking htype hgranted hnext => exact hI.fetch hconn htask htype hnext

/-- The invariant of every run. -/
theorem networkInv_run {env : External} {debug : Bool} {s₀ : Server} (hfresh : s₀.connections = [])
    (hr : Run (networkStep env debug) s₀ h s) :
    NetworkInv s₀.companion.stores.lyricsNetworkAllowed h s := by
  refine Run.invHist (NetworkInv s₀.companion.stores.lyricsNetworkAllowed) ⟨rfl, ?_⟩ ?_ hr
  · intro c conn hconn
    rw [hfresh] at hconn
    cases hconn
  intro h s l s' _ hI hs
  cases l with
  | setLyricsNetwork allowed =>
    obtain rfl := Option.some.inj hs
    exact ⟨rfl, fun c conn hconn => (hI.tasks c conn hconn).cons _⟩
  | server e =>
    rcases Server.step_cases hs with ⟨origin, t, rfl, rfl⟩ |
      ⟨c, frame, conn, rfl, hconn, htask, rfl⟩ |
      ⟨c, a, conn, value, arm, rfl, hconn, htask, hact⟩ | ⟨now, rfl, hl⟩
    · rcases Server.upgrade_cases (s := s) debug origin t with heq | ⟨conn, heq, -, -, htask⟩
      · rw [heq]
        exact hI.change rfl rfl fun _ _ => Or.inl
      · rw [heq]
        refine hI.change rfl rfl fun d conn' hd => ?_
        rcases Server.push_connection hd with ⟨rfl, rfl⟩ | hold
        · rcases htask with ⟨hlisten, -⟩ | hreturned
          · exact Or.inr (by rw [hlisten]; trivial)
          · exact Or.inr (by rw [hreturned]; trivial)
        · exact Or.inl hold
    · refine hI.change rfl rfl fun d conn' hd => ?_
      rcases Server.set_connection hd with ⟨rfl, rfl⟩ | ⟨-, hold⟩
      · obtain ⟨-, -, harm⟩ := Connection.receive_spec env debug s.companion htask frame
        right
        cases hnew : (conn.receive env debug s.companion frame).task with
        | listening | returned => trivial
        | handling value arm =>
          rw [harm value arm hnew]
          exact consented_of_handles (begins_dispatch ..)
      · exact Or.inl hold
    · exact hI.act hconn htask hact
    · refine hI.change ?_ rfl fun _ _ => Or.inl
      rcases hl with rfl | ⟨ms, rfl⟩ <;> rfl

/-- In every run, over any number of connections and with the commands of the GUI between their
steps, the flag is what the latest `settings.lyrics.network` or command said; and a request to the
lyrics provider is sent only for a message `lyrics.resolve` whose own handler has read the flag
before, when the latest setting was true. -/
theorem consent_of_run {env : External} {debug : Bool} {s₀ : Server} (hfresh : s₀.connections = [])
    {f : Fired Server NetworkEvent} (hr : Run (networkStep env debug) s₀ (f :: h) s) :
    f.pre.companion.stores.lyricsNetworkAllowed =
        lastSetting s₀.companion.stores.lyricsNetworkAllowed h ∧
      ∀ c a n value url next, f.label = .server (.act c a) →
        InHandler f.pre c n value (.fetch url next) →
        value.strOr "type" "" = "lyrics.resolve" ∧
          Granted s₀.companion.stores.lyricsNetworkAllowed h c n value := by
  obtain ⟨hr, -, -⟩ := hr.uncons
  have hI := networkInv_run hfresh hr
  refine ⟨hI.flag, ?_⟩
  rintro c a n value url next - ⟨conn, hconn, rfl, htask⟩
  have hc := hI.tasks c conn hconn
  rw [htask] at hc
  cases hc with
  | asking htype hgranted hnext => exact ⟨htype, hgranted⟩
  | begins hbody =>
    cases hbody with
    | offline htype hbody => exact hbody.elim

end Server

/-! The GUI allows the network, and an extension asks for lyrics. -/

def resolveText : String :=
  "\x7b\"type\":\"lyrics.resolve\",\"trackName\":\"song\",\"sessionToken\":\"" ++
    randomToken 1 2 ++ "\"\x7d"

/-- The parser, on a handshake and this message. -/
def resolveMessages : External where
  toString _ := ""
  fromStr text :=
    if text = resolveText then
      some <| .obj [("type", .str "lyrics.resolve"), ("trackName", .str "song"),
        ("sessionToken", .str (randomToken 1 2))]
    else extensionMessages.fromStr text
  decodeBase64 _ := none

def resolveEvents : List NetworkEvent :=
  (ServerEvent.upgrade none "bootstrap" :: handshakeEvents 0 1 2).map .server ++
    .setLyricsNetwork true ::
      (ServerEvent.receive 0 (.text resolveText) ::
        List.replicate 5 (.act 0 (answersOf 0 0))).map .server

/-- The message that the connection sends a request for. -/
def requestOf (s : Server) (c : Nat) : Option (Nat × Json) :=
  match s.connections[c]? with
  | some conn =>
    match conn.task with
    | .handling value (.handle (.fetch ..)) => some (conn.received, value)
    | _ => none
  | none => none

theorem requestOf_eq_some {s : Server} {c n : Nat} {value : Json}
    (h : requestOf s c = some (n, value)) :
    ∃ url next, InHandler s c n value (.fetch url next) := by
  unfold requestOf at h
  split at h
  · next conn hconn =>
    split at h
    · next value' url next htask =>
      obtain ⟨rfl, rfl⟩ := Prod.mk.inj (Option.some.inj h)
      exact ⟨url, next, conn, hconn, rfl, htask⟩
    · cases h
  · cases h

theorem consent_of_resolve : ∃ f h s c a n value url next,
    Run (networkStep resolveMessages false)
      (Server.start "bootstrap" (some "abcdefgh") (.new none) 1000) (f :: h) s ∧
    f.label = .server (.act c a) ∧ InHandler f.pre c n value (.fetch url next) ∧
    f.pre.companion.stores.lyricsNetworkAllowed = lastSetting false h ∧
    value.strOr "type" "" = "lyrics.resolve" ∧ Granted false h c n value := by
  have hend : (exec (networkStep resolveMessages false)
      (Server.start "bootstrap" (some "abcdefgh") (.new none) 1000) resolveEvents).map
      (fun x => x.1.head?.map fun f => (requestOf f.pre 0).map Prod.fst) =
        some (some (some 2)) := by
    decide +kernel
  obtain ⟨⟨h, s⟩, hx, hlast⟩ := Option.map_eq_some_iff.1 hend
  obtain ⟨f, hf, hrequest⟩ := Option.map_eq_some_iff.1 hlast
  obtain ⟨rest, rfl⟩ := List.head?_eq_some_iff.1 hf
  obtain ⟨⟨n, value⟩, hsome, -⟩ := Option.map_eq_some_iff.1 hrequest
  obtain ⟨url, next, hin⟩ := requestOf_eq_some hsome
  have hlabels := exec_labels hx
  have hlabel : f.label = .server (.act 0 (answersOf 0 0)) := by
    have hfirst := congrArg List.head? hlabels
    exact Option.some.inj hfirst
  have hr := exec_run hx
  have hconsent := consent_of_run rfl hr
  exact ⟨f, rest, s, 0, _, n, value, url, next, hr, hlabel, hin, hconsent.1,
    hconsent.2 0 _ n value url next hlabel hin⟩

end LanguageLlm.Desktop
