import LanguageLlm.Desktop.AuthGate
import LanguageLlm.Desktop.LiveAsr
import LanguageLlm.Desktop.Manager
import LanguageLlm.Desktop.Models

/-!
# The companion

The server together with the commands of the GUI and with the models, which the handlers of the
messages consult. `run_moves` says what a step of a run does to the handlers and to the stores. Only
the handlers of jobs and `cancel_job` reach the registry and the capture queue.
-/

namespace LanguageLlm.Desktop

open Lib Handler

structure Companion where
  server : Server
  models : Option ModelManager

/-- A companion that was just started. -/
def Companion.start (bootstrapToken : String) (allowedExtensionId : Option String)
    (sqlite : Option SqliteStore) (now : Nat) (models : Option ModelManager) : Companion where
  server := .start bootstrapToken allowedExtensionId (.new sqlite) now
  models

inductive CompanionEvent where
  | server (e : ServerEvent)
  /-- The command `cancel_job`. -/
  | cancelJob (jobId : String)
  /-- Another command of the GUI, which leaves the jobs and the captures alone. -/
  | command (companion : CompanionState)
  /-- The files of the models or their catalog change. -/
  | models (models : Option ModelManager)

/-- What a handler learns of the models is what they are. -/
def ServerEvent.under (models : Option ModelManager) : ServerEvent → ServerEvent
  | .act c a => .act c (a.under models)
  | e => e

/-- The registry and the capture queue are the same. -/
structure SameJobs (s s' : Stores) : Prop where
  jobs : s'.jobs = s.jobs
  capture : s'.capture = s.capture
  poisoned : s'.capturePoisoned = s.capturePoisoned

namespace Companion

def stores (s : Companion) : Stores := s.server.companion.stores

def withStores (s : Companion) (stores : Stores) : Companion :=
  { s with server := { s.server with companion := { s.server.companion with stores } } }

def step (env : External) (debug : Bool) (s : Companion) : CompanionEvent → Option Companion
  | .server e =>
    (s.server.step env debug (e.under s.models)).map fun server => { s with server }
  | .cancelJob jobId =>
    ((cancelJob jobId).run [] s.stores).map fun result => s.withStores result.2
  | .command companion =>
    some <| { s with server := { s.server with companion } }.withStores
      { companion.stores with
        jobs := s.stores.jobs
        capture := s.stores.capture
        capturePoisoned := s.stores.capturePoisoned }
  | .models models => some { s with models }

/-- The task of a connection is in a handler. -/
def Handling (s : Companion) (c : Nat) (value : Json) (body : Handler Unit) : Prop :=
  ∃ conn, s.server.connections[c]? = some conn ∧ conn.task = .handling value (.handle body)

theorem Handling.unique {s : Companion} {c : Nat} {value value' : Json} {body body' : Handler Unit}
    (h : s.Handling c value body) (h' : s.Handling c value' body') :
    value' = value ∧ body' = body := by
  obtain ⟨conn, hconn, htask⟩ := h
  obtain ⟨conn', hconn', htask'⟩ := h'
  rw [hconn, Option.some.injEq] at hconn'
  subst hconn'
  rw [htask, Task.handling.injEq, Arm.handle.injEq] at htask'
  exact ⟨htask'.1.symm, htask'.2.symm⟩

end Companion

/-! ## The handlers that work on jobs -/

namespace Handler

/-- Every message that a handler sends meets `P`. -/
def Sends {α : Type} (P : Json → Prop) : Handler α → Prop
  | pure _ | panic => True
  | send message next => P message ∧ Sends P next
  | now next => ∀ t, Sends P (next t)
  | ask next => ∀ an, Sends P (next an)
  | lock _ next => ∀ t an s, Sends P (next t an s)
  | fetch _ next => ∀ response, Sends P (next response)

theorem Sends.bind {α β : Type} {P : Json → Prop} {h : Handler α} {f : α → Handler β}
    (hh : Sends P h) (hf : ∀ a, Sends P (f a)) : Sends P (h >>= f) := by
  induction h with
  | pure a => exact hf a
  | panic => trivial
  | send message next ih => exact ⟨hh.1, ih hh.2⟩
  | now next ih => exact fun t => ih t (hh t)
  | ask next ih => exact fun an => ih an (hh an)
  | lock update next ih => exact fun t an s => ih t an s (hh t an s)
  | fetch url next ih => exact fun response => ih response (hh response)

theorem Sends.mono {α : Type} {P Q : Json → Prop} {h : Handler α} (hh : Sends P h)
    (hPQ : ∀ message, P message → Q message) : Sends Q h := by
  induction h with
  | pure | panic => trivial
  | send message next ih => exact ⟨hPQ _ hh.1, ih hh.2⟩
  | now next ih => exact fun t => ih t (hh t)
  | ask next ih => exact fun an => ih an (hh an)
  | lock update next ih => exact fun t an s => ih t an s (hh t an s)
  | fetch url next ih => exact fun response => ih response (hh response)

theorem sends_lockCapture {α : Type} {P : Json → Prop}
    {f : Answers → CaptureJobQueue → Option α × CaptureJobQueue} :
    Sends P (lockCapture f) := by
  intro t an s
  dsimp only
  split
  · trivial
  · split <;> trivial

theorem bind_return {α : Type} (h : Handler α) : h >>= Pure.pure = h := by
  change h.bind Handler.pure = h
  induction h with
  | pure | panic => rfl
  | send message next ih => rw [Handler.bind, ih]
  | now next ih => simp only [Handler.bind, ih]
  | ask next ih => simp only [Handler.bind, ih]
  | lock update next ih => simp only [Handler.bind, ih]
  | fetch url next ih => simp only [Handler.bind, ih]

/-- The next action of a handler, at the time `t` and with the answers `an`, when it is not its
last. -/
inductive Next (t : Nat) (an : Answers) : Handler Unit → Stores → Handler Unit → Stores → Prop
  | send (message : Json) (next : Handler Unit) (s : Stores) :
      Next t an (send message next) s next s
  | now (next : Nat → Handler Unit) (s : Stores) : Next t an (now next) s (next t) s
  | ask (next : Answers → Handler Unit) (s : Stores) : Next t an (ask next) s (next an) s
  | lock (update : Nat → Answers → Stores → Stores) (next : Nat → Answers → Stores → Handler Unit)
      (s : Stores) : Next t an (lock update next) s (next t an s) (update t an s)
  | fetch (url : String) (next : Option Json → Handler Unit) (s : Stores) :
      Next t an (fetch url next) s (next an.tracks) s

/-- `P` holds of a handler and of all that it goes on with. -/
def Throughout (P : Handler Unit → Prop) : Handler Unit → Prop
  | pure a => P (pure a)
  | panic => P panic
  | send message next => P (send message next) ∧ Throughout P next
  | now next => P (now next) ∧ ∀ t, Throughout P (next t)
  | ask next => P (ask next) ∧ ∀ an, Throughout P (next an)
  | lock update next => P (lock update next) ∧ ∀ t an s, Throughout P (next t an s)
  | fetch url next => P (fetch url next) ∧ ∀ response, Throughout P (next response)

/-- A section of a handler. -/
theorem Next.of_lock {t : Nat} {an : Answers} {update : Nat → Answers → Stores → Stores}
    {next : Nat → Answers → Stores → Handler Unit} {s s' : Stores} {body : Handler Unit}
    (hn : Next t an (Handler.lock update next) s body s') :
    body = next t an s ∧ s' = update t an s := by
  cases hn
  exact ⟨rfl, rfl⟩

theorem Next.of_ask {t : Nat} {an : Answers} {next : Answers → Handler Unit} {s s' : Stores}
    {body : Handler Unit} (hn : Next t an (Handler.ask next) s body s') :
    body = next an ∧ s' = s := by
  cases hn
  exact ⟨rfl, rfl⟩

section Throughout

variable {P : Handler Unit → Prop} {h h' : Handler Unit} {t : Nat} {an : Answers} {s s' : Stores}

theorem Throughout.self (hP : Throughout P h) : P h := by
  cases h with
  | pure | panic => exact hP
  | send | now | ask | lock | fetch => exact hP.1

theorem Throughout.next (hP : Throughout P h) (hn : Next t an h s h' s') : Throughout P h' := by
  cases hn with
  | send => exact hP.2
  | now | ask | fetch => exact hP.2 _
  | lock => exact hP.2 _ _ _

theorem Guarantees.next {R : Stores → Stores → Prop} (hR : Guarantees R h)
    (hn : Next t an h s h' s') :
    (s' = s ∨ R s s') ∧ Guarantees R h' := by
  cases hn with
  | send => exact ⟨Or.inl rfl, hR⟩
  | now | ask | fetch => exact ⟨Or.inl rfl, hR _⟩
  | lock => exact ⟨Or.inr (hR _ _ _).1, (hR _ _ _).2⟩

/-- `P` holds throughout a handler that goes on with others when its sections guarantee what `P`
asks of them. -/
theorem Guarantees.throughout_bind {α : Type} {R : Stores → Stores → Prop} {P : Handler Unit → Prop}
    (hP : ∀ body, (∀ update next, body = .lock update next → ∀ t an s, R s (update t an s)) →
      P body)
    {h : Handler α} {f : α → Handler Unit} (hh : Guarantees R h) (hf : ∀ a, Throughout P (f a)) :
    Throughout P (h >>= f) := by
  induction h with
  | pure a => exact hf a
  | panic => exact hP _ nofun
  | send message next ih => exact ⟨hP _ nofun, ih hh⟩
  | now next ih => exact ⟨hP _ nofun, fun t => ih t (hh t)⟩
  | ask next ih => exact ⟨hP _ nofun, fun an => ih an (hh an)⟩
  | lock update next ih =>
    refine ⟨hP _ ?_, fun t an s => ih t an s (hh t an s).2⟩
    rintro _ _ ⟨⟩ t an s
    exact (hh t an s).1
  | fetch url next ih => exact ⟨hP _ nofun, fun response => ih response (hh response)⟩

theorem Guarantees.throughout {R : Stores → Stores → Prop} {P : Handler Unit → Prop}
    (hP : ∀ body, (∀ update next, body = .lock update next → ∀ t an s, R s (update t an s)) →
      P body)
    {h : Handler Unit} (hh : Guarantees R h) : Throughout P h := by
  have hbind : Throughout P (h >>= Pure.pure) := hh.throughout_bind hP fun _ => hP _ nofun
  rwa [Handler.bind_return] at hbind

theorem Sends.next {M : Json → Prop} (hM : Sends M h) (hn : Next t an h s h' s') : Sends M h' := by
  cases hn with
  | send => exact hM.2
  | now | ask | fetch => exact hM _
  | lock => exact hM _ _ _

end Throughout

end Handler

/-- The handlers of the messages that work on jobs. -/
inductive JobHandler (env : External) (value : Json) : Handler Unit → Prop
  | submit (htype : value.strOr "type" "" = "job.submit") :
      JobHandler env value (handleJobSubmit env value)
  | cancel (token : String) (htype : value.strOr "type" "" = "job.cancel") :
      JobHandler env value (handleJobCancel value token)
  | pause (token : String) (htype : value.strOr "type" "" = "job.pause") :
      JobHandler env value (handleJobPause value token)
  | resume (token : String) (htype : value.strOr "type" "" = "job.resume") :
      JobHandler env value (handleJobResume value token)
  | chunk (token : String) (htype : value.strOr "type" "" = "audio.chunk") :
      JobHandler env value (handleAudioChunk env value token)

/-! Where these handlers go on after a section or an answer. -/

/-- `job.cancel` once the registry has cancelled the job. -/
def cancelCapture (token jobId : String) (ok : Bool) : Handler Unit := do
  let _ ← lockCapture fun _ q => (some (q.cancel jobId).1, (q.cancel jobId).2)
  sendProgress token jobId "asr" (if ok then "cancelled" else "failed") 1 none []

theorem handleJobCancel_eq (value : Json) (token : String) :
    handleJobCancel value token = (do
      let ok ← lockJobs fun _ r => r.cancel (value.strOr "jobId" "")
      cancelCapture token (value.strOr "jobId" "") ok) :=
  rfl

/-- `job.submit` of an ASR job once it is planned. -/
def startCapture (token jobId videoId : String) (asrMeta : Json) : Handler Unit := do
  lockCapture fun _ q => (some (), q.startWithId jobId videoId)
  sendProgress token jobId "asr" "running" (5 / 100)
    (some (.str "awaiting audio.chunk from tabCapture")) [("asr", asrMeta)]

/-- `job.submit` of an ASR job with the answer of its planner. -/
def startPlanned (token jobId videoId : String) :
    Option (Except (String × String) Json) → Handler Unit
  | some (.error (id, err)) => do
    sendError (.str token) "model-not-installed" err
      [("modelId", .str id), ("jobId", .str jobId)]
    sendProgress token jobId "asr" "failed" 1 (some (.str err)) []
  | some (.ok planned) => startCapture token jobId videoId planned
  | none => startCapture token jobId videoId .null

theorem runAsrJob_eq (token jobId videoId : String) (payload : Json) :
    runAsrJob token jobId videoId payload = (do
      let plan ← answer fun a => a.asrPlan (payload.getStr "modelId")
      startPlanned token jobId videoId plan) := by
  unfold runAsrJob
  congr
  funext plan
  rcases plan with _ | ⟨_ | _⟩ <;> rfl

/-- `timeline.source`, with the transcript of a segment. -/
def IsTranscript (message : Json) : Prop := message.strOr "type" "" = "timeline.source"

/-- `job.progress`, a transcript or the result of a job. -/
def ReportsJob (message : Json) : Prop :=
  message.strOr "type" "" ∈ ["job.progress", "timeline.source", "job.result"]

/-- A handler leaves the registry and the capture queue alone and reports no job. -/
structure Apart {α : Type} (h : Handler α) : Prop where
  keeps : Guarantees SameJobs h
  silent : Sends (fun message => ¬ ReportsJob message) h

/-- The handlers that a message may start. -/
def Starts (env : External) (value : Json) (body : Handler Unit) : Prop :=
  JobHandler env value body ∨ Apart body

section Apart

variable {α β : Type}

theorem strOr_type (msgType : String) (fields : List (String × Json)) :
    (Json.obj (("type", .str msgType) :: fields)).strOr "type" "" = msgType :=
  rfl

theorem Apart.bind {h : Handler α} {f : α → Handler β} (hh : Apart h) (hf : ∀ a, Apart (f a)) :
    Apart (h >>= f) :=
  ⟨hh.keeps.bind fun a => (hf a).keeps, hh.silent.bind fun a => (hf a).silent⟩

theorem apart_return (a : α) : Apart (Pure.pure a : Handler α) := ⟨trivial, trivial⟩

theorem apart_reply {message : Json} (hm : ¬ ReportsJob message) : Apart (reply message) :=
  ⟨trivial, hm, trivial⟩

theorem apart_nowMs : Apart nowMs := ⟨fun _ => trivial, fun _ => trivial⟩

theorem apart_get (url : String) : Apart (get url) := ⟨fun _ => trivial, fun _ => trivial⟩

theorem apart_sendError {token : Json} {code message : String} {more : List (String × Json)} :
    Apart (sendError token code message more) :=
  apart_reply (by simp [ReportsJob, strOr_type])

theorem apart_lock {update : Nat → Answers → Stores → Stores} {f : Nat → Answers → Stores → α}
    (hu : ∀ t an s, SameJobs s (update t an s)) :
    Apart (lock update fun t an s => Handler.pure (f t an s)) :=
  ⟨fun t an s => ⟨hu t an s, trivial⟩, fun _ _ _ => trivial⟩

theorem apart_withSqlite {f : Nat → Answers → SqliteStore → Option α × SqliteStore} :
    Apart (withSqlite f) :=
  apart_lock fun _ _ _ => ⟨rfl, rfl, rfl⟩

theorem apart_lockMemory {f : MemoryStore → α × MemoryStore} : Apart (lockMemory f) :=
  apart_lock fun _ _ _ => ⟨rfl, rfl, rfl⟩

/-- A section of the database before a reply of another type. -/
theorem apart_withSqlite_reply {f : Nat → Answers → SqliteStore → Option α × SqliteStore}
    {message : Option α → Json} (hm : ∀ a, ¬ ReportsJob (message a)) :
    Apart (withSqlite f >>= fun a => reply (message a)) :=
  apart_withSqlite.bind fun a => apart_reply (hm a)

theorem apart_handlePing (token : String) : Apart (handlePing token) :=
  apart_nowMs.bind fun _ => apart_reply (by simp [ReportsJob, strOr_type])

theorem apart_handleLyricsResolve (value : Json) (token : String) :
    Apart (handleLyricsResolve value token) := by
  refine Apart.bind (apart_lock fun _ _ _ => ⟨rfl, rfl, rfl⟩) fun allowed => ?_
  dsimp only
  split
  · exact apart_sendError
  refine (apart_get _).bind fun tracks => ?_
  split
  · refine Apart.bind (apart_lockMemory.bind fun _ => ?_) fun _ => ?_
    · exact apart_withSqlite.bind fun _ => apart_return _
    · exact apart_nowMs.bind fun _ => apart_reply (by simp [ReportsJob, strOr_type])
  · exact apart_sendError

theorem apart_handleTimelineSource (env : External) (value : Json) :
    Apart (handleTimelineSource env value) := by
  unfold handleTimelineSource
  split
  · exact apart_return _
  · split
    · exact apart_withSqlite.bind fun _ => apart_return _
    · exact apart_return _

theorem apart_handleTimelineHydrate (env : External) (value : Json) (token : String) :
    Apart (handleTimelineHydrate env value token) := by
  unfold handleTimelineHydrate
  dsimp only
  split
  all_goals
    refine apart_withSqlite.bind fun body => ?_
    exact apart_withSqlite.bind fun found => apart_reply (by simp [ReportsJob, strOr_type])

theorem apart_handleStudySync (env : External) (value : Json) (token : String) :
    Apart (handleStudySync env value token) := by
  have hreply (result : Json) : Apart (reply (.obj [("type", .str "study.sync.result"),
      ("sessionToken", .str token), ("result", result)])) :=
    apart_reply (by simp [ReportsJob, strOr_type])
  refine Apart.bind ?_ hreply
  unfold studyResult
  dsimp only
  split
  · exact apart_withSqlite.bind fun _ => apart_return _
  · refine apart_withSqlite.bind fun found => ?_
    split <;> exact apart_return _
  · exact apart_withSqlite.bind fun _ => apart_return _
  · exact apart_withSqlite.bind fun _ => apart_return _
  · exact apart_return _

/-- Only the handlers of jobs work on jobs. -/
theorem starts_dispatch (env : External) (debug : Bool)
    (allowedExtensionId sessionToken : Option String)
    (value : Json) : (dispatch env debug allowedExtensionId sessionToken value).Handles
      (Starts env value) := by
  have hother {body : Handler Unit} (hbody : Apart body) :
      (ifAuthed sessionToken value body).Handles (Starts env value) :=
    handles_ifAuthed (Or.inr hbody) ..
  unfold dispatch
  dsimp only
  split
  · apply handles_handshake
  · exact hother (apart_handlePing _)
  · next htype => exact handles_ifAuthed (Or.inl (.submit htype)) ..
  · next htype => exact handles_ifAuthed (Or.inl (.cancel _ htype)) ..
  · next htype => exact handles_ifAuthed (Or.inl (.pause _ htype)) ..
  · next htype => exact handles_ifAuthed (Or.inl (.resume _ htype)) ..
  · next htype => exact handles_ifAuthed (Or.inl (.chunk _ htype)) ..
  · exact hother (apart_handleLyricsResolve ..)
  · refine hother (apart_lockMemory.bind fun n => ?_)
    exact apart_withSqlite_reply fun _ => by simp [ReportsJob, strOr_type]
  · have hset :
        Apart (setLyricsNetworkAllowed (((value.get "allowed").bind Json.asBool).getD false)) :=
      apart_lock fun _ _ _ => ⟨rfl, rfl, rfl⟩
    refine hother (hset.bind fun _ => ?_)
    exact apart_reply (by simp [ReportsJob, strOr_type])
  · exact hother (apart_handleTimelineSource ..)
  · exact hother (apart_handleTimelineHydrate ..)
  · exact hother (apart_withSqlite_reply fun _ => by simp [ReportsJob, strOr_type])
  · exact hother (apart_withSqlite_reply fun _ => by simp [ReportsJob, strOr_type])
  · exact hother (apart_withSqlite_reply fun _ => by simp [ReportsJob, strOr_type])
  · exact hother (apart_handleStudySync ..)
  · refine hother (apart_nowMs.bind fun t => ?_)
    exact apart_withSqlite_reply fun _ => by simp [ReportsJob, strOr_type]
  · exact hother (apart_withSqlite_reply fun _ => by simp [ReportsJob, strOr_type])
  · exact hother (apart_withSqlite_reply fun _ => by simp [ReportsJob, strOr_type])
  · exact hother (apart_withSqlite_reply fun _ => by simp [ReportsJob, strOr_type])
  · trivial

end Apart

/-! ## Steps -/

/-- What a task may still start is a handler that its message starts. -/
def Task.Ready (env : External) : Task → Prop
  | .handling _ (.handle _) => True
  | .handling value arm => arm.Handles (Starts env value)
  | _ => True

/-- A task that was not in a handler before: it is ready, and its handler is one that its message
starts. -/
def Task.Fresh (env : External) : Task → Prop
  | .handling value arm => arm.Handles (Starts env value)
  | _ => True

theorem Task.Fresh.ready {env : External} {task : Task} (hf : task.Fresh env) : task.Ready env := by
  unfold Ready
  split
  · trivial
  · exact hf
  · trivial

/-- An action outside of a handler keeps the stores and leaves a fresh task. -/
theorem Server.act_fresh {env : External} {s s' : Server} {c : Nat} {conn : Connection}
    {value : Json}
    {a : Answers} {arm : Arm} (harm : arm.Handles (Starts env value))
    (hne : ∀ body, arm ≠ .handle body) (hs : s.act c conn value a arm = some s') :
    s'.companion.stores = s.companion.stores ∧
      ∃ conn', s'.connections = s.connections.set c conn' ∧ conn'.task.Fresh env := by
  cases arm with
  | handle body => exact absurd rfl (hne body)
  | issue _ _ rest =>
    simp only [act] at hs
    split at hs
    · cases hs
    · obtain rfl := Option.some.inj hs
      exact ⟨rfl, _, rfl, harm _⟩
  | rotate rest =>
    simp only [act] at hs
    split at hs
    · cases hs
    · obtain rfl := Option.some.inj hs
      exact ⟨rfl, _, rfl, harm⟩
  | next | leave =>
    obtain rfl := Option.some.inj hs
    exact ⟨rfl, _, rfl, trivial⟩
  | send | purge =>
    obtain rfl := Option.some.inj hs
    exact ⟨rfl, _, rfl, harm⟩
  | now | valid =>
    obtain rfl := Option.some.inj hs
    exact ⟨rfl, _, rfl, harm _⟩

/-- An action of a handler is its last, or its next. -/
theorem Server.actHandler_next (s : Server) (c : Nat) (conn : Connection) (value : Json)
    (a : Answers) (body : Handler Unit) :
    ∃ conn', (s.actHandler c conn value a body).connections = s.connections.set c conn' ∧
      ((body = .pure () ∨ body = .panic) ∧ (∀ value' arm, conn'.task ≠ .handling value' arm) ∧
          (s.actHandler c conn value a body).companion.stores = s.companion.stores ∨
        ∃ body', conn'.task = .handling value (.handle body') ∧
          Next s.now a body s.companion.stores body'
            (s.actHandler c conn value a body).companion.stores) := by
  cases body with
  | pure => exact ⟨_, rfl, Or.inl ⟨Or.inl rfl, by simp, rfl⟩⟩
  | panic => exact ⟨_, rfl, Or.inl ⟨Or.inr rfl, by simp, rfl⟩⟩
  | send | now | ask | lock | fetch => exact ⟨_, rfl, Or.inr ⟨_, rfl, by constructor⟩⟩

namespace Companion

/-- What a step does to the handlers and to the stores. -/
inductive Moves (env : External) (s s' : Companion) : CompanionEvent → Prop
  /-- A handler runs its next action. -/
  | acts {c : Nat} {an : Answers} {value : Json} {body body' : Handler Unit}
      (hbody : s.Handling c value body) (hbody' : s'.Handling c value body')
      (hnext : Next s.server.now (an.under s.models) body s.stores body' s'.stores)
      (hothers : ∀ d value' body'', d ≠ c →
        (s'.Handling d value' body'' ↔ s.Handling d value' body'')) :
      Moves env s s' (.server (.act c an))
  /-- A handler ends. -/
  | ends {c : Nat} {an : Answers} {value : Json} {body : Handler Unit}
      (hbody : s.Handling c value body) (hlast : body = .pure () ∨ body = .panic)
      (hstores : s'.stores = s.stores) (hended : ∀ value' body', ¬ s'.Handling c value' body')
      (hothers : ∀ d value' body'', d ≠ c →
        (s'.Handling d value' body'' ↔ s.Handling d value' body'')) :
      Moves env s s' (.server (.act c an))
  | cancels {jobId : String}
      (hstores : s'.stores = { s.stores with jobs := (s.stores.jobs.cancel jobId).2 })
      (hsame : ∀ c value body, s'.Handling c value body ↔ s.Handling c value body) :
      Moves env s s' (.cancelJob jobId)
  /-- A step that leaves the handlers and the jobs alone; a new handler may have started. -/
  | quiet {l : CompanionEvent} (hsame : SameJobs s.stores s'.stores)
      (hkept : ∀ c value body, s.Handling c value body →
        (∀ an, l ≠ .server (.act c an)) ∧ s'.Handling c value body)
      (hstarted : ∀ c value body, s'.Handling c value body →
        s.Handling c value body ∨ Starts env value body) :
      Moves env s s' l

/-- The tasks of all connections are ready. -/
def Ready (env : External) (s : Companion) : Prop :=
  ∀ (c : Nat) (conn : Connection), s.server.connections[c]? = some conn → conn.task.Ready env

section Steps

variable {env : External} {debug : Bool} {s s' : Companion} {l : CompanionEvent}

/-- A connection that is not in a handler takes a fresh task. -/
theorem moves_set {c : Nat} {conn conn' : Connection} (hR : s.Ready env)
    (hconn : s.server.connections[c]? = some conn)
    (htask : ∀ value body, conn.task ≠ .handling value (.handle body))
    (hl : ∀ d an, l = .server (.act d an) → d = c)
    (hset : s'.server.connections = s.server.connections.set c conn')
    (hfresh : conn'.task.Fresh env)
    (hsame : SameJobs s.stores s'.stores) : Moves env s s' l ∧ s'.Ready env := by
  refine ⟨.quiet hsame ?_ ?_, ?_⟩
  · rintro d value body ⟨conn₁, hconn₁, hbody⟩
    have hne : d ≠ c := by
      rintro rfl
      rw [hconn, Option.some.injEq] at hconn₁
      exact htask _ _ (hconn₁ ▸ hbody)
    refine ⟨fun an hd => hne (hl d an hd), conn₁, ?_, hbody⟩
    rwa [hset, List.getElem?_set_ne hne.symm]
  · rintro d value body ⟨conn₁, hconn₁, hbody⟩
    rw [hset] at hconn₁
    rcases Server.set_connection hconn₁ with ⟨rfl, rfl⟩ | ⟨_, hold⟩
    · rw [hbody] at hfresh
      exact Or.inr hfresh
    · exact Or.inl ⟨conn₁, hold, hbody⟩
  · intro d conn₁ hconn₁
    rw [hset] at hconn₁
    rcases Server.set_connection hconn₁ with ⟨rfl, rfl⟩ | ⟨_, hold⟩
    · exact hfresh.ready
    · exact hR d conn₁ hold

/-- The connections stay as they are. -/
theorem moves_same (hR : s.Ready env) (hl : ∀ c an, l ≠ .server (.act c an))
    (hconns : s'.server.connections = s.server.connections) (hsame : SameJobs s.stores s'.stores) :
    Moves env s s' l ∧ s'.Ready env := by
  refine ⟨.quiet hsame ?_ ?_, ?_⟩
  · rintro c value body ⟨conn, hconn, hbody⟩
    exact ⟨fun an => hl c an, conn, hconns ▸ hconn, hbody⟩
  · rintro c value body ⟨conn, hconn, hbody⟩
    exact Or.inl ⟨conn, hconns ▸ hconn, hbody⟩
  · intro c conn hconn
    exact hR c conn (hconns ▸ hconn)

/-- A connection comes. -/
theorem moves_push {conn : Connection} (hR : s.Ready env) (hl : ∀ c an, l ≠ .server (.act c an))
    (hconns : s'.server.connections = s.server.connections ++ [conn]) (hfresh : conn.task.Fresh env)
    (hsame : SameJobs s.stores s'.stores) : Moves env s s' l ∧ s'.Ready env := by
  refine ⟨.quiet hsame ?_ ?_, ?_⟩
  · rintro c value body ⟨conn₁, hconn₁, hbody⟩
    refine ⟨fun an => hl c an, conn₁, ?_, hbody⟩
    rw [hconns, List.getElem?_append_left (List.getElem?_eq_some_iff.1 hconn₁).1]
    exact hconn₁
  · rintro c value body ⟨conn₁, hconn₁, hbody⟩
    rw [hconns] at hconn₁
    rcases Server.push_connection hconn₁ with ⟨_, rfl⟩ | hold
    · rw [hbody] at hfresh
      exact Or.inr hfresh
    · exact Or.inl ⟨conn₁, hold, hbody⟩
  · intro c conn₁ hconn₁
    rw [hconns] at hconn₁
    rcases Server.push_connection hconn₁ with ⟨_, rfl⟩ | hold
    · exact hfresh.ready
    · exact hR c conn₁ hold

/-- A handler runs its next action or ends. -/
theorem moves_act {c : Nat} {an : Answers} {conn : Connection} {value : Json} {body : Handler Unit}
    (hR : s.Ready env) (hconn : s.server.connections[c]? = some conn)
    (htask : conn.task = .handling value (.handle body))
    (hs : s' = { s with server := s.server.actHandler c conn value (an.under s.models) body }) :
    Moves env s s' (.server (.act c an)) ∧ s'.Ready env := by
  have hlt : c < s.server.connections.length := (List.getElem?_eq_some_iff.1 hconn).1
  obtain ⟨conn', hconns, hnext⟩ := s.server.actHandler_next c conn value (an.under s.models) body
  have hset : s'.server.connections = s.server.connections.set c conn' := by rw [hs, hconns]
  have hself : s'.server.connections[c]? = some conn' := by rw [hset, List.getElem?_set_self hlt]
  have hothers (d : Nat) (value' : Json) (body' : Handler Unit) (hne : d ≠ c) :
      s'.Handling d value' body' ↔ s.Handling d value' body' := by
    unfold Handling
    rw [hset, List.getElem?_set_ne hne.symm]
  have hready (htask' : conn'.task.Ready env) : s'.Ready env := by
    intro d conn₁ hconn₁
    rw [hset] at hconn₁
    rcases Server.set_connection hconn₁ with ⟨rfl, rfl⟩ | ⟨_, hold⟩
    · exact htask'
    · exact hR d conn₁ hold
  rcases hnext with ⟨hlast, hended, hstores⟩ | ⟨body', htask', hnext⟩
  · refine ⟨.ends ⟨conn, hconn, htask⟩ hlast (by rw [hs]; exact hstores) ?_ hothers, hready ?_⟩
    · rintro value' body' ⟨conn₁, hconn₁, hbody'⟩
      rw [hself, Option.some.injEq] at hconn₁
      exact hended _ _ (hconn₁ ▸ hbody')
    · unfold Task.Ready
      split
      · trivial
      · next htask' => exact absurd htask' (hended _ _)
      · trivial
  · have hbody' : s'.Handling c value body' := ⟨conn', hself, htask'⟩
    refine ⟨.acts ⟨conn, hconn, htask⟩ hbody' (by rw [hs]; exact hnext) hothers, hready ?_⟩
    rw [htask']
    trivial

/-- A connection is upgraded, or turned away. -/
theorem moves_upgrade (hR : s.Ready env) (hl : ∀ c an, l ≠ .server (.act c an))
    (origin : Option String) (t : String) :
    Moves env s { s with server := s.server.upgrade debug origin t } l ∧
      Ready env { s with server := s.server.upgrade debug origin t } := by
  rcases Server.upgrade_cases (s := s.server) debug origin t with heq |
    ⟨conn, heq, _, _, htask⟩
  · exact moves_same hR hl (by rw [heq]) (by rw [heq]; exact ⟨rfl, rfl, rfl⟩)
  · have hfresh : conn.task.Fresh env := by
      rcases htask with ⟨htask, _⟩ | htask
      · rw [htask]
        trivial
      · rw [htask]
        trivial
    exact moves_push hR hl (by rw [heq]) hfresh (by rw [heq]; exact ⟨rfl, rfl, rfl⟩)

/-- A message comes, and its dispatch starts. -/
theorem moves_receive {c : Nat} {conn : Connection} (hR : s.Ready env)
    (hconn : s.server.connections[c]? = some conn) (htask : conn.task = .listening)
    (hl : ∀ d an, l ≠ .server (.act d an)) (frame : Frame)
    (hset : s'.server.connections =
      s.server.connections.set c (conn.receive env debug s.server.companion frame))
    (hsame : SameJobs s.stores s'.stores) : Moves env s s' l ∧ s'.Ready env := by
  refine moves_set hR hconn (by simp [htask]) (fun d an h => absurd h (hl d an)) hset ?_ hsame
  obtain ⟨_, _, harm⟩ := Connection.receive_spec env debug s.server.companion htask frame
  unfold Task.Fresh
  split
  · next value arm hvalue =>
    rw [harm value arm hvalue]
    apply starts_dispatch
  · trivial

/-- A task that is in no handler goes on. -/
theorem moves_arm {c : Nat} {an : Answers} {conn : Connection} {value : Json} {arm : Arm}
    {server : Server} (hR : s.Ready env) (hconn : s.server.connections[c]? = some conn)
    (htask : conn.task = .handling value arm) (hne : ∀ body, arm ≠ .handle body)
    (hact : s.server.act c conn value (an.under s.models) arm = some server) :
    Moves env s { s with server } (.server (.act c an)) ∧ Ready env { s with server } := by
  have harm : arm.Handles (Starts env value) := by
    have hready := hR c conn hconn
    rw [htask] at hready
    cases arm with
    | handle body => exact absurd rfl (hne body)
    | _ => exact hready
  obtain ⟨hstores, conn', hset, hfresh⟩ := Server.act_fresh harm hne hact
  refine moves_set hR hconn (by simp [htask, hne]) ?_ hset hfresh ?_
  · rintro d an' ⟨⟩
    rfl
  · unfold stores
    rw [hstores]
    exact ⟨rfl, rfl, rfl⟩

/-- A step of the server. -/
theorem moves_server {e : ServerEvent} {server : Server} (hR : s.Ready env)
    (hs : s.server.step env debug (e.under s.models) = some server) :
    Moves env s { s with server } (.server e) ∧ Ready env { s with server } := by
  rcases Server.step_cases hs with ⟨origin, t, he, rfl⟩ | ⟨c, frame, conn, he, hconn, htask, rfl⟩ |
    ⟨c, a, conn, value, arm, he, hconn, htask, hact⟩ | ⟨now, rfl, he⟩
  · refine moves_upgrade hR ?_ origin t
    rintro c an ⟨⟩
    cases he
  · refine moves_receive hR hconn htask ?_ frame rfl ⟨rfl, rfl, rfl⟩
    rintro d an ⟨⟩
    cases he
  · obtain ⟨an, rfl, rfl⟩ : ∃ an, e = .act c an ∧ a = an.under s.models := by
      cases e with
      | act d an =>
        obtain ⟨rfl, rfl⟩ := ServerEvent.act.inj he
        exact ⟨an, rfl, rfl⟩
      | _ => cases he
    by_cases hbody : ∃ body, arm = .handle body
    · obtain ⟨body, rfl⟩ := hbody
      obtain rfl := Option.some.inj hact
      exact moves_act hR hconn htask rfl
    · exact moves_arm hR hconn htask (fun body h => hbody ⟨body, h⟩) hact
  · refine moves_same hR ?_ rfl ⟨rfl, rfl, rfl⟩
    rintro c an ⟨⟩
    rcases he with he | ⟨ms, he⟩ <;> cases he

/-- Every step moves like this, and keeps the tasks ready. -/
theorem step_moves (hR : s.Ready env) (hs : s.step env debug l = some s') :
    Moves env s s' l ∧ s'.Ready env := by
  cases l with
  | server e =>
    obtain ⟨server, hserver, rfl⟩ := Option.map_eq_some_iff.1 hs
    exact moves_server hR hserver
  | cancelJob jobId =>
    have hrun : (cancelJob jobId).run [] s.stores =
        some ((s.stores.jobs.cancel jobId).1,
          { s.stores with jobs := (s.stores.jobs.cancel jobId).2 }) := rfl
    rw [step, hrun, Option.map_some, Option.some.injEq] at hs
    subst hs
    exact ⟨.cancels rfl fun _ _ _ => Iff.rfl, hR⟩
  | command companion =>
    obtain rfl := Option.some.inj hs
    exact moves_same hR (by simp) rfl ⟨rfl, rfl, rfl⟩
  | models models =>
    obtain rfl := Option.some.inj hs
    exact moves_same hR (by simp) rfl ⟨rfl, rfl, rfl⟩

/-- What holds of the handlers that run holds of them after a step: of the one that has acted, of
the others and of those that have started. -/
theorem Moves.handlers {Q : Nat → Json → Handler Unit → Prop} (hm : Moves env s s' l)
    (hact : ∀ c an value body body', l = .server (.act c an) → s.Handling c value body →
      Next s.server.now (an.under s.models) body s.stores body' s'.stores → Q c value body')
    (hothers : ∀ c value body, (∀ an, l ≠ .server (.act c an)) → s.Handling c value body →
      Q c value body)
    (hstarts : ∀ c value body, Starts env value body → Q c value body) {c : Nat} {value : Json}
    {body : Handler Unit} (hbody : s'.Handling c value body) : Q c value body := by
  cases hm with
  | @acts d an _ _ _ hbody₀ hbody' hnext hsame =>
    by_cases hcd : c = d
    · subst hcd
      obtain ⟨rfl, rfl⟩ := hbody'.unique hbody
      exact hact _ _ _ _ _ rfl hbody₀ hnext
    · refine hothers c value body ?_ ((hsame _ _ _ hcd).1 hbody)
      rintro an ⟨⟩
      exact hcd rfl
  | @ends d an _ _ _ _ _ hended hsame =>
    by_cases hcd : c = d
    · exact absurd hbody (hcd ▸ hended _ _)
    · refine hothers c value body ?_ ((hsame _ _ _ hcd).1 hbody)
      rintro an ⟨⟩
      exact hcd rfl
  | cancels _ hsame => exact hothers c value body (by simp) ((hsame _ _ _).1 hbody)
  | quiet _ hkept hstarted =>
    rcases hstarted _ _ _ hbody with hold | hnew
    · exact hothers c value body (hkept _ _ _ hold).1 hold
    · exact hstarts c value body hnew

variable {bootstrapToken : String} {pinned : Option String} {sqlite : Option SqliteStore}
  {now : Nat}
  {models : Option ModelManager} {h : List (Fired Companion CompanionEvent)}

theorem run_ready
    (hr : Run (step env debug) (start bootstrapToken pinned sqlite now models) h s) :
    s.Ready env := by
  refine Run.inv (Ready env) ?_ (fun s l s' hR hs => (step_moves hR hs).2) hr
  intro c conn hconn
  simp [start, Server.start] at hconn

/-- The steps of a run. -/
theorem run_moves
    (hr : Run (step env debug) (start bootstrapToken pinned sqlite now models) h s)
    (hs : s.step env debug l = some s') : Moves env s s' l :=
  (step_moves (run_ready hr) hs).1

end Steps

end Companion

def Task.isListening : Task → Bool
  | .listening => true
  | _ => false

/-- No handler runs. -/
def Companion.Idle (s : Companion) : Prop :=
  ∀ conn ∈ s.server.connections, conn.task.isListening = true

instance (s : Companion) : Decidable s.Idle := List.decidableBAll _ _

theorem Companion.Idle.not_handling {s : Companion} (hs : s.Idle) {c : Nat} {value : Json}
    {body : Handler Unit} : ¬ s.Handling c value body := by
  rintro ⟨conn, hconn, htask⟩
  have hidle := hs conn (List.mem_of_getElem? hconn)
  rw [htask] at hidle
  cases hidle

/-- The connection whose task a step runs. -/
def CompanionEvent.acting : CompanionEvent → Option Nat
  | .server (.act c _) => some c
  | _ => none

theorem CompanionEvent.acting_eq_some {l : CompanionEvent} {c : Nat} (hl : l.acting = some c) :
    ∃ an, l = .server (.act c an) := by
  unfold acting at hl
  split at hl
  · next d an =>
    obtain rfl := Option.some.inj hl
    exact ⟨an, rfl⟩
  · cases hl

/-! The extension connects, makes a handshake and sends messages. -/

/-- The parser, on a handshake and on these messages. -/
def extensionSends (messages : List (String × Json)) : External where
  toString _ := ""
  fromStr text := (messages.lookup text).or (extensionMessages.fromStr text)
  decodeBase64 _ := none

def connectEvents : List CompanionEvent :=
  (ServerEvent.upgrade none "bootstrap" :: handshakeEvents 0 1 2).map .server

/-- A message arrives, and its task runs `n` actions. -/
def messageEvents (text : String) (n : Nat) : List CompanionEvent :=
  .server (.receive 0 (.text text)) :: List.replicate n (.server (.act 0 (answersOf 0 0)))

/-- A message of the session. -/
def sessionMessage (fields : List (String × Json)) : Json :=
  .obj (fields ++ [("sessionToken", .str (randomToken 1 2))])

def sessionText (fields : String) : String :=
  "\x7b" ++ fields ++ ",\"sessionToken\":\"" ++ randomToken 1 2 ++ "\"\x7d"

/-- A companion that was started with these models. -/
def startedWith (models : Option ModelManager) : Companion :=
  .start "bootstrap" (some "abcdefgh") none 1000 models

end LanguageLlm.Desktop
