import LanguageLlm.Json
import LanguageLlm.Lib.OrderedMap
import LanguageLlm.Lib.Run

/-!
# The companion client's session

`connectCompanion` (`client.ts`) returns a session whose `waitType` promises, timers, `pending`
map and `queue` live in one closure. Its message listener gives a message to the waiter that
`pending` holds for the message's type, and otherwise to the fan-in handlers and to the queue.

A promise is named by its position in the order of the `waitType` calls; its `resolve`, its
`reject` and its timer all carry that name. A message is named by its position on the socket, so
that two messages with one content stay two messages.
-/

namespace LanguageLlm.Client

open Lib

/-- A parsed message with its position on the socket. -/
structure Message where
  serial : Nat
  body : Json

/-- The `type` of a message: a field of type string of an object. -/
def Message.type? (m : Message) : Option String := m.body.getStr "type"

/-- How a promise was settled. -/
inductive Settled where
  | resolved (m : Message)
  | rejected (reason : String)

/-- A promise returned by `waitType`. -/
structure WaitPromise where
  type : String
  settled : Option Settled

/-- An armed timeout of the promise `promise`, not run before `due`. -/
structure Timer where
  promise : Nat
  due : Nat

/-- The session's closure, with the module's fan-in handlers.
`arrived` counts the frames of the socket and `fanned` lists the messages that were dispatched to
at least one handler. -/
structure Session where
  pending : OrderedMap String Nat
  queue : List Message
  promises : List WaitPromise
  timers : List Timer
  fanInHandlers : List Nat
  fanned : List Message
  arrived : Nat
  now : Nat

/-- The closure when `connectCompanion` returns. -/
def Session.fresh (fanInHandlers : List Nat) (now : Nat) : Session where
  pending := .empty
  queue := []
  promises := []
  timers := []
  fanInHandlers := fanInHandlers
  fanned := []
  arrived := 0
  now := now

def fanInTypes : List String :=
  ["timeline.source", "timeline.translation", "job.progress", "error", "lyrics.timeline",
    "job.result"]

namespace Session

/-- `resolve` or `reject` of a promise; a settled promise stays as it is. -/
def settle (s : Session) (p : Nat) (r : Settled) : Session :=
  { s with promises := s.promises.modify p fun w =>
      { w with settled := w.settled.or (some r) } }

/-- `clearTimeout` of a promise's timer. -/
def clearTimeout (s : Session) (p : Nat) : Session :=
  { s with timers := s.timers.filter fun t => t.promise ≠ p }

/-- `dispatchFanIn`: every handler gets the message if its type is a fan-in type. -/
def dispatchFanIn (s : Session) (m : Message) : Session :=
  match m.type? with
  | some type =>
    if type ∈ fanInTypes ∧ s.fanInHandlers ≠ [] then { s with fanned := m :: s.fanned } else s
  | none => s

/-- The message listener of `connectCompanion`. -/
def onMessageEvent (s : Session) (m : Message) : Session :=
  let type := m.type?.getD ""
  let waiter := if type = "" then none else s.pending.get? type
  match waiter with
  | some p =>
    let s := s.clearTimeout p
    let s := { s with pending := s.pending.delete type }
    s.settle p (.resolved m)
  | none =>
    let s := s.dispatchFanIn m
    { s with queue := s.queue ++ [m] }

/-- The message has the type: the callback of `queue.findIndex` in `waitType`. -/
def hasType (type : String) (m : Message) : Bool := m.type? = some type

/-- `waitType(type, timeoutMs)`. The first queued message of the type is spliced out and settles
the promise at once; otherwise the promise waits in `pending`, in the place of an earlier one. -/
def waitType (s : Session) (type : String) (timeoutMs : Nat) : Session :=
  let p := s.promises.length
  let promised : Session := { s with promises := s.promises ++ [{ type, settled := none }] }
  match s.queue.find? (hasType type) with
  | some m =>
    let spliced : Session := { promised with queue := s.queue.eraseP (hasType type) }
    spliced.settle p (.resolved m)
  | none =>
    { promised with
      timers := s.timers ++ [{ promise := p, due := s.now + timeoutMs }]
      pending := s.pending.set type p }

/-- The timeout callback of `waitType`. It deletes the entry of its type, whoever set it. -/
def timeout (s : Session) (p : Nat) : Session :=
  match s.promises[p]? with
  | some w =>
    let s := s.clearTimeout p
    let s := { s with pending := s.pending.delete w.type }
    s.settle p (.rejected s!"timeout waiting for {w.type}")
  | none => s

end Session

/-- What can happen to a session. A frame is `none` when `JSON.parse` rejects its text. -/
inductive Event where
  | waitType (type : String) (timeoutMs : Nat)
  | timeout (p : Nat)
  | message (frame : Option Json)
  | subscribe (handler : Nat)
  | unsubscribe (handler : Nat)
  | elapse (ms : Nat)

/-- One event; a timer runs only when it is armed and due. -/
def Session.step (s : Session) : Event → Option Session
  | .waitType type timeoutMs => some (s.waitType type timeoutMs)
  | .timeout p =>
    if s.timers.any fun t => t.promise = p ∧ t.due ≤ s.now then some (s.timeout p) else none
  | .message frame =>
    let s' := { s with arrived := s.arrived + 1 }
    match frame with
    | some body => some (s'.onMessageEvent { serial := s.arrived, body })
    | none => some s'
  | .subscribe handler => some { s with fanInHandlers := s.fanInHandlers.insert handler }
  | .unsubscribe handler => some { s with fanInHandlers := s.fanInHandlers.erase handler }
  | .elapse ms => some { s with now := s.now + ms }

end LanguageLlm.Client
