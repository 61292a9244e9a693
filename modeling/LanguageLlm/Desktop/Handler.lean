import LanguageLlm.Desktop.State

/-!
# Handlers as programs

A handler of a message is a program that sends messages, reads the clock, holds a mutex of the
companion for one critical section at a time and asks what lies outside the companion. Handlers of
different connections interleave between these actions.
-/

namespace LanguageLlm.Desktop

/-- What lies outside: `serde_json` and `base64`. -/
structure External where
  /-- `Value::to_string`. -/
  toString : Json → String
  /-- `serde_json::from_str`. -/
  fromStr : String → Option Json
  /-- `STANDARD.decode`. -/
  decodeBase64 : String → Option (List UInt8)

/-- What an action may be answered from outside. -/
structure Answers where
  /-- Two calls of `Uuid::new_v4`. -/
  uuids : BitVec 128 × BitVec 128
  /-- The translation model: its mode and its backend. -/
  translator : InferenceMode × Option Backend
  /-- `plan_asr_job` for the requested model, or for the default one: `none` without a model
  manager, else the plan, or the model that was tried and the display of the error. -/
  asrPlan : Option String → Option (Except (String × String) Json)
  /-- The default model for live audio with its mode. -/
  asrModel : String × InferenceMode
  /-- What the run of `whisper.cpp` with a model returns, or the text of its failure. -/
  whisper : String → Except String String
  /-- The response of the lyrics provider. -/
  tracks : Option Json
  /-- Which of the rows with one sort key SQLite returns. -/
  tie : Nat

/-- A program. -/
inductive Handler (α : Type) where
  | pure (a : α)
  /-- The task panics. -/
  | panic
  | send (message : Json) (next : Handler α)
  | now (next : Nat → Handler α)
  | ask (next : Answers → Handler α)
  /-- A critical section at a time, with what it returns. -/
  | lock (update : Nat → Answers → Stores → Stores) (next : Nat → Answers → Stores → Handler α)
  /-- A request to the lyrics provider. -/
  | fetch (url : String) (next : Option Json → Handler α)

namespace Handler

def bind {α β : Type} : Handler α → (α → Handler β) → Handler β
  | pure a, f => f a
  | panic, _ => panic
  | send message next, f => send message (next.bind f)
  | now next, f => now fun t => (next t).bind f
  | ask next, f => ask fun a => (next a).bind f
  | lock update next, f => lock update fun t a s => (next t a s).bind f
  | fetch url next, f => fetch url fun r => (next r).bind f

instance : Monad Handler where
  pure := Handler.pure
  bind := Handler.bind

/-- `sink.send(Message::Text(..)).await`, whose result is ignored. -/
def reply (message : Json) : Handler Unit := send message (pure ())

/-- `now_ms()`. -/
def nowMs : Handler Nat := now pure

/-- What an oracle answers. -/
def answer {α : Type} (f : Answers → α) : Handler α := ask fun a => pure (f a)

/-- `state.jobs.lock().unwrap()`. -/
def lockJobs {α : Type} (f : Nat → JobRegistry → α × JobRegistry) : Handler α :=
  lock (fun t _ s => { s with jobs := (f t s.jobs).2 }) fun t _ s => pure (f t s.jobs).1

/-- `state.capture.lock().unwrap()`, which panics when the mutex is poisoned. A `none` is a panic of
the critical section itself. -/
def lockCapture {α : Type} (f : Answers → CaptureJobQueue → Option α × CaptureJobQueue) :
    Handler α :=
  lock
    (fun _ a s =>
      if s.capturePoisoned then s
      else
        { s with
          capture := (f a s.capture).2
          capturePoisoned := (f a s.capture).1.isNone })
    fun _ a s =>
      if s.capturePoisoned then panic
      else
        match (f a s.capture).1 with
        | some r => pure r
        | none => panic

/-- `with_sqlite`: `none` without a database or when the statements fail. -/
def withSqlite {α : Type} (f : Nat → Answers → SqliteStore → Option α × SqliteStore) :
    Handler (Option α) :=
  lock (fun t a s => { s with sqlite := s.sqlite.map fun db => (f t a db).2 })
    fun t a s => pure (s.sqlite.bind fun db => (f t a db).1)

/-- `state.memory.lock().unwrap()`. -/
def lockMemory {α : Type} (f : MemoryStore → α × MemoryStore) : Handler α :=
  lock (fun _ _ s => { s with memory := (f s.memory).2 }) fun _ _ s => pure (f s.memory).1

def lyricsNetworkAllowed : Handler Bool :=
  lock (fun _ _ s => s) fun _ _ s => pure s.lyricsNetworkAllowed

def setLyricsNetworkAllowed (allowed : Bool) : Handler Unit :=
  lock (fun _ _ s => { s with lyricsNetworkAllowed := allowed }) fun _ _ _ => pure ()

/-- A request to the lyrics provider; `none` when it fails. -/
def get (url : String) : Handler (Option Json) := fetch url pure

end Handler

end LanguageLlm.Desktop
