import Mathlib.Data.Fintype.EquivFin
import LanguageLlm.Lib.Locking
import LanguageLlm.Desktop.State

/-!
# The desktop manager

The functions of `manager.rs` and `lib.rs` that the commands of the GUI run on the stores. A guard
of a mutex lives to the end of its scope, so these functions say where they acquire and release the
mutexes of the companion. The mutexes are not reentrant: a thread that locks one that it holds never
returns.
-/

namespace LanguageLlm.Desktop

open Lib

/-- The mutexes of `CompanionState` that are held for more than a copy of a value. -/
inductive Mutex where
  | sqlite
  | memory
  | jobs
  | capture
  | modelManager
  deriving DecidableEq

instance : Fintype Mutex where
  elems := {.sqlite, .memory, .jobs, .capture, .modelManager}
  complete m := by cases m <;> simp

/-- A function that locks mutexes and works on the stores. -/
inductive Procedure (α : Type) where
  | pure (a : α)
  | acquire (m : Mutex) (next : Procedure α)
  /-- The guard is dropped. -/
  | release (m : Mutex) (next : Procedure α)
  | access (update : Stores → Stores) (next : Stores → Procedure α)

namespace Procedure

def bind {α β : Type} : Procedure α → (α → Procedure β) → Procedure β
  | pure a, f => f a
  | acquire m next, f => acquire m (next.bind f)
  | release m next, f => release m (next.bind f)
  | access update next, f => access update fun s => (next s).bind f

instance : Monad Procedure where
  pure := Procedure.pure
  bind := Procedure.bind

/-- `m.lock()`. -/
def lock (m : Mutex) : Procedure Unit := acquire m (pure ())

/-- `drop(guard)`. -/
def unlock (m : Mutex) : Procedure Unit := release m (pure ())

/-- What is done under the mutexes that are held. -/
def modify {α : Type} (f : Stores → α × Stores) : Procedure α :=
  access (fun s => (f s).2) fun s => pure (f s).1

/-- The outcome of a procedure that runs with the mutexes `held`; `none` when it waits for one that
it holds itself. -/
def run {α : Type} (held : List Mutex) (s : Stores) : Procedure α → Option (α × Stores)
  | pure a => some (a, s)
  | acquire m next => if m ∈ held then none else next.run (m :: held) s
  | release m next => next.run (held.erase m) s
  | access update next => (next s).run held (update s)

end Procedure

open Procedure

/-- `clear_lyrics_cache`. -/
def clearLyricsCache (videoId : Option String) : Procedure Nat := do
  let start := match videoId with
    | some v => "lyrics|" ++ v ++ "|"
    | none => "lyrics|"
  lock .memory
  let n ← modify fun s => ((s.memory.clearPrefix start).1,
    { s with memory := (s.memory.clearPrefix start).2 })
  unlock .memory
  lock .sqlite
  let cleared ← modify fun s => (s.sqlite.map fun db => (db.clearLyricsPrefix start).1,
    { s with sqlite := s.sqlite.map fun db => (db.clearLyricsPrefix start).2 })
  unlock .sqlite
  return cleared.getD n

/-- `manager::privacy_wipe`. The guard of the database is dropped at its end. -/
def privacyWipe (scope : String) : Procedure (Except String Json) := do
  match PrivacyWipeScope.parse scope with
  | none => return .error "unknown privacy wipe scope"
  | some scope =>
    lock .sqlite
    let wiped ← modify fun s => (s.sqlite.map fun db => (db.privacyWipe scope).1,
      { s with sqlite := s.sqlite.map fun db => (db.privacyWipe scope).2 })
    match wiped with
    | none =>
      unlock .sqlite
      return .error "sqlite store unavailable"
    | some cleared =>
      if scope = .all ∨ scope = .lyrics then
        let _ ← clearLyricsCache none
      if scope = .all then
        lock .memory
        modify fun s => ((), { s with memory := s.memory.clearAll })
        unlock .memory
      unlock .sqlite
      return .ok (.obj [("cleared", .obj (cleared.map fun c => (c.1, .nat c.2)))])

/-- The command `cancel_job`. -/
def cancelJob (jobId : String) : Procedure Bool := do
  lock .jobs
  let ok ← modify fun s => ((s.jobs.cancel jobId).1, { s with jobs := (s.jobs.cancel jobId).2 })
  unlock .jobs
  return ok

end LanguageLlm.Desktop
