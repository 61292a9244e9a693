import Mathlib.Logic.Function.Basic
import Mathlib.Data.List.Infix
import LanguageLlm.Lib.Run

/-!
# Schema migrations

`SqliteStore::open` (`local-store`), statement by statement: any number of processes open one
database file, and any of them may stop between two statements. `migrations_safe_iff` says in which
runs every open succeeds.
-/

namespace LanguageLlm.Desktop

open Lib

/-! ## The database -/

/-- The tables with data. -/
inductive Table where
  | transcripts
  | translations
  | lyricsCache
  | pageTranslateCache
  | studyData
  | dictionaries
  | dictionaryEntries
  | prefs
  deriving DecidableEq

/-- A row of `schema_migrations`. -/
structure MigrationRow where
  version : Nat
  appliedAtMs : Nat

/-- The database file; a table that does not exist is `none`. -/
structure Database (ρ : Type) where
  schemaMigrations : Option (List MigrationRow)
  tables : Table → Option (List ρ)
  indexes : List String

/-- A statement of `migrate`. -/
inductive Statement where
  | pragmaJournalModeWal
  | createSchemaMigrations
  | createTable (table : Table)
  | createIndex (name : String) (table : Table)
  | insertVersion (version : Nat)
  deriving DecidableEq

def migrationV1 : List Statement :=
  [.pragmaJournalModeWal, .createSchemaMigrations, .createTable .transcripts,
    .createTable .translations,
    .createTable .lyricsCache, .createTable .pageTranslateCache, .createTable .studyData,
    .createIndex "idx_lyrics_video" .lyricsCache, .createIndex "idx_page_url" .pageTranslateCache,
    .createIndex "idx_study_kind" .studyData]

def migrationV2 : List Statement :=
  [.createTable .dictionaries, .createTable .dictionaryEntries,
    .createIndex "idx_dict_surface" .dictionaryEntries, .createTable .prefs]

/-- What SQLite answers to a statement. -/
inductive StoreError where
  | noSuchTable
  | constraint
  deriving DecidableEq

namespace Database

variable {ρ : Type}

/-- A new file. -/
def empty : Database ρ where
  schemaMigrations := none
  tables _ := none
  indexes := []

/-- The versions of `schema_migrations`. -/
def versions (db : Database ρ) : List Nat := (db.schemaMigrations.getD []).map MigrationRow.version

/-- `IF NOT EXISTS` for what is created, and the primary key of `schema_migrations`. -/
def execute (db : Database ρ) (now : Nat) : Statement → Except StoreError (Database ρ)
  | .pragmaJournalModeWal => .ok db
  | .createSchemaMigrations =>
    .ok { db with schemaMigrations := some (db.schemaMigrations.getD []) }
  | .createTable table =>
    .ok { db with tables := Function.update db.tables table (some ((db.tables table).getD [])) }
  | .createIndex name table =>
    if name ∈ db.indexes then .ok db
    else if (db.tables table).isNone then .error .noSuchTable
    else .ok { db with indexes := name :: db.indexes }
  | .insertVersion version =>
    match db.schemaMigrations with
    | none => .error .noSuchTable
    | some rows =>
      if version ∈ db.versions then .error .constraint
      else .ok { db with schemaMigrations := some (rows ++ [{ version, appliedAtMs := now }]) }

/-- `SELECT COALESCE(MAX(version), 0) FROM schema_migrations`, or 0 when it fails. -/
def currentVersion (db : Database ρ) : Nat := db.versions.foldl max 0

end Database

/-! ## The processes -/

/-- What `migrate` does after it has read the version. -/
def updates (current : Nat) : List Statement :=
  (if current < 1 then [.insertVersion 1] else []) ++
    if current < 2 then migrationV2 ++ [.insertVersion 2] else []

/-- A process that opens the file: the statements before it reads the version, and those after. -/
inductive Opener where
  | migrating (rest : List Statement)
  | updating (rest : List Statement)
  | opened
  | failed (e : StoreError)
  | stopped
  deriving DecidableEq

/-- The statement that a process executes next. -/
def Opener.next : Opener → Option Statement
  | .migrating (st :: _) | .updating (st :: _) => some st
  | .migrating [] | .updating [] | .opened | .failed _ | .stopped => none

/-- The file and the processes, in the order in which they came. -/
structure Openers (ρ : Type) where
  db : Database ρ
  processes : List Opener

/-- A process comes, executes its next statement, stops, or writes rows once it has opened the file.
-/
inductive OpenerAction (ρ : Type) where
  | come
  | execute (p : Nat) (now : Nat)
  | stop (p : Nat)
  | write (p : Nat) (table : Table) (rows : List ρ)

namespace Openers

variable {ρ : Type}

def start : Openers ρ where
  db := .empty
  processes := []

/-- The next statement of a process. -/
def executeNext (s : Openers ρ) (p now : Nat) : Option (Openers ρ) :=
  let run (st : Statement) (next : Opener) : Openers ρ :=
    match s.db.execute now st with
    | .ok db => { db, processes := s.processes.set p next }
    | .error e => { s with processes := s.processes.set p (.failed e) }
  match s.processes[p]? with
  | some (.migrating (st :: rest)) => some (run st (.migrating rest))
  | some (.migrating []) =>
    some { s with processes := s.processes.set p (.updating (updates s.db.currentVersion)) }
  | some (.updating (st :: rest)) => some (run st (.updating rest))
  | some (.updating []) => some { s with processes := s.processes.set p .opened }
  | _ => none

def step (s : Openers ρ) : OpenerAction ρ → Option (Openers ρ)
  | .come => some { s with processes := s.processes ++ [.migrating migrationV1] }
  | .execute p now => s.executeNext p now
  | .stop p =>
    if p < s.processes.length then some { s with processes := s.processes.set p .stopped } else none
  | .write p table rows =>
    if s.processes[p]? = some .opened ∧ (s.db.tables table).isSome then
      some { s with db := { s.db with tables := Function.update s.db.tables table (some rows) } }
    else none

end Openers

/-! ## What the statements do -/

section Statements

variable {ρ : Type} {db db' : Database ρ} {st : Statement} {now : Nat}

/-- What the statement is for is there. -/
def Done (db : Database ρ) : Statement → Prop
  | .pragmaJournalModeWal => True
  | .createSchemaMigrations => db.schemaMigrations.isSome
  | .createTable table => (db.tables table).isSome
  | .createIndex name _ => name ∈ db.indexes
  | .insertVersion version => version ∈ db.versions

/-- No row is lost or changed. -/
structure KeepsRows (db db' : Database ρ) : Prop where
  tables : ∀ table rows, db.tables table = some rows → db'.tables table = some rows
  versions : ∀ rows, db.schemaMigrations = some rows →
    ∃ more, db'.schemaMigrations = some (rows ++ more)

theorem KeepsRows.refl (db : Database ρ) : KeepsRows db db :=
  ⟨fun _ _ h => h, fun rows h => ⟨[], by rw [List.append_nil, h]⟩⟩

/-- What a statement needs before it. -/
def needs : Statement → List Statement
  | .createIndex _ table => [.createTable table]
  | .insertVersion 1 => [.createSchemaMigrations]
  | .insertVersion _ => migrationV1 ++ [.insertVersion 1] ++ migrationV2
  | .pragmaJournalModeWal | .createSchemaMigrations | .createTable _ => []

/-- All statements in their order. -/
def program : List Statement := migrationV1 ++ updates 0

/-- Every statement comes after what it needs. -/
theorem needs_past {past rest : List Statement} (h : program = past ++ st :: rest) :
    ∀ need ∈ needs st, need ∈ past := by
  -- the list is fixed, so that its beginnings can be looked through
  have hall : ∀ before ∈ program.inits, ∀ next ∈ (program.drop before.length).head?,
    ∀ need ∈ needs next,
      need ∈ before := by
    decide
  have hinit : past ∈ program.inits := (List.mem_inits ..).2 ⟨st :: rest, h.symm⟩
  refine hall past hinit st ?_
  rw [h, List.drop_left]
  rfl

theorem version_of_mem {version : Nat} (h : .insertVersion version ∈ program) :
    version = 1 ∨ version = 2 := by
  simpa [program, migrationV1, updates, migrationV2] using h

/-- What a statement that succeeds does. -/
theorem execute_cases (h : db.execute now st = .ok db') :
    (db' = db ∧ (st = .pragmaJournalModeWal ∨ ∃ name table, st = .createIndex name table ∧
      name ∈ db.indexes)) ∨
    (st = .createSchemaMigrations ∧
      db' = { db with schemaMigrations := some (db.schemaMigrations.getD []) }) ∨
    (∃ table, st = .createTable table ∧
      db' = { db with
        tables := Function.update db.tables table (some ((db.tables table).getD [])) }) ∨
    (∃ name table, st = .createIndex name table ∧ db' = { db with indexes := name :: db.indexes }) ∨
    ∃ version rows, st = .insertVersion version ∧ db.schemaMigrations = some rows ∧
      version ∉ db.versions ∧
      db' = { db with schemaMigrations := some (rows ++ [{ version, appliedAtMs := now }]) } := by
  cases st with
  | pragmaJournalModeWal =>
    cases h
    exact Or.inl ⟨rfl, Or.inl rfl⟩
  | createSchemaMigrations =>
    cases h
    exact Or.inr (Or.inl ⟨rfl, rfl⟩)
  | createTable table =>
    cases h
    exact Or.inr (Or.inr (Or.inl ⟨table, rfl, rfl⟩))
  | createIndex name table =>
    simp only [Database.execute] at h
    split at h
    · next hmem =>
      cases h
      exact Or.inl ⟨rfl, Or.inr ⟨name, table, rfl, hmem⟩⟩
    · split at h
      · cases h
      · cases h
        exact Or.inr (Or.inr (Or.inr (Or.inl ⟨name, table, rfl, rfl⟩)))
  | insertVersion version =>
    simp only [Database.execute] at h
    split at h
    · cases h
    · next rows hrows =>
      split at h
      · cases h
      · next hnew =>
        cases h
        exact Or.inr (Or.inr (Or.inr (Or.inr ⟨version, rows, rfl, hrows, hnew, rfl⟩)))

theorem execute_done (h : db.execute now st = .ok db') : Done db' st := by
  rcases execute_cases h with ⟨rfl, rfl | ⟨name, table, rfl, hmem⟩⟩ | ⟨rfl, rfl⟩ |
    ⟨table, rfl, rfl⟩ | ⟨name, table, rfl, rfl⟩ | ⟨version, rows, rfl, hrows, hnew, rfl⟩
  · trivial
  · exact hmem
  · exact rfl
  · simp [Done]
  · exact List.mem_cons_self
  · simp [Done, Database.versions]

theorem execute_keepsRows (h : db.execute now st = .ok db') : KeepsRows db db' := by
  rcases execute_cases h with ⟨rfl, -⟩ | ⟨rfl, rfl⟩ | ⟨table, rfl, rfl⟩ | ⟨name, table, rfl, rfl⟩ |
    ⟨version, rows, rfl, hrows, hnew, rfl⟩
  · exact .refl db'
  · exact ⟨fun _ _ hrows => hrows, fun rows hrows => ⟨[], by simp [hrows]⟩⟩
  · refine ⟨fun table' rows hrows => ?_, (KeepsRows.refl db).versions⟩
    by_cases htable : table' = table
    · subst htable
      simp [hrows]
    · exact (Function.update_of_ne htable ..).trans hrows
  · exact ⟨fun _ _ hrows => hrows, (KeepsRows.refl db).versions⟩
  · refine ⟨fun _ _ hrows => hrows, fun rows' hrows' => ⟨[{ version, appliedAtMs := now }], ?_⟩⟩
    rw [hrows] at hrows'
    cases hrows'
    rfl

/-- The versions change with a version that is recorded. -/
theorem execute_versions (h : db.execute now st = .ok db') :
    db'.versions = db.versions ∨
      ∃ version, st = .insertVersion version ∧ version ∉ db.versions ∧
        db'.versions = db.versions ++ [version] := by
  rcases execute_cases h with ⟨rfl, -⟩ | ⟨rfl, rfl⟩ | ⟨table, rfl, rfl⟩ | ⟨name, table, rfl, rfl⟩ |
    ⟨version, rows, rfl, hrows, hnew, rfl⟩
  · exact Or.inl rfl
  · exact Or.inl (by simp [Database.versions])
  · exact Or.inl rfl
  · exact Or.inl rfl
  · exact Or.inr ⟨version, rfl, hnew, by simp [Database.versions, hrows]⟩

/-- What is done stays done. -/
theorem execute_done_mono (h : db.execute now st = .ok db') {other : Statement}
    (hother : Done db other) :
    Done db' other := by
  have hkeeps := execute_keepsRows h
  cases other with
  | pragmaJournalModeWal => trivial
  | createSchemaMigrations =>
    obtain ⟨rows, hrows⟩ := Option.isSome_iff_exists.1 hother
    obtain ⟨more, hmore⟩ := hkeeps.versions rows hrows
    exact Option.isSome_iff_exists.2 ⟨_, hmore⟩
  | createTable table =>
    obtain ⟨rows, hrows⟩ := Option.isSome_iff_exists.1 hother
    exact Option.isSome_iff_exists.2 ⟨rows, hkeeps.tables table rows hrows⟩
  | createIndex name table =>
    rcases execute_cases h with ⟨rfl, -⟩ | ⟨rfl, rfl⟩ | ⟨table, rfl, rfl⟩ |
      ⟨name, table, rfl, rfl⟩ | ⟨version, rows, rfl, hrows, hnew, rfl⟩
    · exact hother
    · exact hother
    · exact hother
    · exact List.mem_cons_of_mem _ hother
    · exact hother
  | insertVersion version =>
    change version ∈ db'.versions
    rcases execute_versions h with hsame | ⟨new, -, -, hnew⟩
    · rwa [hsame]
    · rw [hnew]
      exact List.mem_append_left _ hother

/-- A statement that has what it needs fails only when it records a version again. -/
theorem execute_error_iff (now : Nat) (hneeds : ∀ need ∈ needs st, Done db need) :
    (∃ e, db.execute now st = .error e) ↔ ∃ version, st = .insertVersion version ∧
      version ∈ db.versions := by
  cases st with
  | pragmaJournalModeWal | createSchemaMigrations | createTable =>
    constructor
    · rintro ⟨e, ⟨⟩⟩
    · rintro ⟨version, ⟨⟩, -⟩
  | createIndex name table =>
    have htable : (db.tables table).isSome := hneeds (.createTable table) List.mem_cons_self
    constructor
    · rintro ⟨e, he⟩
      simp only [Database.execute] at he
      split at he
      · cases he
      · rw [if_neg (by simp [Option.isSome_iff_ne_none.1 htable])] at he
        cases he
    · rintro ⟨version, ⟨⟩, -⟩
  | insertVersion version =>
    have hcreated : db.schemaMigrations.isSome := by
      refine hneeds .createSchemaMigrations ?_
      unfold needs
      split <;> simp_all [migrationV1]
    obtain ⟨rows, hrows⟩ := Option.isSome_iff_exists.1 hcreated
    simp only [Database.execute, hrows]
    constructor
    · rintro ⟨e, he⟩
      split at he
      · next hmem => exact ⟨version, rfl, hmem⟩
      · cases he
    · rintro ⟨_, ⟨⟩, hmem⟩
      exact ⟨.constraint, if_pos hmem⟩

end Statements

/-! ## What holds in every run -/

/-- The statements that a process has still to execute, as far as it knows. -/
def Opener.remaining : Opener → Option (List Statement)
  | .migrating rest => some (rest ++ updates 0)
  | .updating rest => some rest
  | .opened => some []
  | .failed _ | .stopped => none

section Invariant

variable {ρ : Type} {db db' : Database ρ} {s s' : Openers ρ}

/-- All statements but the remaining ones are done. -/
def Opener.Progress (db : Database ρ) (o : Opener) : Prop :=
  ∀ rest, o.remaining = some rest → ∃ past, program = past ++ rest ∧ ∀ st ∈ past, Done db st

/-- The versions are recorded in their order, the last one when all is done. -/
def VersionsOk (db : Database ρ) : Prop :=
  db.versions = [] ∨ db.versions = [1] ∨ db.versions = [1, 2] ∧ ∀ st ∈ program, Done db st

structure Openers.Inv (s : Openers ρ) : Prop where
  versions : VersionsOk s.db
  progress : ∀ o ∈ s.processes, o.Progress s.db

theorem Opener.Progress.mono {o : Opener} (h : o.Progress db)
    (hmono : ∀ st, Done db st → Done db' st) :
    o.Progress db' := by
  intro rest hrest
  obtain ⟨past, hpast, hdone⟩ := h rest hrest
  exact ⟨past, hpast, fun st hst => hmono st (hdone st hst)⟩

theorem VersionsOk.mono (h : VersionsOk db) (hversions : db'.versions = db.versions)
    (hmono : ∀ st, Done db st → Done db' st) : VersionsOk db' := by
  rcases h with h | h | ⟨h, hall⟩
  · exact Or.inl (hversions.trans h)
  · exact Or.inr (Or.inl (hversions.trans h))
  · exact Or.inr (Or.inr ⟨hversions.trans h, fun st hst => hmono st (hall st hst)⟩)

/-- A statement keeps the order of the versions when those before it are done. -/
theorem VersionsOk.execute (hok : VersionsOk db) {past rest : List Statement} {st : Statement}
    {now : Nat} (hprogram : program = past ++ st :: rest) (hpast : ∀ other ∈ past, Done db other)
    (h : db.execute now st = .ok db') : VersionsOk db' := by
  have hmono : ∀ other, Done db other → Done db' other := fun other => execute_done_mono h
  rcases execute_versions h with hsame | ⟨version, rfl, hnew, hversions⟩
  · exact hok.mono hsame hmono
  · have hmem : .insertVersion version ∈ program := by
      rw [hprogram]
      exact List.mem_append_right _ List.mem_cons_self
    have hneeds := needs_past hprogram
    rcases version_of_mem hmem with rfl | rfl
    · rcases hok with hempty | hone | ⟨hboth, -⟩
      · exact Or.inr (Or.inl (by rw [hversions, hempty]; rfl))
      · exact absurd (by rw [hone]; decide) hnew
      · exact absurd (by rw [hboth]; decide) hnew
    · have hfirst : 1 ∈ db.versions := hpast (.insertVersion 1) (hneeds _ (by decide))
      rcases hok with hempty | hone | ⟨hboth, -⟩
      · rw [hempty] at hfirst
        cases hfirst
      · refine Or.inr (Or.inr ⟨by rw [hversions, hone]; rfl, fun other hother => ?_⟩)
        have hall : ∀ other ∈ program, other ∈ needs (.insertVersion 2) ∨
          other = .insertVersion 2 := by decide
        rcases hall other hother with hother | rfl
        · exact hmono other (hpast other (hneeds other hother))
        · exact execute_done h
      · exact absurd (by rw [hboth]; decide) hnew

/-- Replacing one process. -/
theorem Openers.Inv.set (hs : s.Inv) {p : Nat} {o : Opener} (hversions : VersionsOk db)
    (hmono : ∀ st, Done s.db st → Done db st) (ho : o.Progress db) :
    Openers.Inv { db, processes := s.processes.set p o } where
  versions := hversions
  progress o' ho' := by
    rcases List.mem_or_eq_of_mem_set ho' with ho' | rfl
    · exact (hs.progress o' ho').mono hmono
    · exact ho

/-- What a process does next: a statement, which succeeds or fails, the reading of the version, or
the return. -/
theorem executeNext_cases {p now : Nat} (h : s.executeNext p now = some s') :
    (∃ o st rest next, s.processes[p]? = some o ∧ o.next = some st ∧
      o.remaining = some (st :: rest) ∧
      ((∃ db, s.db.execute now st = .ok db ∧ next.remaining = some rest ∧
          s' = { db, processes := s.processes.set p next }) ∨
        ∃ e, s.db.execute now st = .error e ∧
          s' = { s with processes := s.processes.set p (.failed e) })) ∨
    (s.processes[p]? = some (.migrating []) ∧
      s' = { s with processes := s.processes.set p (.updating (updates s.db.currentVersion)) }) ∨
    (s.processes[p]? = some (.updating []) ∧
      s' = { s with processes := s.processes.set p .opened }) := by
  unfold Openers.executeNext at h
  dsimp only at h
  split at h
  · next st rest ho =>
    refine Or.inl ⟨_, st, rest ++ updates 0, .migrating rest, ho, rfl, rfl, ?_⟩
    cases hexecute : s.db.execute now st with
    | ok db =>
      rw [hexecute] at h
      cases h
      exact Or.inl ⟨db, rfl, rfl, rfl⟩
    | error e =>
      rw [hexecute] at h
      cases h
      exact Or.inr ⟨e, rfl, rfl⟩
  · next ho =>
    cases h
    exact Or.inr (Or.inl ⟨ho, rfl⟩)
  · next st rest ho =>
    refine Or.inl ⟨_, st, rest, .updating rest, ho, rfl, rfl, ?_⟩
    cases hexecute : s.db.execute now st with
    | ok db =>
      rw [hexecute] at h
      cases h
      exact Or.inl ⟨db, rfl, rfl, rfl⟩
    | error e =>
      rw [hexecute] at h
      cases h
      exact Or.inr ⟨e, rfl, rfl⟩
  · next ho =>
    cases h
    exact Or.inr (Or.inr ⟨ho, rfl⟩)
  · cases h

/-- A process goes on where the version that it reads says. -/
theorem progress_updates (hok : VersionsOk db) (hdone : ∀ st ∈ migrationV1, Done db st) :
    (Opener.updating (updates db.currentVersion)).Progress db := by
  intro rest hrest
  cases hrest
  rw [Database.currentVersion]
  rcases hok with hempty | hone | ⟨hboth, hall⟩
  · rw [hempty]
    exact ⟨migrationV1, rfl, hdone⟩
  · rw [hone]
    refine ⟨migrationV1 ++ [.insertVersion 1], rfl, fun st hst => ?_⟩
    rcases List.mem_append.1 hst with hst | hst
    · exact hdone st hst
    · obtain rfl := List.mem_singleton.1 hst
      change 1 ∈ db.versions
      rw [hone]
      exact List.mem_cons_self
  · rw [hboth]
    exact ⟨program, rfl, hall⟩

/-- A process that has executed a statement has one less to execute. -/
theorem Opener.Progress.execute {o next : Opener} {rest : List Statement} (ho : o.Progress db)
    (hrest : o.remaining = some (st :: rest)) (hexecute : db.execute now st = .ok db')
    (hnext : next.remaining = some rest) : next.Progress db' := by
  obtain ⟨past, hprogram, hpast⟩ := ho _ hrest
  intro rest' hrest'
  rw [hnext] at hrest'
  cases hrest'
  refine ⟨past ++ [st], by rw [hprogram, List.append_assoc]; rfl, fun other hother => ?_⟩
  rcases List.mem_append.1 hother with hother | hother
  · exact execute_done_mono hexecute (hpast other hother)
  · obtain rfl := List.mem_singleton.1 hother
    exact execute_done hexecute

/-- The rows that a process writes leave done what is done. -/
theorem done_write (table : Table) (rows : List ρ) (hst : Done db st) :
    Done { db with tables := Function.update db.tables table (some rows) } st := by
  cases st with
  | createTable table' =>
    by_cases htable : table' = table
    · subst htable
      simp [Done]
    · exact (congrArg Option.isSome (Function.update_of_ne htable ..)).trans hst
  | _ => exact hst

theorem inv_step {l : OpenerAction ρ} (hs : s.Inv) (hstep : s.step l = some s') : s'.Inv := by
  cases l with
  | come =>
    cases hstep
    refine ⟨hs.versions, fun o ho => ?_⟩
    rcases List.mem_append.1 ho with ho | ho
    · exact hs.progress o ho
    · obtain rfl := List.mem_singleton.1 ho
      rintro rest ⟨⟩
      exact ⟨[], rfl, nofun⟩
  | stop p =>
    simp only [Openers.step] at hstep
    split at hstep
    · cases hstep
      exact hs.set hs.versions (fun _ h => h) nofun
    · cases hstep
  | write p table rows =>
    simp only [Openers.step] at hstep
    split at hstep
    · next hopen =>
      cases hstep
      refine ⟨hs.versions.mono rfl fun _ => done_write table rows, fun o ho => ?_⟩
      exact (hs.progress o ho).mono fun _ => done_write table rows
    · cases hstep
  | execute p now =>
    rcases executeNext_cases hstep with
      ⟨o, st, rest, next, ho, -, hrest, hnext⟩ | ⟨ho, rfl⟩ | ⟨ho, rfl⟩
    · have hprogress := hs.progress o (List.mem_of_getElem? ho)
      rcases hnext with ⟨db, hexecute, hnext, rfl⟩ | ⟨e, -, rfl⟩
      · obtain ⟨past, hprogram, hpast⟩ := hprogress _ hrest
        have hversions := hs.versions.execute hprogram hpast hexecute
        have hmono : ∀ other, Done s.db other → Done db other := fun _ => execute_done_mono hexecute
        exact hs.set hversions hmono (hprogress.execute hrest hexecute hnext)
      · exact hs.set hs.versions (fun _ h => h) nofun
    · obtain ⟨past, hprogram, hpast⟩ := hs.progress _ (List.mem_of_getElem? ho) _ rfl
      obtain rfl := List.append_cancel_right hprogram
      exact hs.set hs.versions (fun _ h => h) (progress_updates hs.versions hpast)
    · have hprogress := hs.progress _ (List.mem_of_getElem? ho)
      exact hs.set hs.versions (fun _ h => h) hprogress

theorem inv_run {h : List (Fired (Openers ρ) (OpenerAction ρ))} (hr : Run Openers.step .start h s) :
    s.Inv := by
  refine hr.inv Openers.Inv ⟨Or.inl rfl, fun o ho => ?_⟩ fun _ _ _ => inv_step
  cases ho

/-! ## Every open succeeds -/

/-- All tables are there, and the two versions are recorded. -/
structure Database.Complete (db : Database ρ) : Prop where
  tables : ∀ table, (db.tables table).isSome
  versions : db.versions = [1, 2]

/-- In this step no open fails, the database is complete for the processes that have opened it, and
no row is lost or changed except by a process that writes it. -/
structure OpensSafely (f : Fired (Openers ρ) (OpenerAction ρ)) : Prop where
  returnsOk : ∀ (p : Nat) (e : StoreError), f.post.processes[p]? = some (Opener.failed e) →
    f.pre.processes[p]? = some (Opener.failed e)
  complete : ∀ p : Nat, f.post.processes[p]? = some Opener.opened → f.post.db.Complete
  keeps : (∀ p table rows, f.label ≠ .write p table rows) → KeepsRows f.pre.db f.post.db

/-- A process that is about to record a version does not find it recorded. -/
def OpenerAction.Records (s : Openers ρ) : OpenerAction ρ → Prop
  | .execute p _ =>
    ∀ version, s.processes[p]?.bind Opener.next = some (.insertVersion version) →
    version ∉ s.db.versions
  | .come | .stop _ | .write .. => True

/-- A process that has opened the file has done everything. -/
theorem Openers.Inv.complete (hs : s.Inv) {p : Nat} (hp : s.processes[p]? = some .opened) :
    s.db.Complete := by
  obtain ⟨past, hprogram, hpast⟩ := hs.progress _ (List.mem_of_getElem? hp) [] rfl
  rw [List.append_nil] at hprogram
  subst hprogram
  constructor
  · intro table
    exact hpast (.createTable table) (by cases table <;> decide)
  · have hlast : 2 ∈ s.db.versions := hpast (.insertVersion 2) (by decide)
    rcases hs.versions with hempty | hone | ⟨hboth, -⟩
    · rw [hempty] at hlast
      cases hlast
    · rw [hone] at hlast
      exact absurd hlast (by decide)
    · exact hboth

theorem keepsRows_step {l : OpenerAction ρ} (hstep : s.step l = some s')
    (hl : ∀ p table rows, l ≠ .write p table rows) : KeepsRows s.db s'.db := by
  cases l with
  | come =>
    cases hstep
    exact .refl s.db
  | stop p =>
    simp only [Openers.step] at hstep
    split at hstep
    · cases hstep
      exact .refl s.db
    · cases hstep
  | write p table rows => exact absurd rfl (hl p table rows)
  | execute p now =>
    rcases executeNext_cases hstep with
      ⟨o, st, rest, next, -, -, -, ⟨db, hexecute, -, rfl⟩ | ⟨e, -, rfl⟩⟩ | ⟨-, rfl⟩ | ⟨-, rfl⟩
    · exact execute_keepsRows hexecute
    · exact .refl s.db
    · exact .refl s.db
    · exact .refl s.db

/-- A process that goes on to another state than a failure fails nobody. -/
theorem failed_of_set {ps : List Opener} {p q : Nat} {o : Opener} {e : StoreError}
    (ho : o ≠ .failed e)
    (h : (ps.set p o)[q]? = some (Opener.failed e)) : ps[q]? = some (Opener.failed e) := by
  rw [List.getElem?_set] at h
  split at h
  · split at h
    · exact absurd (Option.some.inj h) ho
    · cases h
  · exact h

/-- The next statement of a process fails exactly when it records a version again. -/
theorem statement_fails_iff (now : Nat) (hs : s.Inv) {p : Nat} {o : Opener} {rest : List Statement}
    (ho : s.processes[p]? = some o) (hst : o.next = some st)
    (hrest : o.remaining = some (st :: rest)) :
    (∃ e, s.db.execute now st = .error e) ↔ ¬ OpenerAction.Records s (.execute p now) := by
  obtain ⟨past, hprogram, hpast⟩ := hs.progress o (List.mem_of_getElem? ho) _ hrest
  have hbind : s.processes[p]?.bind Opener.next = some st := by rw [ho, Option.bind_some, hst]
  rw [execute_error_iff now fun need hneed => hpast need (needs_past hprogram need hneed),
    OpenerAction.Records, hbind]
  constructor
  · intro ⟨version, heq, hmem⟩ hrecords
    exact hrecords version (congrArg some heq) hmem
  · intro hnot
    push Not at hnot
    obtain ⟨version, heq, hmem⟩ := hnot
    exact ⟨version, Option.some.inj heq, hmem⟩

theorem returnsOk_iff {l : OpenerAction ρ} (hs : s.Inv) (hstep : s.step l = some s') :
    (∀ (p : Nat) (e : StoreError), s'.processes[p]? = some (Opener.failed e) →
      s.processes[p]? = some (Opener.failed e)) ↔ l.Records s := by
  cases l with
  | come =>
    cases hstep
    refine iff_of_true (fun (p : Nat) e h => ?_) (show True from trivial)
    rw [List.getElem?_append] at h
    split at h
    · exact h
    · rw [List.getElem?_singleton] at h
      split at h <;> cases h
  | stop p =>
    simp only [Openers.step] at hstep
    split at hstep
    · cases hstep
      exact iff_of_true (fun _ _ => failed_of_set nofun) (show True from trivial)
    · cases hstep
  | write p table rows =>
    simp only [Openers.step] at hstep
    split at hstep
    · cases hstep
      exact iff_of_true (fun _ _ h => h) (show True from trivial)
    · cases hstep
  | execute p now =>
    rcases executeNext_cases hstep with
      ⟨o, st, rest, next, ho, hst, hrest, hnext⟩ | ⟨ho, rfl⟩ | ⟨ho, rfl⟩
    · have hfails := statement_fails_iff now hs ho hst hrest
      rcases hnext with ⟨db, hexecute, hnext, rfl⟩ | ⟨e, hexecute, rfl⟩
      · refine iff_of_true (fun _ _ => failed_of_set ?_) (not_not.1 fun hrecords => ?_)
        · intro hfailed
          subst hfailed
          cases hnext
        · obtain ⟨e, he⟩ := hfails.2 hrecords
          rw [hexecute] at he
          cases he
      · refine iff_of_false (fun hall => ?_) (hfails.1 ⟨e, hexecute⟩)
        obtain ⟨hlt, -⟩ := List.getElem?_eq_some_iff.1 ho
        have hsame := hall p e (List.getElem?_set_self hlt)
        rw [ho] at hsame
        cases hsame
        cases hrest
    · refine iff_of_true (fun _ _ => failed_of_set nofun) fun version hversion => ?_
      rw [ho] at hversion
      cases hversion
    · refine iff_of_true (fun _ _ => failed_of_set nofun) fun version hversion => ?_
      rw [ho] at hversion
      cases hversion

/-- Every open that ends succeeds, with a complete database and all rows kept, exactly when no
process is about to record a version that another one has recorded since it read the version. -/
theorem migrations_safe_iff {h : List (Fired (Openers ρ) (OpenerAction ρ))}
    (hr : Run Openers.step .start h s) :
    (∀ f ∈ h, OpensSafely f) ↔ ∀ f ∈ h, f.label.Records f.pre := by
  refine forall₂_congr fun f hf => ?_
  obtain ⟨hstep, h', hr', -⟩ := hr.mem hf
  have hpre := inv_run hr'
  have hpost := inv_step hpre hstep
  rw [← returnsOk_iff hpre hstep]
  exact ⟨fun hsafe => hsafe.returnsOk,
    fun hok => ⟨hok, fun _ => hpost.complete, keepsRows_step hstep⟩⟩

end Invariant

/-- Two processes open a new file, and both read the version before either records one. -/
def racingOpens : List (OpenerAction Unit) :=
  [.come, .come] ++ List.replicate 11 (.execute 0 0) ++ List.replicate 11 (.execute 1 0) ++
    [.execute 0 0, .execute 1 0]

/-- The second process before and after the last of these steps. -/
def racingSecond : Option (Option (Option Opener × Option Opener)) :=
  (exec Openers.step .start racingOpens).map fun out => out.1.head?.map fun f =>
    (f.pre.processes[1]?, f.post.processes[1]?)

theorem racingSecond_eq :
    racingSecond = some (some (some (.updating (updates 0)), some (.failed .constraint))) := by
  decide +kernel

/-- The steps as a run. -/
theorem run_racingOpens : ∃ f h s, Run Openers.step (.start : Openers Unit) (f :: h) s ∧
    (f :: h).map Fired.label = racingOpens.reverse ∧
      f.pre.processes[1]? = some (Opener.updating (updates 0)) ∧
    f.post.processes[1]? = some (Opener.failed .constraint) := by
  have hsecond := racingSecond_eq
  rw [racingSecond, Option.map_eq_some_iff] at hsecond
  obtain ⟨⟨h, s⟩, hexec, hhead⟩ := hsecond
  obtain ⟨f, hf, hboth⟩ := Option.map_eq_some_iff.1 hhead
  obtain ⟨h', rfl⟩ := List.head?_eq_some_iff.1 hf
  rw [Prod.mk.injEq] at hboth
  exact ⟨f, h', s, exec_run hexec, exec_labels hexec, hboth⟩

theorem migrations_safe_iff_racing : ∃ h : List (Fired (Openers Unit) (OpenerAction Unit)),
    h.map Fired.label = racingOpens.reverse ∧
      ((∀ f ∈ h, OpensSafely f) ↔ ∀ f ∈ h, f.label.Records f.pre) := by
  obtain ⟨f, h, s, hr, hlabels, -⟩ := run_racingOpens
  exact ⟨f :: h, hlabels, migrations_safe_iff hr⟩

/-- The second open fails. -/
theorem not_migrations_safe : ¬ ∀ (h : List (Fired (Openers Unit) (OpenerAction Unit)))
    (s : Openers Unit), Run Openers.step .start h s → ∀ f ∈ h, OpensSafely f := by
  intro hall
  obtain ⟨f, h, s, hr, -, hpre, hpost⟩ := run_racingOpens
  have hfailed := (hall _ _ hr f List.mem_cons_self).returnsOk 1 _ hpost
  rw [hpre] at hfailed
  cases hfailed

end LanguageLlm.Desktop
