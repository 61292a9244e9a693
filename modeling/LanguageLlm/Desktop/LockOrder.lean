import LanguageLlm.Desktop.LiveAsr
import LanguageLlm.Desktop.PrivacyWipe

/-!
# The order of the locks

Every operation of the companion as the sequence of its locks, with a branch wherever its way
depends on a message, a state or an answer. `lock_discipline_iff` says which operations acquire a
mutex that they hold, and that nothing else ever waits for ever. The handlers of the messages and
the functions of the manager that the model has follow their sequences (`follows_dispatch`,
`follows_privacyWipe`).
-/

namespace LanguageLlm.Desktop

open Lib Lib.LockProgram

/-! ## The operations -/

/-- Critical sections one after the other. -/
def sections (ms : List Mutex) : LockProgram Mutex :=
  ms.foldr (fun m next => .acquire m (.release m next)) .done

/-- `job.submit`: the job is registered and then run by its kind. -/
def jobSubmitLocks : LockProgram Mutex :=
  let translate := (sections [.modelManager, .jobs]).seq
    (.branch .done (sections [.jobs, .sqlite]))
  let pageTranslate := sections [.modelManager, .jobs]
  let asr := (sections [.modelManager]).seq (.branch .done (sections [.capture]))
  let other := sections [.jobs]
  .branch .done <| (sections [.jobs]).seq <|
    .branch translate (.branch pageTranslate (.branch asr other))

/-- `handle_audio_chunk`: the chunk is ingested, a segment is due, its samples are copied, it is
marked and then transcribed. -/
def audioChunkLocks : LockProgram Mutex :=
  (sections [.capture]).seq <| .branch .done <|
    -- the model is chosen while the capture queue is locked, when the job still captures
    (hold .capture (.branch .done (sections [.modelManager]))).seq <| .branch .done <|
      (sections [.capture]).seq <| .branch .done <|
        (sections [.capture]).seq (.branch .done (sections [.modelManager]))

/-- The handler of a message. -/
def messageLocks (msgType : String) : LockProgram Mutex :=
  match msgType with
  | "job.submit" => jobSubmitLocks
  | "job.cancel" => sections [.jobs, .capture]
  | "job.pause" | "job.resume" => sections [.capture, .jobs]
  | "audio.chunk" => audioChunkLocks
  | "lyrics.resolve" => .branch .done (sections [.memory, .sqlite])
  | "lyrics.clear-cache" => sections [.memory, .sqlite]
  | "timeline.source" => .branch .done (sections [.sqlite])
  | "timeline.hydrate" => sections [.sqlite, .sqlite]
  | "privacy.wipe" | "retention.set" | "retention.get" => sections [.sqlite]
  | "study.sync" => .branch .done (sections [.sqlite])
  | "dictionary.import" | "dictionary.lookup" | "dictionary.stats" => sections [.sqlite]
  | "page.translate.cache.clear" => sections [.sqlite]
  | _ => .done

/-! The functions of `manager.rs`. `db` is whether there is a database. -/

def healthSnapshotLocks : LockProgram Mutex := sections [.jobs, .sqlite, .modelManager]

def estimateDiskLocks : LockProgram Mutex := sections [.sqlite, .modelManager]

def storageSnapshotLocks : LockProgram Mutex :=
  (sections [.sqlite, .sqlite]).seq estimateDiskLocks

def clearLyricsCacheLocks : LockProgram Mutex := sections [.memory, .sqlite]

def privacyWipeLocks (db : Bool) (scope : String) : LockProgram Mutex :=
  match PrivacyWipeScope.parse scope with
  | none => .done
  | some scope =>
    hold .sqlite <|
      if db then
        (if scope = .all ∨ scope = .lyrics then clearLyricsCacheLocks else .done).seq
          (if scope = .all then sections [.memory] else .done)
      else .done

/-- The operations: the handler of a message, the commands of the GUI and what `CompanionState`
offers besides. -/
inductive Operation where
  | message (msgType : String)
  | getHealth
  | startService
  | stopService
  | listModels
  | verifyModel
  | removeModel
  | installModelBytes
  | diskEstimate
  | getStorage
  | setRetention
  | wipePrivacy (scope : String)
  | listDictionaries
  | listJobs
  | cancelJob
  | getHardware
  | setHardwareProfile
  | discoverBackends
  | listLicenses
  | getUpdateStatus
  | exportLogs
  | pinExtension
  | repairNativeHostRegistration
  | getDiagnostics
  | setLyricsNetwork
  | cachePageSegment
  | cacheLyrics
  | clearLyricsCache

def Operation.locks (db : Bool) : Operation → LockProgram Mutex
  | message msgType => messageLocks msgType
  | getHealth | stopService => healthSnapshotLocks
  | startService => .branch .done healthSnapshotLocks
  | listModels | verifyModel | removeModel | installModelBytes | listLicenses =>
    sections [.modelManager]
  | diskEstimate => estimateDiskLocks
  | getStorage => storageSnapshotLocks
  | setRetention => .branch .done (sections [.sqlite])
  | wipePrivacy scope => privacyWipeLocks db scope
  | listDictionaries => sections [.sqlite]
  | listJobs | cancelJob => sections [.jobs]
  -- `model_root_for`
  | getHardware | discoverBackends => sections [.modelManager]
  | setHardwareProfile => .branch .done (sections [.modelManager])
  | getUpdateStatus | exportLogs | pinExtension | repairNativeHostRegistration | setLyricsNetwork =>
    .done
  | getDiagnostics => healthSnapshotLocks.seq estimateDiskLocks
  | cachePageSegment | cacheLyrics => sections [.memory, .sqlite]
  | clearLyricsCache => clearLyricsCacheLocks

/-! ## The discipline -/

/-- The operation wipes lyrics from the GUI while there is a database. -/
def Operation.WipesLyrics (db : Bool) : Operation → Prop
  | wipePrivacy scope => db = true ∧ CoversLyrics scope
  | _ => False

/-- A program only nests the model manager in the capture queue. -/
def Disciplined (p : LockProgram Mutex) : Prop :=
  Balanced [] p ∧ ∀ x ∈ nestings [] p, x = (.capture, .modelManager)

instance (p : LockProgram Mutex) : Decidable (Disciplined p) :=
  inferInstanceAs (Decidable (_ ∧ _))

theorem disciplined_message (msgType : String) : Disciplined (messageLocks msgType) := by
  unfold messageLocks
  split <;> decide

theorem disciplined_privacyWipe {db : Bool} {scope : String}
    (h : ¬ (db = true ∧ CoversLyrics scope)) : Disciplined (privacyWipeLocks db scope) := by
  unfold CoversLyrics at h
  unfold privacyWipeLocks
  split
  · decide
  · next known hknown =>
    rw [hknown] at h
    cases db with
    | false => cases known <;> decide
    | true =>
      cases known with
      | all | lyrics => simp at h
      | transcripts | translations | pageCache | study | dictionaries => decide

theorem reenters_privacyWipe {scope : String} (hlyrics : CoversLyrics scope) :
    Reenters (privacyWipeLocks true scope) := by
  rcases hlyrics with h | h <;> simp only [privacyWipeLocks, h] <;> decide

/-- Every operation but that one is disciplined. -/
theorem Operation.disciplined {db : Bool} {op : Operation} (h : ¬ op.WipesLyrics db) :
    Disciplined (op.locks db) := by
  cases op with
  | message msgType => exact disciplined_message msgType
  | wipePrivacy scope => exact disciplined_privacyWipe h
  | _ => cases db <;> decide

/-- Disciplined programs nest mutexes without a cycle. -/
theorem acyclic_of_disciplined {programs : List (LockProgram Mutex)}
    (h : ∀ p ∈ programs, Disciplined p) (m : Mutex) :
    ¬ Relation.TransGen (Nests programs) m m := by
  have hnests {a b : Mutex} (hab : Nests programs a b) : a = .capture ∧ b = .modelManager := by
    obtain ⟨p, hp, hx⟩ := hab
    simpa using (h p hp).2 _ hx
  have hchain {a b : Mutex} (hab : Relation.TransGen (Nests programs) a b) :
      a = .capture ∧ b = .modelManager := by
    induction hab with
    | single hab => exact hnests hab
    | tail _ hbc ih => exact ⟨ih.1, (hnests hbc).2⟩
  intro hcycle
  obtain ⟨hfirst, hlast⟩ := hchain hcycle
  rw [hfirst] at hlast
  cases hlast

/-- The operations never acquire a mutex that they hold, nest the mutexes without a cycle, and no
interleaving of them leaves one waiting for ever. -/
structure LockDiscipline (db : Bool) (ops : List Operation) : Prop where
  notReentered : ∀ op ∈ ops, ¬ Reenters (op.locks db)
  acyclic : ∀ m, ¬ Relation.TransGen (Nests (ops.map (Operation.locks db))) m m
  completes : ∀ h threads i, Run lockStep (startThreads (ops.map (Operation.locks db))) h threads →
    ¬ WaitsForEver threads i

/-- The operations keep the discipline if and only if none of them wipes lyrics from the GUI while
there is a database. -/
theorem lock_discipline_iff (db : Bool) (ops : List Operation) :
    LockDiscipline db ops ↔ ∀ op ∈ ops, ¬ op.WipesLyrics db := by
  constructor
  · rintro ⟨hreenters, _, _⟩ op hop hwipes
    cases op with
    | wipePrivacy scope =>
      obtain ⟨rfl, hlyrics⟩ := hwipes
      exact hreenters _ hop (reenters_privacyWipe hlyrics)
    | _ => exact hwipes
  · intro hnot
    have hdisciplined : ∀ p ∈ ops.map (Operation.locks db), Disciplined p := by
      intro p hp
      obtain ⟨op, hop, rfl⟩ := List.mem_map.1 hp
      exact Operation.disciplined (hnot op hop)
    have hacyclic := acyclic_of_disciplined hdisciplined
    refine ⟨fun op hop hre => ?_, hacyclic, fun h threads i hr => ?_⟩
    · obtain ⟨m, hm⟩ := hre
      exact hacyclic m (.single ⟨_, List.mem_map_of_mem hop, hm⟩)
    · exact acyclic_completes (fun p hp => (hdisciplined p hp).1) hacyclic hr i

/-- The command `wipe_privacy` with the scope `lyrics` waits for ever, alone. -/
theorem not_lock_discipline :
    ¬ ∀ (db : Bool) (ops : List Operation), LockDiscipline db ops := by
  intro hall
  have hre : Reenters (privacyWipeLocks true "lyrics") := reenters_privacyWipe (Or.inr rfl)
  obtain ⟨h, threads, i, hr, hwaits⟩ := reentry_waits (List.mem_singleton.2 rfl) hre
  exact (hall true [.wipePrivacy "lyrics"]).completes h threads i hr hwaits

/-! ## The handlers follow their sequences -/

/-- What a mutex guards is the same. -/
def SameUnder (m : Mutex) (s s' : Stores) : Prop :=
  match m with
  | .sqlite => s.sqlite = s'.sqlite
  | .memory => s.memory = s'.memory
  | .jobs => s.jobs = s'.jobs
  | .capture => s.capture = s'.capture ∧ s.capturePoisoned = s'.capturePoisoned
  | .modelManager => True

/-- A critical section changes only what its mutex guards, and what follows depends on nothing else.
-/
structure GuardedBy {α : Type} (m : Mutex) (update : Nat → Answers → Stores → Stores)
    (next : Nat → Answers → Stores → Handler α) : Prop where
  frame : ∀ m' t an s, m' ≠ m → SameUnder m' (update t an s) s
  reads : ∀ t an s s', SameUnder m s s' → next t an s = next t an s'

/-- A handler takes its critical sections as a program says. What it asks of the model manager is
under that mutex; a panic drops the guards. -/
inductive Follows {α : Type} : LockProgram Mutex → Handler α → Prop
  | pure (a : α) : Follows .done (.pure a)
  | panic (p : LockProgram Mutex) : Follows p .panic
  | send {p : LockProgram Mutex} {message : Json} {next : Handler α} (h : Follows p next) :
      Follows p (.send message next)
  | now {p : LockProgram Mutex} {next : Nat → Handler α} (h : ∀ t, Follows p (next t)) :
      Follows p (.now next)
  | ask {p : LockProgram Mutex} {next : Answers → Handler α} (h : ∀ an, Follows p (next an)) :
      Follows p (.ask next)
  | consult {p : LockProgram Mutex} {next : Answers → Handler α} (h : ∀ an, Follows p (next an)) :
      Follows (.acquire .modelManager (.release .modelManager p)) (.ask next)
  | fetch {p : LockProgram Mutex} {url : String} {next : Option Json → Handler α}
      (h : ∀ response, Follows p (next response)) : Follows p (.fetch url next)
  /-- A section, in which the model manager may be locked. -/
  | lock {p inner : LockProgram Mutex} {m : Mutex} {update : Nat → Answers → Stores → Stores}
      {next : Nat → Answers → Stores → Handler α}
      (hinner : inner = .done ∨ inner = .branch .done (sections [.modelManager]))
      (hg : GuardedBy m update next) (h : ∀ t an s, Follows p (next t an s)) :
      Follows ((hold m inner).seq p) (.lock update next)
  /-- A section of a mutex that is not among the five. -/
  | apart {p : LockProgram Mutex} {update : Nat → Answers → Stores → Stores}
      {next : Nat → Answers → Stores → Handler α} (hg : ∀ m t an s, SameUnder m (update t an s) s)
      (h : ∀ t an s, Follows p (next t an s)) : Follows p (.lock update next)
  | left {p q : LockProgram Mutex} {h : Handler α} (hp : Follows p h) : Follows (.branch p q) h
  | right {p q : LockProgram Mutex} {h : Handler α} (hq : Follows q h) : Follows (.branch p q) h

section Follow

open Handler

variable {α β : Type} {p q : LockProgram Mutex}

/-- Handlers one after the other. -/
theorem Follows.bind {h : Handler α} {f : α → Handler β} (hp : Follows p h)
    (hf : ∀ a, Follows q (f a)) : Follows (p.seq q) (h >>= f) := by
  induction hp with
  | pure a => exact hf a
  | panic p => exact .panic _
  | send _ ih => exact .send ih
  | now _ ih => exact .now ih
  | ask _ ih => exact .ask ih
  | consult _ ih => exact .consult ih
  | fetch _ ih => exact .fetch ih
  | lock hinner hg _ ih =>
    rw [seq_assoc]
    refine .lock hinner ⟨hg.frame, fun t an s s' hs => ?_⟩ ih
    exact congrArg (Handler.bind · f) (hg.reads t an s s' hs)
  | apart hg _ ih => exact .apart hg ih
  | left _ ih => exact .left ih
  | right _ ih => exact .right ih

theorem follows_of_lockless {h : Handler α} (hh : Lockless h) : Follows .done h := by
  induction h with
  | pure a => exact .pure a
  | panic | lock => exact hh.elim
  | send message next ih => exact .send (ih hh)
  | now next ih => exact .now fun t => ih t (hh t)
  | ask next ih => exact .ask fun an => ih an (hh an)
  | fetch url next ih => exact .fetch fun response => ih response (hh response)

theorem follows_lockJobs (f : Nat → JobRegistry → α × JobRegistry) :
    Follows (sections [.jobs]) (lockJobs f) := by
  refine .lock (Or.inl rfl) ⟨?_, ?_⟩ fun t an s => .pure _
  · intro m' t an s hm
    cases m' <;> simp [SameUnder] at hm ⊢
  · intro t an s s' hs
    rw [show s.jobs = s'.jobs from hs]

/-- A section of the capture queue, in which the model manager may be locked. -/
theorem follows_lockCapture (f : Answers → CaptureJobQueue → Option α × CaptureJobQueue)
    {inner : LockProgram Mutex}
    (hinner : inner = .done ∨ inner = .branch .done (sections [.modelManager])) :
    Follows (hold .capture inner) (lockCapture f) := by
  have hfollows : Follows ((hold .capture inner).seq .done) (lockCapture f) := by
    refine .lock hinner ⟨?_, ?_⟩ fun t an s => ?_
    · intro m' t an s hm
      split <;> cases m' <;> simp [SameUnder] at hm ⊢
    · intro t an s s' hs
      obtain ⟨hcapture, hpoisoned⟩ : s.capture = s'.capture ∧
        s.capturePoisoned = s'.capturePoisoned :=
        hs
      rw [hcapture, hpoisoned]
    · split
      · exact .panic _
      · split
        · exact .pure _
        · exact .panic _
  rwa [seq_done] at hfollows

theorem follows_withSqlite (f : Nat → Answers → SqliteStore → Option α × SqliteStore) :
    Follows (sections [.sqlite]) (withSqlite f) := by
  refine .lock (Or.inl rfl) ⟨?_, ?_⟩ fun t an s => .pure _
  · intro m' t an s hm
    cases m' <;> simp [SameUnder] at hm ⊢
  · intro t an s s' hs
    rw [show s.sqlite = s'.sqlite from hs]

theorem follows_lockMemory (f : MemoryStore → α × MemoryStore) :
    Follows (sections [.memory]) (lockMemory f) := by
  refine .lock (Or.inl rfl) ⟨?_, ?_⟩ fun t an s => .pure _
  · intro m' t an s hm
    cases m' <;> simp [SameUnder] at hm ⊢
  · intro t an s s' hs
    rw [show s.memory = s'.memory from hs]

theorem follows_lyricsNetworkAllowed : Follows .done lyricsNetworkAllowed := by
  refine .apart (fun m t an s => ?_) fun t an s => .pure _
  cases m <;> simp [SameUnder]

theorem follows_setLyricsNetworkAllowed (allowed : Bool) :
    Follows .done (setLyricsNetworkAllowed allowed) := by
  refine .apart (fun m t an s => ?_) fun t an s => .pure _
  cases m <;> simp [SameUnder]

/-! The handlers. -/

theorem follows_handleJobCancel (value : Json) (token : String) :
    Follows (sections [.jobs, .capture]) (handleJobCancel value token) := by
  refine (follows_lockJobs _).bind fun ok => ?_
  refine (follows_lockCapture _ (Or.inl rfl)).bind fun _ => ?_
  exact follows_of_lockless lockless_sendProgress

theorem follows_handleJobPause (value : Json) (token : String) :
    Follows (sections [.capture, .jobs]) (handleJobPause value token) := by
  refine (follows_lockCapture _ (Or.inl rfl)).bind fun _ => ?_
  refine (follows_lockJobs _).bind fun ok => ?_
  exact follows_of_lockless lockless_sendProgress

theorem follows_handleJobResume (value : Json) (token : String) :
    Follows (sections [.capture, .jobs]) (handleJobResume value token) := by
  refine (follows_lockCapture _ (Or.inl rfl)).bind fun _ => ?_
  refine (follows_lockJobs _).bind fun ok => ?_
  exact follows_of_lockless lockless_sendProgress

theorem follows_runTranslateJob (env : External) (token jobId videoId : String) :
    Follows ((sections [.modelManager, .jobs]).seq (.branch .done (sections [.jobs, .sqlite])))
      (runTranslateJob env token jobId videoId) := by
  refine Follows.bind (p := sections [.modelManager]) (.consult fun an => .pure _) ?_
  rintro ⟨mode, backend⟩
  refine (follows_lockJobs _).bind fun run => ?_
  cases run with
  | error e => exact .left (.pure _)
  | ok progress =>
    refine .right ((follows_lockJobs _).bind fun found => ?_)
    refine (follows_of_lockless lockless_sendProgress).bind fun _ => ?_
    refine (follows_of_lockless lockless_reply).bind fun _ => ?_
    refine Follows.bind (p := sections [.sqlite]) ?_ fun _ => follows_of_lockless lockless_reply
    exact (follows_withSqlite _).bind fun _ => .pure _

theorem follows_runPageTranslateJob (token jobId : String) :
    Follows (sections [.modelManager, .jobs]) (runPageTranslateJob token jobId) := by
  refine Follows.bind (p := sections [.modelManager]) (.consult fun an => .pure _) ?_
  rintro ⟨mode, backend⟩
  refine (follows_lockJobs _).bind fun run => ?_
  cases run with
  | none => exact .pure _
  | some result =>
    refine (follows_of_lockless lockless_sendProgress).bind fun _ => ?_
    exact follows_of_lockless lockless_reply

theorem follows_runAsrJob (token jobId videoId : String) (payload : Json) :
    Follows ((sections [.modelManager]).seq (.branch .done (sections [.capture])))
      (runAsrJob token jobId videoId payload) := by
  refine Follows.bind (p := sections [.modelManager]) (.consult fun an => .pure _) fun plan => ?_
  split
  · refine .left ((follows_of_lockless lockless_sendError).bind fun _ => ?_)
    exact follows_of_lockless lockless_sendProgress
  · refine .right ((follows_lockCapture _ (Or.inl rfl)).bind fun _ => ?_)
    exact follows_of_lockless lockless_sendProgress

theorem follows_failUnsupportedJob (token jobId kindStr : String) :
    Follows (sections [.jobs]) (failUnsupportedJob token jobId kindStr) := by
  refine (follows_lockJobs _).bind fun _ => ?_
  refine (follows_of_lockless lockless_sendProgress).bind fun _ => ?_
  exact follows_of_lockless lockless_reply

theorem follows_handleJobSubmit (env : External) (value : Json) :
    Follows jobSubmitLocks (handleJobSubmit env value) := by
  unfold handleJobSubmit
  dsimp only
  split
  · exact .left (follows_of_lockless lockless_sendError)
  · refine .right ((follows_lockJobs _).bind fun _ => ?_)
    refine (follows_of_lockless lockless_sendProgress).bind fun _ => ?_
    split
    · exact .left (follows_runTranslateJob ..)
    · exact .right (.left (follows_runPageTranslateJob ..))
    · exact .right (.right (.left (follows_runAsrJob ..)))
    · exact .right (.right (.right (follows_failUnsupportedJob ..)))

theorem follows_runAsrOnPcm (pcm : PcmMono) (modelId : String) (mode : InferenceMode) :
    Follows (.branch .done (sections [.modelManager])) (runAsrOnPcm pcm modelId mode) := by
  cases mode with
  | offlineMock => exact .left (.pure _)
  | weights =>
    refine .right (Follows.bind (p := sections [.modelManager]) (.consult fun an => .pure _) ?_)
    rintro (e | text)
    · exact .pure _
    · dsimp only
      split <;> exact .pure _

theorem follows_transcribeCapture (jobId token : String) :
    Follows ((hold .capture (.branch .done (sections [.modelManager]))).seq <| .branch .done <|
      (sections [.capture]).seq <| .branch .done <|
        (sections [.capture]).seq (.branch .done (sections [.modelManager])))
      (transcribeCapture jobId token) := by
  refine (follows_lockCapture _ (Or.inr rfl)).bind fun decision => ?_
  split
  · exact .left (.pure _)
  split
  · exact .left (.pure _)
  refine .right ((follows_lockCapture _ (Or.inl rfl)).bind fun snapshot => ?_)
  split
  · exact .left (.pure _)
  refine .right ((follows_lockCapture _ (Or.inl rfl)).bind fun _ => ?_)
  rw [← seq_done (LockProgram.branch _ _)]
  refine (follows_runAsrOnPcm _ _ _).bind ?_
  rintro ⟨transcript, usedStub, asrFailed⟩
  dsimp only
  split
  · exact follows_of_lockless lockless_sendError
  · refine follows_of_lockless (lockless_reply.bind fun _ => ?_)
    split
    · exact lockless_sendProgress
    · exact lockless_return

theorem follows_handleAudioChunk (env : External) (value : Json) (token : String) :
    Follows audioChunkLocks (handleAudioChunk env value token) := by
  refine (follows_lockCapture _ (Or.inl rfl)).bind fun ingested => ?_
  split
  · exact .left (.pure _)
  · exact .left (follows_of_lockless lockless_sendError)
  · exact .right (follows_transcribeCapture ..)

theorem follows_handleLyricsResolve (value : Json) (token : String) :
    Follows (.branch .done (sections [.memory, .sqlite])) (handleLyricsResolve value token) := by
  refine follows_lyricsNetworkAllowed.bind fun allowed => ?_
  dsimp only
  split
  · exact .left (follows_of_lockless lockless_sendError)
  refine Follows.bind (p := .done) (.fetch fun response => .pure _) fun tracks => ?_
  split
  · refine .right (Follows.bind (p := sections [.memory, .sqlite]) ?_ fun _ => ?_)
    · refine (follows_lockMemory _).bind fun _ => ?_
      exact (follows_withSqlite _).bind fun _ => .pure _
    · exact follows_of_lockless (lockless_nowMs.bind fun _ => lockless_reply)
  · exact .left (follows_of_lockless lockless_sendError)

theorem follows_handleLyricsClearCache (value : Json) (token : String) :
    Follows (sections [.memory, .sqlite]) (handleLyricsClearCache value token) := by
  refine (follows_lockMemory _).bind fun n => ?_
  refine (follows_withSqlite _).bind fun cleared => ?_
  exact follows_of_lockless lockless_reply

theorem follows_handleLyricsNetwork (value : Json) (token : String) :
    Follows .done (handleLyricsNetwork value token) :=
  (follows_setLyricsNetworkAllowed _).bind fun _ => follows_of_lockless lockless_reply

theorem follows_handleTimelineSource (env : External) (value : Json) :
    Follows (.branch .done (sections [.sqlite])) (handleTimelineSource env value) := by
  unfold handleTimelineSource
  split
  · exact .left (.pure _)
  · split
    · exact .right ((follows_withSqlite _).bind fun _ => .pure _)
    · exact .left (.pure _)

theorem follows_handleTimelineHydrate (env : External) (value : Json) (token : String) :
    Follows (sections [.sqlite, .sqlite]) (handleTimelineHydrate env value token) := by
  unfold handleTimelineHydrate
  dsimp only
  split
  all_goals
    refine (follows_withSqlite _).bind fun body => ?_
    exact (follows_withSqlite _).bind fun found => follows_of_lockless lockless_reply

/-- A section of the database before the reply. -/
theorem follows_withSqlite_reply {f : Nat → Answers → SqliteStore → Option α × SqliteStore}
    {message : Option α → Json} :
    Follows (sections [.sqlite]) (withSqlite f >>= fun a => reply (message a)) :=
  (follows_withSqlite f).bind fun _ => follows_of_lockless lockless_reply

theorem follows_studyResult (env : External) (value : Json) :
    Follows (.branch .done (sections [.sqlite])) (studyResult env value) := by
  unfold studyResult
  dsimp only
  split
  · exact .right ((follows_withSqlite _).bind fun _ => .pure _)
  · refine .right ((follows_withSqlite _).bind fun found => ?_)
    split <;> exact .pure _
  · exact .right ((follows_withSqlite _).bind fun _ => .pure _)
  · exact .right ((follows_withSqlite _).bind fun _ => .pure _)
  · exact .left (.pure _)

/-- Every message is handled as its sequence of locks says. -/
theorem follows_dispatch (env : External) (debug : Bool) (allowedExtensionId : Option String)
    (sessionToken : Option String) (value : Json) :
    (dispatch env debug allowedExtensionId sessionToken value).Handles
      (Follows (messageLocks (value.strOr "type" ""))) := by
  unfold dispatch
  dsimp only
  generalize value.strOr "type" "" = msgType
  split
  · apply handles_handshake
  · exact handles_ifAuthed (follows_of_lockless (lockless_nowMs.bind fun _ => lockless_reply)) ..
  · exact handles_ifAuthed (follows_handleJobSubmit ..) ..
  · exact handles_ifAuthed (follows_handleJobCancel ..) ..
  · exact handles_ifAuthed (follows_handleJobPause ..) ..
  · exact handles_ifAuthed (follows_handleJobResume ..) ..
  · exact handles_ifAuthed (follows_handleAudioChunk ..) ..
  · exact handles_ifAuthed (follows_handleLyricsResolve ..) ..
  · exact handles_ifAuthed (follows_handleLyricsClearCache ..) ..
  · exact handles_ifAuthed (follows_handleLyricsNetwork ..) ..
  · exact handles_ifAuthed (follows_handleTimelineSource ..) ..
  · exact handles_ifAuthed (follows_handleTimelineHydrate ..) ..
  · exact handles_ifAuthed follows_withSqlite_reply ..
  · exact handles_ifAuthed follows_withSqlite_reply ..
  · exact handles_ifAuthed follows_withSqlite_reply ..
  · exact handles_ifAuthed ((follows_studyResult ..).bind fun _ =>
      follows_of_lockless lockless_reply) ..
  · exact handles_ifAuthed ((follows_of_lockless lockless_nowMs).bind fun _ =>
      follows_withSqlite_reply) ..
  · exact handles_ifAuthed follows_withSqlite_reply ..
  · exact handles_ifAuthed follows_withSqlite_reply ..
  · exact handles_ifAuthed follows_withSqlite_reply ..
  · trivial

/-! ## The functions of the manager follow theirs -/

/-- A function of the manager takes its locks as a program says, in stores that meet `I`. -/
inductive FollowsIn (I : Stores → Prop) {α : Type} : LockProgram Mutex → Procedure α → Prop
  | pure (a : α) : FollowsIn I .done (.pure a)
  | acquire {p : LockProgram Mutex} {m : Mutex} {next : Procedure α} (h : FollowsIn I p next) :
      FollowsIn I (.acquire m p) (.acquire m next)
  | release {p : LockProgram Mutex} {m : Mutex} {next : Procedure α} (h : FollowsIn I p next) :
      FollowsIn I (.release m p) (.release m next)
  | access {p : LockProgram Mutex} {update : Stores → Stores} {next : Stores → Procedure α}
      (h : ∀ s, I s → FollowsIn I p (next s)) : FollowsIn I p (.access update next)

/-- A database is there, or not. -/
def HasDatabase (db : Bool) (s : Stores) : Prop := s.sqlite.isSome = db

theorem followsIn_clearLyricsCache (I : Stores → Prop) (videoId : Option String) :
    FollowsIn I clearLyricsCacheLocks (clearLyricsCache videoId) :=
  .acquire (.access fun _ _ => .release (.acquire (.access fun _ _ => .release (.pure _))))

theorem followsIn_cancelJob (I : Stores → Prop) (jobId : String) :
    FollowsIn I (sections [.jobs]) (cancelJob jobId) :=
  .acquire (.access fun _ _ => .release (.pure _))

theorem followsIn_privacyWipe (db : Bool) (scope : String) :
    FollowsIn (HasDatabase db) (privacyWipeLocks db scope) (privacyWipe scope) := by
  unfold privacyWipeLocks privacyWipe
  cases PrivacyWipeScope.parse scope with
  | none => exact .pure _
  | some known =>
    refine .acquire (.access fun s hs => ?_)
    obtain rfl : s.sqlite.isSome = db := hs
    obtain ⟨memory, sqlite, capture, capturePoisoned, jobs, lyricsNetworkAllowed⟩ := s
    cases sqlite with
    | none => exact .release (.pure _)
    | some db =>
      cases known with
      | all =>
        exact .acquire <| .access fun _ _ => .release <| .acquire <| .access fun _ _ => .release <|
          .acquire <| .access fun _ _ => .release <| .release <| .pure _
      | lyrics =>
        exact .acquire <| .access fun _ _ => .release <| .acquire <| .access fun _ _ => .release <|
          .release <| .pure _
      | transcripts | translations | pageCache | study | dictionaries => exact .release (.pure _)

end Follow

end LanguageLlm.Desktop
