import LanguageLlm.Desktop.Execution
import LanguageLlm.Desktop.Manager

/-!
# The two ways to wipe

The message `privacy.wipe` and the command of the GUI parse the scope and wipe on their own.
`wipes_agree_iff` says when they do the same, and what they should.
-/

namespace LanguageLlm.Desktop

open Lib Handler Procedure

/-! ## What the two ways leave -/

/-- The scope covers lyrics. -/
def CoversLyrics (scope : String) : Prop :=
  PrivacyWipeScope.parse scope = some .all ∨ PrivacyWipeScope.parse scope = some .lyrics

/-- The memory store returns a lyrics entry. -/
def MemoryStore.HasLyrics (m : MemoryStore) : Prop :=
  ∃ videoId source, (m.get (lyricsCacheKey videoId source)).isSome

/-- The database returns a lyrics entry. -/
def SqliteStore.HasLyrics (db : SqliteStore) : Prop := ∃ key, (db.lyricsCache.get? key).isSome

/-- One of the stores returns a lyrics entry. -/
def Stores.HasLyrics (s : Stores) : Prop :=
  s.memory.HasLyrics ∨ ∃ db, s.sqlite = some db ∧ db.HasLyrics

/-- A database without rows, but for the preferences. -/
def SqliteStore.Bare (db : SqliteStore) : Prop := db = { SqliteStore.empty with prefs := db.prefs }

/-- The database and the memory store are the same. -/
def SameStores (s s' : Stores) : Prop := s.sqlite = s'.sqlite ∧ s.memory = s'.memory

/-- Both ways return and leave the same database and memory store; an unknown scope deletes nothing;
after a scope that covers lyrics no lyrics entry is left. -/
def WipesAgree (value : Json) (token : String) (s : Stores) : Prop :=
  let scope := value.strOr "scope" "all"
  ∃ sent s₁ result s₂, Exec Eq (handlePrivacyWipe value token) s sent () s₁ ∧
    (privacyWipe scope).run [] s = some (result, s₂) ∧ SameStores s₁ s₂ ∧
    (PrivacyWipeScope.parse scope = none → SameStores s₁ s ∧ SameStores s₂ s) ∧
    (CoversLyrics scope → ¬ s₁.HasLyrics ∧ ¬ s₂.HasLyrics)

variable {s s' : Stores} {scope token : String} {value : Json}

theorem SameStores.hasLyrics (h : SameStores s s') : s.HasLyrics ↔ s'.HasLyrics := by
  simp only [Stores.HasLyrics, h.1, h.2]

/-- The stores after the message: an unknown scope is taken for `all`. -/
def wiped (scope : String) (s : Stores) : Stores :=
  { s with
    sqlite := s.sqlite.map fun db =>
      (db.privacyWipe ((PrivacyWipeScope.parse scope).getD .all)).2 }

theorem exec_handlePrivacyWipe_iff :
    (∃ sent, Exec Eq (handlePrivacyWipe value token) s sent () s') ↔
      s' = wiped (value.strOr "scope" "all") s := by
  simp only [handlePrivacyWipe, exec_bind_iff, exec_withSqlite_iff, exec_reply_iff]
  constructor
  · rintro ⟨_, _, _, _, _, ⟨_, _, _, _, rfl⟩, ⟨_, rfl⟩, _⟩
    rfl
  · rintro rfl
    exact ⟨_, _, _, _, _, ⟨0, default, rfl, rfl, rfl⟩, ⟨rfl, rfl⟩, rfl⟩

/-! The command. -/

theorem run_privacyWipe_unknown (hscope : PrivacyWipeScope.parse scope = none) :
    (privacyWipe scope).run [] s = some (.error "unknown privacy wipe scope", s) := by
  simp only [privacyWipe, hscope]
  rfl

theorem run_privacyWipe_unavailable {known : PrivacyWipeScope}
    (hscope : PrivacyWipeScope.parse scope = some known) (hdb : s.sqlite = none) :
    (privacyWipe scope).run [] s = some (.error "sqlite store unavailable", s) := by
  obtain ⟨memory, sqlite, capture, capturePoisoned, jobs, lyricsNetworkAllowed⟩ := s
  obtain rfl : sqlite = none := hdb
  simp only [privacyWipe, hscope]
  rfl

/-- A scope without lyrics is wiped from the database. -/
theorem run_privacyWipe {known : PrivacyWipeScope} {db : SqliteStore}
    (hscope : PrivacyWipeScope.parse scope = some known) (hlyrics : ¬ CoversLyrics scope)
    (hdb : s.sqlite = some db) : ∃ result, (privacyWipe scope).run [] s =
      some (result, { s with sqlite := some (db.privacyWipe known).2 }) := by
  simp only [CoversLyrics, hscope, Option.some.injEq, not_or] at hlyrics
  obtain ⟨memory, sqlite, capture, capturePoisoned, jobs, lyricsNetworkAllowed⟩ := s
  obtain rfl : sqlite = some db := hdb
  refine ⟨.ok (.obj [("cleared", .obj ((db.privacyWipe known).1.map fun c => (c.1, .nat c.2)))]),
    ?_⟩
  simp only [privacyWipe, hscope, hlyrics, or_self, if_false]
  rfl

/-- A scope with lyrics: `clear_lyrics_cache` locks the database, whose guard is still alive. -/
theorem run_privacyWipe_lyrics {db : SqliteStore} (hlyrics : CoversLyrics scope)
    (hdb : s.sqlite = some db) : (privacyWipe scope).run [] s = none := by
  obtain ⟨memory, sqlite, capture, capturePoisoned, jobs, lyricsNetworkAllowed⟩ := s
  obtain rfl : sqlite = some db := hdb
  rcases hlyrics with hscope | hscope <;> simp only [privacyWipe, hscope] <;> rfl

/-! ## When they agree -/

/-- No scope wipes the preferences, and `all` wipes the rest. -/
theorem privacyWipe_all_eq_iff {db : SqliteStore} : (db.privacyWipe .all).2 = db ↔ db.Bare := by
  simp only [SqliteStore.privacyWipe, SqliteStore.Bare]
  exact eq_comm

/-- The two ways agree, delete nothing for an unknown scope and leave no lyrics if and only if: with
a database, the scope does not cover lyrics, and the database is bare if the scope is unknown;
without one, the memory store has no lyrics if the scope covers them. -/
theorem wipes_agree_iff : WipesAgree value token s ↔
    match s.sqlite with
    | some db => ¬ CoversLyrics (value.strOr "scope" "all") ∧
        (PrivacyWipeScope.parse (value.strOr "scope" "all") = none → db.Bare)
    | none => CoversLyrics (value.strOr "scope" "all") → ¬ s.memory.HasLyrics := by
  constructor
  · rintro ⟨sent, s₁, result, s₂, he, hrun, hsame, hunknown, hlyrics⟩
    obtain rfl := exec_handlePrivacyWipe_iff.1 ⟨sent, he⟩
    split
    · next db hdb =>
      refine ⟨fun hcovers => ?_, fun hscope => ?_⟩
      · rw [run_privacyWipe_lyrics hcovers hdb] at hrun
        cases hrun
      · have hwiped := (hunknown hscope).1.1
        simp only [wiped, hdb, Option.map_some, hscope, Option.getD_none, Option.some.injEq]
          at hwiped
        exact privacyWipe_all_eq_iff.1 hwiped
    · exact fun hcovers hmemory => (hlyrics hcovers).1 (Or.inl hmemory)
  · intro h
    obtain ⟨sent, he⟩ :=
      exec_handlePrivacyWipe_iff.2 (Eq.refl (wiped (value.strOr "scope" "all") s))
    split at h
    · next db hdb =>
      obtain ⟨hcovers, hbare⟩ := h
      cases hscope : PrivacyWipeScope.parse (value.strOr "scope" "all") with
      | none =>
        have hsame : SameStores (wiped (value.strOr "scope" "all") s) s := by
          simp [SameStores, wiped, hdb, hscope, privacyWipe_all_eq_iff.2 (hbare hscope)]
        exact ⟨sent, _, _, s, he, run_privacyWipe_unknown hscope, hsame,
          fun _ => ⟨hsame, rfl, rfl⟩, fun h => absurd h hcovers⟩
      | some known =>
        obtain ⟨result, hrun⟩ := run_privacyWipe hscope hcovers hdb
        refine ⟨sent, _, _, _, he, hrun, ?_, by simp [hscope], fun h => absurd h hcovers⟩
        simp [SameStores, wiped, hdb, hscope]
    · next hdb =>
      have hsame : SameStores (wiped (value.strOr "scope" "all") s) s := by
        simp [SameStores, wiped, hdb]
      have hno (hcovers : CoversLyrics (value.strOr "scope" "all")) : ¬ s.HasLyrics := by
        rintro (hmemory | ⟨db, hsome, _⟩)
        · exact h hcovers hmemory
        · rw [hdb] at hsome
          cases hsome
      obtain ⟨result, hrun⟩ : ∃ result, (privacyWipe (value.strOr "scope" "all")).run [] s =
          some (result, s) := by
        cases hscope : PrivacyWipeScope.parse (value.strOr "scope" "all") with
        | none => exact ⟨_, run_privacyWipe_unknown hscope⟩
        | some known => exact ⟨_, run_privacyWipe_unavailable hscope hdb⟩
      exact ⟨sent, _, result, s, he, hrun, hsame, fun _ => ⟨hsame, rfl, rfl⟩,
        fun hcovers => ⟨hsame.hasLyrics.not.2 (hno hcovers), hno hcovers⟩⟩

/-- A message with the scope `everything` on a database with one transcript. -/
theorem not_wipes_agree :
    ¬ ∀ (value : Json) (token : String) (s : Stores), WipesAgree value token s := by
  intro h
  let db := SqliteStore.empty.putTranscript "v" "h" "{}" 0
  obtain ⟨sent, s₁, _, _, he, _, _, hunknown, _⟩ :=
    h (.obj [("scope", .str "everything")]) "" (.new (some db))
  obtain rfl := exec_handlePrivacyWipe_iff.1 ⟨sent, he⟩
  have hwiped := (hunknown rfl).1.1
  simp only [wiped, Stores.new, Option.map_some, Option.some.injEq] at hwiped
  have hrows := congrArg (fun db => db.transcripts.entries.length) hwiped
  exact absurd hrows (by decide)

end LanguageLlm.Desktop
