import Mathlib.Algebra.Group.Int.Defs
import Mathlib.Algebra.Group.Nat.Defs
import Mathlib.Data.Set.Basic
import LanguageLlm.Desktop.LocalStore

/-!
# Retention

What `purge_expired` leaves under each preset. A stricter preset should leave fewer rows; the
strictest one, whose time to live is 0, leaves them all.
-/

namespace LanguageLlm.Desktop

open Lib

/-! ## The rows that age -/

/-- A row of a table with a time. -/
inductive AgingRow where
  | transcript (key : String × String) (row : TranscriptRow)
  | translation (key : TranslationKey) (row : TranslationRow)
  | pageSegment (key : String) (row : PageSegmentRow)
  | study (key : String) (row : StudyRow)
  | lyrics (key : String) (row : LyricsRow)

/-- `updated_at_ms` or `fetched_at_ms`. -/
def AgingRow.time : AgingRow → Nat
  | transcript _ row => row.updatedAtMs
  | translation _ row => row.updatedAtMs
  | pageSegment _ row => row.updatedAtMs
  | study _ row => row.updatedAtMs
  | lyrics _ row => row.fetchedAtMs

/-- The aging rows of a database. -/
def SqliteStore.agingRows (db : SqliteStore) : Set AgingRow
  | .transcript key row => db.transcripts.get? key = some row
  | .translation key row => db.translations.get? key = some row
  | .pageSegment key row => db.pageTranslateCache.get? key = some row
  | .study key row => db.studyData.get? key = some row
  | .lyrics key row => db.lyricsCache.get? key = some row

/-- The database after the purge at a time, under a preset. -/
def purged (db : SqliteStore) (nowMs : Int64) (preset : RetentionPreset) : SqliteStore :=
  ((db.setRetentionPreset preset).purgeExpired nowMs).2

/-- The rows that survive it. -/
def survivors (db : SqliteStore) (nowMs : Int64) (preset : RetentionPreset) : Set AgingRow :=
  (purged db nowMs preset).agingRows

variable {db : SqliteStore} {nowMs : Int64}

theorem getRetentionPreset_set (db : SqliteStore) (preset : RetentionPreset) :
    (db.setRetentionPreset preset).getRetentionPreset = preset := by
  rw [SqliteStore.getRetentionPreset, SqliteStore.setRetentionPreset, OrderedMap.get?_set_self]
  cases preset <;> rfl

theorem get?_expire {κ ρ : Type} [DecidableEq κ] {rows : OrderedMap κ ρ} {updatedAtMs : ρ → Nat}
    {cutoff : Int64}
    {key : κ} {row : ρ} : (SqliteStore.expire rows updatedAtMs cutoff).2.get? key = some row ↔
      rows.get? key = some row ∧ cutoff.toInt ≤ updatedAtMs row := by
  rw [SqliteStore.expire, OrderedMap.get?_filter, Option.filter_eq_some_iff, decide_eq_true_eq]

/-- A preset without a time to live, or with one of 0, keeps every row. -/
theorem purged_of_none {preset : RetentionPreset}
    (h : retentionTtlMs preset = none ∨ retentionTtlMs preset = some 0) :
    purged db nowMs preset = db.setRetentionPreset preset := by
  rw [purged, SqliteStore.purgeExpired, getRetentionPreset_set]
  rcases h with h | h
  · rw [h]
  · rw [h]
    rfl

/-- Any other one keeps the rows from its cut-off on. -/
theorem mem_survivors {preset : RetentionPreset} {ttl : Nat} (h : retentionTtlMs preset = some ttl)
    (hpos : ttl ≠ 0) {row : AgingRow} : row ∈ survivors db nowMs preset ↔
      row ∈ db.agingRows ∧ (nowMs - Int64.ofNat ttl).toInt ≤ row.time := by
  rw [survivors, purged, SqliteStore.purgeExpired, getRetentionPreset_set, h]
  simp only [if_neg hpos]
  cases row <;> exact get?_expire

theorem survivors_session : survivors db nowMs .session = db.agingRows := by
  rw [survivors, purged_of_none (Or.inr rfl)]
  rfl

theorem survivors_keep : survivors db nowMs .keep = db.agingRows := by
  rw [survivors, purged_of_none (Or.inl rfl)]
  rfl

/-- Whatever the preset, the purge leaves the dictionaries and the preferences. -/
theorem purgeExpired_untouched (db : SqliteStore) (nowMs : Int64) :
    (db.purgeExpired nowMs).2.dictionaries = db.dictionaries ∧
      (db.purgeExpired nowMs).2.dictionaryEntries = db.dictionaryEntries ∧
      (db.purgeExpired nowMs).2.prefs = db.prefs := by
  unfold SqliteStore.purgeExpired
  split
  · exact ⟨rfl, rfl, rfl⟩
  · split <;> exact ⟨rfl, rfl, rfl⟩

/-! ## What the presets promise -/

/-- A stricter preset leaves fewer rows, `keep` leaves them all, a purged row is older than the time
to live, and nothing else is touched. -/
structure RetentionExact (db : SqliteStore) (nowMs : Int64) : Prop where
  session : survivors db nowMs .session ⊆ survivors db nowMs .days7
  days7 : survivors db nowMs .days7 ⊆ survivors db nowMs .days30
  days30 : survivors db nowMs .days30 ⊆ survivors db nowMs .keep
  keep : survivors db nowMs .keep = db.agingRows
  expired : ∀ preset, ∀ row ∈ db.agingRows, row ∉ survivors db nowMs preset →
    ∃ ttl, retentionTtlMs preset = some ttl ∧ (row.time : Int) + ttl < nowMs.toInt
  untouched : ∀ preset, (purged db nowMs preset).dictionaries = db.dictionaries ∧
    (purged db nowMs preset).dictionaryEntries = db.dictionaryEntries ∧
    (purged db nowMs preset).prefs = (db.setRetentionPreset preset).prefs

/-- The cut-off of a time to live. -/
def cutoffMs (nowMs : Int64) (ttl : Nat) : Int := (nowMs - Int64.ofNat ttl).toInt

/-- No row is below the cut-off of 7 days, nor below that of 30 days where its subtraction
overflows. -/
def NothingExpired (db : SqliteStore) (nowMs : Int64) : Prop :=
  ∀ row ∈ db.agingRows, cutoffMs nowMs 604800000 ≤ row.time ∧
    (nowMs.toInt - 2592000000 < -2 ^ 63 → cutoffMs nowMs 2592000000 ≤ row.time)

theorem cutoffMs_eq {ttl : Nat} (httl : ttl < 2 ^ 63) (hno : -2 ^ 63 ≤ nowMs.toInt - ttl) :
    cutoffMs nowMs ttl = nowMs.toInt - ttl := by
  have hle := nowMs.toInt_lt
  rw [cutoffMs, Int64.toInt_sub, Int64.toInt_ofNat_of_lt httl, Int.bmod_eq_of_le]
  · omega
  · omega

/-- The presets keep their promise exactly while nothing has expired: the session preset purges
nothing. -/
theorem retention_exact_iff (db : SqliteStore) (nowMs : Int64) :
    RetentionExact db nowMs ↔ NothingExpired db nowMs := by
  have hdays7 : ∀ {row}, row ∈ survivors db nowMs .days7 ↔
      row ∈ db.agingRows ∧ cutoffMs nowMs 604800000 ≤ row.time := mem_survivors rfl (by decide)
  have hdays30 : ∀ {row}, row ∈ survivors db nowMs .days30 ↔
      row ∈ db.agingRows ∧ cutoffMs nowMs 2592000000 ≤ row.time := mem_survivors rfl (by decide)
  constructor
  · intro h row hrow
    have hkept := h.session (survivors_session ▸ hrow)
    exact ⟨(hdays7.1 hkept).2, fun _ => (hdays30.1 (h.days7 hkept)).2⟩
  · intro h
    have hle : ∀ row ∈ db.agingRows, cutoffMs nowMs 2592000000 ≤ row.time := by
      intro row hrow
      obtain ⟨h7, hoverflow⟩ := h row hrow
      by_cases hwrap : nowMs.toInt - 2592000000 < -2 ^ 63
      · exact hoverflow hwrap
      · rw [cutoffMs_eq (by decide) (by omega)] at h7 ⊢
        omega
    have hall : ∀ preset, survivors db nowMs preset = db.agingRows := by
      intro preset
      cases preset with
      | session => exact survivors_session
      | keep => exact survivors_keep
      | days7 =>
        ext row
        exact ⟨fun hrow => (hdays7.1 hrow).1, fun hrow => hdays7.2 ⟨hrow, (h row hrow).1⟩⟩
      | days30 =>
        ext row
        exact ⟨fun hrow => (hdays30.1 hrow).1, fun hrow => hdays30.2 ⟨hrow, hle row hrow⟩⟩
    refine ⟨?_, ?_, ?_, hall .keep, ?_, ?_⟩
    · rw [hall, hall]
    · rw [hall, hall]
    · rw [hall, hall]
    · intro preset row hrow hpurged
      rw [hall] at hpurged
      exact absurd hrow hpurged
    · intro preset
      exact purgeExpired_untouched (db.setRetentionPreset preset) nowMs

/-- A transcript of the time 0, and a purge after eight days. -/
theorem not_retention_exact : ¬ ∀ (db : SqliteStore) (nowMs : Int64), RetentionExact db nowMs := by
  intro h
  have hexact := h (SqliteStore.empty.putTranscript "v" "h" "{}" 0) 691200000
  have hrow : AgingRow.transcript ("v", "h") ⟨"{}", 0⟩ ∈
      (SqliteStore.empty.putTranscript "v" "h" "{}" 0).agingRows := rfl
  have hkept := hexact.session (survivors_session ▸ hrow)
  exact absurd ((mem_survivors rfl (by decide)).1 hkept).2 (by decide)

end LanguageLlm.Desktop
