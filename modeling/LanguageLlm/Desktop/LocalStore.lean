import Mathlib.Data.List.Infix
import LanguageLlm.Lib.OrderedMap

/-!
# The local store

`local-store`: the in-memory store and the tables of SQLite with the statements that the companion
runs on them. A table is a map from its primary key to its other columns. Where a statement asks for
the newest row, a parameter chooses among the rows with one time.
-/

namespace LanguageLlm.Desktop

open Lib

/-! ## The memory store -/

def lyricsCacheKey (videoId source : String) : String := "lyrics|" ++ videoId ++ "|" ++ source

def pageTranslateCacheKey (canonicalUrl modelId modelRevision sourceLang targetLang segmentHash :
    String) : String :=
  "page|" ++ canonicalUrl ++ "|" ++ modelId ++ "|" ++ modelRevision ++ "|" ++ sourceLang ++ "|" ++
    targetLang ++ "|" ++ segmentHash

structure MemoryStore where
  kv : OrderedMap String String
  attribution : OrderedMap String String

namespace MemoryStore

/-- `MemoryStore::default`. -/
def empty : MemoryStore := ⟨.empty, .empty⟩

def put (m : MemoryStore) (key value : String) : MemoryStore := { m with kv := m.kv.set key value }

def get (m : MemoryStore) (key : String) : Option String := m.kv.get? key

def putLyrics (m : MemoryStore) (key value attribution : String) : MemoryStore where
  kv := m.kv.set key value
  attribution := m.attribution.set key attribution

/-- `key.starts_with(prefix)`. -/
def startsWith (start key : String) : Bool := start.toList.isPrefixOf key.toList

def clearPrefix (m : MemoryStore) (start : String) : Nat × MemoryStore :=
  let keys := m.kv.keys.filter (startsWith start)
  (keys.length,
    { kv := keys.foldl OrderedMap.delete m.kv
      attribution := keys.foldl OrderedMap.delete m.attribution })

/-- `clear_all`. -/
def clearAll (_ : MemoryStore) : MemoryStore := empty

end MemoryStore

/-! ## Presets and scopes -/

inductive RetentionPreset where
  | session
  | days7
  | days30
  | keep
  deriving DecidableEq

/-- `RetentionPreset::parse`. -/
def RetentionPreset.parse : String → Option RetentionPreset
  | "session" => some session
  | "days7" => some days7
  | "days30" => some days30
  | "keep" => some keep
  | _ => none

/-- `RetentionPreset::as_str`. -/
def RetentionPreset.asStr : RetentionPreset → String
  | session => "session"
  | days7 => "days7"
  | days30 => "days30"
  | keep => "keep"

/-- `retention_ttl_ms`. -/
def retentionTtlMs : RetentionPreset → Option Nat
  | .session => some 0
  | .days7 => some (7 * 24 * 60 * 60 * 1000)
  | .days30 => some (30 * 24 * 60 * 60 * 1000)
  | .keep => none

inductive PrivacyWipeScope where
  | all
  | transcripts
  | translations
  | lyrics
  | pageCache
  | study
  | dictionaries
  deriving DecidableEq

/-- `PrivacyWipeScope::parse`. -/
def PrivacyWipeScope.parse : String → Option PrivacyWipeScope
  | "all" => some all
  | "transcripts" => some transcripts
  | "translations" => some translations
  | "lyrics" => some lyrics
  | "page-cache" => some pageCache
  | "study" => some study
  | "dictionaries" => some dictionaries
  | _ => none

/-! ## SQLite -/

structure TranscriptRow where
  timelineJson : String
  updatedAtMs : Nat

/-- The primary key of `translations`. -/
structure TranslationKey where
  videoId : String
  sourceHash : String
  modelId : String
  modelRevision : String
  targetLang : String
  deriving DecidableEq

structure TranslationRow where
  cuesJson : String
  revisionId : String
  updatedAtMs : Nat

structure LyricsRow where
  videoId : String
  source : String
  body : String
  attribution : String
  fetchedAtMs : Nat

structure PageSegmentRow where
  canonicalUrl : String
  modelId : String
  modelRevision : String
  sourceLang : String
  targetLang : String
  segmentHash : String
  translatedText : String
  updatedAtMs : Nat

structure StudyRow where
  kind : String
  payloadJson : String
  updatedAtMs : Nat

structure DictionaryRow where
  name : String
  language : String
  license : String
  entryCount : Nat
  payloadPath : String
  importedAtMs : Nat

structure DictionaryEntryRow where
  dictionaryId : String
  surface : String
  reading : Option String
  glossaryJson : Option String

/-- `SqliteStore`: the rows of its tables. -/
structure SqliteStore where
  transcripts : OrderedMap (String × String) TranscriptRow
  translations : OrderedMap TranslationKey TranslationRow
  lyricsCache : OrderedMap String LyricsRow
  pageTranslateCache : OrderedMap String PageSegmentRow
  studyData : OrderedMap String StudyRow
  dictionaries : OrderedMap String DictionaryRow
  dictionaryEntries : OrderedMap String DictionaryEntryRow
  prefs : OrderedMap String String

/-- The rows with the greatest sort key. -/
def newestBy {ρ : Type} (key : ρ → Nat) (rows : List ρ) : List ρ :=
  rows.filter fun r => rows.all fun r' => key r' ≤ key r

/-- `ORDER BY … DESC LIMIT 1`: one of the rows with the greatest sort key, the one that `tie`
chooses. -/
def latestBy {ρ : Type} (key : ρ → Nat) (tie : Nat) (rows : List ρ) : Option ρ :=
  let newest := rows.filter fun r => rows.all fun r' => key r' ≤ key r
  newest[tie % newest.length]?

theorem latestBy_eq_some_iff {ρ : Type} {key : ρ → Nat} {rows : List ρ} {r : ρ} :
    (∃ tie, latestBy key tie rows = some r) ↔ r ∈ newestBy key rows := by
  constructor
  · rintro ⟨tie, h⟩
    exact List.mem_of_getElem? h
  · intro h
    obtain ⟨i, hi, hr⟩ := List.mem_iff_getElem.1 h
    refine ⟨i, ?_⟩
    change (newestBy key rows)[i % (newestBy key rows).length]? = some r
    rw [Nat.mod_eq_of_lt hi]
    exact List.getElem?_eq_some_iff.2 ⟨hi, hr⟩

theorem exists_latestBy {ρ : Type} {key : ρ → Nat} {rows : List ρ} {r : ρ}
    (h : r ∈ newestBy key rows) (tie : Nat) : ∃ r', latestBy key tie rows = some r' := by
  have hlength : 0 < (newestBy key rows).length := List.length_pos_of_mem h
  exact ⟨_, List.getElem?_eq_getElem (Nat.mod_lt tie hlength)⟩

/-- `LIKE`: `%` stands for any characters and `_` for one; ASCII letters match in either case. -/
def like : List Char → List Char → Bool
  | [], s => s = []
  | '%' :: p, s => s.tails.any fun rest => like p rest
  | '_' :: p, _ :: s => like p s
  | a :: p, c :: s => a.toLower = c.toLower && like p s
  | _ :: _, [] => false

example : like "lyrics|a_b|%".toList "Lyrics|a-b|lrclib".toList = true := by decide +kernel

namespace SqliteStore

/-- A database after its migrations, without rows. -/
def empty : SqliteStore := ⟨.empty, .empty, .empty, .empty, .empty, .empty, .empty, .empty⟩

def putTranscript (db : SqliteStore) (videoId sourceHash timelineJson : String) (nowMs : Nat) :
    SqliteStore :=
  { db with
    transcripts := db.transcripts.set (videoId, sourceHash) { timelineJson, updatedAtMs := nowMs } }

def getTranscript (db : SqliteStore) (videoId sourceHash : String) : Option String :=
  (db.transcripts.get? (videoId, sourceHash)).map TranscriptRow.timelineJson

def getLatestTranscript (db : SqliteStore) (videoId : String) (tie : Nat) : Option String :=
  let rows := db.transcripts.entries.filter fun r => r.1.1 = videoId
  (latestBy (fun r => r.2.updatedAtMs) tie rows).map fun r => r.2.timelineJson

def putTranslation (db : SqliteStore) (key : TranslationKey) (cuesJson revisionId : String)
    (nowMs : Nat) : SqliteStore :=
  { db with
    translations := db.translations.set key { cuesJson, revisionId, updatedAtMs := nowMs } }

def getTranslation (db : SqliteStore) (videoId : String) (sourceHash : Option String) (tie : Nat) :
    Option (TranslationKey × TranslationRow) :=
  let rows := db.translations.entries.filter fun r =>
    r.1.videoId = videoId && sourceHash.all fun hash => r.1.sourceHash = hash
  latestBy (fun r => r.2.updatedAtMs) tie rows

def putLyrics (db : SqliteStore) (key videoId source body attribution : String) (nowMs : Nat) :
    SqliteStore :=
  let row := match db.lyricsCache.get? key with
    | some r => { r with body, attribution, fetchedAtMs := nowMs }
    | none => { videoId, source, body, attribution, fetchedAtMs := nowMs }
  { db with lyricsCache := db.lyricsCache.set key row }

def clearLyricsPrefix (db : SqliteStore) (start : String) : Nat × SqliteStore :=
  let keys := db.lyricsCache.keys.filter fun key => like (start ++ "%").toList key.toList
  (keys.length, { db with lyricsCache := keys.foldl OrderedMap.delete db.lyricsCache })

/-- `put_page_segment`. A row that is there keeps the columns of its address. -/
def putPageSegment (db : SqliteStore) (key canonicalUrl modelId modelRevision sourceLang targetLang
    segmentHash translatedText : String) (nowMs : Nat) : SqliteStore :=
  let row := match db.pageTranslateCache.get? key with
    | some r => { r with translatedText, updatedAtMs := nowMs }
    | none =>
      { canonicalUrl, modelId, modelRevision, sourceLang, targetLang, segmentHash, translatedText
        updatedAtMs := nowMs }
  { db with pageTranslateCache := db.pageTranslateCache.set key row }

def getPageSegment (db : SqliteStore) (key : String) : Option String :=
  (db.pageTranslateCache.get? key).map PageSegmentRow.translatedText

def putStudy (db : SqliteStore) (id kind payloadJson : String) (nowMs : Nat) : SqliteStore :=
  { db with studyData := db.studyData.set id { kind, payloadJson, updatedAtMs := nowMs } }

def getStudy (db : SqliteStore) (id : String) : Option StudyRow := db.studyData.get? id

/-- `list_study_by_kind`, the newest first. -/
def listStudyByKind (db : SqliteStore) (kind : String) : List (String × StudyRow) :=
  (db.studyData.entries.filter fun r => r.2.kind = kind).mergeSort fun a b =>
    b.2.updatedAtMs ≤ a.2.updatedAtMs

def deleteStudy (db : SqliteStore) (id : String) : Bool × SqliteStore :=
  ((db.studyData.get? id).isSome, { db with studyData := db.studyData.delete id })

def clearPageCache (db : SqliteStore) (canonicalUrl : Option String) : Nat × SqliteStore :=
  let keys := (db.pageTranslateCache.entries.filter fun r =>
    canonicalUrl.all fun url => r.2.canonicalUrl = url).map Prod.fst
  (keys.length,
    { db with pageTranslateCache := keys.foldl OrderedMap.delete db.pageTranslateCache })

/-- `privacy_wipe`, with the number of rows that it deleted. -/
def privacyWipe (db : SqliteStore) : PrivacyWipeScope → List (String × Nat) × SqliteStore
  | .all =>
    ([("transcripts", db.transcripts.keys.length), ("translations", db.translations.keys.length),
      ("lyrics", db.lyricsCache.keys.length), ("page-cache", db.pageTranslateCache.keys.length),
      ("study", db.studyData.keys.length), ("dictionaries", db.dictionaryEntries.keys.length)],
      { empty with prefs := db.prefs })
  | .transcripts =>
    ([("transcripts", db.transcripts.keys.length)], { db with transcripts := .empty })
  | .translations =>
    ([("translations", db.translations.keys.length)], { db with translations := .empty })
  | .lyrics => ([("lyrics", db.lyricsCache.keys.length)], { db with lyricsCache := .empty })
  | .pageCache =>
    ([("page-cache", db.pageTranslateCache.keys.length)], { db with pageTranslateCache := .empty })
  | .study => ([("study", db.studyData.keys.length)], { db with studyData := .empty })
  | .dictionaries =>
    ([("dictionaries", db.dictionaryEntries.keys.length + db.dictionaries.keys.length)],
      { db with dictionaryEntries := .empty, dictionaries := .empty })

def putDictionaryMeta (db : SqliteStore) (id : String) (row : DictionaryRow) : SqliteStore :=
  { db with dictionaries := db.dictionaries.set id row }

/-- `put_dictionary_entries`. A new row needs its dictionary (the foreign key is enforced), an old
one keeps its dictionary; a transaction that fails leaves the table as it was. -/
def putDictionaryEntries (db : SqliteStore) (dictionaryId : String)
    (entries : List (String × String × Option String × Option String)) :
    Option Nat × SqliteStore :=
  let insert (rows : OrderedMap String DictionaryEntryRow)
      (e : String × String × Option String × Option String) :
      Option (OrderedMap String DictionaryEntryRow) :=
    let (id, surface, reading, glossaryJson) := e
    match rows.get? id with
    | some r => some (rows.set id { r with surface, reading, glossaryJson })
    | none =>
      if (db.dictionaries.get? dictionaryId).isSome then
        some (rows.set id { dictionaryId, surface, reading, glossaryJson })
      else none
  match entries.foldlM insert db.dictionaryEntries with
  | some rows => (some entries.length, { db with dictionaryEntries := rows })
  | none => (none, db)

def lookupDictionary (db : SqliteStore) (surface : String) : List (String × DictionaryEntryRow) :=
  (db.dictionaryEntries.entries.filter fun r => r.2.surface = surface).take 50

def dictionaryStats (db : SqliteStore) : Nat × Nat :=
  (db.dictionaries.keys.length, db.dictionaryEntries.keys.length)

def setRetentionPreset (db : SqliteStore) (preset : RetentionPreset) : SqliteStore :=
  { db with prefs := db.prefs.set "retention_preset" preset.asStr }

def getRetentionPreset (db : SqliteStore) : RetentionPreset :=
  ((db.prefs.get? "retention_preset").bind RetentionPreset.parse).getD .days7

/-- `DELETE FROM … WHERE updated_at_ms < cutoff`: the number of deleted rows and the others. -/
def expire {κ ρ : Type} (rows : OrderedMap κ ρ) (updatedAtMs : ρ → Nat) (cutoff : Int64) :
    Nat × OrderedMap κ ρ :=
  let kept := rows.filter fun _ r => cutoff.toInt ≤ updatedAtMs r
  (rows.keys.length - kept.keys.length, kept)

/-- `purge_expired`; the subtraction wraps, as it does in a release build. -/
def purgeExpired (db : SqliteStore) (nowMs : Int64) : List (String × Nat) × SqliteStore :=
  match retentionTtlMs db.getRetentionPreset with
  | none => ([], db)
  | some ttl =>
    if ttl = 0 then ([], db)
    else
      let cutoff := nowMs - Int64.ofNat ttl
      let transcripts := expire db.transcripts TranscriptRow.updatedAtMs cutoff
      let translations := expire db.translations TranslationRow.updatedAtMs cutoff
      let pages := expire db.pageTranslateCache PageSegmentRow.updatedAtMs cutoff
      let study := expire db.studyData StudyRow.updatedAtMs cutoff
      let lyrics := expire db.lyricsCache LyricsRow.fetchedAtMs cutoff
      ([("transcripts", transcripts.1), ("translations", translations.1), ("page-cache", pages.1),
          ("study", study.1), ("lyrics", lyrics.1)],
        { db with
          transcripts := transcripts.2
          translations := translations.2
          pageTranslateCache := pages.2
          studyData := study.2
          lyricsCache := lyrics.2 })

end SqliteStore

end LanguageLlm.Desktop
