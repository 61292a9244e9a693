import LanguageLlm.Desktop.State
import LanguageLlm.Lib.LastWrite
import LanguageLlm.Lib.Words
import LanguageLlm.PageTranslate.Segmenter

/-!
# The page-translation cache

`cache_page_segment` writes a translated segment to the memory store and to the database, under a
key that joins the address of the segment. `pageCache_exact` reads both back after any calls;
`segmentKey_inj` is about the key that the extension makes of the same addresses.
-/

namespace LanguageLlm.Desktop

open Lib PageTranslate

/-- What a translated segment of a page is cached for. -/
structure SegmentAddress where
  canonicalUrl : String
  modelId : String
  modelRevision : String
  sourceLang : String
  targetLang : String
  segmentHash : String
  deriving DecidableEq

namespace SegmentAddress

/-- The fields behind the URL. -/
def fields (a : SegmentAddress) : List String :=
  [a.modelId, a.modelRevision, a.sourceLang, a.targetLang, a.segmentHash]

/-- No field but the URL has the separator of the keys. -/
def Plain (a : SegmentAddress) : Prop := ∀ field ∈ a.fields, '|' ∉ field.toList

instance (a : SegmentAddress) : Decidable a.Plain :=
  inferInstanceAs (Decidable (∀ field ∈ a.fields, '|' ∉ field.toList))

/-- `page_translate_cache_key`. -/
def cacheKey (a : SegmentAddress) : String :=
  pageTranslateCacheKey a.canonicalUrl a.modelId a.modelRevision a.sourceLang a.targetLang
    a.segmentHash

/-- `segmentCacheKey`. -/
def segmentKey (a : SegmentAddress) : String :=
  segmentCacheKey a.canonicalUrl a.modelId a.modelRevision a.sourceLang a.targetLang a.segmentHash

end SegmentAddress

/-- A call of `cache_page_segment` and the time at which it is made. -/
structure SegmentWrite where
  address : SegmentAddress
  value : String
  nowMs : Nat

/-- The statement of `cache_page_segment`, which succeeds. -/
def SqliteStore.cacheSegment (db : SqliteStore) (w : SegmentWrite) : SqliteStore :=
  let a := w.address
  db.putPageSegment a.cacheKey a.canonicalUrl a.modelId a.modelRevision a.sourceLang a.targetLang
    a.segmentHash w.value w.nowMs

/-- `CompanionState::cache_page_segment`. -/
def Stores.cachePageSegment (s : Stores) (w : SegmentWrite) : Stores :=
  { s with
    memory := s.memory.put w.address.cacheKey w.value
    sqlite := s.sqlite.map fun db => db.cacheSegment w }

/-! ## The keys -/

theorem cacheKey_eq (a : SegmentAddress) : a.cacheKey = "page|" ++ a.segmentKey := by
  apply String.ext
  delta SegmentAddress.cacheKey pageTranslateCacheKey SegmentAddress.segmentKey segmentCacheKey
  simp

/-- The keys of two addresses that are plain differ when the addresses do. -/
theorem segmentKey_inj {a b : SegmentAddress} (ha : a.Plain) (hb : b.Plain)
    (h : a.segmentKey = b.segmentKey) : a = b := by
  have hplain : ∀ {c : SegmentAddress}, c.Plain → ∀ part ∈ c.fields.map String.toList,
      '|' ∉ part := by
    intro c hc part hpart
    obtain ⟨field, hfield, rfl⟩ := List.mem_map.1 hpart
    exact hc field hfield
  have hlist := congrArg String.toList h
  simp only [SegmentAddress.segmentKey, segmentCacheKey, String.toList_intercalate] at hlist
  obtain ⟨hurl, hfields⟩ := intercalate_cons_inj (hplain ha) (hplain hb) rfl hlist
  have hfields' : a.fields = b.fields :=
    List.map_injective_iff.2 (fun _ _ => String.toList_inj.1) hfields
  obtain ⟨url, model, revision, source, target, hash⟩ := a
  obtain ⟨url', model', revision', source', target', hash'⟩ := b
  simp only [SegmentAddress.fields, List.cons.injEq] at hfields'
  rw [String.toList_inj] at hurl
  simp_all

theorem cacheKey_inj {a b : SegmentAddress} (ha : a.Plain) (hb : b.Plain)
    (h : a.cacheKey = b.cacheKey) : a = b := by
  rw [cacheKey_eq, cacheKey_eq] at h
  refine segmentKey_inj ha hb (String.toList_inj.1 ?_)
  simpa using congrArg String.toList h

/-! ## The stores -/

theorem MemoryStore.get_put (m : MemoryStore) (key value key' : String) :
    (m.put key value).get key' = if key' = key then some value else m.get key' :=
  OrderedMap.get?_set ..

/-- Whether the row is new or not, it has the text that was put. -/
theorem SqliteStore.getPageSegment_putPageSegment (db : SqliteStore)
    (key canonicalUrl modelId modelRevision sourceLang targetLang segmentHash value : String)
    (nowMs : Nat) (key' : String) :
    (db.putPageSegment key canonicalUrl modelId modelRevision sourceLang targetLang segmentHash
      value nowMs).getPageSegment key' =
      if key' = key then some value else db.getPageSegment key' := by
  simp only [getPageSegment, putPageSegment, OrderedMap.get?_set]
  by_cases hkey : key' = key
  · rw [if_pos hkey, if_pos hkey, Option.map_some]
    cases db.pageTranslateCache.get? key <;> rfl
  · rw [if_neg hkey, if_neg hkey]

theorem memory_cacheAll (s : Stores) (writes : List SegmentWrite) :
    (writes.foldl Stores.cachePageSegment s).memory =
      writes.foldl (fun m w => m.put w.address.cacheKey w.value) s.memory := by
  induction writes generalizing s with
  | nil => rfl
  | cons w writes ih => exact ih _

theorem sqlite_cacheAll (s : Stores) (writes : List SegmentWrite) :
    (writes.foldl Stores.cachePageSegment s).sqlite =
      s.sqlite.map fun db => writes.foldl SqliteStore.cacheSegment db := by
  induction writes generalizing s with
  | nil => exact Option.map_id_apply.symm
  | cons w writes ih =>
    rw [List.foldl_cons, ih, Stores.cachePageSegment, Option.map_map]
    rfl

/-! ## Any calls -/

/-- The last value that was cached for an address. -/
def lastCached (writes : List SegmentWrite) (a : SegmentAddress) : Option String :=
  (lastOf (fun w => a = w.address) writes).map SegmentWrite.value

section Calls

variable {writes : List SegmentWrite} {a : SegmentAddress}

/-- The last write under the key of an address is the last one for it. -/
theorem lastOf_cacheKey (hwrites : ∀ w ∈ writes, w.address.Plain) (ha : a.Plain) :
    (lastOf (fun w => a.cacheKey = w.address.cacheKey) writes).map SegmentWrite.value =
      lastCached writes a := by
  have hsame : ∀ w ∈ writes,
      decide (a.cacheKey = w.address.cacheKey) = decide (a = w.address) := by
    intro w hw
    exact decide_eq_decide.2 ⟨cacheKey_inj ha (hwrites w hw), fun h => by rw [← h]⟩
  rw [lastOf_congr hsame, lastCached]

theorem memory_get_cacheAll (hwrites : ∀ w ∈ writes, w.address.Plain) (ha : a.Plain) (s : Stores) :
    (writes.foldl Stores.cachePageSegment s).memory.get a.cacheKey =
      (lastCached writes a).or (s.memory.get a.cacheKey) := by
  have hput : ∀ (m : MemoryStore) (w : SegmentWrite) key,
      (m.put w.address.cacheKey w.value).get key =
        if key = w.address.cacheKey then some w.value else m.get key :=
    fun m w key => m.get_put w.address.cacheKey w.value key
  rw [memory_cacheAll, look_foldl hput, lastOf_cacheKey hwrites ha]

theorem getPageSegment_cacheAll (hwrites : ∀ w ∈ writes, w.address.Plain) (ha : a.Plain)
    (db : SqliteStore) :
    (writes.foldl SqliteStore.cacheSegment db).getPageSegment a.cacheKey =
      (lastCached writes a).or (db.getPageSegment a.cacheKey) := by
  have hput : ∀ (db : SqliteStore) (w : SegmentWrite) key,
      (db.cacheSegment w).getPageSegment key =
        if key = w.address.cacheKey then some w.value else db.getPageSegment key :=
    fun db w key => db.getPageSegment_putPageSegment ..
  rw [look_foldl hput, lastOf_cacheKey hwrites ha]

/-- After any calls in a companion whose memory store and page cache were empty, both hold the value
that was cached last for an address, and nothing for one that was never cached; and the keys of the
extension tell the addresses. -/
theorem pageCache_exact (hwrites : ∀ w ∈ writes, w.address.Plain) (ha : a.Plain) {s : Stores}
    {db : SqliteStore} (hdb : s.sqlite = some db) (hmemory : s.memory = .empty)
    (hrows : db.pageTranslateCache = .empty) :
    (writes.foldl Stores.cachePageSegment s).memory.get a.cacheKey = lastCached writes a ∧
    (∃ db', (writes.foldl Stores.cachePageSegment s).sqlite = some db' ∧
      db'.getPageSegment a.cacheKey = lastCached writes a) ∧
    ∀ b : SegmentAddress, b.Plain → a.segmentKey = b.segmentKey → a = b := by
  refine ⟨?_, ⟨_, by rw [sqlite_cacheAll, hdb, Option.map_some], ?_⟩, fun b => segmentKey_inj ha⟩
  · rw [memory_get_cacheAll hwrites ha, hmemory]
    exact Option.or_none
  · rw [getPageSegment_cacheAll hwrites ha, SqliteStore.getPageSegment, hrows]
    exact Option.or_none

end Calls

/-- A segment of a page with a separator in its URL. -/
def barSegment (hash : String) : SegmentAddress where
  canonicalUrl := "https://a/?q=x|hy"
  modelId := "hy"
  modelRevision := "1"
  sourceLang := "en"
  targetLang := "ja"
  segmentHash := hash

theorem pageCache_exact_bar :
    let s := [⟨barSegment "h", "old", 1⟩, ⟨barSegment "k", "other", 2⟩,
      ⟨barSegment "h", "new", 2⟩].foldl Stores.cachePageSegment (.new (some .empty))
    s.memory.get (barSegment "h").cacheKey = some "new" ∧
      (∃ db, s.sqlite = some db ∧ db.getPageSegment (barSegment "h").cacheKey = some "new") ∧
      ∀ b : SegmentAddress, b.Plain → (barSegment "h").segmentKey = b.segmentKey →
        barSegment "h" = b :=
  pageCache_exact (by decide) (by decide) rfl rfl rfl

end LanguageLlm.Desktop
