import LanguageLlm.Desktop.Manager

/-!
# Clearing the lyrics cache

`clear_lyrics_cache` removes a prefix of keys from the memory store and a LIKE pattern of keys from
the database. `clears_exactly_iff` says for which contents the two are the same.
-/

namespace LanguageLlm.Desktop

open Lib Procedure

/-! ## LIKE -/

/-- A key with the prefix matches its pattern, whatever characters the prefix has. -/
theorem like_append (start rest : List Char) : like (start ++ ['%']) (start ++ rest) = true := by
  induction start with
  | nil =>
    simp only [List.nil_append, like, List.any_eq_true]
    exact ⟨[], by simp, rfl⟩
  | cons c start ih =>
    rw [List.cons_append, List.cons_append]
    unfold like
    split
    · next h => cases h
    · next h =>
      cases h
      rw [List.any_eq_true]
      exact ⟨start ++ rest, by simp, ih⟩
    · next h h' =>
      cases h
      cases h'
      exact ih
    · next h h' =>
      cases h
      cases h'
      simpa using ih
    · next h => cases h

/-- A prefix without wildcards is matched in either case. -/
theorem like_plain_iff {start key : List Char} (hplain : ∀ c ∈ start, c ≠ '%' ∧ c ≠ '_') :
    like (start ++ ['%']) key = true ↔ start.map Char.toLower <+: key.map Char.toLower := by
  induction start generalizing key with
  | nil =>
    refine ⟨fun _ => List.nil_prefix, fun _ => ?_⟩
    simp only [List.nil_append, like, List.any_eq_true]
    exact ⟨[], by simp, rfl⟩
  | cons c start ih =>
    obtain ⟨hpercent, hunderscore⟩ := hplain c List.mem_cons_self
    have ih' : ∀ key, like (start ++ ['%']) key = true ↔
        start.map Char.toLower <+: key.map Char.toLower :=
      fun key => ih fun d hd => hplain d (List.mem_cons_of_mem _ hd)
    rw [List.cons_append]
    cases key with
    | nil => simp [like]
    | cons d key =>
      rw [like]
      · simp [ih']
      · exact hpercent
      · exact hunderscore

/-! ## What the call leaves -/

/-- The start of the keys that are cleared. -/
def clearedStart : Option String → String
  | some videoId => "lyrics|" ++ videoId ++ "|"
  | none => "lyrics|"

/-- The stores after the call. -/
def lyricsCleared (videoId : Option String) (s : Stores) : Stores :=
  { s with
    memory := (s.memory.clearPrefix (clearedStart videoId)).2
    sqlite := s.sqlite.map fun db => (db.clearLyricsPrefix (clearedStart videoId)).2 }

/-- The call returns, and leaves these stores. -/
theorem run_clearLyricsCache (videoId : Option String) (s : Stores) :
    ∃ n, (clearLyricsCache videoId).run [] s = some (n, lyricsCleared videoId s) := by
  cases videoId <;> exact ⟨_, rfl⟩

theorem get?_foldl_delete {κ α : Type} [DecidableEq κ] (keys : List κ) (m : OrderedMap κ α)
    (key : κ) :
    (keys.foldl OrderedMap.delete m).get? key = if key ∈ keys then none else m.get? key := by
  induction keys generalizing m with
  | nil => simp
  | cons k keys ih =>
    rw [List.foldl_cons, ih, OrderedMap.get?_delete]
    simp only [List.mem_cons]
    by_cases hk : key = k
    · simp [hk]
    · simp [hk]

theorem mem_filter_keys {α : Type} {m : OrderedMap String α} {p : String → Bool} {key : String} :
    key ∈ m.keys.filter p ↔ (∃ a, m.get? key = some a) ∧ p key = true := by
  rw [List.mem_filter, OrderedMap.mem_keys_iff]

/-- A map without some of its keys. -/
theorem get?_deleteKeys {α : Type} (m : OrderedMap String α) (p : String → Bool) (key : String) :
    ((m.keys.filter p).foldl OrderedMap.delete m).get? key =
      if p key = true then none else m.get? key := by
  rw [get?_foldl_delete]
  by_cases hmem : key ∈ m.keys.filter p
  · rw [if_pos hmem, if_pos (mem_filter_keys.1 hmem).2]
  · rw [if_neg hmem]
    split
    · next hp =>
      cases hkey : m.get? key with
      | none => rfl
      | some a => exact absurd (mem_filter_keys.2 ⟨⟨a, hkey⟩, hp⟩) hmem
    · rfl

theorem get_clearPrefix (m : MemoryStore) (start key : String) :
    (m.clearPrefix start).2.get key = if MemoryStore.startsWith start key = true then none else
      m.get key :=
  get?_deleteKeys _ _ _

theorem get?_clearLyricsPrefix (db : SqliteStore) (start key : String) :
    (db.clearLyricsPrefix start).2.lyricsCache.get? key =
      if like (start ++ "%").toList key.toList = true then none else db.lyricsCache.get? key :=
  get?_deleteKeys _ (fun key => like (start ++ "%").toList key.toList) _

theorem like_of_startsWith {start key : String} (h : MemoryStore.startsWith start key = true) :
    like (start ++ "%").toList key.toList = true := by
  obtain ⟨rest, hrest⟩ := List.isPrefixOf_iff_prefix.1 h
  rw [String.toList_append, ← hrest]
  exact like_append _ _

/-! ## Exactness -/

/-- A call removes from both stores the entries whose key starts with the prefix of the video, and
leaves every other entry and those of the other videos. -/
structure ClearsExactly (videoId : Option String) (s s' : Stores) : Prop where
  memory : ∀ key, s'.memory.get key =
    if MemoryStore.startsWith (clearedStart videoId) key = true then none else s.memory.get key
  sqlite : ∀ db, s.sqlite = some db → ∃ db', s'.sqlite = some db' ∧
    ∀ key, db'.lyricsCache.get? key =
    if MemoryStore.startsWith (clearedStart videoId) key = true then none else
      db.lyricsCache.get? key
  others : ∀ v, videoId = some v →
    (∀ other source, other ≠ v → s'.memory.get (lyricsCacheKey other source) =
      s.memory.get (lyricsCacheKey other source)) ∧
    ∀ db db', s.sqlite = some db → s'.sqlite = some db' →
      ∀ key row, db.lyricsCache.get? key = some row →
      row.videoId ≠ v → db'.lyricsCache.get? key = some row

/-- Every stored key that the pattern matches has the prefix itself, and no stored entry of another
video has it. -/
structure ClearsOwnKeys (videoId : Option String) (s : Stores) : Prop where
  matched : ∀ db, s.sqlite = some db → ∀ key row, db.lyricsCache.get? key = some row →
    like (clearedStart videoId ++ "%").toList key.toList = true →
    MemoryStore.startsWith (clearedStart videoId) key = true
  own : ∀ v, videoId = some v →
    (∀ other source, other ≠ v → s.memory.get (lyricsCacheKey other source) ≠ none →
      MemoryStore.startsWith (clearedStart videoId) (lyricsCacheKey other source) = false) ∧
    ∀ db, s.sqlite = some db → ∀ key row, db.lyricsCache.get? key = some row → row.videoId ≠ v →
      MemoryStore.startsWith (clearedStart videoId) key = false

/-- Where the pattern matches what starts with the prefix only, the rows with the prefix go. -/
theorem get?_clearLyricsPrefix_of_matched {db : SqliteStore} {start : String}
    (hmatched : ∀ key row, db.lyricsCache.get? key = some row →
      like (start ++ "%").toList key.toList = true → MemoryStore.startsWith start key = true)
    (key : String) :
    (db.clearLyricsPrefix start).2.lyricsCache.get? key =
      if MemoryStore.startsWith start key = true then none else db.lyricsCache.get? key := by
  rw [get?_clearLyricsPrefix]
  cases hkey : db.lyricsCache.get? key with
  | none => simp
  | some row =>
    by_cases hstarts : MemoryStore.startsWith start key = true
    · rw [if_pos hstarts, if_pos (like_of_startsWith hstarts)]
    · rw [if_neg hstarts, if_neg]
      exact fun hlike => hstarts (hmatched key row hkey hlike)

/-- The database after the call. -/
theorem sqlite_lyricsCleared {videoId : Option String} {s : Stores} {db db' : SqliteStore}
    (hdb : s.sqlite = some db) :
    (lyricsCleared videoId s).sqlite = some db' ↔
      (db.clearLyricsPrefix (clearedStart videoId)).2 = db' := by
  rw [lyricsCleared, hdb, Option.map_some, Option.some.injEq]

/-- Nothing that was kept shows a key that the pattern or the prefix takes by mistake. -/
theorem ClearsOwnKeys.of_exact {videoId : Option String} {s : Stores}
    (h : ClearsExactly videoId s (lyricsCleared videoId s)) : ClearsOwnKeys videoId s := by
  refine ⟨fun db hdb key row hrow hlike => ?_, fun v hv => ⟨fun other source hne hsome => ?_,
    fun db hdb key row hrow hne => ?_⟩⟩
  · obtain ⟨db', hdb', hkeys⟩ := h.sqlite db hdb
    obtain rfl := (sqlite_lyricsCleared hdb).1 hdb'
    have hkey := hkeys key
    rw [get?_clearLyricsPrefix, if_pos hlike, hrow] at hkey
    by_contra hnot
    rw [if_neg hnot] at hkey
    cases hkey
  · have hkept := (h.others v hv).1 other source hne
    rw [h.memory] at hkept
    by_contra hstarts
    rw [if_pos (by simpa using hstarts)] at hkept
    exact hsome hkept.symm
  · obtain ⟨db', hdb', hkeys⟩ := h.sqlite db hdb
    have hkept := (h.others v hv).2 db db' hdb hdb' key row hrow hne
    rw [hkeys] at hkept
    by_contra hstarts
    rw [if_pos (by simpa using hstarts)] at hkept
    cases hkept

theorem ClearsExactly.of_ownKeys {videoId : Option String} {s : Stores}
    (h : ClearsOwnKeys videoId s) : ClearsExactly videoId s (lyricsCleared videoId s) := by
  have hkeys : ∀ db, s.sqlite = some db → ∀ key,
      (db.clearLyricsPrefix (clearedStart videoId)).2.lyricsCache.get? key =
        if MemoryStore.startsWith (clearedStart videoId) key = true then none else
          db.lyricsCache.get? key :=
    fun db hdb => get?_clearLyricsPrefix_of_matched (h.matched db hdb)
  refine ⟨fun key => get_clearPrefix _ _ _,
    fun db hdb => ⟨_, (sqlite_lyricsCleared hdb).2 rfl, hkeys db hdb⟩, fun v hv => ⟨?_, ?_⟩⟩
  · intro other source hne
    change (s.memory.clearPrefix (clearedStart videoId)).2.get _ = _
    rw [get_clearPrefix]
    split
    · next hstarts =>
      by_contra hkept
      have hown := (h.own v hv).1 other source hne (Ne.symm hkept)
      rw [hstarts] at hown
      cases hown
    · rfl
  · intro db db' hdb hdb' key row hrow hne
    obtain rfl := (sqlite_lyricsCleared hdb).1 hdb'
    rw [hkeys db hdb, (h.own v hv).2 db hdb key row hrow hne, if_neg Bool.false_ne_true]
    exact hrow

theorem clears_exactly_iff (videoId : Option String) (s : Stores) :
    (∃ n s', (clearLyricsCache videoId).run [] s = some (n, s') ∧ ClearsExactly videoId s s') ↔
      ClearsOwnKeys videoId s := by
  obtain ⟨n, hrun⟩ := run_clearLyricsCache videoId s
  constructor
  · rintro ⟨n', s', hrun', h⟩
    rw [hrun] at hrun'
    cases hrun'
    exact .of_exact h
  · intro h
    exact ⟨n, _, hrun, .of_ownKeys h⟩

/-- The lyrics of the video `a-b` are removed with those of `a_b`. -/
theorem not_clears_exactly : ¬ ∀ (videoId : Option String) (s : Stores),
    ∃ n s', (clearLyricsCache videoId).run [] s = some (n, s') ∧ ClearsExactly videoId s s' := by
  intro h
  let db := SqliteStore.empty.putLyrics "lyrics|a-b|lrclib" "a-b" "lrclib" "[00:01.00]hi" "LRCLIB" 0
  obtain ⟨n, s', hrun, hexact⟩ := h (some "a_b") (.new (some db))
  obtain ⟨n', hrun'⟩ := run_clearLyricsCache (some "a_b") (.new (some db))
  rw [hrun'] at hrun
  cases hrun
  have hkept := (hexact.others "a_b" rfl).2 db _ rfl rfl "lyrics|a-b|lrclib" _ rfl (by decide)
  have hgone : (db.clearLyricsPrefix "lyrics|a_b|").2.lyricsCache.get? "lyrics|a-b|lrclib" =
      none := by
    rw [get?_clearLyricsPrefix, if_pos (by decide +kernel)]
  exact absurd (hgone.symm.trans hkept) (by simp)

end LanguageLlm.Desktop
