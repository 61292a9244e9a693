import Mathlib.Data.Finset.Card
import LanguageLlm.Desktop.Handlers
import LanguageLlm.Lib.Run

/-!
# Dictionaries in the database

`dictionary.import` writes the row of the dictionary with one statement and its entries in a
transaction of their own. The row counts the entries of the message; `dictionaries_match_iff` says
in which runs these are the entries that the dictionary has.
-/

namespace LanguageLlm.Desktop

open Lib

/-! ## The import -/

/-- An entry of the message: identifier, surface, reading and glossary. -/
abbrev ImportedEntry := String × String × Option String × Option String

/-- The entries that a message brings. -/
def importedEntries (value : Json) : List ImportedEntry :=
  (((value.get "entries").bind Json.asArray).getD []).filterMap dictionaryEntry

/-- The row of its dictionary. -/
def importedRow (value : Json) (t : Nat) : DictionaryRow where
  name := value.strOr "name" ""
  language := value.strOr "language" ""
  license := value.strOr "license" ""
  entryCount := (importedEntries value).length
  payloadPath := value.strOr "payloadPath" ""
  importedAtMs := t

/-- The statements of an import, of which one may fail: 0 writes the row of the dictionary, 1 begins
the transaction, then come the entries and the commit. A failure in the transaction rolls it back.
-/
def SqliteStore.importDictionary (db : SqliteStore) (id : String) (row : DictionaryRow)
    (entries : List ImportedEntry) : Option Nat → Option Nat × SqliteStore
  | some 0 => (none, db)
  | some (k + 1) =>
    let written := db.putDictionaryMeta id row
    if k ≤ entries.length + 1 then (none, written) else written.putDictionaryEntries id entries
  | none => (db.putDictionaryMeta id row).putDictionaryEntries id entries

/-- The handler runs the statements of the import. -/
theorem handleDictionaryImport_eq (value : Json) (token : String) :
    handleDictionaryImport value token = (do
      let id := value.strOr "id" ""
      let t ← Handler.nowMs
      let imported ← Handler.withSqlite fun _ _ db =>
        db.importDictionary id (importedRow value t) (importedEntries value) none
      Handler.reply
        (.obj [("type", .str "dictionary.import"), ("sessionToken", .str token), ("id", .str id),
        ("imported", .nat (imported.getD 0))])) := rfl

/-- A message that writes dictionaries, with the statement that fails; or a wipe. -/
inductive DictionaryAction where
  | importMessage (value : Json) (nowMs : Nat) (fault : Option Nat)
  | wipe (scope : PrivacyWipeScope)

/-- The import of the message: its result, and the database. -/
def SqliteStore.importMessage (db : SqliteStore) (value : Json) (nowMs : Nat) (fault : Option Nat) :
    Option Nat × SqliteStore :=
  db.importDictionary (value.strOr "id" "") (importedRow value nowMs) (importedEntries value) fault

def SqliteStore.dictionaryStep (db : SqliteStore) : DictionaryAction → Option SqliteStore
  | .importMessage value nowMs fault => some (db.importMessage value nowMs fault).2
  | .wipe scope => some (db.privacyWipe scope).2

/-! ## The upsert -/

/-- `ON CONFLICT(id) DO UPDATE`: an old row keeps its dictionary. -/
def upsertedRow (dictionaryId : String) (e : ImportedEntry) (old : Option DictionaryEntryRow) :
    DictionaryEntryRow where
  dictionaryId := (old.map DictionaryEntryRow.dictionaryId).getD dictionaryId
  surface := e.2.1
  reading := e.2.2.1
  glossaryJson := e.2.2.2

def upsertEntry (dictionaryId : String) (rows : OrderedMap String DictionaryEntryRow)
    (e : ImportedEntry) :
    OrderedMap String DictionaryEntryRow :=
  rows.set e.1 (upsertedRow dictionaryId e (rows.get? e.1))

/-- The rows after the entries of a dictionary were written. -/
def upsertEntries (dictionaryId : String) (rows : OrderedMap String DictionaryEntryRow)
    (entries : List ImportedEntry) : OrderedMap String DictionaryEntryRow :=
  entries.foldl (upsertEntry dictionaryId) rows

variable {dictionaryId : String} {rows : OrderedMap String DictionaryEntryRow}
  {entries : List ImportedEntry}

@[simp] theorem upsertEntries_nil : upsertEntries dictionaryId rows [] = rows := rfl

@[simp] theorem upsertEntries_cons (e : ImportedEntry) :
    upsertEntries dictionaryId rows (e :: entries) =
      upsertEntries dictionaryId (upsertEntry dictionaryId rows e) entries := rfl

/-- A fold whose steps all succeed. -/
theorem foldlM_eq_foldl {α β : Type} {f : β → α → Option β} {g : β → α → β}
    (h : ∀ b a, f b a = some (g b a)) (l : List α) (b : β) : l.foldlM f b = some (l.foldl g b) := by
  induction l generalizing b with
  | nil => rfl
  | cons a l ih =>
    rw [List.foldlM_cons, h]
    exact ih (g b a)

/-- The entries of a dictionary that exists are all written. -/
theorem putDictionaryEntries_of_isSome {db : SqliteStore}
    (hdict : (db.dictionaries.get? dictionaryId).isSome) :
    db.putDictionaryEntries dictionaryId entries =
      (some entries.length,
        { db with
          dictionaryEntries := upsertEntries dictionaryId db.dictionaryEntries entries }) := by
  rw [SqliteStore.putDictionaryEntries, foldlM_eq_foldl (g := upsertEntry dictionaryId)]
  · rfl
  · intro rows e
    rw [upsertEntry]
    cases hold : rows.get? e.1 with
    | some r => simp only [hold, upsertedRow, Option.map_some, Option.getD_some]
    | none => simp only [hold, if_pos hdict, upsertedRow, Option.map_none, Option.getD_none]

/-- The database after an import without failure. -/
theorem putDictionaryMeta_putDictionaryEntries (db : SqliteStore) (id : String)
    (row : DictionaryRow) :
    (db.putDictionaryMeta id row).putDictionaryEntries id entries =
      (some entries.length,
        { db with
          dictionaries := db.dictionaries.set id row
          dictionaryEntries := upsertEntries id db.dictionaryEntries entries }) := by
  apply putDictionaryEntries_of_isSome
  rw [SqliteStore.putDictionaryMeta, OrderedMap.get?_set_self]
  rfl

/-! ## Counting rows -/

/-- The number of entries that belong to a dictionary. -/
def rowsOf (rows : OrderedMap String DictionaryEntryRow) (dictionaryId : String) : Nat :=
  rows.entries.countP fun e => e.2.dictionaryId = dictionaryId

/-- The identifiers of the message that no entry has yet. -/
def newIds (rows : OrderedMap String DictionaryEntryRow) (entries : List ImportedEntry) :
    Finset String :=
  (entries.map Prod.fst).toFinset \ rows.keys.toFinset

/-- An upsert of an old entry moves no row to another dictionary. -/
theorem rowsOf_upsertEntry_of_some {e : ImportedEntry} {old : DictionaryEntryRow}
    (hold : rows.get? e.1 = some old)
    (id : String) : rowsOf (upsertEntry dictionaryId rows e) id = rowsOf rows id := by
  rw [rowsOf, upsertEntry, hold, OrderedMap.entries_set_of_some hold]
  exact OrderedMap.countP_replaceIn hold rfl

/-- That of a new one adds it to the dictionary of the message. -/
theorem rowsOf_upsertEntry_of_none {e : ImportedEntry} (hnew : rows.get? e.1 = none) (id : String) :
    rowsOf (upsertEntry dictionaryId rows e) id = rowsOf rows id +
      if dictionaryId = id then 1 else 0 := by
  rw [rowsOf, upsertEntry, hnew, OrderedMap.entries_set_of_none hnew, List.countP_append,
    List.countP_singleton]
  by_cases hid : dictionaryId = id
  · simp [upsertedRow, rowsOf, hid]
  · simp [upsertedRow, rowsOf, hid]

theorem newIds_cons_of_some {e : ImportedEntry} {old : DictionaryEntryRow}
    (hold : rows.get? e.1 = some old) :
    newIds rows (e :: entries) = newIds (upsertEntry dictionaryId rows e) entries := by
  have hmem : e.1 ∈ rows.keys := rows.mem_keys_iff.2 ⟨old, hold⟩
  have hkeys : (upsertEntry dictionaryId rows e).keys = rows.keys := by
    rw [upsertEntry, OrderedMap.keys, OrderedMap.entries_set_of_some hold,
      OrderedMap.replaceIn_keys, OrderedMap.keys]
  rw [newIds, newIds, hkeys, List.map_cons, List.toFinset_cons,
    Finset.insert_sdiff_of_mem _ (List.mem_toFinset.2 hmem)]

theorem card_newIds_cons_of_none (dictionaryId : String) {e : ImportedEntry}
    (hnew : rows.get? e.1 = none) :
    (newIds rows (e :: entries)).card = (newIds (upsertEntry dictionaryId rows e) entries).card +
      1 := by
  have hmem : e.1 ∉ rows.keys := rows.notMem_keys_iff.2 hnew
  have hkeys : (upsertEntry dictionaryId rows e).keys = rows.keys ++ [e.1] := by
    rw [upsertEntry, OrderedMap.keys, OrderedMap.entries_set_of_none hnew, List.map_append]
    rfl
  have hsdiff : newIds rows (e :: entries) = insert e.1
      (newIds (upsertEntry dictionaryId rows e) entries) := by
    ext k
    simp only [newIds, hkeys, List.map_cons, List.toFinset_cons, Finset.mem_sdiff,
      Finset.mem_insert, List.mem_toFinset, List.mem_append, List.mem_singleton]
    by_cases hk : k = e.1
    · subst hk
      simp [hmem]
    · simp [hk]
  rw [hsdiff, Finset.card_insert_of_notMem]
  simp [newIds, hkeys]

/-- What an import adds: the new identifiers, to the dictionary of the message. -/
theorem rowsOf_upsertEntries (id : String) :
    rowsOf (upsertEntries dictionaryId rows entries) id =
      rowsOf rows id + if dictionaryId = id then (newIds rows entries).card else 0 := by
  induction entries generalizing rows with
  | nil => simp [newIds]
  | cons e entries ih =>
    rw [upsertEntries_cons, ih]
    cases hold : rows.get? e.1 with
    | some old => rw [rowsOf_upsertEntry_of_some hold, newIds_cons_of_some hold]
    | none =>
      rw [rowsOf_upsertEntry_of_none hold, card_newIds_cons_of_none dictionaryId hold]
      split
      · omega
      · rfl

/-- Every row belongs to the dictionary of the message or was there before. -/
theorem dictionaryId_upsertEntries {key : String} {row : DictionaryEntryRow}
    (hrow : (upsertEntries dictionaryId rows entries).get? key = some row) :
    row.dictionaryId = dictionaryId ∨ ∃ old, rows.get? key = some old ∧
      old.dictionaryId = row.dictionaryId := by
  induction entries generalizing rows with
  | nil => exact Or.inr ⟨row, hrow, rfl⟩
  | cons e entries ih =>
    rcases ih hrow with hown | ⟨old, hold, hid⟩
    · exact Or.inl hown
    · rw [upsertEntry, OrderedMap.get?_set] at hold
      split at hold
      · next hkey =>
        cases hold
        subst hkey
        cases hbefore : rows.get? e.1 with
        | none =>
          rw [hbefore] at hid
          exact Or.inl hid.symm
        | some before =>
          rw [hbefore] at hid
          exact Or.inr ⟨before, rfl, hid⟩
      · exact Or.inr ⟨old, hold, hid⟩

/-! ## Metadata and data -/

/-- The row of a dictionary counts its entries, and every entry has its dictionary. -/
structure DictionariesMatch (db : SqliteStore) : Prop where
  counted : ∀ id row, db.dictionaries.get? id = some row →
    row.entryCount = rowsOf db.dictionaryEntries id
  owned : ∀ key row, db.dictionaryEntries.get? key = some row →
    ∃ dictionary, db.dictionaries.get? row.dictionaryId = some dictionary

/-- The import fails. -/
def DictionaryAction.Fails (db : SqliteStore) : DictionaryAction → Prop
  | .importMessage value nowMs fault => (db.importMessage value nowMs fault).1 = none
  | .wipe _ => False

/-- A step leads to a store whose metadata match, and one that fails changes nothing. -/
structure ImportConsistent (f : Fired SqliteStore DictionaryAction) : Prop where
  matched : DictionariesMatch f.post
  unchanged : f.label.Fails f.pre → f.post = f.pre

/-- What a step must meet: the statement that fails, if any, is the first, or that one rewrote an
equal row; and the entries of the message are as many as the dictionary has then, which are those
that it had and those with new identifiers. -/
def DictionaryAction.Counts (db : SqliteStore) : DictionaryAction → Prop
  | .importMessage value nowMs fault =>
    let id := value.strOr "id" ""
    let entries := importedEntries value
    let complete := rowsOf db.dictionaryEntries id + (newIds db.dictionaryEntries entries).card =
      entries.length
    match fault with
    | some 0 => True
    | some (k + 1) =>
      if k ≤ entries.length + 1 then db.dictionaries.get? id = some (importedRow value nowMs)
        else complete
    | none => complete
  | .wipe _ => True

/-- An import without failure keeps the match exactly when the entries are counted right. -/
theorem match_imported_iff {db : SqliteStore} (hdb : DictionariesMatch db) (id : String)
    {row : DictionaryRow} (hrow : row.entryCount = entries.length) :
    DictionariesMatch ((db.putDictionaryMeta id row).putDictionaryEntries id entries).2 ↔
      rowsOf db.dictionaryEntries id + (newIds db.dictionaryEntries entries).card =
        entries.length := by
  rw [putDictionaryMeta_putDictionaryEntries]
  constructor
  · intro h
    have hcounted := h.counted id row (OrderedMap.get?_set_self _ _ _)
    rw [hrow, rowsOf_upsertEntries, if_pos rfl] at hcounted
    exact hcounted.symm
  · intro hcount
    refine ⟨fun id' row' hrow' => ?_, fun key entry hentry => ?_⟩
    · rw [OrderedMap.get?_set] at hrow'
      rw [rowsOf_upsertEntries]
      split at hrow'
      · next hid =>
        cases hrow'
        rw [if_pos hid.symm, hid, hcount, hrow]
      · next hid => rw [if_neg (Ne.symm hid), hdb.counted id' row' hrow', Nat.add_zero]
    · change ∃ dictionary, (db.dictionaries.set id row).get? entry.dictionaryId = some dictionary
      rw [OrderedMap.get?_set]
      split
      · exact ⟨row, rfl⟩
      · next hother =>
        rcases dictionaryId_upsertEntries hentry with hid | ⟨old, hold, hid⟩
        · exact absurd hid hother
        · exact hid ▸ hdb.owned key old hold

theorem DictionariesMatch.wipe {db : SqliteStore} (hdb : DictionariesMatch db)
    (scope : PrivacyWipeScope) :
    DictionariesMatch (db.privacyWipe scope).2 := by
  cases scope with
  | all => exact ⟨nofun, nofun⟩
  | dictionaries => exact ⟨nofun, nofun⟩
  | transcripts | translations | lyrics | pageCache | study => exact ⟨hdb.counted, hdb.owned⟩

theorem putDictionaryMeta_eq_self {db : SqliteStore} {id : String} {row : DictionaryRow}
    (h : db.dictionaries.get? id = some row) : db.putDictionaryMeta id row = db := by
  rw [SqliteStore.putDictionaryMeta, OrderedMap.set_eq_self h]

/-- One step. -/
theorem importConsistent_iff {db db' : SqliteStore} {l : DictionaryAction}
    (hdb : DictionariesMatch db)
    (hstep : db.dictionaryStep l = some db') : ImportConsistent ⟨db, l, db'⟩ ↔ l.Counts db := by
  cases l with
  | wipe scope =>
    cases hstep
    exact ⟨fun _ => trivial, fun _ => ⟨hdb.wipe scope, False.elim⟩⟩
  | importMessage value nowMs fault =>
    cases hstep
    have hcomplete : ImportConsistent ⟨db, .importMessage value nowMs none,
      (db.importMessage value nowMs none).2⟩ ↔
        DictionaryAction.Counts db (.importMessage value nowMs none) := by
      constructor
      · exact fun h => (match_imported_iff hdb _ rfl).1 h.matched
      · intro h
        refine ⟨(match_imported_iff hdb _ rfl).2 h, fun hfails => ?_⟩
        rw [DictionaryAction.Fails, SqliteStore.importMessage, SqliteStore.importDictionary,
          putDictionaryMeta_putDictionaryEntries] at hfails
        cases hfails
    rcases fault with _ | _ | k
    · exact hcomplete
    · exact ⟨fun _ => trivial, fun _ => ⟨hdb, fun _ => rfl⟩⟩
    · by_cases hk : k ≤ (importedEntries value).length + 1
      · have hrun : db.importMessage value nowMs (some (k + 1)) =
            (none, db.putDictionaryMeta (value.strOr "id" "") (importedRow value nowMs)) :=
              if_pos hk
        have hcounts : DictionaryAction.Counts db (.importMessage value nowMs (some (k + 1))) ↔
            db.dictionaries.get? (value.strOr "id" "") = some (importedRow value nowMs) := by
          rw [DictionaryAction.Counts]
          simp only [if_pos hk]
        rw [hrun, hcounts]
        constructor
        · intro h
          have hsame : db.putDictionaryMeta (value.strOr "id" "") (importedRow value nowMs) = db :=
            h.unchanged (congrArg Prod.fst hrun)
          rw [← hsame]
          exact OrderedMap.get?_set_self _ _ _
        · intro h
          rw [putDictionaryMeta_eq_self h]
          exact ⟨hdb, fun _ => rfl⟩
      · have hrun : db.importMessage value nowMs (some (k + 1)) = db.importMessage value nowMs
          none := if_neg hk
        have hcounts : DictionaryAction.Counts db (.importMessage value nowMs (some (k + 1))) ↔
            DictionaryAction.Counts db (.importMessage value nowMs none) := by
          simp only [DictionaryAction.Counts, if_neg hk]
        rw [hcounts, ← hcomplete, hrun]
        have hfails : DictionaryAction.Fails db (.importMessage value nowMs (some (k + 1))) ↔
            DictionaryAction.Fails db (.importMessage value nowMs none) := by
          rw [DictionaryAction.Fails, DictionaryAction.Fails, hrun]
        exact ⟨fun h => ⟨h.matched, fun hf => h.unchanged (hfails.2 hf)⟩,
          fun h => ⟨h.matched, fun hf => h.unchanged (hfails.1 hf)⟩⟩

theorem dictionariesMatch_empty : DictionariesMatch .empty := ⟨nofun, nofun⟩

/-- The metadata match after every step of a run, and no failure leaves a trace, exactly when every
step meets the condition. -/
theorem dictionaries_match_iff {h : List (Fired SqliteStore DictionaryAction)} {db : SqliteStore}
    (hr : Run SqliteStore.dictionaryStep .empty h db) :
    (∀ f ∈ h, ImportConsistent f) ↔ ∀ f ∈ h, f.label.Counts f.pre := by
  exact hr.forall_iff dictionariesMatch_empty (fun _ hf => hf.matched) fun _ _ _ _ _ hdb hs =>
    importConsistent_iff hdb hs

/-- A message with one identifier twice. -/
def repeatedEntry : Json :=
  .obj [("id", .str "d"), ("entries", .arr [.obj [("id", .str "a"), ("surface", .str "x")],
    .obj [("id", .str "a"), ("surface", .str "y")]])]

/-- Its import into the empty database. -/
def repeatedImport : Fired SqliteStore DictionaryAction where
  pre := .empty
  label := .importMessage repeatedEntry 0 none
  post := (SqliteStore.empty.importMessage repeatedEntry 0 none).2

theorem dictionaries_match_iff_repeated :
    (∀ f ∈ [repeatedImport], ImportConsistent f) ↔ ∀ f ∈ [repeatedImport], f.label.Counts f.pre :=
  dictionaries_match_iff (Run.nil.cons rfl)

/-- Its dictionary counts two entries and has one. -/
theorem not_dictionaries_match :
    ¬ ∀ (h : List (Fired SqliteStore DictionaryAction)) (db : SqliteStore),
    Run SqliteStore.dictionaryStep .empty h db → ∀ f ∈ h, ImportConsistent f := by
  intro hall
  have hr : Run SqliteStore.dictionaryStep .empty [repeatedImport] repeatedImport.post :=
    Run.nil.cons rfl
  have hcons := hall _ _ hr _ List.mem_cons_self
  have hcounts : rowsOf .empty "d" + (newIds .empty (importedEntries repeatedEntry)).card = 2 :=
    (importConsistent_iff dictionariesMatch_empty rfl).1 hcons
  exact absurd hcounts (by decide)

end LanguageLlm.Desktop
