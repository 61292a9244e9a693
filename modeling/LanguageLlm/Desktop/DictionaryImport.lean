import LanguageLlm.Desktop.Dictionaries
import LanguageLlm.LanguageKits.Adapters

/-!
# Importing dictionaries

From the text of a dictionary to the rows of `dictionary_entries`, and back by `lookup_dictionary`.
`loses_nothing_iff` says for which sequences of imports every entry is found again.
-/

namespace LanguageLlm.Desktop

open Lib LanguageKits

/-! ## Entries for the companion -/

/-- A row of the message. -/
structure CompanionEntry where
  id : String
  surface : String
  reading : Option String
  glossaryJson : Option String
  deriving DecidableEq

/-- A character inside the quotes of `JSON.stringify`. -/
def jsonEscape (c : Char) : List Char :=
  match c.toNat with
  | 0x22 => ['\\', c]
  | 0x5c => ['\\', c]
  | 0x08 => ['\\', 'b']
  | 0x0c => ['\\', 'f']
  | 0x0a => ['\\', 'n']
  | 0x0d => ['\\', 'r']
  | 0x09 => ['\\', 't']
  | n => if n < 0x20 then '\\' :: 'u' :: List.leftpad 4 '0' (Nat.toDigits 16 n) else [c]

/-- `JSON.stringify` of an array of strings. -/
def stringifyStrings (items : List String) : String :=
  let quoted := items.map fun s => "\"" ++ String.ofList (s.toList.flatMap jsonEscape) ++ "\""
  "[" ++ ",".intercalate quoted ++ "]"

def lexiconToCompanionEntries (entries : List LexiconEntry) (limit : Nat) : List CompanionEntry :=
  (entries.take limit).map fun e =>
    { id := e.id
      surface := e.lemmaForm
      reading := (e.readings.bind List.head?).filter fun reading => reading ≠ ""
      glossaryJson := some (stringifyStrings (e.senses.flatMap LexiconSense.glosses)) }

/-- The text of a dictionary. -/
inductive DictionaryText where
  | kaikkiJsonl (text : String)
  | ccedict (text : String)

/-- The entries of the text that go to the companion; `none` when the adapter throws. -/
def DictionaryText.companionEntries (parse : String → Option Json) :
    DictionaryText → Option (List CompanionEntry)
  | .kaikkiJsonl text =>
    (parseKaikkiJsonl parse text).map fun entries => lexiconToCompanionEntries entries 5000
  | .ccedict text => some (lexiconToCompanionEntries (parseCcedictText text) 5000)

/-- An import: the fields of the message, and the text. -/
structure DictionaryImport where
  id : String
  name : String
  language : String
  license : String
  text : DictionaryText
  nowMs : Nat

def CompanionEntry.toJson (e : CompanionEntry) : Json :=
  .obj <| [("id", .str e.id), ("surface", .str e.surface)] ++
    (e.reading.map fun reading => ("reading", .str reading)).toList ++
    (e.glossaryJson.map fun glossary => ("glossaryJson", .str glossary)).toList

/-- The message `dictionary.import`. -/
def DictionaryImport.message (d : DictionaryImport) (entries : List CompanionEntry) : Json :=
  .obj [("type", .str "dictionary.import"), ("id", .str d.id), ("name", .str d.name),
    ("language", .str d.language), ("license", .str d.license),
    ("entries", .arr (entries.map CompanionEntry.toJson))]

/-- One import; nothing is sent when the adapter throws. -/
def SqliteStore.importText (parse : String → Option Json) (db : SqliteStore)
    (d : DictionaryImport) : SqliteStore :=
  match d.text.companionEntries parse with
  | some entries => (db.importMessage (d.message entries) d.nowMs none).2
  | none => db

/-- The database after a sequence of imports. -/
def importAll (parse : String → Option Json) (imports : List DictionaryImport) : SqliteStore :=
  imports.foldl (SqliteStore.importText parse) .empty

/-! ## The entries of a sequence -/

/-- An imported entry with its dictionary. -/
structure OwnedEntry where
  dictionaryId : String
  entry : CompanionEntry
  deriving DecidableEq

/-- The entries of an import. -/
def DictionaryImport.owned (parse : String → Option Json) (d : DictionaryImport) :
    List OwnedEntry :=
  ((d.text.companionEntries parse).getD []).map fun entry => { dictionaryId := d.id, entry }

/-- All entries of a sequence, in their order. -/
def importedOf (parse : String → Option Json) (imports : List DictionaryImport) : List OwnedEntry :=
  imports.flatMap (DictionaryImport.owned parse)

/-- The entry as the handler reads it. -/
def CompanionEntry.imported (e : CompanionEntry) : ImportedEntry :=
  (e.id, e.surface, e.reading, e.glossaryJson)

theorem dictionaryEntry_toJson (e : CompanionEntry) :
    dictionaryEntry e.toJson = some e.imported := by
  obtain ⟨id, surface, reading, glossaryJson⟩ := e
  cases reading with
  | none => cases glossaryJson <;> rfl
  | some reading => cases glossaryJson <;> rfl

/-- The handler reads all entries of the message. -/
theorem importedEntries_message (d : DictionaryImport) (entries : List CompanionEntry) :
    importedEntries (d.message entries) = entries.map CompanionEntry.imported := by
  change (entries.map CompanionEntry.toJson).filterMap dictionaryEntry = _
  rw [List.filterMap_map, ← List.filterMap_eq_map]
  congr 1
  funext e
  exact dictionaryEntry_toJson e

/-- The rows after some entries were written. -/
def writeOwned (rows : OrderedMap String DictionaryEntryRow) (owned : List OwnedEntry) :
    OrderedMap String DictionaryEntryRow :=
  owned.foldl (fun rows o => upsertEntry o.dictionaryId rows o.entry.imported) rows

theorem writeOwned_append (rows : OrderedMap String DictionaryEntryRow) (l₁ l₂ : List OwnedEntry) :
    writeOwned rows (l₁ ++ l₂) = writeOwned (writeOwned rows l₁) l₂ :=
  List.foldl_append

variable {parse : String → Option Json}

/-- An import writes its entries. -/
theorem dictionaryEntries_importText (db : SqliteStore) (d : DictionaryImport) :
    (db.importText parse d).dictionaryEntries =
      writeOwned db.dictionaryEntries (d.owned parse) := by
  rw [SqliteStore.importText, DictionaryImport.owned]
  cases d.text.companionEntries parse with
  | none => rfl
  | some entries =>
    change ((db.putDictionaryMeta d.id _).putDictionaryEntries d.id _).2.dictionaryEntries = _
    rw [putDictionaryMeta_putDictionaryEntries, importedEntries_message, Option.getD_some,
      writeOwned, List.foldl_map, upsertEntries, List.foldl_map]

theorem dictionaryEntries_foldl (imports : List DictionaryImport) (db : SqliteStore) :
    (imports.foldl (SqliteStore.importText parse) db).dictionaryEntries =
      writeOwned db.dictionaryEntries (importedOf parse imports) := by
  induction imports generalizing db with
  | nil => rfl
  | cons d imports ih =>
    have hcons : importedOf parse (d :: imports) = d.owned parse ++ importedOf parse imports :=
      List.flatMap_cons
    rw [List.foldl_cons, ih, dictionaryEntries_importText, hcons, writeOwned_append]

/-- A sequence writes all its entries. -/
theorem dictionaryEntries_importAll (imports : List DictionaryImport) :
    (importAll parse imports).dictionaryEntries = writeOwned .empty (importedOf parse imports) :=
  dictionaryEntries_foldl imports .empty

/-! ## What the table holds -/

/-- The first imported entry with an identifier. -/
def firstWith (owned : List OwnedEntry) (id : String) : Option OwnedEntry :=
  owned.find? fun o => o.entry.id = id

/-- The last one. -/
def lastWith (owned : List OwnedEntry) (id : String) : Option OwnedEntry :=
  owned.reverse.find? fun o => o.entry.id = id

theorem mem_of_firstWith {owned : List OwnedEntry} {id : String} {first : OwnedEntry}
    (h : firstWith owned id = some first) : first ∈ owned ∧ first.entry.id = id := by
  rw [firstWith] at h
  exact ⟨List.mem_of_find?_eq_some h, by simpa using List.find?_some h⟩

theorem mem_of_lastWith {owned : List OwnedEntry} {id : String} {last : OwnedEntry}
    (h : lastWith owned id = some last) : last ∈ owned ∧ last.entry.id = id := by
  rw [lastWith] at h
  exact ⟨List.mem_reverse.1 (List.mem_of_find?_eq_some h), by simpa using List.find?_some h⟩

theorem lastWith_isSome {owned : List OwnedEntry} {o : OwnedEntry} (ho : o ∈ owned) :
    ∃ last, lastWith owned o.entry.id = some last := by
  rw [← Option.isSome_iff_exists, lastWith, List.find?_isSome]
  exact ⟨o, List.mem_reverse.2 ho, by simp⟩

/-- The row of the first and the last entry with an identifier. -/
def rowOf (first last : OwnedEntry) : DictionaryEntryRow where
  dictionaryId := first.dictionaryId
  surface := last.entry.surface
  reading := last.entry.reading
  glossaryJson := last.entry.glossaryJson

/-- The row of an identifier has the dictionary of the first entry and the contents of the last. -/
theorem get?_writeOwned (owned : List OwnedEntry) (id : String) :
    (writeOwned .empty owned).get? id =
      (firstWith owned id).bind fun first => (lastWith owned id).map (rowOf first) := by
  induction owned using List.reverseRecOn with
  | nil => rfl
  | append_singleton owned o ih =>
    have hfirst : firstWith (owned ++ [o]) id =
        (firstWith owned id).or (if o.entry.id = id then some o else none) := by
      rw [firstWith, List.find?_append, List.find?_singleton]
      simp [firstWith]
    have hlast : lastWith (owned ++ [o]) id = if o.entry.id = id then some o else lastWith owned
        id := by
      rw [lastWith, List.reverse_append, List.find?_append, List.reverse_singleton,
        List.find?_singleton]
      by_cases hid : o.entry.id = id
      · simp [hid]
      · simp [hid, lastWith]
    rw [writeOwned_append]
    change ((writeOwned .empty owned).set o.entry.id
      (upsertedRow o.dictionaryId o.entry.imported
        ((writeOwned .empty owned).get? o.entry.id))).get? id = _
    rw [OrderedMap.get?_set]
    by_cases hid : o.entry.id = id
    · subst hid
      rw [if_pos rfl] at hfirst hlast
      rw [if_pos rfl, ih, hfirst, hlast]
      cases hold : firstWith owned o.entry.id with
      | none => rfl
      | some first =>
        obtain ⟨hmem, hid⟩ := mem_of_firstWith hold
        obtain ⟨last, hlast'⟩ := lastWith_isSome hmem
        rw [hid] at hlast'
        rw [hlast']
        rfl
    · rw [if_neg hid] at hfirst hlast
      rw [if_neg (Ne.symm hid), ih, hfirst, hlast, Option.or_none]

/-! ## Finding an entry again -/

/-- The entry is returned for its lemma, with its own contents and dictionary. -/
def Returned (db : SqliteStore) (o : OwnedEntry) : Prop :=
  (o.entry.id, rowOf o o) ∈ db.lookupDictionary o.entry.surface

/-- The imported entries with a lemma. -/
def withLemma (owned : List OwnedEntry) (surface : String) : List OwnedEntry :=
  owned.filter fun o => o.entry.surface = surface

/-- Every imported entry whose lemma has at most 50 is returned. -/
def LosesNothing (parse : String → Option Json) (imports : List DictionaryImport) : Prop :=
  ∀ o ∈ importedOf parse imports,
    (withLemma (importedOf parse imports) o.entry.surface).length ≤ 50 →
    Returned (importAll parse imports) o

/-- The first imported entry with the identifier of this one is from its dictionary, and the last
one is equal to it. -/
def Unshadowed (owned : List OwnedEntry) (o : OwnedEntry) : Prop :=
  (firstWith owned o.entry.id).map OwnedEntry.dictionaryId = some o.dictionaryId ∧
    (lastWith owned o.entry.id).map OwnedEntry.entry = some o.entry

/-- A table with at most 50 rows of a lemma returns them all. -/
theorem lookupDictionary_eq {db : SqliteStore} {surface : String} {owned : List OwnedEntry}
    (hdb : db.dictionaryEntries = writeOwned .empty owned)
    (hfew : (withLemma owned surface).length ≤ 50) :
    db.lookupDictionary surface = db.dictionaryEntries.entries.filter fun r => r.2.surface =
      surface := by
  rw [SqliteStore.lookupDictionary]
  apply List.take_of_length_le
  refine le_trans ?_ hfew
  -- each row has the contents of an imported entry with its identifier
  have hkeys : (db.dictionaryEntries.entries.filter fun r => r.2.surface = surface).map Prod.fst ⊆
      (withLemma owned surface).map fun o => o.entry.id := by
    intro key hkey
    obtain ⟨⟨key', row⟩, hrow, rfl⟩ := List.mem_map.1 hkey
    obtain ⟨hmem, hsurface⟩ := List.mem_filter.1 hrow
    have hget := (OrderedMap.get?_eq_some_iff _).2 hmem
    rw [hdb, get?_writeOwned] at hget
    obtain ⟨first, hfirst, hget⟩ := Option.bind_eq_some_iff.1 hget
    obtain ⟨last, hlast, rfl⟩ := Option.map_eq_some_iff.1 hget
    obtain ⟨hlastMem, hlastId⟩ := mem_of_lastWith hlast
    exact List.mem_map.2 ⟨last, List.mem_filter.2 ⟨hlastMem, hsurface⟩, hlastId⟩
  have hnodup :
      ((db.dictionaryEntries.entries.filter fun r => r.2.surface = surface).map Prod.fst).Nodup :=
    db.dictionaryEntries.nodup.sublist (List.filter_sublist.map Prod.fst)
  have hle := (hnodup.subperm hkeys).length_le
  rwa [List.length_map, List.length_map] at hle

/-- An entry with at most 50 of its lemma is returned exactly when it is not shadowed. -/
theorem returned_iff {db : SqliteStore} {owned : List OwnedEntry} {o : OwnedEntry}
    (hdb : db.dictionaryEntries = writeOwned .empty owned)
    (hfew : (withLemma owned o.entry.surface).length ≤ 50) :
    Returned db o ↔ Unshadowed owned o := by
  rw [Returned, lookupDictionary_eq hdb hfew, List.mem_filter, ← OrderedMap.get?_eq_some_iff, hdb,
    get?_writeOwned]
  rw [Unshadowed]
  constructor
  · rintro ⟨hget, -⟩
    obtain ⟨first, hfirst, hget⟩ := Option.bind_eq_some_iff.1 hget
    obtain ⟨last, hlast, hrow⟩ := Option.map_eq_some_iff.1 hget
    have hid := (mem_of_lastWith hlast).2
    simp only [rowOf, DictionaryEntryRow.mk.injEq] at hrow
    obtain ⟨hdict, hsurface, hreading, hglossary⟩ := hrow
    rw [hfirst, hlast]
    refine ⟨congrArg some hdict, congrArg some ?_⟩
    rw [CompanionEntry.mk.injEq]
    exact ⟨hid, hsurface, hreading, hglossary⟩
  · rintro ⟨hfirst, hlast⟩
    obtain ⟨first, hfirst, hdict⟩ := Option.map_eq_some_iff.1 hfirst
    obtain ⟨last, hlast, hentry⟩ := Option.map_eq_some_iff.1 hlast
    rw [hfirst, hlast, Option.bind_some, Option.map_some, rowOf, hdict, hentry]
    exact ⟨rfl, decide_eq_true rfl⟩

/-- Of the entries with one identifier at most one is not shadowed. -/
theorem Unshadowed.unique {owned : List OwnedEntry} {o o' : OwnedEntry} (h : Unshadowed owned o)
    (h' : Unshadowed owned o') (hid : o.entry.id = o'.entry.id) : o = o' := by
  obtain ⟨hdict, hentry⟩ := h
  obtain ⟨hdict', hentry'⟩ := h'
  rw [hid, hdict'] at hdict
  rw [hid, hentry'] at hentry
  rw [OwnedEntry.mk.injEq]
  exact ⟨(Option.some.inj hdict).symm, (Option.some.inj hentry).symm⟩

/-- The identifiers that go to the companion from a CC-CEDICT text. -/
theorem ccedict_id {text : String} {limit : Nat} {e : CompanionEntry}
    (he : e ∈ lexiconToCompanionEntries (parseCcedictText text) limit) :
    e.id = "ccedict:" ++ e.surface ++ ":" ++ e.reading.getD "" := by
  obtain ⟨entry, hentry, rfl⟩ := List.mem_map.1 he
  obtain ⟨line, -, hline⟩ := List.mem_filterMap.1 (List.mem_of_mem_take hentry)
  obtain ⟨pinyin, hreadings, hid⟩ := parseCcedictLine_id hline
  simp only [hid, hreadings, Option.bind_some, List.head?_cons, Option.filter_some]
  by_cases hempty : pinyin = ""
  · simp [hempty]
  · simp [hempty]

/-- Of the entries with one lemma and reading in CC-CEDICT texts, in one or in several, at most one
is not shadowed. -/
theorem homographs_shadowed {imports : List DictionaryImport}
    (htexts : ∀ d ∈ imports, ∃ text, d.text = .ccedict text)
    {o o' : OwnedEntry} (ho : o ∈ importedOf parse imports) (ho' : o' ∈ importedOf parse imports)
    (hsurface : o.entry.surface = o'.entry.surface) (hreading : o.entry.reading = o'.entry.reading)
    (h : Unshadowed (importedOf parse imports) o) (h' : Unshadowed (importedOf parse imports) o') :
    o = o' := by
  have hid : ∀ {o}, o ∈ importedOf parse imports →
      o.entry.id = "ccedict:" ++ o.entry.surface ++ ":" ++ o.entry.reading.getD "" := by
    intro o ho
    obtain ⟨d, hd, ho⟩ := List.mem_flatMap.1 ho
    obtain ⟨text, htext⟩ := htexts d hd
    rw [DictionaryImport.owned, htext] at ho
    obtain ⟨e, he, rfl⟩ := List.mem_map.1 ho
    exact ccedict_id he
  apply h.unique h'
  rw [hid ho, hid ho', hsurface, hreading]

/-- A sequence of imports loses nothing exactly when no entry of a lemma with at most 50 is
shadowed. -/
theorem loses_nothing_iff (parse : String → Option Json) (imports : List DictionaryImport) :
    LosesNothing parse imports ↔
      ∀ o ∈ importedOf parse imports,
        (withLemma (importedOf parse imports) o.entry.surface).length ≤ 50 →
        Unshadowed (importedOf parse imports) o := by
  have hdb := @dictionaryEntries_importAll parse imports
  constructor
  · intro h o ho hfew
    exact (returned_iff hdb hfew).1 (h o ho hfew)
  · intro h o ho hfew
    exact (returned_iff hdb hfew).2 (h o ho hfew)

/-- Two words that are written and read alike, in one dictionary. -/
def homographs : DictionaryImport where
  id := "dict-1"
  name := "cedict.u8"
  language := "zh"
  license := "verify-before-redistribution"
  text := .ccedict "麵 面 [mian4] /flour/\n面 面 [mian4] /face/"
  nowMs := 0

/-- The first of them is lost. -/
theorem not_loses_nothing : ¬ ∀ (parse : String → Option Json) (imports : List DictionaryImport),
    (imports.map DictionaryImport.id).Nodup → LosesNothing parse imports := by
  intro h
  have hnothing := h (fun _ => none) [homographs] (List.nodup_singleton _)
  have himported : importedOf (fun _ => none) [homographs] =
      [⟨"dict-1", ⟨"ccedict:面:mian4", "面", some "mian4", some "[\"flour\"]"⟩⟩,
        ⟨"dict-1", ⟨"ccedict:面:mian4", "面", some "mian4", some "[\"face\"]"⟩⟩] := by decide +kernel
  have hdb := @dictionaryEntries_importAll (fun _ => none) [homographs]
  rw [LosesNothing, himported] at hnothing
  rw [himported] at hdb
  have hreturned := hnothing _ List.mem_cons_self (by decide)
  have hunshadowed := (returned_iff hdb (by decide)).1 hreturned
  exact absurd hunshadowed.2 (by decide)

end LanguageLlm.Desktop
