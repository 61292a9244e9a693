import Mathlib.Data.List.DropRight
import LanguageLlm.Lib.UrlEncoded

/-!
# The canonical URL of a page

`canonicalUrl` of `hash.ts` with the algorithms of the URL standard that it uses: an input is
cleaned and cut into the part before the query, the query and the fragment; the query is
percent-encoded and read as names and values, and deleting a name writes the query anew. How the
part before the query is parsed is a parameter.

`canonicalUrl_extended_iff` says when a URL and its extension by tracking parameters have one
canonical URL.
-/

namespace LanguageLlm.PageTranslate

open Lib

/-! ## URLs -/

/-- The part of a URL before its query: how it is written, and whether its scheme is special. -/
structure UrlBase where
  text : List Char
  special : Bool

/-- A control or a space, which is stripped from both ends of an input. -/
def isStripped (c : Char) : Bool := c.toNat ≤ 0x20

/-- A tab or a line break, which is removed wherever it stands. -/
def isTabOrNewline (c : Char) : Bool := c = '\t' || c = '\n' || c = '\r'

/-- The parser of the part of a URL before its query, and what the standard says of its results:
they are parsed as themselves, no query or fragment begins in them, and nothing in them is cleaned
away. -/
structure UrlBases where
  parse : List Char → Option UrlBase
  parse_text : ∀ {t b}, parse t = some b → parse b.text = some b
  plain : ∀ {t b}, parse t = some b → ∀ c ∈ b.text, c ≠ '?' ∧ c ≠ '#' ∧ isTabOrNewline c = false
  head_kept : ∀ {t b}, parse t = some b → ∀ c ∈ b.text.head?, isStripped c = false
  last_kept : ∀ {t b}, parse t = some b → ∀ c ∈ b.text.getLast?, isStripped c = false

/-- An input cut into its parts. -/
structure UrlText where
  base : List Char
  query : Option (List Char)
  fragment : Option (List Char)

def cleaned (href : List Char) : List Char :=
  ((href.dropWhile isStripped).rdropWhile isStripped).filter fun c => !isTabOrNewline c

def urlText (href : List Char) : UrlText :=
  let front := cut '#' (cleaned href)
  let parts := cut '?' front.1
  { base := parts.1, query := parts.2, fragment := front.2 }

/-- The bytes of a fragment that are encoded. -/
def fragmentSet (b : Nat) : Bool :=
  b ≤ 0x1F || 0x7E < b || b ∈ [0x20, 0x22, 0x3C, 0x3E, 0x60]

structure Url where
  base : UrlBase
  query : Option (List Char)
  fragment : Option (List Char)
  searchParams : List (List Char × List Char)

/-- `new URL(href)`. -/
def UrlBases.newUrl (bases : UrlBases) (href : List Char) : Option Url :=
  (bases.parse (urlText href).base).map fun base =>
    let query := (urlText href).query.map (queryEncode base.special)
    { base
      query
      fragment := (urlText href).fragment.map (utf8PercentEncode fragmentSet false)
      searchParams := formParse (query.getD []) }

/-- The query that names and values make; there is none when they are empty. -/
def writtenQuery (params : List (List Char × List Char)) : Option (List Char) :=
  if formSerialize params = [] then none else some (formSerialize params)

namespace Url

/-- `u.hash = ""`. -/
def clearHash (u : Url) : Url := { u with fragment := none }

/-- `u.searchParams.delete(name)`. -/
def deleteParam (u : Url) (name : List Char) : Url :=
  let params := u.searchParams.filter fun p => p.1 ≠ name
  { u with searchParams := params, query := writtenQuery params }

/-- `u.toString()`. -/
def href (u : Url) : List Char :=
  u.base.text ++ (u.query.elim [] fun query => '?' :: query) ++
    u.fragment.elim [] fun fragment => '#' :: fragment

end Url

/-! ## `canonicalUrl` -/

/-- The keys that are dropped. -/
def isTrackingKey (key : List Char) : Bool :=
  "utm_".toList.isPrefixOf key || key = "fbclid".toList || key = "gclid".toList ||
    key = "si".toList

def dropTracking (u : Url) (key : List Char) : Url :=
  if isTrackingKey key then u.deleteParam key else u

def canonicalUrl (bases : UrlBases) (href : List Char) : List Char :=
  match bases.newUrl href with
  | none => href
  | some u =>
    let u := u.clearHash
    ((u.searchParams.map Prod.fst).foldl dropTracking u).href

/-! ## What is left of a URL -/

namespace Url

/-- The URL with other names and values. -/
def withParams (u : Url) (params : List (List Char × List Char)) : Url :=
  { u with searchParams := params, query := writtenQuery params }

/-- The names and values that are not dropped. -/
def untracked (u : Url) : List (List Char × List Char) :=
  u.searchParams.filter fun p => !isTrackingKey p.1

/-- Some key is dropped. -/
def Tracked (u : Url) : Prop := ∃ p ∈ u.searchParams, isTrackingKey p.1 = true

instance (u : Url) : Decidable u.Tracked := inferInstanceAs (Decidable (∃ p ∈ u.searchParams, _))

/-- The query of the canonical URL. -/
def keptQuery (u : Url) : Option (List Char) :=
  if u.Tracked then writtenQuery u.untracked else u.query

theorem untracked_eq {u : Url} (h : ¬ u.Tracked) : u.untracked = u.searchParams := by
  refine List.filter_eq_self.2 fun p hp => ?_
  rw [Bool.not_eq_true', Bool.eq_false_iff]
  exact fun hkey => h ⟨p, hp, hkey⟩

theorem foldl_deleteParam (u : Url) {names : List (List Char)} (h : names ≠ []) :
    names.foldl deleteParam u = u.withParams (u.searchParams.filter fun p => p.1 ∉ names) := by
  induction names generalizing u with
  | nil => exact absurd rfl h
  | cons name names ih =>
    rw [List.foldl_cons]
    cases names with
    | nil => simp [deleteParam, withParams]
    | cons next names =>
      rw [ih (u.deleteParam name) (by simp)]
      simp [deleteParam, withParams, List.filter_filter, Bool.and_comm]

theorem foldl_dropTracking (u : Url) (keys : List (List Char)) :
    keys.foldl dropTracking u = (keys.filter isTrackingKey).foldl deleteParam u := by
  rw [List.foldl_filter]
  rfl

/-- The loop drops every key that is tracking data. -/
theorem foldl_keys (u : Url) :
    (u.searchParams.map Prod.fst).foldl dropTracking u =
      if u.Tracked then u.withParams u.untracked else u := by
  rw [foldl_dropTracking]
  split_ifs with htracked
  · obtain ⟨p, hp, hkey⟩ := htracked
    have hne : (u.searchParams.map Prod.fst).filter isTrackingKey ≠ [] :=
      List.ne_nil_of_mem (List.mem_filter.2 ⟨List.mem_map_of_mem hp, hkey⟩)
    rw [foldl_deleteParam u hne, untracked]
    congr 1
    refine List.filter_congr fun q hq => ?_
    have hmem : q.1 ∈ u.searchParams.map Prod.fst := List.mem_map_of_mem hq
    simp [List.mem_filter, hmem]
  · have hnone : (u.searchParams.map Prod.fst).filter isTrackingKey = [] := by
      rw [List.filter_eq_nil_iff]
      intro key hkey
      obtain ⟨p, hp, rfl⟩ := List.mem_map.1 hkey
      exact fun htrue => htracked ⟨p, hp, htrue⟩
    rw [hnone]
    rfl

end Url

theorem canonicalUrl_eq {bases : UrlBases} {href : List Char} {u : Url}
    (h : bases.newUrl href = some u) :
    canonicalUrl bases href =
      u.base.text ++ u.keptQuery.elim [] fun query => '?' :: query := by
  rw [canonicalUrl, h]
  have hfold := Url.foldl_keys u.clearHash
  dsimp only
  rw [hfold]
  have htracked : u.clearHash.Tracked ↔ u.Tracked := Iff.rfl
  by_cases hu : u.Tracked
  · rw [if_pos (htracked.2 hu), Url.keptQuery, if_pos hu]
    exact List.append_nil _
  · rw [if_neg fun hc => hu (htracked.1 hc), Url.keptQuery, if_neg hu]
    exact List.append_nil _

/-! ## The canonical URL is canonical -/

/-- A query as it stands in a URL: nothing in it is encoded or cleaned away. -/
def Encoded (special : Bool) (query : List Char) : Prop :=
  ∀ c ∈ query, querySet special c.toNat = false

theorem encoded_queryEncode (special : Bool) (query : List Char) :
    Encoded special (queryEncode special query) :=
  fun _ hc => ((encodeSet_querySet special).outside hc).2

theorem encoded_formSerialize (special : Bool) (params : List (List Char × List Char)) :
    Encoded special (formSerialize params) := by
  rw [← queryEncode_formSerialize special]
  exact encoded_queryEncode special _

theorem Encoded.kept {special : Bool} {query : List Char} (h : Encoded special query) {c : Char}
    (hc : c ∈ query) : 0x20 < c.toNat ∧ c ≠ '#' := by
  have hset := h c hc
  refine ⟨?_, ?_⟩
  · simp [querySet] at hset
    omega
  · rintro rfl
    revert hset
    cases special <;> decide

theorem writtenQuery_of_ne_nil {params : List (List Char × List Char)} (h : params ≠ []) :
    writtenQuery params = some (formSerialize params) :=
  if_neg fun hnil => h (formSerialize_eq_nil_iff.1 hnil)

theorem formParse_writtenQuery (params : List (List Char × List Char)) :
    formParse ((writtenQuery params).getD []) = params := by
  by_cases h : params = []
  · rw [h]
    rfl
  · rw [writtenQuery_of_ne_nil h, Option.getD_some, formParse_formSerialize]

theorem encoded_of_writtenQuery {params : List (List Char × List Char)} {special : Bool}
    {query : List Char} (h : writtenQuery params = some query) : Encoded special query := by
  unfold writtenQuery at h
  split_ifs at h
  rw [← Option.some.inj h]
  exact encoded_formSerialize special params

/-- What a URL consists of. -/
structure UrlBases.Parsed (bases : UrlBases) (u : Url) : Prop where
  base : ∃ t, bases.parse t = some u.base
  encoded : ∀ query ∈ u.query, Encoded u.base.special query
  params : u.searchParams = formParse (u.query.getD [])

theorem UrlBases.parsed_newUrl {bases : UrlBases} {href : List Char} {u : Url}
    (h : bases.newUrl href = some u) : bases.Parsed u := by
  obtain ⟨b, hb, rfl⟩ := Option.map_eq_some_iff.1 h
  refine ⟨⟨_, hb⟩, ?_, rfl⟩
  intro query hquery
  obtain ⟨raw, -, rfl⟩ := Option.map_eq_some_iff.1 hquery
  exact encoded_queryEncode b.special raw

theorem encoded_keptQuery {bases : UrlBases} {u : Url} (h : bases.Parsed u) :
    ∀ query ∈ u.keptQuery, Encoded u.base.special query := by
  intro query hquery
  unfold Url.keptQuery at hquery
  split_ifs at hquery
  · exact encoded_of_writtenQuery hquery
  · exact h.encoded query hquery

theorem formParse_keptQuery {bases : UrlBases} {u : Url} (h : bases.Parsed u) :
    formParse (u.keptQuery.getD []) = u.untracked := by
  unfold Url.keptQuery
  split_ifs with htracked
  · exact formParse_writtenQuery _
  · rw [← h.params, Url.untracked_eq htracked]

theorem isTabOrNewline_of_isStripped {c : Char} (h : isStripped c = false) :
    isTabOrNewline c = false := by
  by_contra htab
  simp only [isTabOrNewline, Bool.not_eq_false, Bool.or_eq_true, decide_eq_true_eq] at htab
  rcases htab with (rfl | rfl) | rfl <;> cases h

theorem cleaned_eq_self {t : List Char} (hhead : ∀ c ∈ t.head?, isStripped c = false)
    (hlast : ∀ c ∈ t.getLast?, isStripped c = false) (hall : ∀ c ∈ t, isTabOrNewline c = false) :
    cleaned t = t := by
  have hdrop : t.dropWhile isStripped = t := by
    cases t with
    | nil => rfl
    | cons c t => rw [List.dropWhile_cons, hhead c rfl, if_neg Bool.false_ne_true]
  have hrdrop : t.rdropWhile isStripped = t := by
    rw [List.rdropWhile_eq_self_iff]
    intro hne
    rw [hlast _ (List.getLast?_eq_getLast_of_ne_nil hne)]
    exact Bool.false_ne_true
  rw [cleaned, hdrop, hrdrop, List.filter_eq_self]
  intro c hc
  rw [hall c hc]
  rfl

/-- A URL that is written without a fragment is read back. -/
theorem urlText_written {bases : UrlBases} {t : List Char} {b : UrlBase}
    (h : bases.parse t = some b) {query : Option (List Char)}
    (hquery : ∀ q ∈ query, Encoded b.special q) :
    urlText (b.text ++ query.elim [] fun q => '?' :: q) = ⟨b.text, query, none⟩ := by
  have hplain := bases.plain h
  have htail : ∀ c ∈ query.elim [] fun q => '?' :: q, 0x20 < c.toNat ∧ c ≠ '#' := by
    intro c hc
    cases query with
    | none => cases hc
    | some q =>
      rcases List.mem_cons.1 hc with rfl | hc
      · decide
      · exact (hquery q rfl).kept hc
  have hkept : ∀ c ∈ query.elim [] fun q => '?' :: q, isStripped c = false := by
    intro c hc
    have hlow := (htail c hc).1
    simp [isStripped]
    omega
  have hfragment : '#' ∉ b.text ++ query.elim [] fun q => '?' :: q := by
    intro hmem
    rcases List.mem_append.1 hmem with hmem | hmem
    · exact (hplain _ hmem).2.1 rfl
    · exact (htail _ hmem).2 rfl
  have hclean : cleaned (b.text ++ query.elim [] fun q => '?' :: q) =
      b.text ++ query.elim [] fun q => '?' :: q := by
    refine cleaned_eq_self ?_ ?_ ?_
    · intro c hc
      rw [List.head?_append, Option.mem_def, Option.or_eq_some_iff] at hc
      rcases hc with hc | ⟨-, hc⟩
      · exact bases.head_kept h c hc
      · exact hkept c (List.mem_of_head? hc)
    · intro c hc
      rw [List.getLast?_append, Option.mem_def, Option.or_eq_some_iff] at hc
      rcases hc with hc | ⟨-, hc⟩
      · exact hkept c (List.mem_of_getLast? hc)
      · exact bases.last_kept h c hc
    · intro c hc
      rcases List.mem_append.1 hc with hc | hc
      · exact (hplain c hc).2.2
      · exact isTabOrNewline_of_isStripped (hkept c hc)
  have hmark : '?' ∉ b.text := fun hmem => (hplain _ hmem).1 rfl
  unfold urlText
  rw [hclean, cut_of_not_mem hfragment]
  dsimp only
  cases query with
  | none =>
    rw [Option.elim_none, List.append_nil, cut_of_not_mem hmark]
  | some q => rw [Option.elim_some, cut_append_cons hmark]

/-- A canonical URL is its own canonical URL. -/
theorem canonicalUrl_canonicalUrl (bases : UrlBases) (href : List Char) :
    canonicalUrl bases (canonicalUrl bases href) = canonicalUrl bases href := by
  cases h : bases.newUrl href with
  | none =>
    have hself : canonicalUrl bases href = href := by rw [canonicalUrl, h]
    rw [hself, hself]
  | some u =>
    have hparsed := UrlBases.parsed_newUrl h
    have hencoded := encoded_keptQuery hparsed
    obtain ⟨t, ht⟩ := hparsed.base
    have hnew : bases.newUrl (canonicalUrl bases href) =
        some ⟨u.base, u.keptQuery, none, u.untracked⟩ := by
      have hkeep : u.keptQuery.map (queryEncode u.base.special) = u.keptQuery := by
        cases hq : u.keptQuery with
        | none => rfl
        | some q =>
          exact congrArg some ((encodeSet_querySet u.base.special).keep_all (hencoded q hq))
      rw [canonicalUrl_eq h, UrlBases.newUrl, urlText_written ht hencoded, bases.parse_text ht,
        Option.map_some]
      dsimp only
      rw [hkeep, formParse_keptQuery hparsed]
      rfl
    have huntracked : ¬ (⟨u.base, u.keptQuery, none, u.untracked⟩ : Url).Tracked := by
      intro htracked
      obtain ⟨p, hp, hkey⟩ := htracked
      have hnot := (List.mem_filter.1 hp).2
      rw [hkey] at hnot
      cases hnot
    have hkept : (⟨u.base, u.keptQuery, none, u.untracked⟩ : Url).keptQuery = u.keptQuery :=
      if_neg huntracked
    rw [canonicalUrl_eq hnew, canonicalUrl_eq h, hkept]

/-! ## Tracking parameters -/

/-- A piece of a query with a key that is tracking data. -/
def IsTracking (piece : List Char) : Prop := isTrackingKey (formPair piece).1 = true

instance (piece : List Char) : Decidable (IsTracking piece) :=
  inferInstanceAs (Decidable (isTrackingKey (formPair piece).1 = true))

/-- The second list is the first with tracking parameters appended or inserted. -/
inductive Inserted : List (List Char) → List (List Char) → Prop where
  | nil : Inserted [] []
  | keep (piece : List Char) {l l' : List (List Char)} :
      Inserted l l' → Inserted (piece :: l) (piece :: l')
  | add {piece : List Char} {l l' : List (List Char)} :
      IsTracking piece → Inserted l l' → Inserted l (piece :: l')

/-- The pieces of the query of an input. -/
def queryPieces (href : List Char) : List (List Char) := pieces ((urlText href).query.getD [])

/-- An input that extends another by tracking parameters in its query, and has any fragment. -/
structure Extends (href' href : List Char) : Prop where
  base : (urlText href').base = (urlText href).base
  query : (urlText href').query = (urlText href).query ∨
    Inserted (queryPieces href) (queryPieces href') ∧ queryPieces href' ≠ queryPieces href

theorem Inserted.filter_untracked {l l' : List (List Char)} (h : Inserted l l') :
    (l'.map formPair).filter (fun p => !isTrackingKey p.1) =
      (l.map formPair).filter fun p => !isTrackingKey p.1 := by
  induction h with
  | nil => rfl
  | keep piece h ih => rw [List.map_cons, List.map_cons, List.filter_cons, List.filter_cons, ih]
  | add hpiece h ih =>
    rw [List.map_cons, List.filter_cons_of_neg, ih]
    rw [hpiece]
    exact Bool.false_ne_true

/-- What was inserted is tracking data. -/
theorem Inserted.exists_tracking {l l' : List (List Char)} (h : Inserted l l') (hne : l' ≠ l) :
    ∃ piece ∈ l', IsTracking piece := by
  induction h with
  | nil => exact absurd rfl hne
  | keep piece h ih =>
    obtain ⟨found, hmem, htracking⟩ := ih fun heq => hne (by rw [heq])
    exact ⟨found, List.mem_cons_of_mem _ hmem, htracking⟩
  | add hpiece h ih => exact ⟨_, List.mem_cons_self, hpiece⟩

theorem newUrl_of_base {bases : UrlBases} {href href' : List Char} {u : Url}
    (h : bases.newUrl href = some u) (hbase : (urlText href').base = (urlText href).base) :
    ∃ u', bases.newUrl href' = some u' ∧ u'.base = u.base := by
  obtain ⟨b, hb, rfl⟩ := Option.map_eq_some_iff.1 h
  exact ⟨_, Option.map_eq_some_iff.2 ⟨b, by rw [hbase, hb], rfl⟩, rfl⟩

theorem query_eq {bases : UrlBases} {href : List Char} {u : Url}
    (h : bases.newUrl href = some u) :
    u.query = (urlText href).query.map (queryEncode u.base.special) := by
  obtain ⟨b, hb, rfl⟩ := Option.map_eq_some_iff.1 h
  rfl

theorem searchParams_eq {bases : UrlBases} {href : List Char} {u : Url}
    (h : bases.newUrl href = some u) : u.searchParams = (queryPieces href).map formPair := by
  obtain ⟨b, hb, rfl⟩ := Option.map_eq_some_iff.1 h
  cases hquery : (urlText href).query with
  | none => simp [formParse, queryPieces, hquery]
  | some query =>
    simp only [Option.map_some, Option.getD_some, formParse_queryEncode, queryPieces, hquery]
    rfl

theorem tracked_iff {bases : UrlBases} {href : List Char} {u : Url}
    (h : bases.newUrl href = some u) :
    u.Tracked ↔ ∃ piece ∈ queryPieces href, IsTracking piece := by
  rw [Url.Tracked, searchParams_eq h]
  constructor
  · intro htracked
    obtain ⟨p, hp, hkey⟩ := htracked
    obtain ⟨piece, hpiece, rfl⟩ := List.mem_map.1 hp
    exact ⟨piece, hpiece, hkey⟩
  · intro hpieces
    obtain ⟨piece, hpiece, hkey⟩ := hpieces
    exact ⟨_, List.mem_map_of_mem hpiece, hkey⟩

/-- The query is spelled as a list of names and values is written, or there is none. -/
def Url.FormSpelled (u : Url) : Prop := ∃ params, u.query = writtenQuery params

theorem writtenQuery_searchParams {bases : UrlBases} {u : Url} (h : bases.Parsed u) :
    writtenQuery u.searchParams = u.query ↔ u.FormSpelled := by
  constructor
  · intro heq
    exact ⟨_, heq.symm⟩
  · intro hspelled
    obtain ⟨params, hparams⟩ := hspelled
    rw [h.params, hparams, formParse_writtenQuery]

theorem keptQuery_congr {bases : UrlBases} {u u' : Url} (h : bases.Parsed u) (h' : bases.Parsed u')
    (hquery : u'.query = u.query) : u'.keptQuery = u.keptQuery := by
  have hparams : u'.searchParams = u.searchParams := by rw [h.params, h'.params, hquery]
  have htracked : u'.Tracked ↔ u.Tracked := by rw [Url.Tracked, Url.Tracked, hparams]
  by_cases hu : u.Tracked
  · rw [Url.keptQuery, Url.keptQuery, if_pos hu, if_pos (htracked.2 hu), Url.untracked,
      Url.untracked, hparams]
  · rw [Url.keptQuery, Url.keptQuery, if_neg hu, if_neg fun hc => hu (htracked.1 hc), hquery]

/-- The canonical URL determines the query that is kept. -/
theorem canonicalUrl_eq_iff {bases : UrlBases} {href href' : List Char} {u u' : Url}
    (h : bases.newUrl href = some u) (h' : bases.newUrl href' = some u')
    (hbase : u'.base = u.base) :
    canonicalUrl bases href' = canonicalUrl bases href ↔ u'.keptQuery = u.keptQuery := by
  rw [canonicalUrl_eq h, canonicalUrl_eq h', hbase, List.append_cancel_left_eq]
  cases u'.keptQuery <;> cases u.keptQuery <;> simp

/-- A URL and its extension by tracking parameters have one canonical URL, which is its own, exactly
when nothing was inserted, the URL has tracking parameters itself, or its query is spelled as it is
written after one is deleted. -/
theorem canonicalUrl_extended_iff {bases : UrlBases} {href href' : List Char} {u : Url}
    (h : bases.newUrl href = some u) (hext : Extends href' href) :
    (canonicalUrl bases href' = canonicalUrl bases href ∧
        canonicalUrl bases (canonicalUrl bases href) = canonicalUrl bases href) ↔
      (urlText href').query = (urlText href).query ∨
        (∃ piece ∈ queryPieces href, IsTracking piece) ∨ u.FormSpelled := by
  obtain ⟨u', h', hbase⟩ := newUrl_of_base h hext.base
  rw [and_iff_left (canonicalUrl_canonicalUrl bases href), canonicalUrl_eq_iff h h' hbase]
  rcases hext.query with hsame | ⟨hinserted, hne⟩
  · have hquery : u'.query = u.query := by rw [query_eq h, query_eq h', hbase, hsame]
    have hkept := keptQuery_congr (UrlBases.parsed_newUrl h) (UrlBases.parsed_newUrl h') hquery
    exact iff_of_true hkept (Or.inl hsame)
  · have htracked' : u'.Tracked := (tracked_iff h').2 (hinserted.exists_tracking hne)
    have huntracked : u'.untracked = u.untracked := by
      rw [Url.untracked, Url.untracked, searchParams_eq h, searchParams_eq h']
      exact hinserted.filter_untracked
    have hquery : (urlText href').query ≠ (urlText href).query := by
      intro heq
      exact hne (by rw [queryPieces, queryPieces, heq])
    rw [Url.keptQuery, if_pos htracked', huntracked, or_iff_right hquery, ← tracked_iff h]
    by_cases htracked : u.Tracked
    · rw [Url.keptQuery, if_pos htracked]
      exact iff_of_true rfl (Or.inl htracked)
    · rw [Url.keptQuery, if_neg htracked, Url.untracked_eq htracked, or_iff_right htracked]
      exact writtenQuery_searchParams (UrlBases.parsed_newUrl h)

def exampleText : List Char := "https://a.example/".toList

/-- The parser on one address. -/
def exampleBases : UrlBases where
  parse t := if t = exampleText then some ⟨exampleText, true⟩ else none
  parse_text h := by
    split_ifs at h
    rw [← Option.some.inj h]
    exact if_pos rfl
  plain h := by
    split_ifs at h
    rw [← Option.some.inj h]
    have hall : (exampleText.all fun c =>
      decide (c ≠ '?' ∧ c ≠ '#' ∧ isTabOrNewline c = false)) = true := by decide
    exact fun c hc => of_decide_eq_true (List.all_eq_true.1 hall c hc)
  head_kept h := by
    split_ifs at h
    rw [← Option.some.inj h]
    exact fun c hc => by cases hc; rfl
  last_kept h := by
    split_ifs at h
    rw [← Option.some.inj h]
    exact fun c hc => by cases hc; rfl

def spacedUrl : List Char := "https://a.example/?q=a%20b".toList

def trackedUrl : List Char := "https://a.example/?q=a%20b&utm_source=x#top".toList

theorem extends_trackedUrl : Extends trackedUrl spacedUrl where
  base := by decide
  query := by
    refine Or.inr ⟨?_, by decide⟩
    have hbefore : queryPieces spacedUrl = ["q=a%20b".toList] := by decide
    have hafter : queryPieces trackedUrl = ["q=a%20b".toList, "utm_source=x".toList] := by decide
    rw [hbefore, hafter]
    exact Inserted.keep _ (Inserted.add (by decide) Inserted.nil)

theorem canonicalUrl_extended_iff_tracked :
    ∃ u, exampleBases.newUrl spacedUrl = some u ∧
      ((canonicalUrl exampleBases trackedUrl = canonicalUrl exampleBases spacedUrl ∧
          canonicalUrl exampleBases (canonicalUrl exampleBases spacedUrl) =
            canonicalUrl exampleBases spacedUrl) ↔
        (urlText trackedUrl).query = (urlText spacedUrl).query ∨
          (∃ piece ∈ queryPieces spacedUrl, IsTracking piece) ∨ u.FormSpelled) := by
  have hsome : (exampleBases.newUrl spacedUrl).isSome = true := by decide
  obtain ⟨u, hu⟩ := Option.isSome_iff_exists.1 hsome
  exact ⟨u, hu, canonicalUrl_extended_iff hu extends_trackedUrl⟩

/-- A space that is spelled as bytes is spelled as a plus sign once tracking data is dropped. -/
theorem not_canonicalUrl_extended :
    ¬ ∀ (bases : UrlBases) (href href' : List Char), (bases.newUrl href).isSome →
      Extends href' href →
      canonicalUrl bases href' = canonicalUrl bases href ∧
        canonicalUrl bases (canonicalUrl bases href) = canonicalUrl bases href := by
  intro hall
  have heq := (hall exampleBases spacedUrl trackedUrl (by decide) extends_trackedUrl).1
  revert heq
  decide

end LanguageLlm.PageTranslate
