import LanguageLlm.JsNumber
import LanguageLlm.Lib.QueryWriters
import LanguageLlm.PageTranslate.CanonicalUrl

/-!
# Requests to LRCLIB

`buildLrcLibSearchUrl` of `lrclib.ts`, and how a URL is read that an address and a written query
make.
-/

namespace LanguageLlm

namespace PageTranslate

open Lib

/-- An address with a written query is read as the address and that query. -/
theorem urlText_query {address query : List Char}
    (haddress : ∀ c ∈ address, 0x20 < c.toNat ∧ c ≠ '#' ∧ c ≠ '?')
    (hquery : ∀ c ∈ query, 0x20 < c.toNat ∧ c ≠ '#' ∧ c ≠ '?') :
    urlText (address ++ '?' :: query) = ⟨address, some query, none⟩ := by
  have hall : ∀ c ∈ address ++ '?' :: query, 0x20 < c.toNat ∧ c ≠ '#' := by
    intro c hc
    rcases List.mem_append.1 hc with hc | hc
    · exact ⟨(haddress c hc).1, (haddress c hc).2.1⟩
    · rcases List.mem_cons.1 hc with rfl | hc
      · decide
      · exact ⟨(hquery c hc).1, (hquery c hc).2.1⟩
  have hkept : ∀ c ∈ address ++ '?' :: query, isStripped c = false := by
    intro c hc
    have hlow := (hall c hc).1
    simp [isStripped]
    omega
  have hclean : cleaned (address ++ '?' :: query) = address ++ '?' :: query := by
    refine cleaned_eq_self ?_ ?_ fun c hc => isTabOrNewline_of_isStripped (hkept c hc)
    · exact fun c hc => hkept c (List.mem_of_head? hc)
    · exact fun c hc => hkept c (List.mem_of_getLast? hc)
  have hfragment : '#' ∉ address ++ '?' :: query := fun hmem => (hall _ hmem).2 rfl
  have hmark : '?' ∉ address := fun hmem => (haddress _ hmem).2.2 rfl
  unfold urlText
  rw [hclean, cut_of_not_mem hfragment]
  dsimp only
  rw [cut_append_cons hmark]

/-- Whichever way the names and values were written, the URL is that of the address, with them. -/
theorem newUrl_writeQuery {bases : UrlBases} {address : List Char} {base : UrlBase}
    (hbase : bases.parse address = some base)
    (haddress : ∀ c ∈ address, 0x20 < c.toNat ∧ c ≠ '#' ∧ c ≠ '?') (w : ByteWriter)
    (params : List (List Char × List Char)) :
    bases.newUrl (address ++ '?' :: w.writeQuery params) =
      some ⟨base, some (w.writeQuery params), none, params⟩ := by
  have htext : urlText (address ++ '?' :: w.writeQuery params) =
      ⟨address, some (w.writeQuery params), none⟩ :=
    urlText_query haddress fun c hc => ByteWriter.plain_of_mem_writeQuery hc
  unfold UrlBases.newUrl
  rw [htext]
  dsimp only
  rw [hbase, Option.map_some, Option.map_some, ByteWriter.queryEncode_writeQuery,
    Option.getD_some, ByteWriter.formParse_writeQuery, Option.map_none]

end PageTranslate

namespace Lyrics

open Lib PageTranslate

structure LrcLibSearchParams where
  trackName : String
  artistName : Option String
  albumName : Option String
  duration : Option JsNumber

/-- `URLSearchParams.set`: the first pair of the name takes the value and the other pairs of the
name go, or there is a new pair. -/
def setParam (name value : List Char) :
    List (List Char × List Char) → List (List Char × List Char)
  | [] => [(name, value)]
  | p :: params =>
    if p.1 = name then (name, value) :: params.filter (·.1 ≠ name)
    else p :: setParam name value params

theorem setParam_nil (name value : List Char) : setParam name value [] = [(name, value)] := rfl

theorem setParam_second {name name' : List Char} (hne : name' ≠ name) (value value' : List Char) :
    setParam name value [(name', value')] = [(name', value'), (name, value)] :=
  if_neg hne

/-- `https://lrclib.net/api/search`. -/
def lrcLibSearch : List Char := "https://lrclib.net/api/search".toList

/-- What is searched for; `roundedText` is `String(Math.round(n))`. -/
def searchParams (roundedText : JsNumber → String) (params : LrcLibSearchParams) :
    List (List Char × List Char) :=
  let q := setParam "track_name".toList params.trackName.toList []
  let q := match params.artistName with
    | some a => if a = "" then q else setParam "artist_name".toList a.toList q
    | none => q
  let q := match params.albumName with
    | some a => if a = "" then q else setParam "album_name".toList a.toList q
    | none => q
  match params.duration with
  | some d => setParam "duration".toList (roundedText d).toList q
  | none => q

def buildLrcLibSearchUrl (roundedText : JsNumber → String) (params : LrcLibSearchParams) :
    List Char :=
  lrcLibSearch ++ '?' :: formSerialize (searchParams roundedText params)

theorem plain_lrcLibSearch : ∀ c ∈ lrcLibSearch, 0x20 < c.toNat ∧ c ≠ '#' ∧ c ≠ '?' := by
  have hall : (lrcLibSearch.all fun c => decide (0x20 < c.toNat ∧ c ≠ '#' ∧ c ≠ '?')) = true := by
    decide
  exact fun c hc => of_decide_eq_true (List.all_eq_true.1 hall c hc)

/-- What the built URL is read as. -/
theorem newUrl_buildLrcLibSearchUrl {bases : UrlBases} {base : UrlBase}
    (hbase : bases.parse lrcLibSearch = some base) (roundedText : JsNumber → String)
    (params : LrcLibSearchParams) :
    bases.newUrl (buildLrcLibSearchUrl roundedText params) =
      some ⟨base, some (formSerialize (searchParams roundedText params)), none,
        searchParams roundedText params⟩ := by
  rw [buildLrcLibSearchUrl, ByteWriter.formSerialize_eq_writeQuery]
  exact newUrl_writeQuery hbase plain_lrcLibSearch ByteWriter.form _

end Lyrics

end LanguageLlm
