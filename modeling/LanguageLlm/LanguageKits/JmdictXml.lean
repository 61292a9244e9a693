import LanguageLlm.JsText
import LanguageLlm.Lib.Markup

/-!
# JMdict in XML

`parseJmdictXmlDump` of `adapters/import.ts` and `parseJmdictEntryXml` of `adapters/jmdict.ts`
search the text of a document with expressions. `jmdict_import` says that what they find are the
elements of the document.
-/

namespace LanguageLlm.LanguageKits

open Lib
open PageTranslate (isSpace)

/-! ## The adapter -/

/-- `matchTag` -/
def matchTag (xml : List Char) (tag : String) : Option (List Char) :=
  search (simpleElement tag.toList) xml

/-- `matchAllTags` -/
def matchAllTags (xml : List Char) (tag : String) : List (List Char) :=
  (matchAll (simpleElement tag.toList) xml).filter fun content => content ≠ []

/-- `value.replace(/^&/, "").replace(/;$/, "")`. -/
def stripJmdictEntity (value : List Char) : List Char :=
  let value := if value.head? = some '&' then value.tail else value
  if value.getLast? = some ';' then value.dropLast else value

/-- The entry of what was found in a fragment. -/
def jmdictEntry (seq : Option (List Char)) (keb reb glosses posRaw : List (List Char)) :
    Option LexiconEntry :=
  match seq, keb.head?.or reb.head? with
  | none, _ | some [], _ | _, none => none
  | some seq, some lemmaForm =>
    if glosses = [] then none
    else
      let seq := String.ofList seq
      let pos := posRaw.map fun pos => String.ofList (stripJmdictEntity pos)
      some
        { id := "jmdict:" ++ seq
          lemmaForm := String.ofList lemmaForm
          language := "ja"
          readings := if reb = [] then none else some (reb.map String.ofList)
          pronunciations := none
          senses := [{
            id := seq ++ ":0"
            glosses := glosses.map String.ofList
            pos := if pos = [] then none else some pos }]
          source := "jmdict"
          license := "CC BY-SA 4.0 / EDRDG"
          attribution := "JMdict / EDRDG"
          raw := .obj [("keb", .arr (keb.map fun k => .str (String.ofList k))),
            ("reb", .arr (reb.map fun r => .str (String.ofList r))), ("ent_seq", .str seq)] }

def parseJmdictEntryXml (fragment : List Char) : Option LexiconEntry :=
  jmdictEntry (matchTag fragment "ent_seq") (matchAllTags fragment "keb")
    (matchAllTags fragment "reb") (matchAllTags fragment "gloss") (matchAllTags fragment "pos")

/-- The entries of `text.match(/<entry[\s>][\s\S]*?<\/entry>/g)`. -/
def parseJmdictXmlDump (text : String) : List LexiconEntry :=
  (matchAll (wholeElement isSpace "entry".toList) text.toList).filterMap parseJmdictEntryXml

/-! ## The elements of a document -/

/-- The contents of the elements of a name that are not empty. -/
def fields (node : Markup) (name : String) : List (List Char) :=
  (node.contents name.toList).filter fun content => content ≠ []

/-- The entry of an element. -/
def entryOf (node : Markup) : Option LexiconEntry :=
  jmdictEntry (node.contents "ent_seq".toList).head? (fields node "keb") (fields node "reb")
    (fields node "gloss") (fields node "pos")

theorem isName_of_all {name : List Char} (hne : name ≠ [])
    (h : name.all (fun c => !endsName isSpace c) = true) : IsName isSpace name :=
  ⟨hne, fun c hc => by simpa using List.all_eq_true.1 h c hc⟩

theorem matchAll_write {node : Markup} {name : List Char} (hname : IsName isSpace name)
    (h : node.WellFormed isSpace) :
    matchAll (simpleElement name) node.write = node.contents name := by
  have hall : matchAll (simpleElement name) (node.write ++ []) =
      node.contents name ++ matchAll (simpleElement name) [] :=
    Markup.matchAll_simpleElement rfl hname h
  rwa [(startsWith_simpleElement name).matchAll_nil, List.append_nil, List.append_nil] at hall

theorem parseJmdictEntryXml_write {node : Markup} (h : node.WellFormed isSpace) :
    parseJmdictEntryXml node.write = entryOf node := by
  have hall : ∀ name ∈ ["ent_seq", "keb", "reb", "gloss", "pos"],
      matchAll (simpleElement name.toList) node.write = node.contents name.toList := by
    intro name hmem
    refine matchAll_write ?_ h
    have hnames : ["ent_seq", "keb", "reb", "gloss", "pos"].all (fun name =>
        name.toList ≠ [] && name.toList.all fun c => !endsName isSpace c) = true := by
      decide
    have hname := List.all_eq_true.1 hnames name hmem
    rw [Bool.and_eq_true] at hname
    exact isName_of_all (of_decide_eq_true hname.1) hname.2
  simp only [parseJmdictEntryXml, entryOf, matchTag, matchAllTags, fields, search,
    hall _ (List.mem_cons_self), hall "keb" (by simp), hall "reb" (by simp),
    hall "gloss" (by simp), hall "pos" (by simp)]

theorem isName_entry : IsName isSpace "entry".toList := isName_of_all (by decide) (by decide)

theorem parseJmdictXmlDump_write {doc : Markup} (h : doc.WellFormed isSpace)
    (hflat : doc.Flat "entry".toList) :
    parseJmdictXmlDump (String.ofList doc.write) =
      (doc.elements "entry".toList).filterMap entryOf := by
  have hall : matchAll (wholeElement isSpace "entry".toList) (doc.write ++ []) =
      (doc.elements "entry".toList).map Markup.write ++
        matchAll (wholeElement isSpace "entry".toList) [] :=
    Markup.matchAll_wholeElement isName_entry h hflat
  rw [startsWith_wholeElement.matchAll_nil, List.append_nil, List.append_nil] at hall
  have htext : (String.ofList doc.write).toList = doc.write := String.toList_ofList
  rw [parseJmdictXmlDump, htext, hall, List.filterMap_map]
  exact List.filterMap_congr fun node hnode =>
    parseJmdictEntryXml_write (Markup.wellFormed_of_mem h hnode)

/-! ## Records -/

structure JmdictSense where
  pos : List (List Char)
  glosses : List (List Char)

structure JmdictRecord where
  seq : List Char
  keb : List (List Char)
  reb : List (List Char)
  senses : List JmdictSense

/-- An element without attributes that holds characters. -/
def leaf (name : String) (content : List Char) (rest : Markup) : Markup :=
  .element name.toList [] (.text content .nil) rest

/-- An element without attributes that holds others. -/
def group (name : String) (children rest : Markup) : Markup := .element name.toList [] children rest

def JmdictSense.markup (s : JmdictSense) : Markup :=
  s.pos.foldr (fun pos => leaf "pos" ('&' :: (pos ++ [';']))) (s.glosses.foldr (leaf "gloss") .nil)

namespace JmdictRecord

/-- The element of a record, as JMdict is written. -/
def markup (r : JmdictRecord) : Markup :=
  group "entry"
    (leaf "ent_seq" r.seq
      (r.keb.foldr (fun keb => group "k_ele" (leaf "keb" keb .nil))
        (r.reb.foldr (fun reb => group "r_ele" (leaf "reb" reb .nil))
          (r.senses.foldr (fun s => group "sense" s.markup) .nil))))
    .nil

def glosses (r : JmdictRecord) : List (List Char) := r.senses.flatMap JmdictSense.glosses

def pos (r : JmdictRecord) : List (List Char) := r.senses.flatMap JmdictSense.pos

/-- The records that are imported. -/
structure Admissible (r : JmdictRecord) : Prop where
  seq : r.seq ≠ []
  forms : r.keb ≠ [] ∨ r.reb ≠ []
  glosses_ne_nil : r.glosses ≠ []
  keb : ∀ keb ∈ r.keb, keb ≠ []
  reb : ∀ reb ∈ r.reb, reb ≠ []
  glosses : ∀ gloss ∈ r.glosses, gloss ≠ []

/-- The entry of a record: its senses are one, with the names of the entities that `pos` has. -/
def entry (r : JmdictRecord) : LexiconEntry :=
  let seq := String.ofList r.seq
  { id := "jmdict:" ++ seq
    lemmaForm := String.ofList ((r.keb.head?.or r.reb.head?).getD [])
    language := "ja"
    readings := if r.reb = [] then none else some (r.reb.map String.ofList)
    pronunciations := none
    senses := [{
      id := seq ++ ":0"
      glosses := r.glosses.map String.ofList
      pos := if r.pos = [] then none else some (r.pos.map String.ofList) }]
    source := "jmdict"
    license := "CC BY-SA 4.0 / EDRDG"
    attribution := "JMdict / EDRDG"
    raw := .obj [("keb", .arr (r.keb.map fun k => .str (String.ofList k))),
      ("reb", .arr (r.reb.map fun r => .str (String.ofList r))), ("ent_seq", .str seq)] }

end JmdictRecord

section Records

variable {name : String} {tag : List Char} {content : List Char} {children rest : Markup}
  {r : JmdictRecord}

theorem contents_leaf :
    (leaf name content rest).contents tag =
      (if name.toList = tag then [content] else []) ++ rest.contents tag := by
  rw [leaf, Markup.contents]
  by_cases h : name.toList = tag
  · rw [if_pos ⟨h, rfl⟩, if_pos h]
    simp [Markup.plain?, Markup.contents]
  · rw [if_neg fun hboth => h hboth.1, if_neg h]
    simp [Markup.contents]

theorem contents_group (h : name.toList ≠ tag) :
    (group name children rest).contents tag = children.contents tag ++ rest.contents tag := by
  rw [group, Markup.contents, if_neg fun hboth => h hboth.1, List.nil_append]

theorem stripJmdictEntity_entity (pos : List Char) :
    stripJmdictEntity ('&' :: (pos ++ [';'])) = pos := by
  simp [stripJmdictEntity]

/-- Elements of characters in a row. -/
theorem contents_leaves (f : List Char → List Char) (l : List (List Char)) :
    (l.foldr (fun a => leaf name (f a)) rest).contents tag =
      (if name.toList = tag then l.map f else []) ++ rest.contents tag := by
  have hleaf : ∀ a rest, (leaf name (f a) rest).contents tag =
      (if name.toList = tag then [f a] else []) ++ rest.contents tag := fun _ _ => contents_leaf
  rw [Markup.contents_foldr hleaf]
  split
  · exact congrArg (· ++ _) (List.flatMap_pure_eq_map f l)
  · simp

/-- Elements of characters in a row, each in an element of its own. -/
theorem contents_forms {outer : String} (h : outer.toList ≠ tag) (l : List (List Char)) :
    (l.foldr (fun a => group outer (leaf name a .nil)) rest).contents tag =
      (if name.toList = tag then l else []) ++ rest.contents tag := by
  have hform : ∀ a rest, (group outer (leaf name a .nil) rest).contents tag =
      (if name.toList = tag then [a] else []) ++ rest.contents tag := by
    intro a rest
    rw [contents_group h, contents_leaf, Markup.contents, List.append_nil]
  rw [Markup.contents_foldr hform]
  split
  · rw [List.flatMap_singleton']
  · simp

theorem contents_sense (s : JmdictSense) :
    s.markup.contents tag =
      (if "pos".toList = tag then s.pos.map fun pos => '&' :: (pos ++ [';']) else []) ++
        if "gloss".toList = tag then s.glosses else [] := by
  have hglosses : (s.glosses.foldr (leaf "gloss") .nil).contents tag =
      (if "gloss".toList = tag then s.glosses.map id else []) ++ Markup.nil.contents tag :=
    contents_leaves id s.glosses
  rw [List.map_id, Markup.contents, List.append_nil] at hglosses
  rw [JmdictSense.markup, contents_leaves fun pos => '&' :: (pos ++ [';']), hglosses]

/-- The contents of the elements in a record. -/
theorem contents_markup (h : ∀ name ∈ ["entry", "k_ele", "r_ele", "sense"], name.toList ≠ tag) :
    r.markup.contents tag =
      (if "ent_seq".toList = tag then [r.seq] else []) ++
        ((if "keb".toList = tag then r.keb else []) ++
          ((if "reb".toList = tag then r.reb else []) ++
            r.senses.flatMap fun s => s.markup.contents tag)) := by
  have hsense : ∀ s rest, (group "sense" (JmdictSense.markup s) rest).contents tag =
      (JmdictSense.markup s).contents tag ++ rest.contents tag := fun s rest =>
    contents_group (h "sense" (by decide))
  rw [JmdictRecord.markup, contents_group (h "entry" (by decide)), contents_leaf,
    contents_forms (h "k_ele" (by decide)), contents_forms (h "r_ele" (by decide)),
    Markup.contents_foldr hsense]
  simp only [Markup.contents, List.append_nil]

/-- What is searched for in a record. -/
theorem fields_markup (r : JmdictRecord) :
    r.markup.contents "ent_seq".toList = [r.seq] ∧ r.markup.contents "keb".toList = r.keb ∧
      r.markup.contents "reb".toList = r.reb ∧ r.markup.contents "gloss".toList = r.glosses ∧
      r.markup.contents "pos".toList = r.pos.map fun pos => '&' :: (pos ++ [';']) := by
  refine ⟨?_, ?_, ?_, ?_, ?_⟩
  · rw [contents_markup (by decide)]
    simp [contents_sense]
  · rw [contents_markup (by decide)]
    simp [contents_sense]
  · rw [contents_markup (by decide)]
    simp [contents_sense]
  · rw [contents_markup (by decide)]
    simp [contents_sense, JmdictRecord.glosses]
  · rw [contents_markup (by decide)]
    simp [contents_sense, JmdictRecord.pos, List.map_flatMap]

theorem filter_ne_nil {l : List (List Char)} (h : ∀ content ∈ l, content ≠ []) :
    l.filter (fun content => content ≠ []) = l :=
  List.filter_eq_self.2 fun content hmem => decide_eq_true (h content hmem)

theorem entryOf_markup (hr : r.Admissible) : entryOf r.markup = some r.entry := by
  obtain ⟨hseq, hkeb, hreb, hglosses, hpos⟩ := fields_markup r
  have hentities : ∀ pos ∈ r.pos.map fun pos => '&' :: (pos ++ [';']), pos ≠ [] := by
    intro pos hmem
    obtain ⟨name, -, rfl⟩ := List.mem_map.1 hmem
    exact List.cons_ne_nil _ _
  have hstrip : ((r.pos.map fun pos => '&' :: (pos ++ [';'])).map fun pos =>
      String.ofList (stripJmdictEntity pos)) = r.pos.map String.ofList := by
    rw [List.map_map]
    exact List.map_congr_left fun pos _ => congrArg String.ofList (stripJmdictEntity_entity pos)
  obtain ⟨form, hform⟩ : ∃ form, r.keb.head?.or r.reb.head? = some form := by
    rw [← Option.ne_none_iff_exists']
    intro hnone
    obtain ⟨hk, hr'⟩ := Option.or_eq_none_iff.1 hnone
    exact hr.forms.elim (fun h => h (List.head?_eq_none_iff.1 hk))
      fun h => h (List.head?_eq_none_iff.1 hr')
  obtain ⟨c, seq, hcons⟩ := List.exists_cons_of_ne_nil hr.seq
  rw [entryOf, fields, fields, fields, fields, hseq, hkeb, hreb, hglosses, hpos,
    filter_ne_nil hr.keb, filter_ne_nil hr.reb, filter_ne_nil hr.glosses, filter_ne_nil hentities,
    List.head?_cons, hcons]
  simp only [jmdictEntry, JmdictRecord.entry, hform, hstrip, hcons, if_neg hr.glosses_ne_nil,
    Option.getD_some, List.map_eq_nil_iff]

end Records

/-- A record with two senses. -/
def taberu : JmdictRecord where
  seq := "1358280".toList
  keb := ["食べる".toList]
  reb := ["たべる".toList]
  senses := [⟨["v1".toList, "vt".toList], ["to eat".toList]⟩, ⟨[], ["to live on".toList]⟩]

/-- Its document, with a comment and an empty element. -/
def taberuDoc : Markup :=
  .note "!-- entries --".toList
    (group "JMdict"
      (.text "\n".toList (.empty "created".toList " date=\"x\"".toList taberu.markup)) .nil)

end LanguageLlm.LanguageKits
