import Mathlib.Data.List.TakeWhile
import LanguageLlm.Json
import LanguageLlm.PageTranslate.Segmenter

/-!
# Dictionary adapters

`lexicon.ts`, `kaikki.ts` and `ccedict.ts` of `language-kits`: the lines of a dictionary dump become
entries of one schema. `ccedictMatch_iff` says that the matcher of a CC-CEDICT line is its regular
expression.
-/

namespace LanguageLlm.LanguageKits

open PageTranslate (isSpace trim)

/-! ## The schema -/

structure LexiconPronunciation where
  value : String
  system : String
  deriving DecidableEq

structure LexiconSense where
  id : String
  glosses : List String
  pos : Option (List String) := none
  tags : Option (List String) := none
  deriving DecidableEq

/-- `emptySense`. -/
def emptySense (id gloss : String) : LexiconSense where
  id := id
  glosses := [gloss]

structure LexiconEntry where
  id : String
  lemmaForm : String
  language : String
  readings : Option (List String)
  pronunciations : Option (List LexiconPronunciation)
  senses : List LexiconSense
  source : String
  license : String
  attribution : String
  raw : Json

/-! ## Lines -/

/-- `text.split(/\r?\n/)`. -/
def splitLines : List Char → List (List Char)
  | [] => [[]]
  | '\r' :: '\n' :: cs => [] :: splitLines cs
  | '\n' :: cs => [] :: splitLines cs
  | c :: cs =>
    match splitLines cs with
    | [] => [[c]]
    | line :: lines => (c :: line) :: lines

/-- The trimmed line, unless it is blank or a comment. -/
def contentOf (line : List Char) : Option (List Char) :=
  match trim line with
  | [] => none
  | '#' :: _ => none
  | trimmed => some trimmed

/-! ## Kaikki -/

/-- The strings of an array. -/
def stringsOf (items : List Json) : List String := items.filterMap Json.asStr

/-- A sense of a Kaikki entry; one without glosses is dropped. -/
def kaikkiSense (raw : Json) (word : String) (i : Nat) (sense : Json) : Option LexiconSense :=
  let glosses := ((sense.get "glosses").bind Json.asArray).elim [] stringsOf
  if glosses = [] then none
  else
    some
      { id := (sense.getStr "id").getD (word ++ ":" ++ toString i)
        glosses
        pos :=
          match (sense.get "pos").bind Json.asArray with
          | some pos => some (stringsOf pos)
          | none => (raw.getStr "pos").map fun pos => [pos]
        tags := ((sense.get "tags").bind Json.asArray).map stringsOf }

/-- The pronunciation of a sound; one without `ipa` is dropped. -/
def kaikkiSound (sound : Json) : Option LexiconPronunciation :=
  match sound.getStr "ipa" with
  | none | some "" => none
  | some ipa => some { value := ipa, system := "ipa" }

/-- The entry of a parsed line; one without word or language is dropped. -/
def kaikkiEntry (raw : Json) : Option LexiconEntry :=
  match raw.getStr "word", (raw.getStr "lang_code").or (raw.getStr "lang") with
  | none, _ | some "", _ | _, none | _, some "" => none
  | some word, some lang =>
    let sensesRaw := ((raw.get "senses").bind Json.asArray).getD []
    let senses := sensesRaw.zipIdx.filterMap fun s => kaikkiSense raw word s.2 s.1
    let sounds := ((raw.get "sounds").bind Json.asArray).getD []
    let pronunciations := sounds.filterMap kaikkiSound
    some
      { id := (raw.getStr "id").getD ("kaikki:" ++ lang ++ ":" ++ word)
        lemmaForm := word
        language := lang
        readings := none
        pronunciations := if pronunciations = [] then none else some pronunciations
        senses := if senses = [] then [emptySense (word ++ ":0") "(no gloss)"] else senses
        source := "kaikki"
        license := "CC BY-SA"
        attribution := "Wiktionary contributors via Kaikki"
        raw }

/-- `parseKaikkiLine`, for any `JSON.parse`; `none` when it throws, which it does on `null`. -/
def parseKaikkiLine (parse : String → Option Json) (line : List Char) :
    Option (Option LexiconEntry) :=
  match contentOf line with
  | none => some none
  | some trimmed =>
    match parse (String.ofList trimmed) with
    | none => some none
    | some .null => none
    | some raw => some (kaikkiEntry raw)

def parseKaikkiJsonl (parse : String → Option Json) (text : String) : Option (List LexiconEntry) :=
  ((splitLines text.toList).mapM (parseKaikkiLine parse)).map fun entries => entries.filterMap id

/-! ## CC-CEDICT -/

/-- The characters that `.` does not match. -/
def isLineTerminator (c : Char) : Bool :=
  c = '\n' || c = '\r' || c.toNat = 0x2028 || c.toNat = 0x2029

/-- `\]\s+\/(.+)\/\s*$`: its group. -/
def matchGlosses : List Char → Option (List Char)
  | ']' :: cs =>
    if cs.takeWhile isSpace = [] then none
    else
      match cs.dropWhile isSpace with
      | '/' :: cs =>
        match cs.reverse.dropWhile isSpace with
        | '/' :: c :: glosses =>
          if (c :: glosses).any isLineTerminator then none else some (c :: glosses).reverse
        | _ => none
      | _ => none
  | _ => none

/-- A run of other characters and the spaces after it, both of them not empty: `(\S+)\s+`. -/
def matchWord (cs : List Char) : Option (List Char × List Char) :=
  let word := cs.takeWhile fun c => !isSpace c
  let rest := cs.dropWhile fun c => !isSpace c
  if word = [] ∨ rest = [] then none else some (word, rest.dropWhile isSpace)

/-- `/^(\S+)\s+(\S+)\s+\[([^\]]+)\]\s+\/(.+)\/\s*$/`: its groups. -/
def ccedictMatch (cs : List Char) : Option (List Char × List Char × List Char × List Char) := do
  let (traditional, cs) ← matchWord cs
  let (simplified, cs) ← matchWord cs
  match cs with
  | '[' :: cs =>
    let pinyin := cs.takeWhile fun c => c ≠ ']'
    if pinyin = [] then none
    else
      let glosses ← matchGlosses (cs.dropWhile fun c => c ≠ ']')
      some (traditional, simplified, pinyin, glosses)
  | _ => none

/-! The matcher finds the groups of the expression: where one item ends and the next begins is
determined. -/

/-- One or more characters of a class. -/
def Plus (p : Char → Bool) (cs : List Char) : Prop := cs ≠ [] ∧ ∀ c ∈ cs, p c = true

/-- The text does not go on with a character of the class. -/
def Stops (p : Char → Bool) (cs : List Char) : Prop := ∀ c rest, cs = c :: rest → p c = false

theorem stops_cons {p : Char → Bool} {c : Char} {cs : List Char} (h : p c = false) :
    Stops p (c :: cs) := by
  intro d rest hd
  cases hd
  exact h

theorem stops_dropWhile (p : Char → Bool) (cs : List Char) : Stops p (cs.dropWhile p) := by
  induction cs with
  | nil => exact nofun
  | cons c cs ih =>
    rw [List.dropWhile_cons]
    split
    · exact ih
    · next hc => exact stops_cons (by simpa using hc)

/-- A run up to where it stops. -/
theorem takeWhile_run {p : Char → Bool} {run rest : List Char} (hrun : ∀ c ∈ run, p c = true)
    (hrest : Stops p rest) :
    (run ++ rest).takeWhile p = run ∧ (run ++ rest).dropWhile p = rest := by
  rw [List.takeWhile_append_of_pos hrun, List.dropWhile_append_of_pos hrun]
  cases rest with
  | nil => simp
  | cons c rest => simp [hrest c rest rfl]

theorem takeWhile_dropWhile (p : Char → Bool) (cs : List Char) :
    cs = cs.takeWhile p ++ cs.dropWhile p ∧ (∀ c ∈ cs.takeWhile p, p c = true) :=
  ⟨List.takeWhile_append_dropWhile.symm, fun _ hc => List.mem_takeWhile_imp hc⟩

theorem Plus.stops {p q : Char → Bool} {run rest : List Char} (h : Plus p run)
    (hpq : ∀ c, p c = true → q c = false) :
    Stops q (run ++ rest) := by
  obtain ⟨hne, hall⟩ := h
  cases run with
  | nil => exact absurd rfl hne
  | cons c run => exact stops_cons (hpq c (hall c List.mem_cons_self))

theorem matchWord_iff {cs word rest : List Char} :
    matchWord cs = some (word, rest) ↔
      ∃ gap, cs = word ++ (gap ++ rest) ∧ Plus (fun c => !isSpace c) word ∧ Plus isSpace gap ∧
        Stops isSpace rest := by
  rw [matchWord]
  constructor
  · intro h
    split at h
    · cases h
    · next hne =>
      cases h
      obtain ⟨hword, hrest⟩ := not_or.1 hne
      obtain ⟨hcs, hchars⟩ := takeWhile_dropWhile (fun c => !isSpace c) cs
      obtain ⟨hgap, hspaces⟩ := takeWhile_dropWhile isSpace (cs.dropWhile fun c => !isSpace c)
      refine ⟨_, ?_, ⟨hword, hchars⟩, ⟨?_, hspaces⟩, stops_dropWhile _ _⟩
      · rw [← hgap]
        exact hcs
      · -- the character after the word is a space
        intro hnil
        have hstops := stops_dropWhile (fun c => !isSpace c) cs
        cases hafter : cs.dropWhile fun c => !isSpace c with
        | nil => exact hrest hafter
        | cons c after =>
          rw [hafter] at hnil hstops
          have hspace : isSpace c = true := by simpa using hstops c after rfl
          simp [hspace] at hnil
  · rintro ⟨gap, rfl, hword, hgap, hrest⟩
    obtain ⟨htake, hdrop⟩ := takeWhile_run hword.2 (hgap.stops fun c hc => by simp [hc])
    rw [htake, hdrop, (takeWhile_run hgap.2 hrest).2, if_neg]
    rw [not_or]
    exact ⟨hword.1, by simp [hgap.1]⟩

/-- What is dropped from the end of a list stands behind the rest of it. -/
theorem exists_tail_of_reverse {p : Char → Bool} {l rest : List Char}
    (h : l.reverse.dropWhile p = rest) :
    ∃ tail, l = rest.reverse ++ tail ∧ ∀ c ∈ tail, p c = true := by
  obtain ⟨hrev, hall⟩ := takeWhile_dropWhile p l.reverse
  refine ⟨(l.reverse.takeWhile p).reverse, ?_, fun c hc => hall c (List.mem_reverse.1 hc)⟩
  rw [h] at hrev
  rw [← List.reverse_append, ← hrev, List.reverse_reverse]

theorem matchGlosses_iff {cs glosses : List Char} :
    matchGlosses cs = some glosses ↔
      ∃ gap tail, cs = ']' :: (gap ++ '/' :: (glosses ++ '/' :: tail)) ∧ Plus isSpace gap ∧
        Plus (fun c => !isLineTerminator c) glosses ∧ ∀ c ∈ tail, isSpace c = true := by
  constructor
  · intro h
    unfold matchGlosses at h
    split at h
    · next cs =>
      split at h
      · cases h
      · next hgap =>
        split at h
        · next inner hinner =>
          split at h
          · next c before hbefore =>
            split at h
            · cases h
            · next hplain =>
              cases h
              obtain ⟨hcs, hspaces⟩ := takeWhile_dropWhile isSpace cs
              obtain ⟨tail, hback, htail⟩ := exists_tail_of_reverse hbefore
              refine ⟨_, tail, ?_, ⟨hgap, hspaces⟩, ⟨by simp, ?_⟩, htail⟩
              · rw [hinner, hback] at hcs
                rw [List.cons.injEq]
                refine ⟨rfl, hcs.trans ?_⟩
                simp
              · intro d hd
                rw [List.mem_reverse] at hd
                have hd' := mt (fun ht => List.any_eq_true.2 ⟨d, hd, ht⟩) hplain
                simpa using hd'
          · cases h
        · cases h
    · cases h
  · rintro ⟨gap, tail, rfl, hgap, ⟨hne, hplain⟩, htail⟩
    have hslash : Stops isSpace ('/' :: (glosses ++ '/' :: tail)) := stops_cons (by decide)
    obtain ⟨htake, hdrop⟩ := takeWhile_run hgap.2 hslash
    rw [matchGlosses, htake, if_neg hgap.1, hdrop]
    have hrev : (glosses ++ '/' :: tail).reverse = tail.reverse ++ '/' :: glosses.reverse := by simp
    have hend : Stops isSpace ('/' :: glosses.reverse) := stops_cons (by decide)
    simp only [hrev, (takeWhile_run (fun c hc => htail c (List.mem_reverse.1 hc)) hend).2]
    cases hglosses : glosses.reverse with
    | nil => exact absurd (List.reverse_eq_nil_iff.1 hglosses) hne
    | cons c before =>
      have hback : (c :: before).reverse = glosses := by rw [← hglosses, List.reverse_reverse]
      have hany : ¬ (c :: before).any isLineTerminator = true := by
        rw [List.any_eq_true]
        rintro ⟨d, hd, ht⟩
        rw [← hglosses, List.mem_reverse] at hd
        have hd' : (!isLineTerminator d) = true := hplain d hd
        rw [ht] at hd'
        cases hd'
      simp only [if_neg hany, hback]

/-- `/^(\S+)\s+(\S+)\s+\[([^\]]+)\]\s+\/(.+)\/\s*$/` as a relation between a line and the groups. -/
def CcedictShape (cs traditional simplified pinyin glosses : List Char) : Prop :=
  ∃ gap₁ gap₂ gap₃ tail,
    cs = traditional ++ (gap₁ ++ (simplified ++ (gap₂ ++ '[' :: (pinyin ++
      ']' :: (gap₃ ++ '/' :: (glosses ++ '/' :: tail)))))) ∧
    Plus (fun c => !isSpace c) traditional ∧ Plus isSpace gap₁ ∧
      Plus (fun c => !isSpace c) simplified ∧
    Plus isSpace gap₂ ∧ Plus (fun c => c ≠ ']') pinyin ∧ Plus isSpace gap₃ ∧
    Plus (fun c => !isLineTerminator c) glosses ∧ ∀ c ∈ tail, isSpace c = true

theorem ccedictMatch_iff {cs traditional simplified pinyin glosses : List Char} :
    ccedictMatch cs = some (traditional, simplified, pinyin, glosses) ↔
      CcedictShape cs traditional simplified pinyin glosses := by
  constructor
  · intro h
    simp only [ccedictMatch, Option.bind_eq_bind, Option.bind_eq_some_iff, Prod.exists] at h
    obtain ⟨word₁, rest₁, hword₁, word₂, rest₂, hword₂, h⟩ := h
    obtain ⟨gap₁, rfl, htraditional, hgap₁, -⟩ := matchWord_iff.1 hword₁
    obtain ⟨gap₂, rfl, hsimplified, hgap₂, -⟩ := matchWord_iff.1 hword₂
    split at h
    · next inner =>
      split at h
      · cases h
      · next hpinyin =>
        simp only [Option.bind_eq_some_iff] at h
        obtain ⟨found, hfound, hgroups⟩ := h
        cases hgroups
        obtain ⟨hinner, hchars⟩ := takeWhile_dropWhile (fun c => decide (c ≠ ']')) inner
        obtain ⟨gap₃, tail, hdrop, hgap₃, hglosses, htail⟩ := matchGlosses_iff.1 hfound
        rw [hdrop] at hinner
        refine ⟨gap₁, gap₂, gap₃, tail, ?_, htraditional, hgap₁, hsimplified, hgap₂,
          ⟨hpinyin, hchars⟩, hgap₃, hglosses, htail⟩
        rw [← hinner]
    · cases h
  · rintro ⟨gap₁, gap₂, gap₃, tail, rfl, htraditional, hgap₁, hsimplified, hgap₂, hpinyin, hgap₃,
      hglosses, htail⟩
    have hword₁ : ∀ rest, matchWord (traditional ++ (gap₁ ++ (simplified ++ rest))) =
        some (traditional, simplified ++ rest) := fun rest =>
      matchWord_iff.2 ⟨gap₁, rfl, htraditional, hgap₁,
        hsimplified.stops fun c hc => by simpa using hc⟩
    have hword₂ : ∀ rest, matchWord (simplified ++ (gap₂ ++ '[' :: rest)) =
        some (simplified, '[' :: rest) :=
      fun rest => matchWord_iff.2 ⟨gap₂, rfl, hsimplified, hgap₂, stops_cons (by decide)⟩
    have hbracket :
        Stops (fun c => decide (c ≠ ']')) (']' :: (gap₃ ++ '/' :: (glosses ++ '/' :: tail))) :=
      stops_cons (by decide)
    obtain ⟨htake, hdrop⟩ := takeWhile_run hpinyin.2 hbracket
    simp only [ccedictMatch, hword₁, hword₂, Option.bind_eq_bind, Option.bind_some, htake, hdrop,
      if_neg hpinyin.1, matchGlosses_iff.2 ⟨gap₃, tail, rfl, hgap₃, hglosses, htail⟩]

/-- `parseCcedictLine` -/
def parseCcedictLine (line : List Char) : Option LexiconEntry := do
  let trimmed ← contentOf line
  let (traditional, simplified, m₃, m₄) ← ccedictMatch trimmed
  let pinyin := String.ofList (trim m₃)
  let glosses := (((m₄.splitOn '/').map trim).filter fun g => g ≠ []).map String.ofList
  if glosses = [] then none
  else
    some
      { id := "ccedict:" ++ String.ofList simplified ++ ":" ++ pinyin
        lemmaForm := String.ofList simplified
        language := "zh"
        readings := some [pinyin]
        pronunciations := some [{ value := pinyin, system := "pinyin-numbered" }]
        senses := [{ id := "0", glosses }]
        source := "cc-cedict"
        license := "CC BY-SA 4.0"
        attribution := "CC-CEDICT / MDBG"
        raw := .obj [("traditional", .str (String.ofList traditional)),
          ("simplified", .str (String.ofList simplified)), ("pinyin", .str pinyin)] }

/-- The identifier of an entry is made of its lemma and its reading. -/
theorem parseCcedictLine_id {line : List Char} {e : LexiconEntry}
    (h : parseCcedictLine line = some e) :
    ∃ pinyin, e.readings = some [pinyin] ∧ e.id = "ccedict:" ++ e.lemmaForm ++ ":" ++ pinyin := by
  simp only [parseCcedictLine, Option.bind_eq_bind, Option.bind_eq_some_iff, Prod.exists] at h
  obtain ⟨trimmed, -, traditional, simplified, m₃, m₄, -, h⟩ := h
  split at h
  · cases h
  · cases h
    exact ⟨_, rfl, rfl⟩

def parseCcedictText (text : String) : List LexiconEntry :=
  (splitLines text.toList).filterMap parseCcedictLine

example : (parseCcedictText "# sample\r\n中國 中国 [Zhong1 guo2] /China/Middle Kingdom/\n").map
    (fun e => e.id) =
    ["ccedict:中国:Zhong1 guo2"] := by decide +kernel

end LanguageLlm.LanguageKits
