import LanguageLlm.JsNumber
import LanguageLlm.Learning.StudySession
import LanguageLlm.Lib.Csv

/-!
# Cards as comma-separated values

`cardsToCsv` of `fsrs.ts`. A field is put in quotes for a comma, a quote or a line feed in it, but
not for a carriage return: `cardsToCsv_lossless_iff` says which cards come back.
-/

namespace LanguageLlm.Learning

open Lib.Csv

/-! ## The export -/

/-- How a number is printed: with digits, signs, a point and an exponent, or as a word. -/
structure NumberText where
  text : JsNumber → String
  chars : ∀ n, ∀ c ∈ (text n).toList, c.isDigit = true ∨ c ∈ "+-.eInfityNa".toList

/-- `/[",\n]/`. -/
def isSpecial (c : Char) : Bool := c = '"' || c = ',' || c = '\n'

def csvEscape (value : String) : String :=
  if value.toList.any isSpecial then
    "\"" ++ String.ofList (value.toList.flatMap fun c => if c = '"' then ['"', '"'] else [c]) ++
      "\""
  else value

variable {Fsrs : Type}

/-- The texts of a card that are escaped. -/
def StudyCard.texts (c : StudyCard Fsrs) : List String :=
  [c.sourceText, c.translationText.getD "", " ".intercalate c.tags]

def cardsToCsv (numbers : NumberText) (due : Fsrs → JsNumber) (cards : List (StudyCard Fsrs)) :
    String :=
  let header := "source,translation,tags,due"
  let rows := cards.map fun c =>
    ",".intercalate (c.texts.map csvEscape ++ [numbers.text (due c.fsrs)])
  "\n".intercalate (header :: rows)

/-! ## What it says -/

/-- The values of the header. -/
def headerValues : List (List Char) := ["source", "translation", "tags", "due"].map String.toList

/-- The values of a card. -/
def cardValues (numbers : NumberText) (due : Fsrs → JsNumber) (c : StudyCard Fsrs) :
    List (List Char) :=
  (c.texts ++ [numbers.text (due c.fsrs)]).map String.toList

/-- A text without a carriage return, or one that is put in quotes. -/
def Escaped (value : String) : Prop :=
  '\r' ∉ value.toList ∨ value.toList.any isSpecial = true

/-! ## Fields and records -/

theorem bare_of_not_special {c : Char} (h : isSpecial c = false) (hcr : c ≠ '\r') : Bare c := by
  simp only [isSpecial, Bool.or_eq_false_iff, decide_eq_false_iff_not] at h
  exact ⟨h.1.2, h.1.1, hcr, h.2⟩

theorem quoted_double (v : List Char) :
    Quoted (v.flatMap fun c => if c = '"' then ['"', '"'] else [c]) v := by
  induction v with
  | nil => exact .nil
  | cons c v ih =>
    by_cases hc : c = '"'
    · subst hc
      exact .quote ih
    · rw [List.flatMap_cons, if_neg hc]
      exact .char hc ih

theorem field_csvEscape {value : String} (h : Escaped value) :
    Field (csvEscape value).toList value.toList := by
  rw [csvEscape]
  split_ifs with hspecial
  · have hquoted := Field.quoted (quoted_double value.toList)
    simpa using hquoted
  · have hcr := h.resolve_right hspecial
    refine .bare fun c hc => bare_of_not_special ?_ fun heq => hcr (heq ▸ hc)
    rw [Bool.not_eq_true, List.any_eq_false] at hspecial
    exact Bool.eq_false_iff.2 (hspecial c hc)

theorem field_numberText (numbers : NumberText) (n : JsNumber) :
    Field (numbers.text n).toList (numbers.text n).toList := by
  refine .bare fun c hc => ?_
  refine ⟨?_, ?_, ?_, ?_⟩
  all_goals
    rintro rfl
    exact absurd (numbers.chars n _ hc) (by decide)

variable {numbers : NumberText} {due : Fsrs → JsNumber} {card : StudyCard Fsrs}

/-- The text of a record. -/
def rowText (numbers : NumberText) (due : Fsrs → JsNumber) (c : StudyCard Fsrs) : List Char :=
  [','].intercalate
    (c.texts.map (fun v => (csvEscape v).toList) ++ [(numbers.text (due c.fsrs)).toList])

theorem cardsToCsv_toList (cards : List (StudyCard Fsrs)) :
    (cardsToCsv numbers due cards).toList =
      ['\n'].intercalate
        ("source,translation,tags,due".toList :: cards.map (rowText numbers due)) := by
  have hline : "\n".toList = ['\n'] := rfl
  have hcomma : ",".toList = [','] := rfl
  have hrow : ∀ c : StudyCard Fsrs,
      (",".intercalate (c.texts.map csvEscape ++ [numbers.text (due c.fsrs)])).toList =
        rowText numbers due c := by
    intro c
    rw [String.toList_intercalate, hcomma, rowText, List.map_append, List.map_map]
    rfl
  rw [cardsToCsv, String.toList_intercalate, hline, List.map_cons, List.map_map]
  exact congrArg (fun rows => ['\n'].intercalate ("source,translation,tags,due".toList :: rows))
    (List.map_congr_left fun c _ => hrow c)

theorem record_header : Record "source,translation,tags,due".toList headerValues := by
  have htext : "source,translation,tags,due".toList = [','].intercalate headerValues := by decide
  have hbare : ∀ t ∈ headerValues, Field t t := by
    have hall : (headerValues.all fun t => t.all fun c => decide (Bare c)) = true := by decide
    intro t ht
    have hchars := List.all_eq_true.1 (List.all_eq_true.1 hall t ht)
    exact .bare fun c hc => of_decide_eq_true (hchars c hc)
  rw [htext]
  exact record_intercalate (hbare _ List.mem_cons_self)
    (List.forall₂_same.2 fun t ht => hbare t (List.mem_cons_of_mem _ ht))

theorem record_rowText (h : ∀ v ∈ card.texts, Escaped v) :
    Record (rowText numbers due card) (cardValues numbers due card) := by
  have hdue := field_numberText numbers (due card.fsrs)
  have htexts : List.Forall₂ Field
      ((card.texts.map fun v => (csvEscape v).toList) ++ [(numbers.text (due card.fsrs)).toList])
      (cardValues numbers due card) := by
    rw [cardValues, List.map_append]
    refine List.rel_append ?_ (List.Forall₂.cons hdue List.Forall₂.nil)
    rw [List.forall₂_map_left_iff, List.forall₂_map_right_iff]
    exact List.forall₂_same.2 fun v hv => field_csvEscape (h v hv)
  rw [rowText]
  cases htexts with
  | cons hfirst hrest => exact record_intercalate hfirst hrest

theorem rowText_ne_nil : rowText numbers due card ≠ [] := by
  rw [rowText, intercalate_concat]
  simp [StudyCard.texts]

/-! ## What the reader makes of a carriage return -/

/-- A text that is not put in quotes ends the record in the middle of it. -/
theorem run_not_escaped {value : String} (h : ¬ Escaped value) {c : Char} (hc : c ≠ '\n')
    (rest : List Char) (vs : List (List Char)) (rs : List (List (List Char))) :
    Reader.run ⟨.start, [], vs, rs⟩ ((csvEscape value).toList ++ c :: rest) = none := by
  obtain ⟨hcr, hspecial⟩ := not_or.1 h
  rw [not_not] at hcr
  have hplain : ∀ d ∈ value.toList, isSpecial d = false := by
    rw [Bool.not_eq_true, List.any_eq_false] at hspecial
    exact fun d hd => Bool.eq_false_iff.2 (hspecial d hd)
  obtain ⟨a, b, hvalue, ha⟩ := List.eq_append_cons_of_mem hcr
  have hbare : ∀ d ∈ a, Bare d := by
    intro d hd
    refine bare_of_not_special (hplain d ?_) fun heq => ha (heq ▸ hd)
    rw [hvalue]
    exact List.mem_append_left _ hd
  obtain ⟨next, tail, htail, hnext⟩ : ∃ next tail, b ++ c :: rest = next :: tail ∧ next ≠ '\n' := by
    cases b with
    | nil => exact ⟨c, rest, rfl, hc⟩
    | cons d b =>
      refine ⟨d, b ++ c :: rest, rfl, ?_⟩
      rintro rfl
      have hd : isSpecial '\n' = false := hplain _ (by rw [hvalue]; simp)
      exact absurd hd (by decide)
  obtain ⟨r, hrun, hbehind, -⟩ := Reader.run_field (.bare hbare) vs rs
  rw [csvEscape, if_neg hspecial, hvalue, List.append_assoc, List.cons_append, htail,
    Reader.run_append, hrun, Option.bind_some, hbehind.run_carriage hnext]

theorem run_texts_none {texts : List String} (h : ∃ v ∈ texts, ¬ Escaped v) (tail : List Char)
    (vs : List (List Char)) (rs : List (List (List Char))) :
    Reader.run ⟨.start, [], vs, rs⟩
      (texts.flatMap (fun v => (csvEscape v).toList ++ [',']) ++ tail) = none := by
  induction texts generalizing vs with
  | nil =>
    obtain ⟨v, hv, -⟩ := h
    cases hv
  | cons first texts ih =>
    rw [List.flatMap_cons, List.append_assoc, List.append_assoc, List.singleton_append]
    by_cases hfirst : Escaped first
    · have hrest : ∃ v ∈ texts, ¬ Escaped v := by
        obtain ⟨v, hv, hbad⟩ := h
        rcases List.mem_cons.1 hv with rfl | hv
        · exact absurd hfirst hbad
        · exact ⟨v, hv, hbad⟩
      obtain ⟨r, hrun, hbehind, -⟩ := Reader.run_field (field_csvEscape hfirst) vs rs
      rw [Reader.run_append, hrun, Option.bind_some, hbehind.run_comma, ih hrest]
    · exact run_not_escaped hfirst (by decide) _ vs rs

theorem run_cards_none {cards : List (StudyCard Fsrs)} {r : Reader} {v : List Char}
    {vs : List (List Char)} {rs : List (List (List Char))} (hbehind : r.Behind v vs rs)
    (h : ∃ c ∈ cards, ∃ v ∈ c.texts, ¬ Escaped v) :
    r.run (cards.flatMap fun c => '\n' :: rowText numbers due c) = none := by
  induction cards generalizing r v vs rs with
  | nil =>
    obtain ⟨c, hc, -⟩ := h
    cases hc
  | cons first cards ih =>
    have hline := hbehind.run_lineBreak .lf
      (rowText numbers due first ++ cards.flatMap fun c => '\n' :: rowText numbers due c)
    rw [List.flatMap_cons, List.cons_append]
    refine hline.trans ?_
    by_cases hfirst : ∀ v ∈ first.texts, Escaped v
    · have hrest : ∃ c ∈ cards, ∃ v ∈ c.texts, ¬ Escaped v := by
        obtain ⟨c, hc, v, hv, hbad⟩ := h
        rcases List.mem_cons.1 hc with rfl | hc
        · exact absurd (hfirst v hv) hbad
        · exact ⟨c, hc, v, hv, hbad⟩
      have hrecord : Record (rowText numbers due first) (cardValues numbers due first) :=
        record_rowText hfirst
      obtain ⟨r', v', before, hrun, hbehind', -, -⟩ := Reader.run_record hrecord [] _
      rw [Reader.run_append, hrun, Option.bind_some, ih hbehind' hrest]
    · have hbad : ∃ v ∈ first.texts, ¬ Escaped v := by
        simpa only [not_forall, exists_prop] using hfirst
      rw [rowText, intercalate_concat, List.flatMap_map, List.append_assoc]
      exact run_texts_none hbad _ _ _

/-- The values that the export has to give back. -/
def csvValues (numbers : NumberText) (due : Fsrs → JsNumber) (cards : List (StudyCard Fsrs)) :
    List (List (List Char)) :=
  headerValues :: cards.map (cardValues numbers due)

/-- The export is a document with the values of the cards exactly when every text with a carriage
return in it is put in quotes for another reason. -/
theorem cardsToCsv_lossless_iff (numbers : NumberText) (due : Fsrs → JsNumber)
    (cards : List (StudyCard Fsrs)) :
    (Document (cardsToCsv numbers due cards).toList (csvValues numbers due cards) ∧
        readDocument (cardsToCsv numbers due cards).toList = some (csvValues numbers due cards)) ↔
      ∀ c ∈ cards, ∀ v ∈ c.texts, Escaped v := by
  constructor
  · intro h
    by_contra hbad
    have hsome : ∃ c ∈ cards, ∃ v ∈ c.texts, ¬ Escaped v := by
      simpa only [not_forall, exists_prop] using hbad
    obtain ⟨r, v, before, hrun, hbehind, -, -⟩ := Reader.run_record record_header [] []
    have hread := h.2
    rw [readDocument, cardsToCsv_toList, intercalate_cons, List.flatMap_map,
      Reader.run_append] at hread
    have hinit : Reader.init.run "source,translation,tags,due".toList = some r := hrun
    rw [hinit, Option.bind_some, run_cards_none hbehind hsome] at hread
    cases hread
  · intro h
    have hdocument : Document (cardsToCsv numbers due cards).toList
        (csvValues numbers due cards) := by
      rw [cardsToCsv_toList]
      refine document_intercalate record_header ?_ ?_
      · rw [List.forall₂_map_left_iff, List.forall₂_map_right_iff]
        exact List.forall₂_same.2 fun c hc => record_rowText (h c hc)
      · intro t ht
        obtain ⟨c, -, rfl⟩ := List.mem_map.1 ht
        exact rowText_ne_nil
    exact ⟨hdocument, readDocument_eq hdocument⟩

/-- `String(n)` of an integer, which is all that the next statement needs. -/
def integerText : NumberText where
  text
    | .fin q => String.ofList ((if q < 0 then ['-'] else []) ++ Nat.toDigits 10 q.num.natAbs)
    | _ => "NaN"
  chars := by
    intro n c hc
    split at hc
    · rw [String.toList_ofList, List.mem_append] at hc
      rcases hc with hc | hc
      · right
        split_ifs at hc
        · rw [List.mem_singleton.1 hc]
          decide
        · cases hc
      · exact Or.inl (Lib.isDigit_toDigits hc)
    · have hword : "NaN".toList ⊆ "+-.eInfityNa".toList := by simp
      exact Or.inr (hword hc)

/-- A card with a carriage return in its text. -/
def carriageCard : StudyCard Unit where
  id := "1"
  videoId := none
  sourceText := "a\rb"
  translationText := some "c"
  tags := []
  provenance := "user-edit"
  fsrs := ()
  createdAtMs := 0
  updatedAtMs := 0

theorem not_cardsToCsv_lossless :
    ¬ Document (cardsToCsv integerText (fun _ => .fin 0) [carriageCard]).toList
      (csvValues integerText (fun _ => .fin 0) [carriageCard]) := by
  have hread : readDocument (cardsToCsv integerText (fun _ => .fin 0) [carriageCard]).toList =
      none := by decide +kernel
  intro h
  rw [readDocument_eq h] at hread
  cases hread

end LanguageLlm.Learning
