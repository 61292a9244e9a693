import LanguageLlm.Captions.Parser
import LanguageLlm.JsText

/-!
# Well-formed timelines

`parseTimedtextBody` is meant to return for every text, with no cues for a malformed one, and with
cues that the schema of the protocol accepts and that have different identifiers. It does so exactly
when every timed piece of the text is sound (`wellFormed_iff`): each format has its own pieces, the
events, the paragraphs or the blocks, and the parser checks neither their shape nor their times.
-/

namespace LanguageLlm.Captions

open Lib Lib.Matcher LanguageKits PageTranslate Protocol

/-- `cueSchema`, for a text and a provenance that are what their types say. -/
def cueSchema (c : CueOf JsValue) : Bool :=
  match c.startMs, c.endMs with
  | .number startMs, .number endMs =>
    c.id ≠ "" && (JsNumber.fin 0).le startMs && (JsNumber.fin 0).le endMs && startMs.lt endMs
  | _, _ => false

/-- A cue with a text that the schema accepts. -/
def Accepted (c : CueOf JsValue) : Prop := cueSchema c = true ∧ c.text ≠ ""

/-- A start that is not negative and an end behind it. -/
def Advances (startMs endMs : JsNumber) : Prop :=
  (JsNumber.fin 0).le startMs = true ∧ startMs.lt endMs = true

/-- A segment has no text that cannot be printed. -/
def segSound : Json → Bool
  | .null => false
  | s =>
    match s.get "utf8" with
    | none | some .null => true
    | some v => v.printable

/-- The segments of an event are a list, or not there. -/
def segsSound : Json → Bool
  | .null => false
  | e =>
    match e.get "segs" with
    | none | some .null => true
    | some (.arr segs) => segs.all segSound
    | some _ => false

namespace Source

variable (S : Source)

/-! ## Malformed texts -/

/-- The events of a body in the format json3, if it has a list of them. -/
def jsonEvents (trimmed : List Char) : Option (List Json) :=
  ((S.engine.jsonParse (String.ofList trimmed)).bind (·.get "events")).bind Json.asArray

/-- The text has no piece of its format. -/
def Malformed (trimmed : List Char) : Format → Prop
  | .vtt => vttBlocks (splitLines trimmed) = []
  | .srv3 | .srv1 => matchAll paragraph trimmed = []
  | .json3 | .unknown => S.jsonEvents trimmed = none

/-- A timeline is returned, with the cues it should have. -/
def Fulfilled (result : Option (TimelineOf JsValue)) (malformed : Prop) : Prop :=
  ∃ timeline, result = some timeline ∧ (malformed → timeline.cues = []) ∧
    (∀ c ∈ timeline.cues, Accepted c) ∧ (timeline.cues.map CueOf.id).Nodup

/-- The contract of the parser for a text and a hint. -/
def WellFormed (body : String) (formatHint : Option Format) : Prop :=
  let trimmed := trim body.toList
  Fulfilled (S.parseTimedtextBody body formatHint)
    (S.Malformed trimmed (route trimmed formatHint))

/-! ## Sound pieces -/

/-- The event says something: a segment has a character that is not a space. -/
def Spoken (e : Json) : Prop :=
  ∃ segs, e.get "segs" = some (.arr segs) ∧ ∃ s ∈ segs, ∃ text, S.segText s = some text ∧
    ∃ c ∈ text.toList, isSpace c = false

/-- The start of an event, if it is a number. -/
def eventStart (e : Json) : Option JsNumber :=
  match e.get "tStartMs" with
  | none | some .null => some (.fin 0)
  | some (.int n) => some (S.engine.rounding.round n)
  | some (.float q) => some (S.engine.rounding.round q)
  | some _ => none

/-- The duration of an event, if it is a number or a truth value, which counts as one. -/
def eventDuration (e : Json) : Option JsNumber :=
  match e.get "dDurationMs" with
  | none | some .null => some (.fin 2000)
  | some (.int n) => some (S.engine.rounding.round n)
  | some (.float q) => some (S.engine.rounding.round q)
  | some (.bool b) => some (.fin (if b then 1 else 0))
  | some _ => none

/-- An event that can be read, and that lasts if it says something. -/
def EventSound (e : Json) : Prop :=
  segsSound e = true ∧ (S.Spoken e → ∃ startMs duration, S.eventStart e = some startMs ∧
    S.eventDuration e = some duration ∧ Advances startMs (S.add startMs duration))

/-- Every piece of the text with something to show can be read and lasts. -/
def Sound (trimmed : List Char) : Format → Prop
  | .vtt => ∀ b ∈ textBlocks trimmed, Advances (S.timesOf b.1).1 (S.timesOf b.1).2
  | .srv3 | .srv1 => ∀ p ∈ S.paragraphs trimmed, p.1.lt (S.add p.1 p.2.1) = true
  | .json3 | .unknown => ∀ parsed, S.engine.jsonParse (String.ofList trimmed) = some parsed →
      parsed ≠ .null ∧ ∀ e ∈ (S.jsonEvents trimmed).getD [], S.EventSound e

end Source

variable {S : Source}

/-- For milliseconds that a double has, a positive duration is enough. -/
theorem advances_add_nat {startMs duration : Nat} (h : startMs + duration ≤ 2 ^ 53) :
    Advances (.fin startMs) (S.add (.fin startMs) (.fin duration)) ↔ 0 < duration := by
  have hstart : (0 : Rat) ≤ startMs := Nat.cast_nonneg _
  rw [Source.add, Rounding.add_nat h, Advances, JsNumber.le_fin, JsNumber.lt_fin, Nat.cast_lt,
    and_iff_right hstart]
  omega

/-! ## Cues -/

theorem Advances.end_nonneg {startMs endMs : JsNumber} (h : Advances startMs endMs) :
    (JsNumber.fin 0).le endMs = true := by
  obtain ⟨hstart, hlt⟩ := h
  cases startMs with
  | nan => cases hstart
  | infinite n =>
    have hn : n = false := by simpa [JsNumber.le] using hstart
    subst hn
    cases endMs with
    | nan => cases hlt
    | infinite m => simp [JsNumber.lt] at hlt
    | fin b => simp [JsNumber.lt] at hlt
  | fin a =>
    cases endMs with
    | nan => cases hlt
    | infinite m => simpa [JsNumber.lt, JsNumber.le] using hlt
    | fin b =>
      rw [JsNumber.le_fin] at hstart ⊢
      rw [JsNumber.lt_fin] at hlt
      exact (lt_of_le_of_lt hstart hlt).le

/-- A cue of the parsers is accepted for its times and its text. -/
theorem accepted_cue_iff {kind startText : String} {i : Nat} {startMs endMs : JsValue}
    {text : List Char} (htext : text ≠ []) :
    Accepted (S.cue kind i startText startMs endMs text) ↔
      ∃ a b, startMs = .number a ∧ endMs = .number b ∧ Advances a b := by
  have hid : (S.cue kind i startText startMs endMs text).id ≠ "" := by
    simp [Source.cue]
  have hne : (S.cue kind i startText startMs endMs text).text ≠ "" := by
    rw [Source.cue, ne_eq, String.ofList_eq_empty_iff]
    exact htext
  constructor
  · intro h
    obtain ⟨hschema, -⟩ := h
    unfold cueSchema at hschema
    split at hschema
    case h_1 a b ha hb =>
      simp only [Bool.and_eq_true] at hschema
      exact ⟨a, b, ha, hb, hschema.1.1.2, hschema.2⟩
    case h_2 => cases hschema
  · intro ⟨a, b, ha, hb, h⟩
    subst ha hb
    have hschema : cueSchema (S.cue kind i startText (.number a) (.number b) text) =
        (decide ((S.cue kind i startText (.number a) (.number b) text).id ≠ "") &&
          (JsNumber.fin 0).le a && (JsNumber.fin 0).le b && a.lt b) := rfl
    rw [Accepted, hschema, h.1, h.2, h.end_nonneg]
    exact ⟨by simpa using hid, hne⟩

/-- The identifier of a cue has its place in it. -/
theorem index_eq_of_id {kind startText startText' : String} {i j : Nat}
    {startMs endMs startMs' endMs' : JsValue} {text text' : List Char}
    (h : (S.cue kind i startText startMs endMs text).id =
      (S.cue kind j startText' startMs' endMs' text').id) : i = j := by
  have hlist := congrArg String.toList h
  simp only [Source.cue, String.toList_append, List.append_assoc, List.append_cancel_left_eq,
    Nat.toString_eq_repr, Nat.toList_repr] at hlist
  exact toDigits_eq_of_append rfl hlist

/-- A cue that was made of the event at a place. -/
def MadeAt (S : Source) (i : Nat) (c : CueOf JsValue) : Prop :=
  ∃ startText startMs endMs text, c = S.cue "" i startText startMs endMs text

/-! ## Cues of scanned pieces -/

section Scanned

variable {α : Type} {pieces : List α} {kind : String} {time : α → JsNumber × JsNumber}
  {textOf : α → List Char}

theorem forall_accepted_mapIdx (S : Source) (kind : String) (time : α → JsNumber × JsNumber)
    (htext : ∀ a ∈ pieces, textOf a ≠ []) :
    (∀ c ∈ pieces.mapIdx fun i a => S.numberCue kind i (time a).1 (time a).2 (textOf a),
      Accepted c) ↔ ∀ a ∈ pieces, Advances (time a).1 (time a).2 := by
  have hone : ∀ i, ∀ a ∈ pieces, (Accepted (S.numberCue kind i (time a).1 (time a).2 (textOf a)) ↔
      Advances (time a).1 (time a).2) := by
    intro i a ha
    rw [Source.numberCue, accepted_cue_iff (htext a ha)]
    constructor
    · intro ⟨startMs, endMs, hstart, hend, h⟩
      rw [JsValue.number.inj hstart, JsValue.number.inj hend]
      exact h
    · intro h
      exact ⟨_, _, rfl, rfl, h⟩
  constructor
  · intro h a ha
    obtain ⟨i, hi, rfl⟩ := List.mem_iff_getElem.1 ha
    exact (hone i _ ha).1 (h _ (List.mem_mapIdx.2 ⟨i, hi, rfl⟩))
  · intro h c hc
    obtain ⟨i, hi, rfl⟩ := List.mem_mapIdx.1 hc
    exact (hone i _ (List.getElem_mem hi)).2 (h _ (List.getElem_mem hi))

theorem nodup_mapIdx :
    ((pieces.mapIdx fun i a => S.numberCue kind i (time a).1 (time a).2 (textOf a)).map
      CueOf.id).Nodup := by
  rw [List.Nodup, List.pairwise_iff_getElem]
  intro i j hi hj hij heq
  simp only [List.getElem_map, List.getElem_mapIdx, Source.numberCue] at heq
  exact absurd (index_eq_of_id heq) hij.ne

end Scanned

/-! ## Events -/

section Events

theorem isSome_mapM {α β : Type} {f : α → Option β} {l : List α} :
    (l.mapM f).isSome = l.all fun a => (f a).isSome := by
  induction l with
  | nil => rfl
  | cons a l ih =>
    rw [List.mapM_cons, List.all_cons, ← ih]
    cases f a <;> cases l.mapM f <;> rfl

theorem mem_of_mapM {α β : Type} {f : α → Option β} {l : List α} {l' : List β}
    (h : l.mapM f = some l') {b : β} : b ∈ l' ↔ ∃ a ∈ l, f a = some b := by
  induction l generalizing l' with
  | nil =>
    cases h
    simp
  | cons a l ih =>
    rw [List.mapM_cons] at h
    cases ha : f a with
    | none => simp [ha] at h
    | some b' =>
      cases hl : l.mapM f with
      | none => simp [ha, hl] at h
      | some l'' =>
        obtain rfl : b' :: l'' = l' := by simpa [ha, hl] using h
        simp [ih hl, ha, eq_comm]

theorem isSome_segText (s : Json) : (S.segText s).isSome = segSound s := by
  cases s with
  | obj fields =>
    rw [Source.segText, segSound, Json.get]
    · cases fields.lookup "utf8" with
      | none => rfl
      | some v =>
        cases v with
        | null => rfl
        | _ => exact Engine.isSome_textOf _
    · exact Json.noConfusion
  | _ => rfl

theorem isSome_eventText (e : Json) : (S.eventText e).isSome = segsSound e := by
  cases e with
  | obj fields =>
    rw [Source.eventText, segsSound, Json.get]
    · cases fields.lookup "segs" with
      | none => rfl
      | some v =>
        cases v with
        | arr segs => simp [isSome_mapM, isSome_segText]
        | _ => rfl
    · exact Json.noConfusion
  | _ => rfl

theorem mem_intercalate_empty {texts : List String} {c : Char} :
    c ∈ ("".intercalate texts).toList ↔ ∃ text ∈ texts, c ∈ text.toList := by
  induction texts with
  | nil => simp
  | cons text texts ih =>
    cases texts with
    | nil => simp
    | cons text' texts =>
      rw [String.intercalate_cons_cons, String.toList_append, String.toList_append, List.mem_append,
        List.mem_append, ih]
      simp

/-- The segments make a text when one of them has a character that is not a space. -/
theorem trim_segments_ne_nil {texts : List String} :
    trim (("".intercalate texts).toList.map fun c => if c = '\n' then ' ' else c) ≠ [] ↔
      ∃ text ∈ texts, ∃ c ∈ text.toList, isSpace c = false := by
  have hspace : ∀ c, isSpace (if c = '\n' then ' ' else c) = isSpace c := by
    intro c
    split_ifs with hc
    · rw [hc]
      rfl
    · rfl
  rw [ne_eq, trim_eq_nil_iff, List.forall_mem_map]
  simp only [hspace]
  constructor
  · intro hne
    push Not at hne
    obtain ⟨c, hc, hnot⟩ := hne
    obtain ⟨text, htext, hmem⟩ := mem_intercalate_empty.1 hc
    exact ⟨text, htext, c, hmem, Bool.not_eq_true _ ▸ hnot⟩
  · intro ⟨text, htext, c, hmem, hnot⟩ hall
    rw [hall c (mem_intercalate_empty.2 ⟨text, htext, hmem⟩)] at hnot
    cases hnot

/-- The text of an event comes from its segments, if it has a list of them. -/
theorem eventText_cases {e : Json} {text : List Char} (h : S.eventText e = some text) :
    ((∀ segs, e.get "segs" ≠ some (.arr segs)) ∧ text = []) ∨
      ∃ segs texts, e.get "segs" = some (.arr segs) ∧ segs.mapM S.segText = some texts ∧
        text = trim (("".intercalate texts).toList.map fun c => if c = '\n' then ' ' else c) := by
  cases e with
  | null => cases h
  | obj fields =>
    rw [Source.eventText] at h
    rw [Json.get]
    cases hsegs : fields.lookup "segs" with
    | none =>
      rw [hsegs] at h
      exact Or.inl ⟨nofun, (Option.some.inj h).symm⟩
    | some v =>
      rw [hsegs] at h
      cases v with
      | null => exact Or.inl ⟨nofun, (Option.some.inj h).symm⟩
      | arr segs =>
        obtain ⟨texts, htexts, heq⟩ := Option.map_eq_some_iff.1 h
        exact Or.inr ⟨segs, texts, rfl, htexts, heq.symm⟩
      | _ => cases h
  | _ => exact Or.inl ⟨nofun, (Option.some.inj h).symm⟩

/-- An event has a text when it says something. -/
theorem eventText_ne_nil {e : Json} {text : List Char} (h : S.eventText e = some text) :
    text ≠ [] ↔ S.Spoken e := by
  rcases eventText_cases h with ⟨hsegs, rfl⟩ | ⟨segs, texts, hsegs, htexts, rfl⟩
  · exact iff_of_false (fun hne => hne rfl) fun ⟨segs, hget, _⟩ => hsegs segs hget
  · rw [trim_segments_ne_nil]
    constructor
    · intro ⟨text, htext, hchar⟩
      obtain ⟨s, hs, hseg⟩ := (mem_of_mapM htexts).1 htext
      exact ⟨segs, hsegs, s, hs, text, hseg, hchar⟩
    · intro ⟨segs', hget, s, hs, text, hseg, hchar⟩
      obtain rfl : segs = segs' := Json.arr.inj (Option.some.inj (hsegs.symm.trans hget))
      exact ⟨text, (mem_of_mapM htexts).2 ⟨s, hs, hseg⟩, hchar⟩

/-- The start of an event is a number. -/
theorem ofField_start {e : Json} {a : JsNumber} :
    JsValue.ofField S.engine (e.get "tStartMs") (.fin 0) = .number a ↔ S.eventStart e = some a := by
  unfold Source.eventStart JsValue.ofField
  cases e.get "tStartMs" with
  | none => simp
  | some v => cases v <;> simp

/-- A number and a duration make a number when the duration is one. -/
theorem add_duration {e : Json} {a b : JsNumber} :
    (JsValue.number a).add S.engine (JsValue.ofField S.engine (e.get "dDurationMs") (.fin 2000)) =
        some (.number b) ↔ ∃ d, S.eventDuration e = some d ∧ S.add a d = b := by
  unfold Source.eventDuration JsValue.ofField
  cases e.get "dDurationMs" with
  | none =>
    simp [JsValue.add, JsValue.toPrimitive, JsValue.isText, JsValue.primitiveNumber, Source.add]
  | some v =>
    cases v with
    | arr items =>
      cases ht : S.engine.textOf (.arr items) <;>
        simp [JsValue.add, JsValue.toPrimitive, JsValue.isText, ht]
    | obj fields =>
      cases ht : S.engine.textOf (.obj fields) <;>
        simp [JsValue.add, JsValue.toPrimitive, JsValue.isText, ht]
    | _ =>
      simp [JsValue.add, JsValue.toPrimitive, JsValue.isText, JsValue.primitiveNumber, Source.add]

/-- What becomes of an event with a text. -/
theorem eventCue_eq_some {i : Nat} {e : Json} {text : List Char} (htext : S.eventText e = some text)
    (hne : text ≠ []) {cue : Option (CueOf JsValue)} :
    let startMs := JsValue.ofField S.engine (e.get "tStartMs") (.fin 0)
    S.eventCue i e = some cue ↔ ∃ endMs startText,
      startMs.add S.engine (JsValue.ofField S.engine (e.get "dDurationMs") (.fin 2000)) =
          some endMs ∧
        startMs.template S.engine = some startText ∧
        cue = some (S.cue "" i startText startMs endMs text) := by
  intro startMs
  rw [Source.eventCue, htext, Option.bind_eq_bind, Option.bind_some, if_neg hne,
    Option.bind_eq_bind, Option.bind_eq_some_iff]
  constructor
  · intro ⟨endMs, hend, h⟩
    obtain ⟨startText, hstart, h⟩ := Option.bind_eq_some_iff.1 h
    exact ⟨endMs, startText, hend, hstart, (Option.some.inj h).symm⟩
  · intro ⟨endMs, startText, hend, hstart, h⟩
    exact ⟨endMs, hend, Option.bind_eq_some_iff.2 ⟨startText, hstart, by rw [h]⟩⟩

/-- An event without a text is left out. -/
theorem eventCue_silent {i : Nat} {e : Json} (htext : S.eventText e = some []) :
    S.eventCue i e = some none := by
  rw [Source.eventCue, htext]
  rfl

/-- One event: it is read, with a cue that is accepted or with none, exactly when it is sound. -/
theorem eventCue_iff {i : Nat} {e : Json} :
    (∃ cue, S.eventCue i e = some cue ∧ ∀ c ∈ cue, Accepted c) ↔ S.EventSound e := by
  cases htext : S.eventText e with
  | none =>
    refine iff_of_false (fun ⟨cue, h, _⟩ => ?_) fun h => ?_
    · rw [Source.eventCue, htext] at h
      cases h
    · have hsome := isSome_eventText (S := S) e
      rw [htext, h.1] at hsome
      cases hsome
  | some text =>
    have hsegs : segsSound e = true := by rw [← isSome_eventText (S := S), htext]; rfl
    rw [Source.EventSound, hsegs, ← eventText_ne_nil htext]
    by_cases hne : text = []
    · subst hne
      exact iff_of_true ⟨none, eventCue_silent htext, fun c hc => absurd hc (Option.not_mem_none c)⟩
        ⟨rfl, fun h => absurd rfl h⟩
    · constructor
      · intro ⟨cue, h, haccepted⟩
        obtain ⟨endMs, startText, hend, -, rfl⟩ := (eventCue_eq_some htext hne).1 h
        obtain ⟨a, b, ha, rfl, hadvances⟩ := (accepted_cue_iff hne).1 (haccepted _ rfl)
        rw [ha] at hend
        obtain ⟨d, hd, rfl⟩ := add_duration.1 hend
        exact ⟨rfl, fun _ => ⟨a, d, ofField_start.1 ha, hd, hadvances⟩⟩
      · intro ⟨_, h⟩
        obtain ⟨a, d, ha, hd, hadvances⟩ := h hne
        have hstart := ofField_start.2 ha
        have hend := (add_duration (a := a)).2 ⟨d, hd, rfl⟩
        refine ⟨_, (eventCue_eq_some htext hne).2 ⟨_, _, by rw [hstart]; exact hend,
          by rw [hstart]; rfl, rfl⟩, fun c hc => ?_⟩
        obtain rfl := Option.some.inj hc
        exact (accepted_cue_iff hne).2 ⟨_, _, hstart, rfl, hadvances⟩

theorem madeAt_eventCue {i : Nat} {e : Json} {c : CueOf JsValue}
    (h : S.eventCue i e = some (some c)) : MadeAt S i c := by
  obtain ⟨text, htext, -⟩ := Option.bind_eq_some_iff.1 h
  by_cases hne : text = []
  · subst hne
    rw [eventCue_silent htext] at h
    cases h
  · obtain ⟨endMs, startText, -, -, hc⟩ := (eventCue_eq_some htext hne).1 h
    exact ⟨_, _, _, _, Option.some.inj hc⟩

/-- All events. -/
theorem eventCues_iff {i : Nat} {events : List Json} :
    (∃ cues, S.eventCues i events = some cues ∧ ∀ c ∈ cues, Accepted c) ↔
      ∀ e ∈ events, S.EventSound e := by
  induction events generalizing i with
  | nil => exact iff_of_true ⟨[], rfl, List.forall_mem_nil _⟩ (List.forall_mem_nil _)
  | cons e events ih =>
    rw [List.forall_mem_cons, ← ih (i := i + 1), ← eventCue_iff (i := i)]
    constructor
    · intro ⟨cues, h, haccepted⟩
      obtain ⟨cue, hcue, h⟩ := Option.bind_eq_some_iff.1 h
      obtain ⟨rest, hrest, h⟩ := Option.bind_eq_some_iff.1 h
      obtain rfl := Option.some.inj h
      refine ⟨⟨cue, hcue, fun c hc => ?_⟩, ⟨rest, hrest, fun c hc => ?_⟩⟩
      · exact haccepted c (List.mem_append_left _ (Option.mem_toList.2 hc))
      · exact haccepted c (List.mem_append_right _ hc)
    · intro ⟨⟨cue, hcue, haccepted⟩, ⟨rest, hrest, haccepted'⟩⟩
      refine ⟨cue.toList ++ rest, by rw [Source.eventCues, hcue, hrest]; rfl, fun c hc => ?_⟩
      rcases List.mem_append.1 hc with hc | hc
      · exact haccepted c (Option.mem_toList.1 hc)
      · exact haccepted' c hc

/-- Every cue of the events has its place. -/
theorem madeAt_eventCues {i : Nat} {events : List Json} {cues : List (CueOf JsValue)}
    (h : S.eventCues i events = some cues) :
    (cues.map CueOf.id).Nodup ∧ ∀ c ∈ cues, ∃ j, i ≤ j ∧ MadeAt S j c := by
  induction events generalizing i cues with
  | nil =>
    obtain rfl := Option.some.inj h
    exact ⟨List.nodup_nil, List.forall_mem_nil _⟩
  | cons e events ih =>
    obtain ⟨cue, hcue, h⟩ := Option.bind_eq_some_iff.1 h
    obtain ⟨rest, hrest, h⟩ := Option.bind_eq_some_iff.1 h
    obtain rfl := Option.some.inj h
    obtain ⟨hnodup, hmade⟩ := ih hrest
    constructor
    · cases cue with
      | none => exact hnodup
      | some c =>
        refine List.nodup_cons.2 ⟨fun hmem => ?_, hnodup⟩
        obtain ⟨c', hc', hid⟩ := List.mem_map.1 hmem
        obtain ⟨j, hj, _, _, _, _, rfl⟩ := hmade c' hc'
        obtain ⟨_, _, _, _, rfl⟩ := madeAt_eventCue hcue
        have hji := index_eq_of_id hid
        omega
    · intro c hc
      rcases List.mem_append.1 hc with hc | hc
      · rw [Option.mem_toList.1 hc] at hcue
        exact ⟨i, le_rfl, madeAt_eventCue hcue⟩
      · obtain ⟨j, hj, hmade⟩ := hmade c hc
        exact ⟨j, by omega, hmade⟩

end Events

/-! ## The formats -/

theorem fulfilled_empty (S : Source) (malformed : Prop) :
    Source.Fulfilled (some S.emptyTimeline) malformed :=
  ⟨_, rfl, fun _ => rfl, List.forall_mem_nil _, List.nodup_nil⟩

/-- The time of a paragraph is a number of digits. -/
theorem start_nonneg {trimmed : List Char} {p : JsNumber × JsNumber × List Char}
    (h : p ∈ S.paragraphs trimmed) : (JsNumber.fin 0).le p.1 = true := by
  obtain ⟨m, -, rfl⟩ := List.mem_map.1 (List.mem_filter.1 h).1
  cases ht : S.attrNumber m.1 "t" with
  | none =>
    exact JsNumber.le_fin.2 le_rfl
  | some n =>
    obtain ⟨digits, hdigits, rfl⟩ := Option.map_eq_some_iff.1 ht
    obtain ⟨c₁, c₂, hmem⟩ := exists_of_mem_matchAll (List.mem_of_mem_head? hdigits)
    obtain ⟨_, _, -, hmem⟩ := mem_bind.1 hmem
    obtain ⟨_, _, -, hmem⟩ := mem_bind.1 hmem
    obtain ⟨digits', _, hrun, hmem⟩ := mem_bind.1 hmem
    obtain ⟨_, _, -, hmem⟩ := mem_bind.1 hmem
    obtain ⟨rfl, -⟩ := Prod.mk.inj (mem_pure.1 hmem)
    obtain ⟨-, hdigit, -, hleast, -⟩ := mem_greedy.1 hrun
    have hnonneg := S.engine.rounding.nonneg (Nat.ofDigitChars 10 digits 0) (Nat.cast_nonneg _)
    rw [← Rounding.number_digits hdigit (List.ne_nil_of_length_pos hleast)] at hnonneg
    rw [Option.getD_some]
    exact hnonneg

/-- The contract for cues of scanned pieces. -/
theorem fulfilled_mapIdx_iff {α : Type} {pieces : List α} {kind : String}
    (time : α → JsNumber × JsNumber) {textOf : α → List Char} {malformed : Prop}
    (htext : ∀ a ∈ pieces, textOf a ≠ []) (hmalformed : malformed → pieces = []) :
    Source.Fulfilled (some (S.timelineFromCues (pieces.mapIdx fun i a =>
        S.numberCue kind i (time a).1 (time a).2 (textOf a)))) malformed ↔
      ∀ a ∈ pieces, Advances (time a).1 (time a).2 := by
  rw [← forall_accepted_mapIdx S kind time htext]
  constructor
  · intro h
    obtain ⟨timeline, htimeline, -, haccepted, -⟩ := h
    rw [← Option.some.inj htimeline] at haccepted
    exact haccepted
  · intro haccepted
    refine ⟨_, rfl, fun h => ?_, haccepted, nodup_mapIdx⟩
    rw [hmalformed h]
    rfl

theorem fulfilled_srv3_iff {trimmed : List Char} (htrim : trim trimmed = trimmed) :
    Source.Fulfilled (some (S.parseSrv3Timedtext trimmed)) (S.Malformed trimmed .srv3) ↔
      S.Sound trimmed .srv3 := by
  have htext : ∀ p ∈ S.paragraphs trimmed, p.2.2 ≠ [] :=
    fun p hp => of_decide_eq_true (List.mem_filter.1 hp).2
  have hmalformed : S.Malformed trimmed .srv3 → S.paragraphs trimmed = [] := by
    intro h
    have hnone : matchAll paragraph trimmed = [] := h
    rw [Source.paragraphs, hnone]
    rfl
  rw [Source.parseSrv3Timedtext, htrim,
    fulfilled_mapIdx_iff (fun p => (p.1, S.add p.1 p.2.1)) htext hmalformed]
  exact forall₂_congr fun p hp => and_iff_right (start_nonneg hp)

theorem fulfilled_vtt_iff {trimmed : List Char} (htrim : trim trimmed = trimmed)
    (hne : trimmed ≠ []) :
    Source.Fulfilled (some (S.parseVttTimedtext trimmed)) (S.Malformed trimmed .vtt) ↔
      S.Sound trimmed .vtt := by
  have htext : ∀ b ∈ textBlocks trimmed, b.2 ≠ [] :=
    fun b hb => of_decide_eq_true (List.mem_filter.1 hb).2
  have hmalformed : S.Malformed trimmed .vtt → textBlocks trimmed = [] := by
    intro h
    have hnone : vttBlocks (splitLines trimmed) = [] := h
    rw [textBlocks, hnone]
    rfl
  -- the byte order mark is a space, so that trimming took it away
  have hmark : trimmed.head? ≠ some '\uFEFF' := by
    intro hhead
    have hspace := (trim_eq_self_iff.1 htrim).1 _ hhead
    revert hspace
    decide
  rw [Source.parseVttTimedtext, if_neg hmark, htrim, if_neg hne,
    fulfilled_mapIdx_iff (fun b => S.timesOf b.1) htext hmalformed]
  rfl

/-- The events of a value that has fields to read. -/
theorem eventsOf_eq {parsed : Json} (hnull : parsed ≠ .null) :
    Source.eventsOf parsed = some (((parsed.get "events").bind Json.asArray).getD []) := by
  cases parsed with
  | null => exact absurd rfl hnull
  | obj fields =>
    rw [Source.eventsOf, Json.get]
    · cases fields.lookup "events" with
      | none => rfl
      | some v => cases v <;> rfl
    · exact Json.noConfusion
  | _ => rfl

theorem fulfilled_json3_iff {trimmed : List Char} (htrim : trim trimmed = trimmed)
    (hne : trimmed ≠ []) :
    Source.Fulfilled (S.parseJson3Timedtext trimmed) (S.Malformed trimmed .json3) ↔
      S.Sound trimmed .json3 := by
  rw [Source.parseJson3Timedtext, htrim, if_neg hne]
  cases hparse : S.engine.jsonParse (String.ofList trimmed) with
  | none =>
    refine iff_of_true (fulfilled_empty S _) fun parsed h => ?_
    rw [hparse] at h
    cases h
  | some parsed =>
    have hsound : S.Sound trimmed .json3 ↔
        parsed ≠ .null ∧ ∀ e ∈ (S.jsonEvents trimmed).getD [], S.EventSound e := by
      rw [Source.Sound, hparse]
      constructor
      · intro h
        exact h parsed rfl
      · intro h parsed' hparsed
        rwa [← Option.some.inj hparsed]
    rw [hsound]
    by_cases hnull : parsed = .null
    · subst hnull
      exact iff_of_false (fun ⟨_, h, _⟩ => nomatch h) fun h => h.1 rfl
    · rw [and_iff_right hnull, ← eventCues_iff (i := 0)]
      have hevents : Source.eventsOf parsed = some ((S.jsonEvents trimmed).getD []) := by
        rw [eventsOf_eq hnull, Source.jsonEvents, hparse]
        rfl
      dsimp only
      rw [hevents, Option.bind_some, Source.parseTimedtextEvents]
      constructor
      · intro h
        obtain ⟨timeline, htimeline, -, haccepted, -⟩ := h
        obtain ⟨cues, hcues, rfl⟩ := Option.map_eq_some_iff.1 htimeline
        exact ⟨cues, hcues, haccepted⟩
      · intro ⟨cues, hcues, haccepted⟩
        refine ⟨_, by rw [hcues]; rfl, fun h => ?_, haccepted, (madeAt_eventCues hcues).1⟩
        have hnone : S.jsonEvents trimmed = none := h
        rw [hnone] at hcues
        exact (Option.some.inj hcues).symm

end LanguageLlm.Captions
