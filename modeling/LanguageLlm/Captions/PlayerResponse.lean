import LanguageLlm.JsText
import LanguageLlm.Json
import LanguageLlm.Lib.JsonGrammar

/-!
# The player response in a script

`player-response.ts`: the object that a script assigns is cut out of its text by counting braces
outside of strings, and then parsed. Texts are lists of UTF-16 code units, and `JSON.parse` is a
parameter, which is `none` when it throws.
-/

namespace LanguageLlm.Captions

open PageTranslate Lib.JsonGrammar

/-! ## Cutting out an object -/

/-- The variables of the loop over a text. -/
structure BraceScan where
  depth : Int
  inString : Bool
  escape : Bool

/-- A character of a string. -/
def BraceScan.stringStep (s : BraceScan) (c : UInt16) : BraceScan :=
  if s.escape then { s with escape := false }
  else if c = unit '\\' then { s with escape := true }
  else if c = unit '"' then { s with inString := false }
  else s

/-- The index of the brace that closes the object, with the text from an index on. -/
def closing (s : BraceScan) (i : Nat) : List UInt16 → Option Nat
  | [] => none
  | c :: cs =>
    if s.inString then closing (s.stringStep c) (i + 1) cs
    else if c = unit '"' then closing { s with inString := true } (i + 1) cs
    else if c = unit '{' then closing { s with depth := s.depth + 1 } (i + 1) cs
    else if c = unit '}' then
      if s.depth - 1 = 0 then some i else closing { s with depth := s.depth - 1 } (i + 1) cs
    else closing s (i + 1) cs

/-- `text.slice(start, stop)`. -/
def slice (text : List UInt16) (start stop : Nat) : List UInt16 := (text.take stop).drop start

def extractJsonObject (source : List UInt16) (start : Nat) : Option (List UInt16) :=
  if source[start]? = some (unit '{') then
    (closing { depth := 0, inString := false, escape := false } start (source.drop start)).map
      fun i => slice source start (i + 1)
  else none

/-! ## The script -/

/-- `text.indexOf(part, start)`. -/
def indexOf (part text : List UInt16) (start : Nat) : Option Nat :=
  (List.range' start (text.length + 1 - start)).find? fun i => part.isPrefixOf (text.drop i)

/-- `/\s/`; none of these characters needs two code units. -/
def isSpaceUnit (u : UInt16) : Bool := isSpace (Char.ofNat u.toNat)

def marker : List UInt16 := units "ytInitialPlayerResponse"

def extractPlayerResponseFromScript (jsonParse : List UInt16 → Option Json) (text : List UInt16) :
    Option Json :=
  (indexOf marker text 0).bind fun idx =>
    (indexOf [unit '='] text idx).bind fun eq =>
      let i := eq + 1 + ((text.drop (eq + 1)).takeWhile isSpaceUnit).length
      if text[i]? = some (unit '{') then (extractJsonObject text i).bind jsonParse else none

/-! ## Reading over the parts of an object -/

/-- A text that leaves the loop inside an object as it was. -/
def Passes (t : List UInt16) : Prop :=
  ∀ (depth : Int) (i : Nat) (rest : List UInt16), 1 ≤ depth →
    closing ⟨depth, false, false⟩ i (t ++ rest) = closing ⟨depth, false, false⟩ (i + t.length) rest

variable {t t' : List UInt16} {u : UInt16}

theorem passes_nil : Passes [] := fun _ _ _ _ => rfl

theorem Passes.append (h : Passes t) (h' : Passes t') : Passes (t ++ t') := by
  intro depth i rest hdepth
  rw [List.append_assoc, h depth i _ hdepth, h' depth _ rest hdepth, List.length_append,
    Nat.add_assoc]

/-- Neither a quote nor a brace. -/
def Plain (u : UInt16) : Prop := u ≠ unit '"' ∧ u ≠ unit '{' ∧ u ≠ unit '}'

instance : DecidablePred Plain := fun _ => inferInstanceAs (Decidable (_ ∧ _))

theorem Passes.cons (hu : Plain u) (h : Passes t) : Passes (u :: t) := by
  intro depth i rest hdepth
  obtain ⟨hquote, hopen, hclose⟩ := hu
  rw [List.cons_append, closing]
  simp only [Bool.false_eq_true, if_false, if_neg hquote, if_neg hopen, if_neg hclose]
  rw [h depth _ rest hdepth, List.length_cons, Nat.add_right_comm, Nat.add_assoc]

theorem passes_of_forall (h : ∀ u ∈ t, Plain u) : Passes t := by
  induction t with
  | nil => exact passes_nil
  | cons u t ih =>
    obtain ⟨hu, ht⟩ := List.forall_mem_cons.1 h
    exact (ih ht).cons hu

theorem passes_of_all (h : (t.all fun u => decide (Plain u)) = true) : Passes t :=
  passes_of_forall fun u hu => of_decide_eq_true (List.all_eq_true.1 h u hu)

/-! ### Strings -/

theorem closing_plain (hquote : u ≠ unit '"') (hescape : u ≠ unit '\\') (depth : Int) (i : Nat)
    (t : List UInt16) :
    closing ⟨depth, true, false⟩ i (u :: t) = closing ⟨depth, true, false⟩ (i + 1) t := by
  have hstep : (⟨depth, true, false⟩ : BraceScan).stringStep u = ⟨depth, true, false⟩ := by
    simp [BraceScan.stringStep, hquote, hescape]
  rw [closing, hstep]
  rfl

/-- What stands behind a backslash is not looked at. -/
theorem closing_escaped (u : UInt16) (depth : Int) (i : Nat) (t : List UInt16) :
    closing ⟨depth, true, false⟩ i (unit '\\' :: u :: t) =
      closing ⟨depth, true, false⟩ (i + 2) t := rfl

theorem ne_of_isHex (h : isHex u = true) : u ≠ unit '"' ∧ u ≠ unit '\\' := by
  constructor
  all_goals
    rintro rfl
    exact absurd h (by decide)

theorem closing_chars (h : Chars t) (depth : Int) (i : Nat) (rest : List UInt16) :
    closing ⟨depth, true, false⟩ i (t ++ rest) =
      closing ⟨depth, true, false⟩ (i + t.length) rest := by
  induction h generalizing i with
  | nil => rfl
  | plain hu hquote hescape ht ih =>
    rw [List.cons_append, closing_plain hquote hescape, ih, List.length_cons, Nat.add_right_comm,
      Nat.add_assoc]
  | @escape u t hu ht ih =>
    have hlength : i + (unit '\\' :: u :: t).length = i + 2 + t.length := by
      simp only [List.length_cons]
      omega
    rw [List.cons_append, List.cons_append, closing_escaped, ih, hlength]
  | @code a b c d t ha hb hc hd ht ih =>
    have hlength : i + (unit '\\' :: unit 'u' :: a :: b :: c :: d :: t).length =
        i + 2 + 1 + 1 + 1 + 1 + t.length := by
      simp only [List.length_cons]
      omega
    simp only [List.cons_append]
    rw [closing_escaped, closing_plain (ne_of_isHex ha).1 (ne_of_isHex ha).2,
      closing_plain (ne_of_isHex hb).1 (ne_of_isHex hb).2,
      closing_plain (ne_of_isHex hc).1 (ne_of_isHex hc).2,
      closing_plain (ne_of_isHex hd).1 (ne_of_isHex hd).2, ih, hlength]

theorem passes_string (h : IsString t) : Passes t := by
  obtain ⟨ht⟩ := h
  intro depth i rest _
  rw [List.cons_append, List.append_assoc]
  have hopen : ∀ cs, closing ⟨depth, false, false⟩ i (unit '"' :: cs) =
      closing ⟨depth, true, false⟩ (i + 1) cs := fun _ => rfl
  have hclose : ∀ j, closing ⟨depth, true, false⟩ j (unit '"' :: rest) =
      closing ⟨depth, false, false⟩ (j + 1) rest := fun _ => rfl
  rw [hopen, closing_chars ht, List.singleton_append, hclose, List.length_cons, List.length_append,
    List.length_singleton]
  congr 1
  omega

/-! ### Values -/

theorem plain_of_isWs (h : isWs u = true) : Plain u := by
  refine ⟨?_, ?_, ?_⟩
  all_goals
    rintro rfl
    exact absurd h (by decide)

theorem plain_of_number (h : isDigit u = true ∨ u ∈ units "eE+-.") : Plain u := by
  refine ⟨?_, ?_, ?_⟩
  all_goals
    rintro rfl
    exact absurd h (by decide)

theorem passes_ws (h : Ws t) : Passes t := passes_of_forall fun u hu => plain_of_isWs (h u hu)

/-- What stands between the braces of an object. -/
theorem closing_braces (h : Passes t) (depth : Int) (i : Nat) (rest : List UInt16)
    (hdepth : 0 ≤ depth) :
    closing ⟨depth, false, false⟩ i (unit '{' :: (t ++ [unit '}']) ++ rest) =
      if depth = 0 then some (i + t.length + 1)
      else closing ⟨depth, false, false⟩ (i + t.length + 2) rest := by
  have hopen : ∀ cs, closing ⟨depth, false, false⟩ i (unit '{' :: cs) =
      closing ⟨depth + 1, false, false⟩ (i + 1) cs := fun _ => rfl
  have hclose : ∀ j, closing ⟨depth + 1, false, false⟩ j (unit '}' :: rest) =
      if depth + 1 - 1 = 0 then some j
      else closing ⟨depth + 1 - 1, false, false⟩ (j + 1) rest := fun _ => rfl
  rw [List.cons_append, List.append_assoc, hopen, h _ _ _ (by omega), List.singleton_append, hclose,
    Int.add_sub_cancel]
  congr 2
  all_goals omega

theorem passes_braces (h : Passes t) : Passes (unit '{' :: (t ++ [unit '}'])) := by
  intro depth i rest hdepth
  rw [closing_braces h depth i rest (by omega), if_neg (by omega), List.length_cons,
    List.length_append, List.length_singleton]
  rfl

theorem passes_brackets (h : Passes t) : Passes (unit '[' :: (t ++ [unit ']'])) := by
  have hopen : Plain (unit '[') := by decide
  have hclose : Plain (unit ']') := by decide
  exact Passes.cons hopen (h.append (passes_of_forall (List.forall_mem_singleton.2 hclose)))

/-- Every part of a value leaves the loop as it was. -/
theorem passes_of_derives {symbol : Symbol} (h : Derives symbol t) : Passes t := by
  have hcolon : Plain (unit ':') := by decide
  have hcomma : Plain (unit ',') := by decide
  induction h with
  | null => exact passes_of_all (by decide)
  | true => exact passes_of_all (by decide)
  | false => exact passes_of_all (by decide)
  | number h => exact passes_of_forall fun u hu => plain_of_number (h.units_of_mem hu)
  | string h => exact passes_string h
  | emptyArray hws => exact passes_brackets (passes_ws hws)
  | array _ ih => exact passes_brackets ih
  | ofObject _ ih => exact ih
  | emptyObject hws => exact passes_braces (passes_ws hws)
  | object _ ih => exact passes_braces ih
  | element ha _ hb hv => exact (passes_ws ha).append (hv.append (passes_ws hb))
  | elementAnd ha _ hb _ hv ht =>
    exact (passes_ws ha).append (hv.append ((passes_ws hb).append (ht.cons hcomma)))
  | member ha hk hb hc _ hd hv =>
    have hvalue := (passes_ws hc).append (hv.append (passes_ws hd))
    exact (passes_ws ha).append ((passes_string hk).append
      ((passes_ws hb).append (hvalue.cons hcolon)))
  | memberAnd ha hk hb hc _ hd _ hv ht =>
    have hvalue := (passes_ws hc).append (hv.append ((passes_ws hd).append (ht.cons hcomma)))
    exact (passes_ws ha).append ((passes_string hk).append
      ((passes_ws hb).append (hvalue.cons hcolon)))

theorem exists_content (h : IsObject t) :
    ∃ content, t = unit '{' :: (content ++ [unit '}']) ∧ Passes content := by
  cases h with
  | emptyObject hws => exact ⟨_, rfl, passes_ws hws⟩
  | object hmembers => exact ⟨_, rfl, passes_of_derives hmembers⟩

/-! ## What is cut out -/

variable {w : List UInt16}

theorem slice_append (p w s : List UInt16) :
    slice (p ++ w ++ s) p.length (p.length + w.length) = w := by
  have htake : (p ++ w ++ s).take (p.length + w.length) = p ++ w := by
    rw [← List.length_append, List.take_left]
  rw [slice, htake, List.drop_left]

theorem extractJsonObject_append (h : IsObject w) (p s : List UInt16) :
    extractJsonObject (p ++ w ++ s) p.length = some w := by
  obtain ⟨content, rfl, hcontent⟩ := exists_content h
  have hdrop : (p ++ unit '{' :: (content ++ [unit '}']) ++ s).drop p.length =
      unit '{' :: (content ++ [unit '}']) ++ s := by
    rw [List.append_assoc, List.drop_left]
  have hfirst : (p ++ unit '{' :: (content ++ [unit '}']) ++ s)[p.length]? = some (unit '{') := by
    simp
  have hlength : p.length + content.length + 1 + 1 =
      p.length + (unit '{' :: (content ++ [unit '}'])).length := by
    simp only [List.length_cons, List.length_append, List.length_nil]
    omega
  rw [extractJsonObject, if_pos hfirst, hdrop, closing_braces hcontent 0 _ _ (by omega), if_pos rfl,
    Option.map_some, hlength, slice_append]

/-! ## What is found in a script -/

theorem indexOf_eq_some {part text : List UInt16} {start i : Nat} (hstart : start ≤ i)
    (hi : i ≤ text.length) (hpart : part <+: text.drop i)
    (hfirst : ∀ j, start ≤ j → j < i → ¬ part <+: text.drop j) :
    indexOf part text start = some i := by
  rw [indexOf, List.find?_range'_eq_some, List.mem_range'_1, List.isPrefixOf_iff_prefix]
  refine ⟨hpart, by omega, fun j hj hji => ?_⟩
  rw [Bool.not_eq_true', Bool.eq_false_iff, ne_eq, List.isPrefixOf_iff_prefix]
  exact hfirst j hj hji

theorem indexOf_unit {mid : List UInt16} (hmid : u ∉ mid) (p rest : List UInt16) :
    indexOf [u] (p ++ (mid ++ u :: rest)) p.length = some (p.length + mid.length) := by
  refine indexOf_eq_some (Nat.le_add_right _ _) (by simp) ?_ fun j hj hji => ?_
  · rw [List.drop_length_add_append, List.drop_left]
    exact ⟨rest, rfl⟩
  · obtain ⟨k, rfl⟩ := Nat.exists_eq_add_of_le hj
    have hk : k < mid.length := by omega
    rw [List.drop_length_add_append, List.drop_append_of_le_length hk.le,
      List.drop_eq_getElem_cons hk, List.cons_append, List.cons_prefix_cons]
    intro h
    exact hmid (h.1 ▸ List.getElem_mem hk)

/-- The object that is assigned to the first marker of a script. -/
theorem extractPlayerResponseFromScript_append (h : IsObject w)
    (jsonParse : List UInt16 → Option Json) {p mid spaces s : List UInt16} (hmid : unit '=' ∉ mid)
    (hspaces : ∀ u ∈ spaces, isSpaceUnit u = true)
    (hfirst : ∀ j < p.length,
      ¬ marker <+: (p ++ (marker ++ mid ++ unit '=' :: (spaces ++ w ++ s))).drop j) :
    extractPlayerResponseFromScript jsonParse
      (p ++ (marker ++ mid ++ unit '=' :: (spaces ++ w ++ s))) = jsonParse w := by
  let text := p ++ (marker ++ mid ++ unit '=' :: (spaces ++ w ++ s))
  let before := p ++ (marker ++ mid ++ unit '=' :: spaces)
  have hidx : indexOf marker text 0 = some p.length := by
    refine indexOf_eq_some (Nat.zero_le _) (by simp [text]) ?_ fun j _ hj => hfirst j hj
    rw [List.drop_left, List.append_assoc]
    exact List.prefix_append _ _
  have hmarker : unit '=' ∉ marker ++ mid := by
    rw [List.mem_append]
    exact not_or_intro (by decide) hmid
  have heq : indexOf [unit '='] text p.length = some (p.length + (marker ++ mid).length) :=
    indexOf_unit hmarker p _
  have hdrop : text.drop (p.length + (marker ++ mid).length + 1) = spaces ++ (w ++ s) := by
    rw [Nat.add_assoc, List.drop_length_add_append, List.drop_length_add_append]
    exact List.append_assoc _ _ _
  obtain ⟨rest, hw⟩ := IsObject.exists_cons h
  have htake : (text.drop (p.length + (marker ++ mid).length + 1)).takeWhile isSpaceUnit =
      spaces := by
    rw [hdrop, List.takeWhile_append_of_pos hspaces, hw, List.cons_append,
      List.takeWhile_cons_of_neg (by decide), List.append_nil]
  have hindex : p.length + (marker ++ mid).length + 1 + spaces.length = before.length := by
    simp only [before, List.length_append, List.length_cons]
    omega
  have htext : text = before ++ w ++ s := by
    simp [text, before]
  have hbrace : text[before.length]? = some (unit '{') := by
    rw [htext, hw]
    simp
  change extractPlayerResponseFromScript jsonParse text = jsonParse w
  unfold extractPlayerResponseFromScript
  rw [hidx, Option.bind_some, heq, Option.bind_some]
  dsimp only
  rw [htake, hindex, if_pos hbrace, htext, extractJsonObject_append h, Option.bind_some]

/-- An object is cut out of any text, and what a script assigns to the first marker is parsed. -/
theorem extractJsonObject_exact (h : IsObject w) :
    (∀ p s, extractJsonObject (p ++ w ++ s) p.length = some w) ∧
      ∀ (jsonParse : List UInt16 → Option Json) (p s : List UInt16),
        (∀ j < p.length, ¬ marker <+: (p ++ units "ytInitialPlayerResponse = " ++ w ++ s).drop j) →
        extractPlayerResponseFromScript jsonParse
          (p ++ units "ytInitialPlayerResponse = " ++ w ++ s) = jsonParse w := by
  refine ⟨fun p s => extractJsonObject_append h p s, fun jsonParse p s hfirst => ?_⟩
  have htext : p ++ units "ytInitialPlayerResponse = " ++ w ++ s =
      p ++ (marker ++ [unit ' '] ++ unit '=' :: ([unit ' '] ++ w ++ s)) := by
    have hunits : units "ytInitialPlayerResponse = " =
        marker ++ [unit ' '] ++ unit '=' :: [unit ' '] := by decide
    rw [hunits]
    simp only [List.append_assoc, List.cons_append, List.nil_append]
  have hspaces : ∀ u ∈ [unit ' '], isSpaceUnit u = true := List.forall_mem_singleton.2 rfl
  rw [htext] at hfirst ⊢
  exact extractPlayerResponseFromScript_append h jsonParse (by decide) hspaces hfirst

/-- An object with a brace in its key and an escaped quote in its value. -/
def bracedObject : List UInt16 := units "\x7b\"a\x7d\":\"\\\"\x7b\"\x7d"

/-- `JSON.parse`, as far as the next statement needs it. -/
def parseBracedObject (t : List UInt16) : Option Json :=
  if t = bracedObject then some (.obj [("a\x7d", .str "\"\x7b")]) else none

theorem extractJsonObject_bracedObject :
    extractJsonObject (units "var " ++ bracedObject ++ units ";\x7d") 4 = some bracedObject ∧
      extractPlayerResponseFromScript parseBracedObject
        (units "var " ++ units "ytInitialPlayerResponse = " ++ bracedObject ++ units ";\x7d") =
          parseBracedObject bracedObject := by
  have hkey : IsString (units "\"a\x7d\"") :=
    .mk (.plain (by decide) (by decide) (by decide)
      (.plain (by decide) (by decide) (by decide) .nil))
  have hvalue : IsString (units "\"\\\"\x7b\"") :=
    .mk (.escape (by decide) (.plain (by decide) (by decide) (by decide) .nil))
  have hobject : IsObject bracedObject :=
    .object (.member (a := []) (b := []) (c := []) (d := []) nofun hkey nofun nofun
      (.string hvalue) nofun)
  exact ⟨(extractJsonObject_exact hobject).1 _ _,
    (extractJsonObject_exact hobject).2 parseBracedObject _ _ (by decide +kernel)⟩

end LanguageLlm.Captions
