import Mathlib.Data.List.Basic
import Mathlib.Data.List.Forall2
import LanguageLlm.Lib.Scanning
import LanguageLlm.Lib.Utf8
import LanguageLlm.Lib.Words

/-!
# Percent-encoding and the form encoding of queries

The percent-encoding of a text, the list of names and values that a query is read as, and the query
that such a list is written as.

* `percentDecode_of_spelling`: writing some characters as their percent-encoded bytes does not
  change what is decoded.
* `formParse_formSerialize`: a written list is read back.
* `formParse_queryEncode`, `queryEncode_formSerialize`: encoding a query does not change what it is
  read as, and a written query needs no encoding.
-/

namespace LanguageLlm.Lib

/-! ## Percent-encoding -/

/-- An upper-case hexadecimal digit. -/
def hexDigit (n : Nat) : Char := if n < 10 then Char.ofNat (0x30 + n) else Char.ofNat (0x37 + n)

/-- The value of a hexadecimal digit, in upper or lower case. -/
def hexValue (c : Char) : Option Nat :=
  if '0' ≤ c ∧ c ≤ '9' then some (c.toNat - 0x30)
  else if 'A' ≤ c ∧ c ≤ 'F' then some (c.toNat - 0x37)
  else if 'a' ≤ c ∧ c ≤ 'f' then some (c.toNat - 0x57)
  else none

def percentEncodeByte (b : Nat) : List Char := ['%', hexDigit (b / 16), hexDigit (b % 16)]

/-- The UTF-8 percent-encoding of a text with the set of bytes that are encoded. -/
def utf8PercentEncode (inSet : Nat → Bool) (spaceAsPlus : Bool) (text : List Char) : List Char :=
  (utf8Encode text).flatMap fun b =>
    if spaceAsPlus && b == 0x20 then ['+']
    else if inSet b then percentEncodeByte b
    else [Char.ofNat b]

/-- The byte that the first characters of a text spell. -/
def hexPair : List Char → Option Nat
  | a :: b :: _ => (hexValue a).bind fun x => (hexValue b).map fun y => 16 * x + y
  | _ => none

/-- The bytes of a text, a percent sign with two digits read as one byte. -/
def percentDecode : List Char → List Nat
  | c :: a :: b :: rest =>
    match if c = '%' then hexPair [a, b] else none with
    | some byte => byte :: percentDecode rest
    | none => utf8Bytes c ++ percentDecode (a :: b :: rest)
  | c :: rest => utf8Bytes c ++ percentDecode rest
  | [] => []

theorem percentDecode_cons {c : Char} (hc : c ≠ '%') (rest : List Char) :
    percentDecode (c :: rest) = utf8Bytes c ++ percentDecode rest := by
  match rest with
  | [] => rfl
  | [_] => rfl
  | a :: b :: rest => rw [percentDecode, if_neg hc]

/-- A percent sign that no byte follows stands for itself. -/
theorem percentDecode_percent {rest : List Char} (h : hexPair rest = none) :
    percentDecode ('%' :: rest) = utf8Bytes '%' ++ percentDecode rest := by
  match rest with
  | [] => rfl
  | [_] => rfl
  | a :: b :: rest =>
    have hpair : hexPair [a, b] = none := h
    rw [percentDecode, if_pos rfl, hpair]

theorem percentDecode_byte {a b : Char} {byte : Nat} (h : hexPair [a, b] = some byte)
    (rest : List Char) : percentDecode ('%' :: a :: b :: rest) = byte :: percentDecode rest := by
  rw [percentDecode, if_pos rfl, h]

theorem hexValue_hexDigit {n : Nat} (h : n < 16) : hexValue (hexDigit n) = some n := by
  have hall : ∀ n, n < 16 → hexValue (hexDigit n) = some n := by decide
  exact hall n h

theorem hexPair_hexDigit {b : Nat} (h : b < 256) :
    hexPair [hexDigit (b / 16), hexDigit (b % 16)] = some b := by
  have hhigh : hexValue (hexDigit (b / 16)) = some (b / 16) := hexValue_hexDigit (by omega)
  have hlow : hexValue (hexDigit (b % 16)) = some (b % 16) := hexValue_hexDigit (by omega)
  have hsum : 16 * (b / 16) + b % 16 = b := by omega
  rw [hexPair, hhigh, hlow, Option.bind_some, Option.map_some, hsum]

theorem percentDecode_percentEncodeByte {b : Nat} (h : b < 256) (rest : List Char) :
    percentDecode (percentEncodeByte b ++ rest) = b :: percentDecode rest :=
  percentDecode_byte (hexPair_hexDigit h) rest

theorem percentDecode_percentEncodeBytes {bytes : List Nat} (h : ∀ b ∈ bytes, b < 256)
    (rest : List Char) :
    percentDecode (bytes.flatMap percentEncodeByte ++ rest) = bytes ++ percentDecode rest := by
  induction bytes with
  | nil => rfl
  | cons b bytes ih =>
    rw [List.flatMap_cons, List.append_assoc,
      percentDecode_percentEncodeByte (h b List.mem_cons_self),
      ih fun b hb => h b (List.mem_cons_of_mem _ hb), List.cons_append]

/-! ## Spellings -/

/-- A text with some of its characters, neither percent signs nor hexadecimal digits, written as
their percent-encoded bytes. -/
inductive Spelling : List Char → List Char → Prop where
  | nil : Spelling [] []
  | keep (c : Char) {t t' : List Char} : Spelling t t' → Spelling (c :: t) (c :: t')
  | escape {c : Char} {t t' : List Char} (hpercent : c ≠ '%') (hhex : hexValue c = none) :
      Spelling t t' → Spelling (c :: t) ((utf8Bytes c).flatMap percentEncodeByte ++ t')

theorem utf8Bytes_ne_nil (c : Char) : utf8Bytes c ≠ [] := by
  rw [utf8Bytes_eq]
  split_ifs <;> simp

/-- An escaped character begins with a percent sign. -/
theorem exists_escape (c : Char) (t : List Char) :
    ∃ rest, (utf8Bytes c).flatMap percentEncodeByte ++ t = '%' :: rest := by
  obtain ⟨b, bytes, hbytes⟩ := List.exists_cons_of_ne_nil (utf8Bytes_ne_nil c)
  exact ⟨_, by rw [hbytes, List.flatMap_cons, percentEncodeByte]; rfl⟩

theorem hexPair_of_none {a : Char} (h : hexValue a = none) (rest : List Char) :
    hexPair (a :: rest) = none := by
  cases rest with
  | nil => rfl
  | cons b rest => rw [hexPair, h, Option.bind_none]

theorem hexPair_second_of_none {b : Char} (h : hexValue b = none) (a : Char) (rest : List Char) :
    hexPair (a :: b :: rest) = none := by
  cases ha : hexValue a with
  | none => exact hexPair_of_none ha _
  | some x => rw [hexPair, ha, Option.bind_some, h, Option.map_none]

theorem hexPair_spelling {t t' : List Char} (h : Spelling t t') : hexPair t' = hexPair t := by
  cases h with
  | nil => rfl
  | escape hpercent hhex h =>
    obtain ⟨rest, hrest⟩ := exists_escape _ _
    rw [hrest, hexPair_of_none hhex]
    exact hexPair_of_none rfl rest
  | keep a h =>
    cases h with
    | nil => rfl
    | keep b h => rfl
    | escape hpercent hhex h =>
      obtain ⟨rest, hrest⟩ := exists_escape _ _
      rw [hrest, hexPair_second_of_none hhex]
      exact hexPair_second_of_none rfl a rest

/-- A hexadecimal digit is not escaped. -/
theorem Spelling.of_digit {c : Char} {t t' : List Char} (h : Spelling (c :: t) t')
    (hc : (hexValue c).isSome) : ∃ rest, t' = c :: rest ∧ Spelling t rest := by
  cases h with
  | keep _ h => exact ⟨_, rfl, h⟩
  | escape hpercent hhex h => rw [hhex] at hc; cases hc

theorem exists_of_hexPair {t : List Char} {byte : Nat} (h : hexPair t = some byte) :
    ∃ a b rest, t = a :: b :: rest ∧ (hexValue a).isSome ∧ (hexValue b).isSome ∧
      hexPair [a, b] = some byte := by
  match t with
  | [] => cases h
  | [_] => cases h
  | a :: b :: rest =>
    have hpair : hexPair [a, b] = some byte := h
    obtain ⟨x, hx, hrest⟩ := Option.bind_eq_some_iff.1 h
    obtain ⟨y, hy, -⟩ := Option.map_eq_some_iff.1 hrest
    exact ⟨a, b, rest, rfl, by rw [hx]; rfl, by rw [hy]; rfl, hpair⟩

/-- A spelling stands for the same bytes. -/
theorem percentDecode_of_spelling (n : Nat) :
    ∀ {t t' : List Char}, t.length ≤ n → Spelling t t' → percentDecode t' = percentDecode t := by
  -- on the length, since a byte takes the two characters after the percent sign with it
  induction n with
  | zero =>
    intro t t' hlen h
    obtain rfl := List.eq_nil_of_length_eq_zero (Nat.le_zero.1 hlen)
    cases h
    rfl
  | succ n ih =>
    intro t t' hlen h
    cases h with
    | nil => rfl
    | @escape c t t' hpercent hhex h =>
      have hbytes : ∀ b ∈ utf8Bytes c, b < 256 := fun b hb => lt_of_mem_utf8Bytes hb
      rw [percentDecode_percentEncodeBytes hbytes, percentDecode_cons hpercent,
        ih (Nat.le_of_succ_le_succ hlen) h]
    | @keep c t t' h =>
      have hrest := ih (Nat.le_of_succ_le_succ hlen) h
      by_cases hc : c = '%'
      · subst hc
        cases hpair : hexPair t with
        | none =>
          have hpair' : hexPair t' = none := by rw [hexPair_spelling h, hpair]
          rw [percentDecode_percent hpair, percentDecode_percent hpair', hrest]
        | some byte =>
          obtain ⟨a, b, rest, rfl, ha, hb, hbyte⟩ := exists_of_hexPair hpair
          obtain ⟨t₁, rfl, h₁⟩ := h.of_digit ha
          obtain ⟨t₂, rfl, h₂⟩ := h₁.of_digit hb
          have hshort : rest.length ≤ n := by
            simp only [List.length_cons] at hlen
            omega
          rw [percentDecode_byte hbyte, percentDecode_byte hbyte, ih hshort h₂]
      · rw [percentDecode_cons hc, percentDecode_cons hc, hrest]

/-! ## Encodings as spellings -/

/-- A set of bytes that leaves percent-encoded bytes as they are. -/
structure EncodeSet (inSet : Nat → Bool) : Prop where
  high : ∀ b, 0x7F < b → inSet b = true
  percent : inSet 0x25 = false
  digit : ∀ c, (hexValue c).isSome → inSet c.toNat = false

theorem toNat_of_hexValue {c : Char} (h : (hexValue c).isSome) :
    0x30 ≤ c.toNat ∧ c.toNat ≤ 0x39 ∨ 0x41 ≤ c.toNat ∧ c.toNat ≤ 0x46 ∨
      0x61 ≤ c.toNat ∧ c.toNat ≤ 0x66 := by
  unfold hexValue at h
  split_ifs at h with h1 h2 h3
  · exact Or.inl h1
  · exact Or.inr (Or.inl h2)
  · exact Or.inr (Or.inr h3)
  · cases h

/-- Percent-encoded bytes are percent signs and hexadecimal digits. -/
theorem mem_percentEncodeBytes {bytes : List Nat} (h : ∀ b ∈ bytes, b < 256) {c : Char}
    (hc : c ∈ bytes.flatMap percentEncodeByte) : c = '%' ∨ (hexValue c).isSome := by
  obtain ⟨b, hb, hmem⟩ := List.mem_flatMap.1 hc
  have hlt := h b hb
  have hhigh : (hexValue (hexDigit (b / 16))).isSome := by
    rw [hexValue_hexDigit (by omega)]
    rfl
  have hlow : (hexValue (hexDigit (b % 16))).isSome := by
    rw [hexValue_hexDigit (by omega)]
    rfl
  simp only [percentEncodeByte, List.mem_cons, List.not_mem_nil, or_false] at hmem
  rcases hmem with rfl | rfl | rfl
  · exact Or.inl rfl
  · exact Or.inr hhigh
  · exact Or.inr hlow

section

variable {inSet : Nat → Bool}

theorem utf8PercentEncode_append (spaceAsPlus : Bool) (a b : List Char) :
    utf8PercentEncode inSet spaceAsPlus (a ++ b) =
      utf8PercentEncode inSet spaceAsPlus a ++ utf8PercentEncode inSet spaceAsPlus b := by
  rw [utf8PercentEncode, utf8Encode, List.flatMap_append, List.flatMap_append]
  rfl

theorem utf8PercentEncode_keep {c : Char} (h : c.toNat ≤ 0x7F) (hc : inSet c.toNat = false) :
    utf8PercentEncode inSet false [c] = [c] := by
  rw [utf8PercentEncode, utf8Encode, List.flatMap_singleton, utf8Bytes_ascii h,
    List.flatMap_singleton, Bool.false_and, if_neg Bool.false_ne_true,
    if_neg (by rw [hc]; exact Bool.false_ne_true), Char.ofNat_toNat]

namespace EncodeSet

variable (h : EncodeSet inSet)

include h

theorem ascii_of_false {c : Char} (hc : inSet c.toNat = false) : c.toNat ≤ 0x7F := by
  by_contra hhigh
  rw [h.high c.toNat (by omega)] at hc
  cases hc

/-- A character outside the set is kept. -/
theorem keep {c : Char} (hc : inSet c.toNat = false) : utf8PercentEncode inSet false [c] = [c] :=
  utf8PercentEncode_keep (h.ascii_of_false hc) hc

/-- A character in the set is escaped. -/
theorem escape {c : Char} (hc : inSet c.toNat = true) :
    utf8PercentEncode inSet false [c] = (utf8Bytes c).flatMap percentEncodeByte := by
  rw [utf8PercentEncode, utf8Encode, List.flatMap_singleton]
  refine List.flatMap_congr fun b hb => ?_
  have hb' : inSet b = true := by
    by_cases hascii : c.toNat ≤ 0x7F
    · rw [utf8Bytes_ascii hascii, List.mem_singleton] at hb
      rw [hb, hc]
    · exact h.high b (le_of_mem_utf8Bytes (by omega) hb)
  rw [Bool.false_and, if_neg Bool.false_ne_true, if_pos hb']

/-- A text outside the set is kept. -/
theorem keep_all {text : List Char} (hall : ∀ c ∈ text, inSet c.toNat = false) :
    utf8PercentEncode inSet false text = text := by
  induction text with
  | nil => rfl
  | cons c text ih =>
    obtain ⟨hc, htext⟩ := List.forall_mem_cons.1 hall
    rw [← List.singleton_append, utf8PercentEncode_append, h.keep hc, ih htext]

/-- What is written is outside the set. -/
theorem outside {text : List Char} {c : Char} (hc : c ∈ utf8PercentEncode inSet false text) :
    (c ∈ text ∨ c = '%' ∨ (hexValue c).isSome) ∧ inSet c.toNat = false := by
  induction text with
  | nil => cases hc
  | cons d text ih =>
    rw [← List.singleton_append, utf8PercentEncode_append, List.mem_append] at hc
    rcases hc with hc | hc
    · cases hd : inSet d.toNat with
      | false =>
        rw [h.keep hd, List.mem_singleton] at hc
        subst hc
        exact ⟨Or.inl List.mem_cons_self, hd⟩
      | true =>
        rw [h.escape hd] at hc
        rcases mem_percentEncodeBytes (fun b hb => lt_of_mem_utf8Bytes hb) hc with rfl | hdigit
        · exact ⟨Or.inr (Or.inl rfl), h.percent⟩
        · exact ⟨Or.inr (Or.inr hdigit), h.digit c hdigit⟩
    · obtain ⟨hmem, hout⟩ := ih hc
      exact ⟨hmem.imp_left (List.mem_cons_of_mem _), hout⟩

/-- Whatever is written for a plus sign, an encoded text is a spelling of the text. -/
theorem spelling {f : Char → Char} (hf : ∀ c, c ≠ '+' → f c = c) (hplus : inSet 0x2B = false)
    (text : List Char) :
    Spelling (text.map f) ((utf8PercentEncode inSet false text).map f) := by
  induction text with
  | nil => exact Spelling.nil
  | cons c text ih =>
    rw [← List.singleton_append, utf8PercentEncode_append, List.map_append, List.map_append]
    cases hc : inSet c.toNat with
    | false =>
      rw [h.keep hc]
      exact Spelling.keep (f c) ih
    | true =>
      have hmem : ∀ d ∈ (utf8Bytes c).flatMap percentEncodeByte, f d = d := by
        intro d hd
        refine hf d ?_
        rintro rfl
        rcases mem_percentEncodeBytes (fun b hb => lt_of_mem_utf8Bytes hb) hd with hd | hd
        · cases hd
        · cases hd
      have hself : f c = c := by
        refine hf c ?_
        rintro rfl
        exact Bool.false_ne_true (hplus.symm.trans hc)
      have hpercent : c ≠ '%' := by
        rintro rfl
        exact Bool.false_ne_true (h.percent.symm.trans hc)
      have hhex : hexValue c = none := by
        by_contra hsome
        rw [h.digit c (Option.isSome_iff_ne_none.2 hsome)] at hc
        cases hc
      rw [h.escape hc, List.map_congr_left hmem, List.map_id', List.map_singleton, hself]
      exact Spelling.escape hpercent hhex ih

end EncodeSet

end

/-! ## Queries -/

/-- The bytes of a query that are encoded; a special scheme encodes the apostrophe too. -/
def querySet (special : Bool) (b : Nat) : Bool :=
  b ≤ 0x1F || 0x7E < b || b ∈ [0x20, 0x22, 0x23, 0x3C, 0x3E] || (special && b == 0x27)

def queryEncode (special : Bool) (query : List Char) : List Char :=
  utf8PercentEncode (querySet special) false query

/-- The bytes of a name or a value that a form encodes. -/
def formSet (b : Nat) : Bool :=
  !(0x30 ≤ b && b ≤ 0x39 || 0x41 ≤ b && b ≤ 0x5A || 0x61 ≤ b && b ≤ 0x7A ||
    b ∈ [0x2A, 0x2D, 0x2E, 0x5F])

def formEncode (text : List Char) : List Char := utf8PercentEncode formSet true text

def plusAsSpace (c : Char) : Char := if c = '+' then ' ' else c

def formDecode (text : List Char) : List Char :=
  utf8Decode (percentDecode (text.map plusAsSpace))

/-- The name and the value of a piece of a query. -/
def formPair (piece : List Char) : List Char × List Char :=
  (formDecode (cut '=' piece).1, formDecode ((cut '=' piece).2.getD []))

/-- The pieces of a query; empty ones do not count. -/
def pieces (query : List Char) : List (List Char) := words (· == '&') query

/-- The names and values of a query. -/
def formParse (query : List Char) : List (List Char × List Char) := (pieces query).map formPair

/-- The query that names and values are written as. -/
def formSerialize (params : List (List Char × List Char)) : List Char :=
  ['&'].intercalate (params.map fun p => formEncode p.1 ++ '=' :: formEncode p.2)

theorem encodeSet_querySet (special : Bool) : EncodeSet (querySet special) where
  high b hb := by
    have hhigh : decide (0x7E < b) = true := by
      rw [decide_eq_true_eq]
      omega
    simp [querySet, hhigh]
  percent := by cases special <;> rfl
  digit c hc := by
    have hbounds := toNat_of_hexValue hc
    simp [querySet]
    omega

/-- What stands for itself in a query is not made by encoding. -/
theorem mem_queryEncode {special : Bool} {query : List Char} {c : Char}
    (hc : c ∈ queryEncode special query) : c ∈ query ∨ c = '%' ∨ (hexValue c).isSome :=
  ((encodeSet_querySet special).outside hc).1

theorem formDecode_queryEncode (special : Bool) (text : List Char) :
    formDecode (queryEncode special text) = formDecode text := by
  have hplus : querySet special 0x2B = false := by cases special <;> rfl
  have hspelling := (encodeSet_querySet special).spelling (f := plusAsSpace)
    (fun c hc => if_neg hc) hplus text
  rw [formDecode, formDecode]
  exact congrArg utf8Decode (percentDecode_of_spelling _ (Nat.le_refl _) hspelling)

theorem queryEncode_append (special : Bool) (a b : List Char) :
    queryEncode special (a ++ b) = queryEncode special a ++ queryEncode special b :=
  utf8PercentEncode_append false a b

theorem queryEncode_ne_nil {special : Bool} {query : List Char} (h : query ≠ []) :
    queryEncode special query ≠ [] := by
  obtain ⟨c, rest, rfl⟩ := List.exists_cons_of_ne_nil h
  have hset := encodeSet_querySet special
  rw [← List.singleton_append, queryEncode_append]
  refine List.append_ne_nil_of_left_ne_nil ?_ _
  cases hc : querySet special c.toNat with
  | false => rw [queryEncode, hset.keep hc]; simp
  | true =>
    obtain ⟨rest, hrest⟩ := exists_escape c []
    rw [queryEncode, hset.escape hc, ← List.append_nil (List.flatMap _ _), hrest]
    simp

/-- What separates pieces, or a name from its value. -/
theorem queryEncode_cons_sep {sep : Char} (hsep : sep = '&' ∨ sep = '=') (special : Bool)
    (a b : List Char) :
    queryEncode special (a ++ sep :: b) =
      queryEncode special a ++ sep :: queryEncode special b := by
  have hkeep : queryEncode special [sep] = [sep] := by
    rcases hsep with rfl | rfl <;> cases special <;> rfl
  rw [← List.singleton_append, queryEncode_append, queryEncode_append, hkeep]
  rfl

theorem not_mem_queryEncode {sep : Char} (hsep : sep = '&' ∨ sep = '=') {special : Bool}
    {query : List Char} (h : sep ∉ query) : sep ∉ queryEncode special query := by
  intro hmem
  rcases mem_queryEncode hmem with hmem | rfl | hdigit
  · exact h hmem
  · rcases hsep with hsep | hsep <;> cases hsep
  · rcases hsep with rfl | rfl <;> cases hdigit

theorem formPair_queryEncode (special : Bool) (piece : List Char) :
    formPair (queryEncode special piece) = formPair piece := by
  by_cases hmem : '=' ∈ piece
  · obtain ⟨name, value, rfl, hname⟩ := List.eq_append_cons_of_mem hmem
    rw [queryEncode_cons_sep (Or.inr rfl), formPair, formPair,
      cut_append_cons (not_mem_queryEncode (Or.inr rfl) hname), cut_append_cons hname]
    simp only [Option.getD_some, formDecode_queryEncode]
  · rw [formPair, formPair, cut_of_not_mem (not_mem_queryEncode (Or.inr rfl) hmem),
      cut_of_not_mem hmem]
    simp only [Option.getD_none, formDecode_queryEncode]

theorem pieces_of_not_mem {query : List Char} (h : '&' ∉ query) :
    pieces query = if query = [] then [] else [query] := by
  split_ifs with hnil
  · rw [hnil]
    rfl
  · refine words_of_forall_neg ?_ hnil
    intro c hc
    rw [beq_eq_false_iff_ne]
    rintro rfl
    exact h hc

theorem pieces_append_cons (a b : List Char) : pieces (a ++ '&' :: b) = pieces a ++ pieces b :=
  words_append_cons (beq_self_eq_true '&')

theorem pieces_queryEncode (special : Bool) (n : Nat) :
    ∀ query : List Char, query.length ≤ n →
      pieces (queryEncode special query) = (pieces query).map (queryEncode special) := by
  have hlast : ∀ query : List Char, '&' ∉ query →
      pieces (queryEncode special query) = (pieces query).map (queryEncode special) := by
    intro query hmem
    rw [pieces_of_not_mem hmem, pieces_of_not_mem (not_mem_queryEncode (Or.inl rfl) hmem)]
    by_cases hnil : query = []
    · rw [hnil]
      rfl
    · rw [if_neg hnil, if_neg (queryEncode_ne_nil hnil), List.map_singleton]
  induction n with
  | zero =>
    intro query hlen
    refine hlast query ?_
    rw [List.eq_nil_of_length_eq_zero (Nat.le_zero.1 hlen)]
    exact List.not_mem_nil
  | succ n ih =>
    intro query hlen
    by_cases hmem : '&' ∈ query
    · obtain ⟨a, b, rfl, ha⟩ := List.eq_append_cons_of_mem hmem
      simp only [List.length_append, List.length_cons] at hlen
      rw [queryEncode_cons_sep (Or.inl rfl), pieces_append_cons, pieces_append_cons,
        List.map_append, hlast a ha, ih b (by omega)]
    · exact hlast query hmem

/-- Encoding a query does not change what it is read as. -/
theorem formParse_queryEncode (special : Bool) (query : List Char) :
    formParse (queryEncode special query) = formParse query := by
  rw [formParse, formParse, pieces_queryEncode special _ query (Nat.le_refl _), List.map_map]
  exact List.map_congr_left fun piece _ => formPair_queryEncode special piece

/-! ## Forms -/

/-- What a form writes for a byte. -/
def formByte (b : Nat) : List Char :=
  if b = 0x20 then ['+'] else if formSet b then percentEncodeByte b else [Char.ofNat b]

theorem formEncode_eq (text : List Char) :
    formEncode text = (utf8Encode text).flatMap formByte := by
  rw [formEncode, utf8PercentEncode]
  refine List.flatMap_congr fun b _ => ?_
  simp [formByte]

/-- A byte that a form keeps is a letter, a digit or one of four signs. -/
theorem of_formSet {b : Nat} (h : formSet b = false) :
    0x30 ≤ b ∧ b ≤ 0x39 ∨ 0x41 ≤ b ∧ b ≤ 0x5A ∨ 0x61 ≤ b ∧ b ≤ 0x7A ∨
      b = 0x2A ∨ b = 0x2D ∨ b = 0x2E ∨ b = 0x5F := by
  simp [formSet] at h
  omega

theorem toNat_ofNat_of_formSet {b : Nat} (h : formSet b = false) : (Char.ofNat b).toNat = b := by
  have hbounds := of_formSet h
  have hlt : b < 128 := by omega
  have hall : ∀ b, b < 128 → (Char.ofNat b).toNat = b := by decide
  exact hall b hlt

/-- What a form writes: a plus sign, a percent sign, or a character that it keeps. -/
theorem mem_formByte {b : Nat} (hb : b < 256) {c : Char} (hc : c ∈ formByte b) :
    c = '+' ∨ c = '%' ∨ formSet c.toNat = false := by
  unfold formByte at hc
  split_ifs at hc with hspace hset
  · exact Or.inl (List.mem_singleton.1 hc)
  · have hbytes : c ∈ [b].flatMap percentEncodeByte := by
      rw [List.flatMap_singleton]
      exact hc
    rcases mem_percentEncodeBytes (List.forall_mem_singleton.2 hb) hbytes with hc | hdigit
    · exact Or.inr (Or.inl hc)
    · have hbounds := toNat_of_hexValue hdigit
      refine Or.inr (Or.inr ?_)
      simp [formSet]
      omega
  · rw [List.mem_singleton.1 hc, toNat_ofNat_of_formSet (Bool.eq_false_iff.2 hset)]
    exact Or.inr (Or.inr (Bool.eq_false_iff.2 hset))

theorem mem_formEncode {text : List Char} {c : Char} (hc : c ∈ formEncode text) :
    c = '+' ∨ c = '%' ∨ formSet c.toNat = false := by
  rw [formEncode_eq] at hc
  obtain ⟨b, hb, hmem⟩ := List.mem_flatMap.1 hc
  obtain ⟨d, -, hd⟩ := List.mem_flatMap.1 hb
  exact mem_formByte (lt_of_mem_utf8Bytes hd) hmem

theorem percentDecode_formByte {b : Nat} (hb : b < 256) (rest : List Char) :
    percentDecode ((formByte b).map plusAsSpace ++ rest) = b :: percentDecode rest := by
  unfold formByte
  split_ifs with hspace hset
  · have hblank : utf8Bytes ' ' = [0x20] := rfl
    have hplus : [('+' : Char)].map plusAsSpace = [' '] := rfl
    rw [hplus, List.singleton_append, percentDecode_cons (by decide), hblank, hspace]
    rfl
  · have hself : ∀ c ∈ [b].flatMap percentEncodeByte, plusAsSpace c = c := by
      intro c hc
      refine if_neg ?_
      rintro rfl
      rcases mem_percentEncodeBytes (List.forall_mem_singleton.2 hb) hc with hc | hc <;> cases hc
    have hkeep : (percentEncodeByte b).map plusAsSpace = percentEncodeByte b := by
      rw [List.flatMap_singleton] at hself
      rw [List.map_congr_left hself, List.map_id']
    rw [hkeep, percentDecode_percentEncodeByte hb]
  · have hform : formSet b = false := Bool.eq_false_iff.2 hset
    have hnat := toNat_ofNat_of_formSet hform
    have hbounds := of_formSet hform
    have hself : plusAsSpace (Char.ofNat b) = Char.ofNat b := by
      refine if_neg fun hplus => ?_
      rw [hplus] at hnat
      have hcode : ('+' : Char).toNat = 0x2B := rfl
      omega
    have hpercent : Char.ofNat b ≠ '%' := by
      intro hpercent
      rw [hpercent] at hnat
      have hcode : ('%' : Char).toNat = 0x25 := rfl
      omega
    rw [List.map_singleton, hself, List.singleton_append, percentDecode_cons hpercent,
      utf8Bytes_ascii (by omega), hnat]
    rfl

/-- A text is read back from its form. -/
theorem formDecode_formEncode (text : List Char) : formDecode (formEncode text) = text := by
  have hbytes : ∀ bytes : List Nat, (∀ b ∈ bytes, b < 256) →
      percentDecode ((bytes.flatMap formByte).map plusAsSpace) = bytes := by
    intro bytes hlt
    induction bytes with
    | nil => rfl
    | cons b bytes ih =>
      obtain ⟨hb, hrest⟩ := List.forall_mem_cons.1 hlt
      rw [List.flatMap_cons, List.map_append, percentDecode_formByte hb, ih hrest]
  have hlt : ∀ b ∈ utf8Encode text, b < 256 := by
    intro b hb
    obtain ⟨c, -, hc⟩ := List.mem_flatMap.1 hb
    exact lt_of_mem_utf8Bytes hc
  rw [formDecode, formEncode_eq, hbytes _ hlt, utf8Decode_encode]

/-- The characters of a written query. -/
theorem mem_formSerialize {params : List (List Char × List Char)} {c : Char}
    (hc : c ∈ formSerialize params) :
    c = '&' ∨ c = '=' ∨ c = '+' ∨ c = '%' ∨ formSet c.toNat = false := by
  induction params with
  | nil => cases hc
  | cons p params ih =>
    have hpair : c ∈ formEncode p.1 ++ '=' :: formEncode p.2 →
        c = '&' ∨ c = '=' ∨ c = '+' ∨ c = '%' ∨ formSet c.toNat = false := by
      intro hmem
      rcases List.mem_append.1 hmem with hmem | hmem
      · exact Or.inr (Or.inr (mem_formEncode hmem))
      · rcases List.mem_cons.1 hmem with rfl | hmem
        · exact Or.inr (Or.inl rfl)
        · exact Or.inr (Or.inr (mem_formEncode hmem))
    cases params with
    | nil =>
      rw [formSerialize, List.map_singleton, List.intercalate_singleton] at hc
      exact hpair hc
    | cons q params =>
      rw [formSerialize, List.map_cons, List.map_cons, List.intercalate_cons_cons,
        List.append_assoc, List.mem_append] at hc
      rcases hc with hc | hc
      · exact hpair hc
      · rcases List.mem_cons.1 hc with rfl | hc
        · exact Or.inl rfl
        · exact ih hc

theorem formParse_formSerialize (params : List (List Char × List Char)) :
    formParse (formSerialize params) = params := by
  have hsep : ∀ {text : List Char}, '&' ∉ formEncode text ∧ '=' ∉ formEncode text := by
    intro text
    constructor
    · intro hmem
      rcases mem_formEncode hmem with h | h | h <;> cases h
    · intro hmem
      rcases mem_formEncode hmem with h | h | h <;> cases h
  have hpieces : pieces (formSerialize params) =
      params.map fun p => formEncode p.1 ++ '=' :: formEncode p.2 := by
    have hone : ∀ p : List Char × List Char, pieces (formEncode p.1 ++ '=' :: formEncode p.2) =
        [formEncode p.1 ++ '=' :: formEncode p.2] := by
      intro p
      rw [pieces_of_not_mem, if_neg (by simp)]
      simp [hsep]
    have hsplit := words_intercalate (p := (· == '&')) (beq_self_eq_true '&')
      (params.map fun p => formEncode p.1 ++ '=' :: formEncode p.2)
    rw [pieces, formSerialize, hsplit, List.flatMap_map]
    exact (List.flatMap_congr fun p _ => hone p).trans List.map_eq_flatMap.symm
  have hpair : ∀ p : List Char × List Char,
      formPair (formEncode p.1 ++ '=' :: formEncode p.2) = p := by
    intro p
    rw [formPair, cut_append_cons hsep.2]
    simp only [Option.getD_some, formDecode_formEncode]
  rw [formParse, hpieces, List.map_map]
  exact List.map_id'' hpair params

/-- A list with parameters is written as some query. -/
theorem formSerialize_eq_nil_iff {params : List (List Char × List Char)} :
    formSerialize params = [] ↔ params = [] := by
  constructor
  · intro h
    have hparse := formParse_formSerialize params
    rw [h] at hparse
    exact hparse.symm
  · rintro rfl
    rfl

/-- A written query needs no encoding. -/
theorem queryEncode_formSerialize (special : Bool) (params : List (List Char × List Char)) :
    queryEncode special (formSerialize params) = formSerialize params := by
  refine (encodeSet_querySet special).keep_all fun c hc => ?_
  rcases mem_formSerialize hc with rfl | rfl | rfl | rfl | hform
  · cases special <;> rfl
  · cases special <;> rfl
  · cases special <;> rfl
  · cases special <;> rfl
  · have hbounds := of_formSet hform
    simp [querySet]
    omega

end LanguageLlm.Lib
