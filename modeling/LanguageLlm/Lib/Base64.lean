import Mathlib.Data.List.Basic

/-!
# Base64

Three bytes are written as four characters, and what is left at the end is padded. The strict
decoder knows one spelling of a list of bytes, the one that is written (`decode_eq_some_iff`); the
forgiving one of the web also takes spaces, texts without padding and stray bits, and reads what is
written back as well (`decodeForgiving_encode`).
-/

namespace LanguageLlm.Lib.Base64

/-! ## Digits -/

def alphabet : List Char :=
  "ABCDEFGHIJKLMNOPQRSTUVWXYZabcdefghijklmnopqrstuvwxyz0123456789+/".toList

/-- The character of a number below 64. -/
def digit (n : Nat) : Char := alphabet.getD n 'A'

/-- The number of a character. -/
def value (c : Char) : Option Nat := alphabet.idxOf? c

theorem value_digit {n : Nat} (h : n < 64) : value (digit n) = some n := by
  have hall : ∀ m < 64, value (digit m) = some m := by decide +kernel
  exact hall n h

theorem value_eq_some_iff {c : Char} {n : Nat} : value c = some n ↔ n < 64 ∧ digit n = c := by
  constructor
  · intro h
    rw [value, List.idxOf?_eq_some_iff] at h
    obtain ⟨hlt, hget, -⟩ := h
    refine ⟨hlt, ?_⟩
    rw [digit, List.getD_eq_getElem?_getD, List.getElem?_eq_getElem hlt, Option.getD_some]
    exact hget
  · rintro ⟨hlt, rfl⟩
    exact value_digit hlt

theorem digit_ne_pad {n : Nat} (h : n < 64) : digit n ≠ '=' := by
  intro hpad
  have hvalue := value_digit h
  rw [hpad] at hvalue
  cases hvalue

/-! ## Writing and reading -/

def encode : List UInt8 → List Char
  | [] => []
  | [a] => [digit (a.toNat / 4), digit (a.toNat % 4 * 16), '=', '=']
  | [a, b] =>
    [digit (a.toNat / 4), digit (a.toNat % 4 * 16 + b.toNat / 16), digit (b.toNat % 16 * 4), '=']
  | a :: b :: c :: bytes =>
    digit (a.toNat / 4) :: digit (a.toNat % 4 * 16 + b.toNat / 16) ::
      digit (b.toNat % 16 * 4 + c.toNat / 64) :: digit (c.toNat % 64) :: encode bytes

/-- The byte of the bits of two characters. -/
def byte₁ (x y : Nat) : UInt8 := UInt8.ofNat (x * 4 + y / 16)
def byte₂ (y z : Nat) : UInt8 := UInt8.ofNat (y % 16 * 16 + z / 4)
def byte₃ (z w : Nat) : UInt8 := UInt8.ofNat (z % 4 * 64 + w)

/-- The bytes of four characters. -/
def group (a b c d : Char) : Option (List UInt8) := do
  let x ← value a
  let y ← value b
  let z ← value c
  let w ← value d
  return [byte₁ x y, byte₂ y z, byte₃ z w]

/-- The bytes of four characters of which the last is padding. -/
def lastGroup (a b c : Char) : Option (List UInt8) := do
  let x ← value a
  let y ← value b
  if c = '=' then if y % 16 = 0 then some [byte₁ x y] else none
  else do
    let z ← value c
    if z % 4 = 0 then some [byte₁ x y, byte₂ y z] else none

/-- The strict decoder: the padding is complete, and the bits that it cuts off are zero. -/
def decode : List Char → Option (List UInt8)
  | [] => some []
  | a :: b :: c :: d :: cs =>
    if d = '=' then if cs = [] then lastGroup a b c else none
    else do
      let bytes ← group a b c d
      let rest ← decode cs
      return bytes ++ rest
  | _ => none

section Bytes

variable {x y z w : Nat}

theorem toNat_byte₁ (hx : x < 64) (hy : y < 64) : (byte₁ x y).toNat = x * 4 + y / 16 := by
  rw [byte₁, UInt8.toNat_ofNat', Nat.mod_eq_of_lt (by omega)]

theorem toNat_byte₂ (hz : z < 64) : (byte₂ y z).toNat = y % 16 * 16 + z / 4 := by
  rw [byte₂, UInt8.toNat_ofNat', Nat.mod_eq_of_lt (by omega)]

theorem toNat_byte₃ (hw : w < 64) : (byte₃ z w).toNat = z % 4 * 64 + w := by
  rw [byte₃, UInt8.toNat_ofNat', Nat.mod_eq_of_lt (by omega)]

theorem ofNat_eq {n : Nat} {a : UInt8} (h : n = a.toNat) : UInt8.ofNat n = a := by
  rw [h, UInt8.ofNat_toNat]

end Bytes

section Groups

variable (a b c : UInt8)

/-- The numbers of the characters of three bytes. -/
theorem digits_lt : a.toNat / 4 < 64 ∧ a.toNat % 4 * 16 + b.toNat / 16 < 64 ∧
    b.toNat % 16 * 4 + c.toNat / 64 < 64 ∧ c.toNat % 64 < 64 := by
  have ha := a.toNat_lt
  have hb := b.toNat_lt
  have hc := c.toNat_lt
  omega

theorem group_digits :
    group (digit (a.toNat / 4)) (digit (a.toNat % 4 * 16 + b.toNat / 16))
      (digit (b.toNat % 16 * 4 + c.toNat / 64)) (digit (c.toNat % 64)) = some [a, b, c] := by
  obtain ⟨hx, hy, hz, hw⟩ := digits_lt a b c
  have hb := b.toNat_lt
  have hc := c.toNat_lt
  simp only [group, value_digit hx, value_digit hy, value_digit hz, value_digit hw,
    Option.bind_eq_bind, Option.bind_some, Option.pure_def, Option.some.injEq, List.cons.injEq,
    and_true]
  exact ⟨ofNat_eq (by omega), ofNat_eq (by omega), ofNat_eq (by omega)⟩

theorem lastGroup_one :
    lastGroup (digit (a.toNat / 4)) (digit (a.toNat % 4 * 16)) '=' = some [a] := by
  obtain ⟨hx, -⟩ := digits_lt a 0 0
  have hy : a.toNat % 4 * 16 < 64 := by omega
  simp only [lastGroup, value_digit hx, value_digit hy, Option.bind_eq_bind, Option.bind_some,
    if_true]
  rw [if_pos (by omega), byte₁, ofNat_eq (a := a) (by omega)]

theorem lastGroup_two :
    lastGroup (digit (a.toNat / 4)) (digit (a.toNat % 4 * 16 + b.toNat / 16))
      (digit (b.toNat % 16 * 4)) = some [a, b] := by
  obtain ⟨hx, hy, -⟩ := digits_lt a b 0
  have hb := b.toNat_lt
  have hz : b.toNat % 16 * 4 < 64 := by omega
  simp only [lastGroup, value_digit hx, value_digit hy, value_digit hz, Option.bind_eq_bind,
    Option.bind_some, if_neg (digit_ne_pad hz)]
  rw [if_pos (by omega), byte₁, byte₂, ofNat_eq (a := a) (by omega), ofNat_eq (a := b) (by omega)]

end Groups

theorem decode_encode (bytes : List UInt8) : decode (encode bytes) = some bytes := by
  induction bytes using encode.induct with
  | case1 => rfl
  | case2 a => rw [encode, decode, if_pos rfl, if_pos rfl, lastGroup_one]
  | case3 a b => rw [encode, decode, if_pos rfl, if_pos rfl, lastGroup_two]
  | case4 a b c bytes ih =>
    rw [encode, decode, if_neg (digit_ne_pad (digits_lt a b c).2.2.2), group_digits, ih]
    rfl

theorem encode_group {a b c d : Char} {bytes : List UInt8} (h : group a b c d = some bytes)
    (rest : List UInt8) : a :: b :: c :: d :: encode rest = encode (bytes ++ rest) := by
  simp only [group, Option.bind_eq_bind, Option.bind_eq_some_iff, value_eq_some_iff,
    Option.pure_def, Option.some.injEq] at h
  obtain ⟨x, ⟨hx, rfl⟩, y, ⟨hy, rfl⟩, z, ⟨hz, rfl⟩, w, ⟨hw, rfl⟩, rfl⟩ := h
  simp only [List.cons_append, List.nil_append, encode, toNat_byte₁ hx hy, toNat_byte₂ hz,
    toNat_byte₃ hw]
  congr 4
  all_goals congr 1; omega

theorem encode_lastGroup {a b c : Char} {bytes : List UInt8} (h : lastGroup a b c = some bytes) :
    [a, b, c, '='] = encode bytes := by
  simp only [lastGroup, Option.bind_eq_bind, Option.bind_eq_some_iff, value_eq_some_iff] at h
  obtain ⟨x, ⟨hx, rfl⟩, y, ⟨hy, rfl⟩, h⟩ := h
  split at h
  · next hpad =>
    split at h
    · next hzero =>
      cases h
      rw [encode, toNat_byte₁ hx hy, hpad]
      congr 1
      · congr 1; omega
      · congr 2; omega
    · cases h
  · simp only [Option.bind_eq_some_iff, value_eq_some_iff] at h
    obtain ⟨z, ⟨hz, rfl⟩, h⟩ := h
    split at h
    · next hzero =>
      cases h
      rw [encode, toNat_byte₁ hx hy, toNat_byte₂ hz]
      congr 1
      · congr 1; omega
      · congr 1
        · congr 1; omega
        · congr 2; omega
    · cases h

/-- The strict decoder accepts the texts that `encode` writes, and no others. -/
theorem decode_eq_some_iff {cs : List Char} {bytes : List UInt8} :
    decode cs = some bytes ↔ cs = encode bytes := by
  constructor
  · intro h
    induction cs using decode.induct generalizing bytes with
    | case1 =>
      cases h
      rfl
    | case2 a b c =>
      rw [decode, if_pos rfl, if_pos rfl] at h
      exact encode_lastGroup h
    | case3 a b c cs hend =>
      rw [decode, if_pos rfl, if_neg hend] at h
      cases h
    | case4 a b c d cs hpad ih =>
      rw [decode, if_neg hpad] at h
      obtain ⟨first, hfirst, h⟩ := Option.bind_eq_some_iff.1 h
      obtain ⟨rest, hrest, h⟩ := Option.bind_eq_some_iff.1 h
      cases h
      rw [ih hrest]
      exact encode_group hfirst rest
    | case5 cs hnil hcons =>
      rw [decode] at h
      · cases h
      · exact hnil
      · exact hcons
  · rintro rfl
    exact decode_encode bytes

/-! ## The forgiving decoder -/

def isAsciiSpace (c : Char) : Bool :=
  c = '\t' || c = '\n' || c.toNat = 12 || c = '\r' || c = ' '

/-- Without a padding character at the end. -/
def dropPad (cs : List Char) : List Char := if cs.getLast? = some '=' then cs.dropLast else cs

/-- The bytes of the bits; those that fill no byte are dropped. -/
def decodeBits : List Char → Option (List UInt8)
  | [] => some []
  | [_] => none
  | [a, b] => do
    let x ← value a
    let y ← value b
    return [byte₁ x y]
  | [a, b, c] => do
    let x ← value a
    let y ← value b
    let z ← value c
    return [byte₁ x y, byte₂ y z]
  | a :: b :: c :: d :: cs => do
    let bytes ← group a b c d
    let rest ← decodeBits cs
    return bytes ++ rest

/-- The decoder of the web, which `atob` uses. -/
def decodeForgiving (text : List Char) : Option (List UInt8) :=
  let cs := text.filter fun c => !isAsciiSpace c
  decodeBits (if cs.length % 4 = 0 then dropPad (dropPad cs) else cs)

theorem dropPad_append {cs : List Char} (h : cs ≠ []) (pre : List Char) :
    dropPad (pre ++ cs) = pre ++ dropPad cs := by
  rw [dropPad, dropPad, List.getLast?_append_of_ne_nil _ h]
  split
  · rw [List.dropLast_append_of_ne_nil h]
  · rfl

theorem dropPad_digit {n : Nat} (h : n < 64) (pre : List Char) :
    dropPad (pre ++ [digit n]) = pre ++ [digit n] := by
  rw [dropPad, List.getLast?_concat, if_neg]
  rw [Option.some.injEq]
  exact digit_ne_pad h

theorem dropPad_pad (pre : List Char) : dropPad (pre ++ ['=']) = pre := by
  rw [dropPad, List.getLast?_concat, if_pos rfl, List.dropLast_concat]

theorem isAsciiSpace_encode {bytes : List UInt8} : ∀ c ∈ encode bytes, isAsciiSpace c = false := by
  have hdigit : ∀ n < 64, isAsciiSpace (digit n) = false := by decide +kernel
  have hpad : isAsciiSpace '=' = false := by decide
  induction bytes using encode.induct with
  | case1 => exact List.forall_mem_nil _
  | case2 a =>
    obtain ⟨hx, -⟩ := digits_lt a 0 0
    simp only [encode, List.forall_mem_cons]
    exact ⟨hdigit _ hx, hdigit _ (by omega), hpad, hpad, List.forall_mem_nil _⟩
  | case3 a b =>
    obtain ⟨hx, hy, -⟩ := digits_lt a b 0
    simp only [encode, List.forall_mem_cons]
    exact ⟨hdigit _ hx, hdigit _ hy, hdigit _ (by omega), hpad, List.forall_mem_nil _⟩
  | case4 a b c bytes ih =>
    obtain ⟨hx, hy, hz, hw⟩ := digits_lt a b c
    simp only [encode, List.forall_mem_cons]
    exact ⟨hdigit _ hx, hdigit _ hy, hdigit _ hz, hdigit _ hw, ih⟩

theorem length_encode (bytes : List UInt8) :
    (encode bytes).length = (bytes.length + 2) / 3 * 4 := by
  induction bytes using encode.induct with
  | case1 => rfl
  | case2 a => simp only [encode, List.length_cons, List.length_nil]
  | case3 a b => simp only [encode, List.length_cons, List.length_nil]
  | case4 a b c bytes ih =>
    simp only [encode, List.length_cons, ih]
    omega

/-- The characters of the bits that are written. -/
theorem decodeBits_unpadded (bytes : List UInt8) :
    decodeBits (dropPad (dropPad (encode bytes))) = some bytes := by
  induction bytes using encode.induct with
  | case1 => rfl
  | case2 a =>
    obtain ⟨hx, -⟩ := digits_lt a 0 0
    have hy : a.toNat % 4 * 16 < 64 := by omega
    have hunpadded : dropPad (dropPad (encode [a])) =
        [digit (a.toNat / 4), digit (a.toNat % 4 * 16)] := by
      rw [encode, show [digit (a.toNat / 4), digit (a.toNat % 4 * 16), '=', '='] =
        ([digit (a.toNat / 4), digit (a.toNat % 4 * 16)] ++ ['=']) ++ ['='] from rfl, dropPad_pad,
        dropPad_pad]
    rw [hunpadded]
    simp only [decodeBits, value_digit hx, value_digit hy, Option.bind_eq_bind, Option.bind_some,
      Option.pure_def]
    rw [byte₁, ofNat_eq (a := a) (by omega)]
  | case3 a b =>
    obtain ⟨hx, hy, -⟩ := digits_lt a b 0
    have hb := b.toNat_lt
    have hz : b.toNat % 16 * 4 < 64 := by omega
    let first := [digit (a.toNat / 4), digit (a.toNat % 4 * 16 + b.toNat / 16)]
    have hunpadded : dropPad (dropPad (encode [a, b])) = first ++ [digit (b.toNat % 16 * 4)] := by
      rw [encode, show [digit (a.toNat / 4), digit (a.toNat % 4 * 16 + b.toNat / 16),
        digit (b.toNat % 16 * 4), '='] = (first ++ [digit (b.toNat % 16 * 4)]) ++ ['='] from rfl,
        dropPad_pad, dropPad_digit hz]
    rw [hunpadded]
    simp only [first, List.cons_append, List.nil_append, decodeBits, value_digit hx,
      value_digit hy, value_digit hz, Option.bind_eq_bind, Option.bind_some, Option.pure_def]
    rw [byte₁, byte₂, ofNat_eq (a := a) (by omega), ofNat_eq (a := b) (by omega)]
  | case4 a b c bytes ih =>
    obtain ⟨-, -, -, hw⟩ := digits_lt a b c
    let first := [digit (a.toNat / 4), digit (a.toNat % 4 * 16 + b.toNat / 16),
      digit (b.toNat % 16 * 4 + c.toNat / 64)]
    have hsplit : encode (a :: b :: c :: bytes) =
        (first ++ [digit (c.toNat % 64)]) ++ encode bytes := by
      rw [encode]
      rfl
    have hrest : decodeBits (first ++ [digit (c.toNat % 64)] ++
        dropPad (dropPad (encode bytes))) = some (a :: b :: c :: bytes) := by
      simp only [first, List.cons_append, List.nil_append, decodeBits, group_digits, ih,
        Option.bind_eq_bind, Option.bind_some, Option.pure_def]
    rw [hsplit]
    by_cases hend : bytes = []
    · subst hend
      rw [encode, List.append_nil, dropPad_digit hw, dropPad_digit hw]
      rw [encode, show dropPad (dropPad []) = [] from rfl, List.append_nil] at hrest
      exact hrest
    · have hne : encode bytes ≠ [] := by
        intro hnil
        have hlength := length_encode bytes
        rw [hnil, List.length_nil] at hlength
        have hpos := List.length_pos_iff.2 hend
        omega
      rw [dropPad_append hne]
      by_cases hne' : dropPad (encode bytes) = []
      · -- a padding character stands behind two others
        have hlength := congrArg List.length hne'
        have hfour := length_encode bytes
        have hpos := List.length_pos_iff.2 hend
        rw [dropPad] at hlength
        split at hlength
        · rw [List.length_dropLast, List.length_nil] at hlength
          omega
        · rw [List.length_nil] at hlength
          omega
      · rw [dropPad_append hne']
        exact hrest

/-- What is written is read back by the forgiving decoder. -/
theorem decodeForgiving_encode (bytes : List UInt8) :
    decodeForgiving (encode bytes) = some bytes := by
  have hspaces : (encode bytes).filter (fun c => !isAsciiSpace c) = encode bytes := by
    rw [List.filter_eq_self]
    intro c hc
    rw [isAsciiSpace_encode c hc]
    rfl
  have hlength : (encode bytes).length % 4 = 0 := by
    rw [length_encode, Nat.mul_mod_left]
  simp only [decodeForgiving, hspaces, if_pos hlength, decodeBits_unpadded]

end LanguageLlm.Lib.Base64
