import Mathlib.Data.List.Basic

/-!
# UTF-8 with replacement

The bytes of a text, as numbers, and the decoder that never fails: a byte sequence that is no
character is read as U+FFFD, and the byte that ends it is read again. `utf8Decode_encode` says that
the decoder reads an encoded text back.
-/

namespace LanguageLlm.Lib

/-- The bytes of a character. -/
def utf8Bytes (c : Char) : List Nat := (String.utf8EncodeChar c).map UInt8.toNat

/-- The bytes of a text. -/
def utf8Encode (text : List Char) : List Nat := text.flatMap utf8Bytes

/-- What the decoder knows in the middle of a character: the bytes still needed, the bits read, and
the bounds of the next byte. -/
structure Utf8Decoder where
  needed : Nat
  codePoint : Nat
  lower : Nat
  upper : Nat

namespace Utf8Decoder

/-- Between two characters. -/
def idle : Utf8Decoder := ⟨0, 0, 0x80, 0xBF⟩

def replacement : Char := Char.ofNat 0xFFFD

/-- The first byte of a character. -/
def lead (b : Nat) : List Char × Utf8Decoder :=
  if b ≤ 0x7F then ([Char.ofNat b], idle)
  else if 0xC2 ≤ b ∧ b ≤ 0xDF then ([], ⟨1, b - 0xC0, 0x80, 0xBF⟩)
  else if 0xE0 ≤ b ∧ b ≤ 0xEF then
    ([], ⟨2, b - 0xE0, if b = 0xE0 then 0xA0 else 0x80, if b = 0xED then 0x9F else 0xBF⟩)
  else if 0xF0 ≤ b ∧ b ≤ 0xF4 then
    ([], ⟨3, b - 0xF0, if b = 0xF0 then 0x90 else 0x80, if b = 0xF4 then 0x8F else 0xBF⟩)
  else ([replacement], idle)

/-- The characters that a byte completes, and what the decoder knows after it. -/
def step (d : Utf8Decoder) (b : Nat) : List Char × Utf8Decoder :=
  if d.needed = 0 then lead b
  else if d.lower ≤ b ∧ b ≤ d.upper then
    let codePoint := d.codePoint * 64 + b % 64
    if d.needed = 1 then ([Char.ofNat codePoint], idle)
    else ([], ⟨d.needed - 1, codePoint, 0x80, 0xBF⟩)
  else (replacement :: (lead b).1, (lead b).2)

def decode : Utf8Decoder → List Nat → List Char
  | d, [] => if d.needed = 0 then [] else [replacement]
  | d, b :: bytes => (d.step b).1 ++ decode (d.step b).2 bytes

end Utf8Decoder

/-- The text that bytes spell. -/
def utf8Decode (bytes : List Nat) : List Char := Utf8Decoder.idle.decode bytes

theorem utf8Bytes_eq (c : Char) :
    utf8Bytes c =
      if c.toNat ≤ 0x7F then [c.toNat]
      else if c.toNat ≤ 0x7FF then [c.toNat / 64 + 0xC0, c.toNat % 64 + 0x80]
      else if c.toNat ≤ 0xFFFF then
        [c.toNat / 4096 + 0xE0, c.toNat / 64 % 64 + 0x80, c.toNat % 64 + 0x80]
      else
        [c.toNat / 262144 + 0xF0, c.toNat / 4096 % 64 + 0x80, c.toNat / 64 % 64 + 0x80,
          c.toNat % 64 + 0x80] := by
  have hlt : c.toNat < 0x110000 := by
    rcases c.valid with h | h
    · have hval : c.toNat = c.val.toNat := rfl
      omega
    · exact h.2
  unfold utf8Bytes String.utf8EncodeChar
  have hval : c.val.toNat = c.toNat := rfl
  dsimp only
  rw [hval]
  split_ifs <;> simp <;> omega

theorem utf8Bytes_ascii {c : Char} (h : c.toNat ≤ 0x7F) : utf8Bytes c = [c.toNat] := by
  rw [utf8Bytes_eq, if_pos h]

theorem lt_of_mem_utf8Bytes {c : Char} {b : Nat} (h : b ∈ utf8Bytes c) : b < 256 := by
  obtain ⟨byte, -, rfl⟩ := List.mem_map.1 h
  exact byte.toNat_lt

/-- The bytes of a character that is not ASCII are not ASCII. -/
theorem le_of_mem_utf8Bytes {c : Char} (hc : 0x7F < c.toNat) {b : Nat} (h : b ∈ utf8Bytes c) :
    0x80 ≤ b := by
  rw [utf8Bytes_eq, if_neg (by omega)] at h
  split_ifs at h <;> simp at h <;> omega

namespace Utf8Decoder

theorem decode_cons (d : Utf8Decoder) (b : Nat) (bytes : List Nat) :
    d.decode (b :: bytes) = (d.step b).1 ++ (d.step b).2.decode bytes := rfl

theorem step_idle (b : Nat) : idle.step b = lead b := rfl

theorem lead_two {b : Nat} (h : 0xC2 ≤ b) (h' : b ≤ 0xDF) :
    lead b = ([], ⟨1, b - 0xC0, 0x80, 0xBF⟩) := by
  rw [lead, if_neg (by omega), if_pos ⟨h, h'⟩]

theorem lead_three {b : Nat} (h : 0xE0 ≤ b) (h' : b ≤ 0xEF) :
    lead b = ([], ⟨2, b - 0xE0, if b = 0xE0 then 0xA0 else 0x80,
      if b = 0xED then 0x9F else 0xBF⟩) := by
  rw [lead, if_neg (by omega), if_neg (by omega), if_pos ⟨h, h'⟩]

theorem lead_four {b : Nat} (h : 0xF0 ≤ b) (h' : b ≤ 0xF4) :
    lead b = ([], ⟨3, b - 0xF0, if b = 0xF0 then 0x90 else 0x80,
      if b = 0xF4 then 0x8F else 0xBF⟩) := by
  rw [lead, if_neg (by omega), if_neg (by omega), if_neg (by omega), if_pos ⟨h, h'⟩]

theorem step_middle {d : Utf8Decoder} (h : 2 ≤ d.needed) {b : Nat}
    (hb : d.lower ≤ b ∧ b ≤ d.upper) :
    d.step b = ([], ⟨d.needed - 1, d.codePoint * 64 + b % 64, 0x80, 0xBF⟩) := by
  rw [step, if_neg (by omega), if_pos hb]
  dsimp only
  rw [if_neg (by omega)]

theorem step_last {d : Utf8Decoder} (h : d.needed = 1) {b : Nat} (hb : d.lower ≤ b ∧ b ≤ d.upper) :
    d.step b = ([Char.ofNat (d.codePoint * 64 + b % 64)], idle) := by
  rw [step, if_neg (by omega), if_pos hb]
  dsimp only
  rw [if_pos h]

/-- The decoder reads the bytes of one character. -/
theorem decode_utf8Bytes (c : Char) (rest : List Nat) :
    idle.decode (utf8Bytes c ++ rest) = c :: idle.decode rest := by
  have hchar : ∀ {n : Nat}, n = c.toNat → Char.ofNat n = c := by
    intro n hn
    rw [hn, Char.ofNat_toNat]
  have hvalid : c.toNat < 0xD800 ∨ 0xDFFF < c.toNat ∧ c.toNat < 0x110000 := c.valid
  rw [utf8Bytes_eq]
  split_ifs with h1 h2 h3
  · have hlead : lead c.toNat = ([c], idle) := by rw [lead, if_pos h1, hchar rfl]
    rw [List.singleton_append, decode_cons, step_idle, hlead]
    rfl
  · have hlead := lead_two (b := c.toNat / 64 + 0xC0) (by omega) (by omega)
    rw [List.cons_append, decode_cons, step_idle, hlead, List.cons_append, decode_cons,
      step_last rfl ⟨by dsimp only; omega, by dsimp only; omega⟩, hchar (by dsimp only; omega)]
    rfl
  · have hlead := lead_three (b := c.toNat / 4096 + 0xE0) (by omega) (by omega)
    have hsecond : (if c.toNat / 4096 + 0xE0 = 0xE0 then 0xA0 else 0x80) ≤
          c.toNat / 64 % 64 + 0x80 ∧
        c.toNat / 64 % 64 + 0x80 ≤ if c.toNat / 4096 + 0xE0 = 0xED then 0x9F else 0xBF := by
      split_ifs <;> omega
    rw [List.cons_append, decode_cons, step_idle, hlead, List.cons_append, decode_cons,
      step_middle (Nat.le_refl 2) hsecond, List.cons_append, decode_cons,
      step_last rfl ⟨by dsimp only; omega, by dsimp only; omega⟩, hchar (by dsimp only; omega)]
    rfl
  · have hlead := lead_four (b := c.toNat / 262144 + 0xF0) (by omega) (by omega)
    have hsecond : (if c.toNat / 262144 + 0xF0 = 0xF0 then 0x90 else 0x80) ≤
          c.toNat / 4096 % 64 + 0x80 ∧
        c.toNat / 4096 % 64 + 0x80 ≤ if c.toNat / 262144 + 0xF0 = 0xF4 then 0x8F else 0xBF := by
      split_ifs <;> omega
    rw [List.cons_append, decode_cons, step_idle, hlead, List.cons_append, decode_cons,
      step_middle (Nat.le_succ 2) hsecond, List.cons_append, decode_cons,
      step_middle (Nat.le_refl 2) ⟨by dsimp only; omega, by dsimp only; omega⟩,
      List.cons_append, decode_cons,
      step_last rfl ⟨by dsimp only; omega, by dsimp only; omega⟩, hchar (by dsimp only; omega)]
    rfl

end Utf8Decoder

theorem utf8Decode_encode (text : List Char) : utf8Decode (utf8Encode text) = text := by
  induction text with
  | nil => rfl
  | cons c text ih =>
    rw [utf8Encode, List.flatMap_cons, utf8Decode, Utf8Decoder.decode_utf8Bytes]
    exact congrArg (c :: ·) ih

end LanguageLlm.Lib
