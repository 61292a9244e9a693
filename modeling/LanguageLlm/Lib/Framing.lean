import Mathlib.Algebra.Group.Nat.Defs
import Mathlib.Data.List.Basic

/-!
# Length-prefixed frames

A frame is a body of bytes after its length, which is a word of 32 bits in the byte order of the
machine.

* `Endian.u32_u32Bytes`: a length is read as it was written.
* `readExact_append`: what is read from a stream that begins with known bytes.
* `ByteFrame.read_length`, `ByteFrame.read_body`: how a stream of frames is read.
-/

namespace LanguageLlm.Lib

/-- The byte order of a machine. -/
inductive Endian where
  | little
  | big
  deriving DecidableEq

namespace Endian

/-- The four bytes of a number, modulo 2 ^ 32. -/
def u32Bytes (e : Endian) (n : Nat) : List UInt8 :=
  let bytes :=
    [UInt8.ofNat n, UInt8.ofNat (n / 2 ^ 8), UInt8.ofNat (n / 2 ^ 16), UInt8.ofNat (n / 2 ^ 24)]
  match e with
  | little => bytes
  | big => bytes.reverse

/-- The number of four bytes. -/
def u32 (e : Endian) (bytes : List UInt8) : Nat :=
  match e with
  | little => bytes.foldr (fun b n => b.toNat + 256 * n) 0
  | big => bytes.reverse.foldr (fun b n => b.toNat + 256 * n) 0

@[simp]
theorem u32Bytes_length (e : Endian) (n : Nat) : (e.u32Bytes n).length = 4 := by
  cases e <;> rfl

theorem u32_u32Bytes (e : Endian) {n : Nat} (hn : n < 2 ^ 32) : e.u32 (e.u32Bytes n) = n := by
  cases e with
  | little | big =>
    simp only [u32, u32Bytes, List.reverse_reverse, List.foldr_cons, List.foldr_nil,
      UInt8.toNat_ofNat']
    omega

end Endian

/-- `Read::read_exact`: the next `n` bytes of a stream, and the rest; `none` when the stream ends
before. -/
def readExact (n : Nat) (input : List UInt8) : Option (List UInt8 × List UInt8) :=
  if n ≤ input.length then some (input.take n, input.drop n) else none

theorem readExact_append (bytes rest : List UInt8) :
    readExact bytes.length (bytes ++ rest) = some (bytes, rest) := by
  simp [readExact]

theorem readExact_lt {n : Nat} {input bytes rest : List UInt8}
    (h : readExact n input = some (bytes, rest)) :
    rest.length = input.length - n ∧ n ≤ input.length := by
  unfold readExact at h
  split at h
  · obtain ⟨_, rfl⟩ := Prod.mk.inj (Option.some.inj h)
    exact ⟨List.length_drop, by assumption⟩
  · cases h

/-- A frame, whose length fits its prefix. -/
structure ByteFrame where
  body : List UInt8
  length_lt : body.length < 2 ^ 32

namespace ByteFrame

def bytes (e : Endian) (f : ByteFrame) : List UInt8 := e.u32Bytes f.body.length ++ f.body

/-- The frames, one after the other. -/
def stream (e : Endian) (frames : List ByteFrame) : List UInt8 := frames.flatMap (bytes e)

variable (e : Endian) (f : ByteFrame) (frames : List ByteFrame)

@[simp]
theorem stream_nil : stream e [] = [] := rfl

theorem stream_cons :
    stream e (f :: frames) = e.u32Bytes f.body.length ++ (f.body ++ stream e frames) := by
  rw [stream, List.flatMap_cons, bytes, List.append_assoc]
  rfl

/-- The prefix of the first frame. -/
theorem read_length : readExact 4 (stream e (f :: frames)) =
    some (e.u32Bytes f.body.length, f.body ++ stream e frames) := by
  rw [stream_cons, ← e.u32Bytes_length f.body.length]
  exact readExact_append ..

/-- Its body. -/
theorem read_body :
    readExact f.body.length (f.body ++ stream e frames) = some (f.body, stream e frames) :=
  readExact_append ..

end ByteFrame

end LanguageLlm.Lib
