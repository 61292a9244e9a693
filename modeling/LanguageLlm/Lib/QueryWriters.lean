import LanguageLlm.Lib.UrlEncoded

/-!
# Writers of queries

A query may be written with a space as a plus sign or as a percent-encoded byte, and with more or
fewer bytes percent-encoded. A way of writing bytes that is read back byte by byte is enough:
`formParse_writeQuery` says that a query written so is read as the names and values it was written
from, and `queryEncode_writeQuery` that a URL takes it as it stands.
-/

namespace LanguageLlm.Lib

/-- A way of writing each byte that a form reads back. -/
structure ByteWriter where
  write : Nat → List Char
  /-- The byte is read back in front of any text. -/
  reads : ∀ b, b < 256 → ∀ rest,
    percentDecode ((write b).map plusAsSpace ++ rest) = b :: percentDecode rest
  /-- What is written for a byte is neither a separator nor encoded in a query. -/
  plain : ∀ b, b < 256 → ∀ c ∈ write b, c = '+' ∨ c = '%' ∨ c = '~' ∨ formSet c.toNat = false

/-- How `URLSearchParams` writes. -/
def ByteWriter.form : ByteWriter where
  write := formByte
  reads := fun _ hb rest => percentDecode_formByte hb rest
  plain := by
    intro b hb c hc
    rcases mem_formByte hb hc with h | h | h
    · exact Or.inl h
    · exact Or.inr (Or.inl h)
    · exact Or.inr (Or.inr (Or.inr h))

namespace ByteWriter

variable (w : ByteWriter)

def writeText (text : List Char) : List Char := (utf8Encode text).flatMap w.write

def writePair (p : List Char × List Char) : List Char := w.writeText p.1 ++ '=' :: w.writeText p.2

def writeQuery (params : List (List Char × List Char)) : List Char :=
  List.intercalate ['&'] (params.map w.writePair)

variable {w}

theorem mem_writeText {text : List Char} {c : Char} (hc : c ∈ w.writeText text) :
    c = '+' ∨ c = '%' ∨ c = '~' ∨ formSet c.toNat = false := by
  obtain ⟨b, hb, hmem⟩ := List.mem_flatMap.1 hc
  obtain ⟨d, -, hd⟩ := List.mem_flatMap.1 hb
  exact w.plain b (lt_of_mem_utf8Bytes hd) c hmem

theorem not_mem_writeText {text : List Char} {sep : Char} (hsep : sep = '&' ∨ sep = '=') :
    sep ∉ w.writeText text := by
  intro hmem
  rcases hsep with rfl | rfl
  · rcases mem_writeText hmem with h | h | h | h <;> cases h
  · rcases mem_writeText hmem with h | h | h | h <;> cases h

theorem percentDecode_writeBytes {bytes : List Nat} (hlt : ∀ b ∈ bytes, b < 256) :
    percentDecode ((bytes.flatMap w.write).map plusAsSpace) = bytes := by
  induction bytes with
  | nil => rfl
  | cons b bytes ih =>
    obtain ⟨hb, hrest⟩ := List.forall_mem_cons.1 hlt
    rw [List.flatMap_cons, List.map_append, w.reads b hb, ih hrest]

theorem formDecode_writeText (text : List Char) : formDecode (w.writeText text) = text := by
  have hlt : ∀ b ∈ utf8Encode text, b < 256 := by
    intro b hb
    obtain ⟨c, -, hc⟩ := List.mem_flatMap.1 hb
    exact lt_of_mem_utf8Bytes hc
  rw [formDecode, writeText, percentDecode_writeBytes hlt, utf8Decode_encode]

theorem formPair_writePair (p : List Char × List Char) : formPair (w.writePair p) = p := by
  rw [formPair, writePair, cut_append_cons (not_mem_writeText (Or.inr rfl))]
  simp only [Option.getD_some, formDecode_writeText]

theorem pieces_writePair (p : List Char × List Char) :
    pieces (w.writePair p) = [w.writePair p] := by
  have hamp : '&' ∉ w.writePair p := by
    intro hmem
    rcases List.mem_append.1 hmem with hmem | hmem
    · exact not_mem_writeText (Or.inl rfl) hmem
    · rcases List.mem_cons.1 hmem with h | hmem
      · cases h
      · exact not_mem_writeText (Or.inl rfl) hmem
  have hne : w.writePair p ≠ [] := by simp [writePair]
  rw [pieces_of_not_mem hamp, if_neg hne]

/-- A written query is read back, whichever way its bytes are written. -/
theorem formParse_writeQuery (params : List (List Char × List Char)) :
    formParse (w.writeQuery params) = params := by
  have hpieces : pieces (w.writeQuery params) = params.map w.writePair := by
    have hsplit := words_intercalate (p := (· == '&')) (beq_self_eq_true '&')
      (params.map w.writePair)
    rw [pieces, writeQuery, hsplit, List.flatMap_map]
    exact (List.flatMap_congr fun p _ => pieces_writePair p).trans List.map_eq_flatMap.symm
  rw [formParse, hpieces, List.map_map]
  exact List.map_id'' formPair_writePair params

theorem mem_writeQuery {params : List (List Char × List Char)} {c : Char}
    (hc : c ∈ w.writeQuery params) :
    c = '&' ∨ c = '=' ∨ c = '+' ∨ c = '%' ∨ c = '~' ∨ formSet c.toNat = false := by
  have hpair : ∀ p, c ∈ w.writePair p →
      c = '&' ∨ c = '=' ∨ c = '+' ∨ c = '%' ∨ c = '~' ∨ formSet c.toNat = false := by
    intro p hmem
    rcases List.mem_append.1 hmem with hmem | hmem
    · exact Or.inr (Or.inr (mem_writeText hmem))
    · rcases List.mem_cons.1 hmem with rfl | hmem
      · exact Or.inr (Or.inl rfl)
      · exact Or.inr (Or.inr (mem_writeText hmem))
  induction params with
  | nil => cases hc
  | cons p params ih =>
    cases params with
    | nil =>
      rw [writeQuery, List.map_singleton, List.intercalate_singleton] at hc
      exact hpair p hc
    | cons q params =>
      rw [writeQuery, List.map_cons, List.map_cons, List.intercalate_cons_cons,
        List.append_assoc, List.mem_append] at hc
      rcases hc with hc | hc
      · exact hpair p hc
      · rcases List.mem_cons.1 hc with rfl | hc
        · exact Or.inl rfl
        · exact ih hc

/-- A URL keeps a written query as it is. -/
theorem queryEncode_writeQuery (special : Bool) (params : List (List Char × List Char)) :
    queryEncode special (w.writeQuery params) = w.writeQuery params := by
  refine (encodeSet_querySet special).keep_all fun c hc => ?_
  rcases mem_writeQuery hc with rfl | rfl | rfl | rfl | rfl | hform
  · cases special <;> rfl
  · cases special <;> rfl
  · cases special <;> rfl
  · cases special <;> rfl
  · cases special <;> rfl
  · have hbounds := of_formSet hform
    simp [querySet]
    omega

/-- A written query holds no blank and no separator of a URL. -/
theorem plain_of_mem_writeQuery {params : List (List Char × List Char)} {c : Char}
    (hc : c ∈ w.writeQuery params) : 0x20 < c.toNat ∧ c ≠ '#' ∧ c ≠ '?' := by
  rcases mem_writeQuery hc with rfl | rfl | rfl | rfl | rfl | hform
  · decide
  · decide
  · decide
  · decide
  · decide
  · have hbounds := of_formSet hform
    refine ⟨by omega, ?_, ?_⟩
    · rintro rfl
      have hcode : ('#' : Char).toNat = 0x23 := rfl
      omega
    · rintro rfl
      have hcode : ('?' : Char).toNat = 0x3F := rfl
      omega

theorem formSerialize_eq_writeQuery (params : List (List Char × List Char)) :
    formSerialize params = form.writeQuery params := by
  have htext : ∀ text, formEncode text = form.writeText text := formEncode_eq
  rw [formSerialize, writeQuery]
  congr 1
  exact List.map_congr_left fun p _ => by rw [htext, htext, writePair]

end ByteWriter

end LanguageLlm.Lib
