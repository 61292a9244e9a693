import Mathlib.Data.List.Basic

/-!
# Comma-separated values

The grammar of RFC 4180, in which a line feed alone ends a record as well, as a relation between
texts and the values in them; and a reader that goes through a text once. Every text of the grammar
is read as the grammar says (`readDocument_eq`), so the values of a text are unique.
-/

namespace LanguageLlm.Lib.Csv

/-! ## The grammar -/

/-- A character that may stand in a field without quotes. -/
def Bare (c : Char) : Prop := c ≠ ',' ∧ c ≠ '"' ∧ c ≠ '\r' ∧ c ≠ '\n'

instance : DecidablePred Bare := fun _ => inferInstanceAs (Decidable (_ ∧ _))

/-- What stands between quotes, and the value of it. -/
inductive Quoted : List Char → List Char → Prop
  | nil : Quoted [] []
  | char {c : Char} {t v : List Char} (hc : c ≠ '"') (h : Quoted t v) : Quoted (c :: t) (c :: v)
  | quote {t v : List Char} (h : Quoted t v) : Quoted ('"' :: '"' :: t) ('"' :: v)

inductive Field : List Char → List Char → Prop
  | bare {t : List Char} (h : ∀ c ∈ t, Bare c) : Field t t
  | quoted {t v : List Char} (h : Quoted t v) : Field ('"' :: (t ++ ['"'])) v

inductive Record : List Char → List (List Char) → Prop
  | last {t v : List Char} (h : Field t v) : Record t [v]
  | more {t v : List Char} {rest : List Char} {vs : List (List Char)} (h : Field t v)
    (hrest : Record rest vs) : Record (t ++ ',' :: rest) (v :: vs)

inductive LineBreak : List Char → Prop
  | lf : LineBreak ['\n']
  | crlf : LineBreak ['\r', '\n']

/-- The last record may have a line break behind it. -/
inductive Document : List Char → List (List (List Char)) → Prop
  | last {t : List Char} {r : List (List Char)} (h : Record t r) : Document t [r]
  | ended {t b : List Char} {r : List (List Char)} (h : Record t r) (hb : LineBreak b) :
    Document (t ++ b) [r]
  | more {t b rest : List Char} {r : List (List Char)} {rs : List (List (List Char))}
    (h : Record t r) (hb : LineBreak b) (hne : rest ≠ []) (hrest : Document rest rs) :
    Document (t ++ (b ++ rest)) (r :: rs)

/-! ## Joined texts -/

theorem intercalate_cons (sep : Char) (first : List Char) (l : List (List Char)) :
    [sep].intercalate (first :: l) = first ++ l.flatMap fun t => sep :: t := by
  induction l generalizing first with
  | nil => rw [List.intercalate_singleton, List.flatMap_nil, List.append_nil]
  | cons next l ih =>
    rw [List.intercalate_cons_cons, ih, List.flatMap_cons]
    simp

theorem intercalate_concat (sep : Char) (l : List (List Char)) (last : List Char) :
    [sep].intercalate (l ++ [last]) = l.flatMap (fun t => t ++ [sep]) ++ last := by
  induction l with
  | nil => rw [List.nil_append, List.intercalate_singleton, List.flatMap_nil, List.nil_append]
  | cons first l ih =>
    have hne : l ++ [last] ≠ [] := by simp
    obtain ⟨next, rest, hrest⟩ := List.exists_cons_of_ne_nil hne
    rw [List.cons_append, hrest, List.intercalate_cons_cons, ← hrest, ih, List.flatMap_cons]
    simp

/-- Fields joined by commas are a record. -/
theorem record_intercalate {t v : List Char} {ts vs : List (List Char)} (h : Field t v)
    (hall : List.Forall₂ Field ts vs) : Record ([','].intercalate (t :: ts)) (v :: vs) := by
  induction hall generalizing t v with
  | nil =>
    rw [List.intercalate_singleton]
    exact .last h
  | cons hfirst _ ih =>
    rw [List.intercalate_cons_cons, List.append_assoc]
    exact .more h (ih hfirst)

/-- Records that are not empty, with line feeds between them. -/
theorem document_intercalate {t : List Char} {r : List (List Char)} {ts : List (List Char)}
    {rs : List (List (List Char))} (h : Record t r) (hall : List.Forall₂ Record ts rs)
    (hne : ∀ t ∈ ts, t ≠ []) : Document (['\n'].intercalate (t :: ts)) (r :: rs) := by
  induction hall generalizing t r with
  | nil =>
    rw [List.intercalate_singleton]
    exact .last h
  | @cons next _ rest _ hfirst _ ih =>
    obtain ⟨hnext, hrest⟩ := List.forall_mem_cons.1 hne
    have hlast : ['\n'].intercalate (next :: rest) ≠ [] := by
      rw [intercalate_cons]
      simp [hnext]
    rw [List.intercalate_cons_cons, List.append_assoc]
    exact .more h .lf hlast (ih hfirst hrest)

/-! ## The reader -/

inductive Mode where
  | start
  | bare
  | quoted
  | closed
  | carriage
  deriving DecidableEq

/-- The field, the record and the records that have been read so far. -/
structure Reader where
  mode : Mode
  field : List Char
  record : List (List Char)
  records : List (List (List Char))
  deriving DecidableEq

namespace Reader

def init : Reader := ⟨.start, [], [], []⟩

def endField (r : Reader) : Reader := ⟨.start, [], r.record ++ [r.field], r.records⟩

def endRecord (r : Reader) : Reader := ⟨.start, [], [], r.records ++ [r.record ++ [r.field]]⟩

/-- A character behind a field. -/
def separator (r : Reader) (c : Char) : Option Reader :=
  if c = ',' then some r.endField
  else if c = '\n' then some r.endRecord
  else if c = '\r' then some { r with mode := .carriage }
  else none

/-- A character of a field without quotes, or behind it. -/
def bareStep (r : Reader) (c : Char) : Option Reader :=
  if Bare c then some { r with mode := .bare, field := r.field ++ [c] } else r.separator c

def step (r : Reader) (c : Char) : Option Reader :=
  match r.mode with
  | .start => if c = '"' then some { r with mode := .quoted } else r.bareStep c
  | .bare => r.bareStep c
  | .quoted =>
    if c = '"' then some { r with mode := .closed } else some { r with field := r.field ++ [c] }
  | .closed =>
    if c = '"' then some { r with mode := .quoted, field := r.field ++ [c] } else r.separator c
  | .carriage => if c = '\n' then some r.endRecord else none

def run : Reader → List Char → Option Reader
  | r, [] => some r
  | r, c :: cs => (r.step c).bind fun r => r.run cs

/-- The records at the end of the text. -/
def finish (r : Reader) : Option (List (List (List Char))) :=
  match r.mode with
  | .start =>
    if r.record = [] ∧ r.records ≠ [] then some r.records else some r.endRecord.records
  | .bare | .closed => some r.endRecord.records
  | .quoted | .carriage => none

end Reader

def readDocument (t : List Char) : Option (List (List (List Char))) :=
  (Reader.init.run t).bind Reader.finish

/-! ## The reader on the grammar -/

namespace Reader

variable {r : Reader} {t v : List Char} {vs : List (List Char)} {rs : List (List (List Char))}

theorem run_append (r : Reader) (a b : List Char) :
    r.run (a ++ b) = (r.run a).bind fun r => r.run b := by
  induction a generalizing r with
  | nil => rfl
  | cons c a ih =>
    rw [List.cons_append, run, run, Option.bind_assoc]
    congr 1
    funext r
    exact ih r

/-- The reader stands behind a field. -/
structure Behind (r : Reader) (v : List Char) (vs : List (List Char))
    (rs : List (List (List Char))) : Prop where
  mode : r.mode = .start ∨ r.mode = .bare ∨ r.mode = .closed
  field : r.field = v
  record : r.record = vs
  records : r.records = rs

theorem Behind.step_of_not_bare (h : Behind r v vs rs) {c : Char} (hc : ¬ Bare c)
    (hquote : c ≠ '"') : r.step c = r.separator c := by
  rcases h.mode with hmode | hmode | hmode
  all_goals simp [step, hmode, bareStep, hc, hquote]

theorem run_bare (h : ∀ c ∈ t, Bare c) (field : List Char) :
    run ⟨.bare, field, vs, rs⟩ t = some ⟨.bare, field ++ t, vs, rs⟩ := by
  induction t generalizing field with
  | nil => simp [run]
  | cons c t ih =>
    obtain ⟨hc, ht⟩ := List.forall_mem_cons.1 h
    have hstep : step ⟨.bare, field, vs, rs⟩ c = some ⟨.bare, field ++ [c], vs, rs⟩ := if_pos hc
    rw [run, hstep, Option.bind_some, ih ht, List.append_assoc]
    rfl

theorem run_quoted (h : Quoted t v) (field : List Char) :
    run ⟨.quoted, field, vs, rs⟩ t = some ⟨.quoted, field ++ v, vs, rs⟩ := by
  induction h generalizing field with
  | nil => simp [run]
  | char hc _ ih => simp [run, step, hc, ih]
  | quote _ ih => simp [run, step, ih]

theorem run_field (h : Field t v) (vs : List (List Char)) (rs : List (List (List Char))) :
    ∃ r, run ⟨.start, [], vs, rs⟩ t = some r ∧ Behind r v vs rs ∧ (r.mode = .start → t = []) := by
  cases h with
  | bare hbare =>
    cases t with
    | nil => exact ⟨_, rfl, ⟨Or.inl rfl, rfl, rfl, rfl⟩, fun _ => rfl⟩
    | cons c t =>
      obtain ⟨hc, ht⟩ := List.forall_mem_cons.1 hbare
      have hstep : step ⟨.start, [], vs, rs⟩ c = some ⟨.bare, [c], vs, rs⟩ := by
        simp [step, bareStep, hc, hc.2.1]
      refine ⟨⟨.bare, c :: t, vs, rs⟩, ?_, ⟨Or.inr (Or.inl rfl), rfl, rfl, rfl⟩, nofun⟩
      rw [run, hstep, Option.bind_some, run_bare ht]
      rfl
  | quoted hquoted =>
    refine ⟨⟨.closed, v, vs, rs⟩, ?_, ⟨Or.inr (Or.inr rfl), rfl, rfl, rfl⟩, nofun⟩
    have hstep : step ⟨.start, [], vs, rs⟩ '"' = some ⟨.quoted, [], vs, rs⟩ := rfl
    rw [run, hstep, Option.bind_some, run_append, run_quoted hquoted, Option.bind_some]
    rfl

theorem Behind.run_comma (h : Behind r v vs rs) (rest : List Char) :
    r.run (',' :: rest) = run ⟨.start, [], vs ++ [v], rs⟩ rest := by
  have hstep : r.step ',' = some r.endField := by
    rw [h.step_of_not_bare (by decide) (by decide)]
    rfl
  rw [run, hstep, Option.bind_some, endField, h.field, h.record, h.records]

theorem Behind.run_lineBreak (h : Behind r v vs rs) {b : List Char} (hb : LineBreak b)
    (rest : List Char) : r.run (b ++ rest) = run ⟨.start, [], [], rs ++ [vs ++ [v]]⟩ rest := by
  have hend : r.endRecord = ⟨.start, [], [], rs ++ [vs ++ [v]]⟩ := by
    rw [endRecord, h.field, h.record, h.records]
  cases hb with
  | lf =>
    have hstep : r.step '\n' = some r.endRecord := by
      rw [h.step_of_not_bare (by decide) (by decide)]
      rfl
    rw [List.singleton_append, run, hstep, Option.bind_some, hend]
  | crlf =>
    have hstep : r.step '\r' = some { r with mode := .carriage } := by
      rw [h.step_of_not_bare (by decide) (by decide)]
      rfl
    have hnext : step { r with mode := .carriage } '\n' = some r.endRecord := rfl
    rw [List.cons_append, List.cons_append, List.nil_append, run, hstep, Option.bind_some, run,
      hnext, Option.bind_some, hend]

/-- A carriage return ends a record only with a line feed behind it. -/
theorem Behind.run_carriage (h : Behind r v vs rs) {c : Char} (hc : c ≠ '\n') (rest : List Char) :
    r.run ('\r' :: c :: rest) = none := by
  have hstep : r.step '\r' = some { r with mode := .carriage } := by
    rw [h.step_of_not_bare (by decide) (by decide)]
    rfl
  have hnext : step { r with mode := .carriage } c = none := if_neg hc
  rw [run, hstep, Option.bind_some, run, hnext, Option.bind_none]

theorem run_record {values : List (List Char)} (h : Record t values) (vs : List (List Char))
    (rs : List (List (List Char))) :
    ∃ r v before, run ⟨.start, [], vs, rs⟩ t = some r ∧ Behind r v (vs ++ before) rs ∧
      values = before ++ [v] ∧ (r.mode = .start → r.record = [] → t = []) := by
  induction h generalizing vs with
  | last hfield =>
    obtain ⟨r, hrun, hbehind, hstart⟩ := run_field hfield vs rs
    exact ⟨r, _, [], hrun, by rwa [List.append_nil], rfl, fun hmode _ => hstart hmode⟩
  | @more t v rest values hfield _ ih =>
    obtain ⟨r, hrun, hbehind, -⟩ := run_field hfield vs rs
    obtain ⟨r', v', before, hrest, hbehind', hvalues, -⟩ := ih (vs ++ [v])
    refine ⟨r', v', v :: before, ?_, by simpa using hbehind', by rw [hvalues]; rfl,
      fun _ hnil => ?_⟩
    · rw [run_append, hrun, Option.bind_some, hbehind.run_comma, hrest]
    · rw [hbehind'.record] at hnil
      simp at hnil

theorem Behind.finish (h : Behind r v vs rs) (hne : r.mode = .start → r.record = [] → rs = []) :
    r.finish = some (rs ++ [vs ++ [v]]) := by
  have hend : r.endRecord.records = rs ++ [vs ++ [v]] := by
    rw [endRecord, h.field, h.record, h.records]
  rcases h.mode with hmode | hmode | hmode
  · have hlast : ¬ (r.record = [] ∧ r.records ≠ []) := by
      intro hboth
      exact hboth.2 (h.records ▸ hne hmode hboth.1)
    simp only [Reader.finish, hmode, if_neg hlast, hend]
  · simp only [Reader.finish, hmode, hend]
  · simp only [Reader.finish, hmode, hend]

theorem run_document {values : List (List (List Char))} (h : Document t values)
    (rs : List (List (List Char))) (hne : t = [] → rs = []) :
    (run ⟨.start, [], [], rs⟩ t).bind Reader.finish = some (rs ++ values) := by
  induction h generalizing rs with
  | last hrecord =>
    obtain ⟨r, v, before, hrun, hbehind, rfl, hstart⟩ := run_record hrecord [] rs
    rw [hrun, Option.bind_some,
      hbehind.finish fun hmode hnil => hne (hstart hmode hnil)]
    rfl
  | ended hrecord hb =>
    obtain ⟨r, v, before, hrun, hbehind, rfl, -⟩ := run_record hrecord [] rs
    have hbreak := hbehind.run_lineBreak hb []
    rw [List.append_nil] at hbreak
    rw [run_append, hrun, Option.bind_some, hbreak, run, Option.bind_some]
    simp [Reader.finish]
  | more hrecord hb hrest _ ih =>
    obtain ⟨r, v, before, hrun, hbehind, rfl, -⟩ := run_record hrecord [] rs
    rw [run_append, hrun, Option.bind_some, hbehind.run_lineBreak hb,
      ih _ fun hnil => absurd hnil hrest]
    simp

end Reader

/-- A text of the grammar is read as the grammar says. -/
theorem readDocument_eq {t : List Char} {rs : List (List (List Char))} (h : Document t rs) :
    readDocument t = some rs := Reader.run_document h [] fun _ => rfl

end LanguageLlm.Lib.Csv
