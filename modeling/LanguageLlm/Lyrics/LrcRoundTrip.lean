import LanguageLlm.Lyrics.Parse
import LanguageLlm.Subtitle.Export

/-!
# LRC out and in again

What `parseLrc` reads from a file that `to_lrc` wrote. The writer prints the minutes as they are,
and the reader knows one or two digits of them: a line is read back when it starts before 100
minutes (`parseLrc_toLrc`), and is lost otherwise.
-/

namespace LanguageLlm.Lyrics.Import

open Lib Lib.Matcher LanguageKits PageTranslate Subtitle

/-! ## A row -/

section Row

variable {mm ss cs rest : List Char} {prev : Option Char}

/-- A time tag is one match, if its numbers have the lengths of the expression. -/
theorem timeTag_apply (hmm : ∀ c ∈ mm, c.isDigit = true) (hss : ∀ c ∈ ss, c.isDigit = true)
    (hcs : ∀ c ∈ cs, c.isDigit = true) :
    timeTag ⟨prev, '[' :: (mm ++ ':' :: (ss ++ '.' :: (cs ++ ']' :: rest)))⟩ =
      if fits 1 (some 2) mm.length && fits 2 (some 2) ss.length && fits 1 (some 3) cs.length then
        [((mm, ss, some cs), ⟨some ']', rest⟩)]
      else [] := by
  have hne : ∀ x : Char, x.isDigit = true → ∀ y : Char, y.isDigit = false → (x == y) = false := by
    intro x hx y hy
    rw [beq_eq_false_iff_ne]
    rintro rfl
    rw [hx] at hy
    cases hy
  rw [timeTag, bind_one_pos rfl, bind_greedy hmm (by simp) fun a prev x xs hx =>
    bind_one_neg (hne x hx ':' rfl)]
  cases fits 1 (some 2) mm.length with
  | false => rfl
  | true =>
    rw [if_pos rfl, bind_one_pos rfl, bind_greedy hss (by simp)]
    · cases fits 2 (some 2) ss.length with
      | false => rfl
      | true =>
        rw [if_pos rfl, bind_opt, bind_assoc, bind_one_pos rfl, bind_one_neg rfl, List.append_nil,
          bind_greedy hcs (by simp) fun a prev x xs hx => bind_one_neg (hne x hx ']' rfl)]
        cases fits 1 (some 3) cs.length with
        | false => rfl
        | true => rw [if_pos rfl, bind_one_pos rfl]; rfl
    · intro a prev x xs hx
      have hpoint : (x == '.' || x == ':') = false := by
        rw [hne x hx '.' rfl, hne x hx ':' rfl]; rfl
      rw [bind_opt, bind_assoc, bind_one_neg hpoint, List.nil_append]
      exact bind_one_neg (p := (· == ']')) (hne x hx ']' rfl)

end Row

/-- `timeTag` begins with a bracket. -/
theorem timeTag_neg {x : Char} (hx : x ≠ '[') (prev : Option Char) (xs : List Char) :
    timeTag ⟨prev, x :: xs⟩ = [] := bind_one_neg (beq_eq_false_iff_ne.2 hx)

theorem forward_timeTag : Forward timeTag := forward_bind_one _

/-- The minutes of a time tag, and what is behind them. -/
theorem lrcStamp_append (startMs : Nat) (rest : List Char) :
    lrcStamp startMs ++ rest = '[' :: (padded 2 (startMs / 10 / 6000) ++ ':' ::
      (padded 2 (startMs / 10 / 100 % 60) ++ '.' ::
        (padded 2 (startMs / 10 % 100) ++ ']' :: rest))) := by
  simp [lrcStamp]

/-- What `TS` finds in a row: the time tag of the cue, unless it has too many minutes. -/
theorem tokens_row {startMs : Nat} {text : List Char} (htext : matchAll timeTag text = []) :
    tokens timeTag ⟨none, lrcStamp startMs ++ text⟩ =
      if startMs < 6000000 then
        .found (padded 2 (startMs / 10 / 6000), padded 2 (startMs / 10 / 100 % 60),
          some (padded 2 (startMs / 10 % 100))) :: text.map .char
      else (lrcStamp startMs ++ text).map .char := by
  have hdigits : ∀ n, ∀ c ∈ padded 2 n, c.isDigit = true := fun n c hc => isDigit_of_mem_padded hc
  have hlength : ∀ n, n < 100 → (padded 2 n).length = 2 := fun n hn =>
    length_padded (by omega) hn
  have hss := hlength (startMs / 10 / 100 % 60) (by omega)
  have hcs := hlength (startMs / 10 % 100) (by omega)
  have happly := @timeTag_apply _ _ _ text none (hdigits (startMs / 10 / 6000))
    (hdigits (startMs / 10 / 100 % 60)) (hdigits (startMs / 10 % 100))
  rw [← lrcStamp_append, hss, hcs] at happly
  have htokens : ∀ prev, tokens timeTag ⟨prev, text⟩ = text.map .char := fun prev =>
    (forward_timeTag.tokens_eq prev none).trans (tokens_of_none htext)
  by_cases hlt : startMs < 6000000
  · have hmm := hlength (startMs / 10 / 6000) (by omega)
    have hfits : (fits 1 (some 2) 2 && fits 2 (some 2) 2 && fits 1 (some 3) 2) = true := by decide
    rw [hmm, if_pos hfits] at happly
    rw [if_pos hlt, tokens_found (by rw [first, happly]; rfl), htokens]
    simp only [lrcStamp, List.length_append, List.length_cons]
    omega
  · -- three digits of minutes do not match, and no other character of the tag is a bracket
    have hmm : 2 < (padded 2 (startMs / 10 / 6000)).length :=
      width_lt_length_padded (by omega)
    have hfits : fits 1 (some 2) (padded 2 (startMs / 10 / 6000)).length = false := by
      simp only [fits, Bool.and_eq_false_iff, decide_eq_false_iff_not, Option.all_some]
      omega
    rw [hfits, if_neg (by simp)] at happly
    have hbrackets : ∀ x ∈ (lrcStamp startMs).tail, x ≠ '[' := by
      intro x hx
      have hnot : ∀ n, ∀ c ∈ padded 2 n, c ≠ '[' := by
        rintro n c hc rfl
        exact not_mem_padded rfl hc
      simp only [lrcStamp, List.cons_append, List.tail_cons, List.mem_append, List.mem_cons,
        List.not_mem_nil, or_false] at hx
      rcases hx with ((hx | rfl | hx) | rfl | hx) | rfl
      all_goals first | exact hnot _ _ hx | decide
    have hcons : lrcStamp startMs = '[' :: (lrcStamp startMs).tail := rfl
    rw [if_neg hlt]
    rw [hcons, List.cons_append] at happly ⊢
    rw [tokens_char happly, tokens_run fun x hx prev xs => timeTag_neg (hbrackets x hx) prev xs,
      htokens, List.map_cons, List.map_append]

/-! ## The time of a row -/

section Time

open Rounding

variable {R : Rounding}

/-- Two digits with a zero behind them. -/
theorem number_tenfold {cs : Nat} {a b : Char} (hab : padded 2 cs = [a, b]) (hcs : cs < 100) :
    R.number [a, b, '0'] = .fin (cs * 10 : Nat) := by
  have hdigits : ∀ c ∈ [a, b, '0'], c.isDigit = true := by
    intro c hc
    rcases List.mem_append.1 (show c ∈ [a, b] ++ ['0'] from hc) with hc | hc
    · exact isDigit_of_mem_padded (hab ▸ hc)
    · rw [List.mem_singleton.1 hc]
      rfl
  have hpair : Nat.ofDigitChars 10 [a, b] 0 = cs := by rw [← hab, ofDigitChars_padded]
  have hvalue : Nat.ofDigitChars 10 [a, b, '0'] 0 = cs * 10 := by
    rw [show [a, b, '0'] = [a, b] ++ ['0'] from rfl, Nat.ofDigitChars_append, hpair]
    simp [Nat.ofDigitChars_cons, Nat.mul_comm]
  rw [number_digits hdigits nofun, hvalue, round_nat (by omega)]

/-- Two digits of a fraction are hundredths of a second. -/
theorem parseTimestampMs_padded {mm ss cs : Nat} (hmm : mm < 100) (hss : ss < 100)
    (hcs : cs < 100) :
    parseTimestampMs R (padded 2 mm) (padded 2 ss) (some (padded 2 cs)) =
      .fin ((mm * 60 + ss) * 1000 + cs * 10 : Nat) := by
  have htwo : (padded 2 cs).length = 2 := length_padded (by omega) hcs
  obtain ⟨a, b, hab⟩ := List.length_eq_two.1 htwo
  have hminutes : R.number (padded 2 mm) = .fin mm := number_padded 2 (by omega)
  have hseconds : R.number (padded 2 ss) = .fin ss := number_padded 2 (by omega)
  have hms : fractionMs R (some [a, b]) = .fin (cs * 10 : Nat) := number_tenfold hab hcs
  have hscale : R.scale 60 (.fin mm) = .fin (mm * 60 : Nat) := scale_nat (by omega)
  have hadd : R.add (.fin (mm * 60 : Nat)) (.fin ss) = .fin (mm * 60 + ss : Nat) :=
    add_nat (by omega)
  have hscale' : R.scale 1000 (.fin (mm * 60 + ss : Nat)) = .fin ((mm * 60 + ss) * 1000 : Nat) :=
    scale_nat (by omega)
  rw [parseTimestampMs, hab, hminutes, hseconds, hms, hscale, hadd, hscale']
  exact add_nat (by omega)

end Time

/-! ## The file -/

theorem not_mem_lrcStamp {startMs : Nat} : '\n' ∉ lrcStamp startMs := by
  intro h
  have hnot : ∀ n, '\n' ∉ padded 2 n := fun n => not_mem_padded rfl
  simp [lrcStamp, hnot] at h

/-- The writer and the reader know this text: it is one trimmed line without a time tag. -/
structure Exportable (c : Cue) : Prop where
  nonempty : c.text ≠ ""
  trimmed : trim c.text.toList = c.text.toList
  oneLine : '\n' ∉ c.text.toList
  noTag : matchAll timeTag c.text.toList = []

/-- What is read from the row of a cue that is read. -/
def lineOf (c : Cue) : ParsedLine where
  startMs := .fin (c.startMs / 10 * 10 : Nat)
  text := c.text

theorem parseLrcRow_stamp {R : Rounding} {c : Cue} (h : Exportable c) :
    parseLrcRow R (lrcStamp c.startMs ++ c.text.toList) =
      if c.startMs < 6000000 then [lineOf c] else [] := by
  rw [parseLrcRow, Lib.matchAll, replaceAll, tokens_row h.noTag]
  split_ifs with hlt
  · have hstart : (c.startMs / 10 / 6000 * 60 + c.startMs / 10 / 100 % 60) * 1000 +
        c.startMs / 10 % 100 * 10 = c.startMs / 10 * 10 := by omega
    rw [List.flatMap_cons, List.filterMap_cons, flatMap_chars, filterMap_chars]
    simp only [Token.found?, Token.replaced, List.nil_append, List.map_cons, List.map_nil]
    rw [parseTimestampMs_padded (by omega) (by omega) (by omega), hstart, h.trimmed,
      String.ofList_toList, lineOf]
  · rw [filterMap_chars, List.map_nil]

/-- The rows of the file that are read, in order. -/
theorem flatMap_rows {R : Rounding} {cues : List Cue} (h : ∀ c ∈ cues, Exportable c) :
    (splitLines (toLrc cues).toList).flatMap (parseLrcRow R) =
      (cues.filter fun c => c.startMs < 6000000).map lineOf := by
  rw [toLrc, String.toList_ofList]
  induction cues with
  | nil =>
    have hnil : parseLrcRow R [] = [] := rfl
    simp [splitLines, hnil]
  | cons c cues ih =>
    obtain ⟨hc, hcues⟩ := List.forall_mem_cons.1 h
    have hline : '\n' ∉ lrcStamp c.startMs ++ c.text.toList := by
      rw [List.mem_append, not_or]
      exact ⟨not_mem_lrcStamp, hc.oneLine⟩
    have hlast : (lrcStamp c.startMs ++ c.text.toList).getLast? ≠ some '\r' := by
      intro hr
      have hne : c.text.toList ≠ [] := fun hnil => hc.nonempty (String.toList_eq_nil_iff.1 hnil)
      rw [List.getLast?_append_of_ne_nil _ hne] at hr
      exact getLast?_ne_of_trim hc.trimmed rfl hr
    rw [List.flatMap_cons, List.append_assoc, List.singleton_append,
      splitLines_append hline hlast, List.flatMap_cons, ih hcues, parseLrcRow_stamp hc,
      List.filter_cons]
    by_cases hlt : c.startMs < 6000000
    · simp [hlt]
    · simp [hlt]

/-- The pairs that the file was made of: the start down to the hundredth of a second, and the text,
stably sorted by the start. -/
def exported (cues : List Cue) : List (Nat × String) :=
  (cues.map fun c => (c.startMs / 10 * 10, c.text)).insertionSort fun a b => a.1 ≤ b.1

/-- Reading the file gives back the pairs that it was made of. -/
def RoundTrips (R : Rounding) (cues : List Cue) : Prop :=
  parseLrc R (toLrc cues) = (exported cues).map fun p => { startMs := .fin p.1, text := p.2 }

/-- The pairs of the cues that the reader knows, sorted as it sorts them. -/
theorem parseLrc_toLrc {R : Rounding} {cues : List Cue} (h : ∀ c ∈ cues, Exportable c) :
    parseLrc R (toLrc cues) = (exported (cues.filter fun c => c.startMs < 6000000)).map fun p =>
      { startMs := .fin p.1, text := p.2 } := by
  let read := cues.filter fun c => c.startMs < 6000000
  have hlines : read.map lineOf = (read.map fun c => (c.startMs / 10 * 10, c.text)).map fun p =>
      { startMs := .fin (p.1 : Nat), text := p.2 } := by
    rw [List.map_map]
    rfl
  have hsort : (exported read).map (fun p => { startMs := .fin (p.1 : Nat), text := p.2 }) =
      (read.map lineOf).insertionSort fun a b => a.startMs.le b.startMs = true := by
    rw [hlines]
    refine List.map_insertionSort _ _ _ _ fun p _ q _ => ?_
    rw [JsNumber.le_fin, Nat.cast_le]
  have htext : ∀ l ∈ (read.map lineOf).insertionSort fun a b => a.startMs.le b.startMs = true,
      l.text ≠ "" := by
    intro l hl
    rw [List.mem_insertionSort, List.mem_map] at hl
    obtain ⟨c, hc, rfl⟩ := hl
    exact (h c (List.mem_of_mem_filter hc)).nonempty
  rw [parseLrc, flatMap_rows h, hsort, List.filter_eq_self.2 fun l hl => decide_eq_true
    (htext l hl)]

/-- No line is lost, added or altered exactly when every cue starts before 100 minutes. -/
theorem lrc_roundTrip_iff (R : Rounding) (cues : List Cue) (h : ∀ c ∈ cues, Exportable c) :
    RoundTrips R cues ↔ ∀ c ∈ cues, c.startMs < 6000000 := by
  rw [RoundTrips, parseLrc_toLrc h]
  constructor
  · -- the reader has as many pairs as it knows cues
    intro heq
    have hlength := congrArg List.length heq
    simp only [List.length_map, exported, List.length_insertionSort] at hlength
    intro c hc
    simpa using List.length_filter_eq_length_iff.1 hlength c hc
  · intro hall
    have hself : (cues.filter fun c => c.startMs < 6000000) = cues :=
      List.filter_eq_self.2 fun c hc => decide_eq_true (hall c hc)
    rw [hself]

/-- A line at 100 minutes. -/
def lateLine : Cue where
  startMs := 6000000
  endMs := 6001000
  text := "la la"

theorem exportable_la (startMs endMs : Nat) :
    Exportable { startMs := startMs, endMs := endMs, text := "la la" } where
  nonempty := show "la la" ≠ "" by decide
  trimmed := show trim "la la".toList = "la la".toList by decide
  oneLine := show '\n' ∉ "la la".toList by decide
  noTag := show matchAll timeTag "la la".toList = [] by decide

/-- Its row is not read. -/
theorem not_roundTrips_late :
    ¬ ∀ cues, (∀ c ∈ cues, Exportable c) → RoundTrips .double cues := by
  intro h
  have hexportable : ∀ c ∈ [lateLine], Exportable c := by
    intro c hc
    rw [List.mem_singleton.1 hc]
    exact exportable_la _ _
  have hlost : parseLrc .double (toLrc [lateLine]) = [] := parseLrc_toLrc hexportable
  have hroundTrip := h [lateLine] hexportable
  rw [RoundTrips, hlost] at hroundTrip
  exact absurd (congrArg List.length hroundTrip) (by decide)

theorem lrc_roundTrip_iff_la :
    RoundTrips .double [⟨61239, 70000, "la la"⟩, ⟨1000, 2000, "la la"⟩] := by
  refine (lrc_roundTrip_iff .double _ ?_).2 ?_
  · simp [exportable_la]
  · decide

end LanguageLlm.Lyrics.Import
