import LanguageLlm.Captions.Parser
import LanguageLlm.Subtitle.Export

/-!
# WebVTT out and in again

What `parseVttTimedtext` reads from a file that `to_vtt` wrote. A line of a text is never taken for
something else, because the text of a block is read up to the blank line behind it
(`vttBlocks_linesOf`).
-/

namespace LanguageLlm.Captions

open Lib Lib.Matcher LanguageKits PageTranslate Protocol Subtitle
open Lyrics (hasPart)

/-! ## Times -/

/-- What can stand in a time. -/
def timeChar (c : Char) : Bool := c.isDigit || c = ':' || c = '.'

theorem timeChar_of_mem {ms : Nat} {c : Char} (h : c ∈ fmtTsVtt ms) : timeChar c = true := by
  have hdigits : ∀ width n, c ∈ padded width n → timeChar c = true := by
    intro width n hc
    simp [timeChar, isDigit_of_mem_padded hc]
  rw [fmtTsVtt_eq] at h
  simp only [List.mem_append, List.mem_cons] at h
  rcases h with h | rfl | h | rfl | h | rfl | h
  all_goals first | exact hdigits _ _ h | rfl

theorem isSpace_of_timeChar {c : Char} (h : timeChar c = true) : isSpace c = false := by
  simp only [timeChar, Bool.or_eq_true, decide_eq_true_eq] at h
  rcases h with (h | rfl) | rfl
  · exact isSpace_of_isDigit h
  · rfl
  · rfl

theorem ne_dash_of_timeChar {c : Char} (h : timeChar c = true) : c ≠ '-' := by
  rintro rfl
  cases h

theorem trim_fmtTsVtt (ms : Nat) : trim (fmtTsVtt ms) = fmtTsVtt ms :=
  trim_of_forall fun _ hc => isSpace_of_timeChar (timeChar_of_mem hc)

/-- A time that was written is read back, in exact arithmetic. -/
theorem parseVttTimestamp_fmtTsVtt {S : Source} (hexact : S.engine.rounding = .exact) (ms : Nat) :
    S.parseVttTimestamp (fmtTsVtt ms) = .fin ms := by
  have hround : ∀ q, S.engine.rounding.round q = .fin q := by
    intro q
    rw [hexact]
    rfl
  have hdigits : ∀ width n, ∀ c ∈ padded width n, c.isDigit = true :=
    fun width n c hc => isDigit_of_mem_padded hc
  have hcolon : ∀ width n, ':' ∉ padded width n := fun width n => not_mem_padded rfl
  let h := ms / 3600000
  let m := ms / 60000 % 60
  let s := ms / 1000 % 60
  let milli := ms % 1000
  have hsplit : (fmtTsVtt ms).splitOn ':' =
      [padded 2 h, padded 2 m, padded 2 s ++ '.' :: padded 3 milli] := by
    have hlast : ':' ∉ padded 2 s ++ '.' :: padded 3 milli := by simp [hcolon]
    rw [fmtTsVtt_eq, List.splitOn_append_cons_self_of_not_mem (hcolon _ _),
      List.splitOn_append_cons_self_of_not_mem (hcolon _ _), List.splitOn_eq_singleton hlast]
  have hlength : (padded 3 milli).length = 3 := length_padded (by omega) (Nat.mod_lt _ (by omega))
  have hvalue : Nat.ofDigitChars 10 (padded 2 s ++ padded 3 milli) 0 = s * 1000 + milli := by
    rw [Nat.ofDigitChars_append, ofDigitChars_padded, Nat.ofDigitChars_eq_ofDigitChars_zero,
      ofDigitChars_padded, hlength]
    omega
  have hnumber : ∀ n, S.engine.rounding.number (padded 2 n) = .fin n := by
    intro n
    rw [Rounding.number_digits (hdigits 2 n) (padded_ne_nil 2 n), ofDigitChars_padded, hround]
  have hseconds : S.engine.rounding.number (padded 2 s ++ '.' :: padded 3 milli) =
      .fin ((s * 1000 + milli : Nat) / 10 ^ 3) := by
    rw [Rounding.number_fraction (hdigits 2 s) (padded_ne_nil 2 s) (hdigits 3 milli), hvalue,
      hlength, hround]
  have htotal : ((h : Rat) * (3600 : Nat) + m * (60 : Nat) + (s * 1000 + milli : Nat) / 10 ^ 3) *
      (1000 : Nat) = ms := by
    have hms : h * 3600000 + m * 60000 + (s * 1000 + milli) = ms := by omega
    rw [← hms]
    push_cast
    ring
  rw [Source.parseVttTimestamp, trim_fmtTsVtt, hsplit]
  simp only [hnumber, hseconds, Rounding.scale, Rounding.add, hround]
  rw [htotal, Rounding.mathRound_nat]

section Timing

variable {prev : Option Char} {ms : Nat} {rest : List Char}

/-- The expression of a time takes a time with two digits of hours. -/
theorem vttTime_fmtTsVtt (h : ms < 360000000) :
    ∃ prev', ((), (⟨prev', rest⟩ : Cursor)) ∈ vttTime ⟨prev, fmtTsVtt ms ++ rest⟩ := by
  have hlength : ∀ n, n < 100 → (padded 2 n).length = 2 := fun n hn =>
    length_padded (by omega) hn
  have hlength₃ : (padded 3 (ms % 1000)).length = 3 :=
    length_padded (by omega) (Nat.mod_lt _ (by omega))
  have hgreedy : ∀ {width least n : Nat} (prev : Option Char) (rest : List Char),
      (padded width n).length = width → least ≤ width → ∃ prev',
        (padded width n, (⟨prev', rest⟩ : Cursor)) ∈
          greedy Char.isDigit least (some width) ⟨prev, padded width n ++ rest⟩ := by
    intro width least n prev rest hwidth hleast
    refine ⟨_, mem_greedy.2 ⟨rfl, fun x hx => isDigit_of_mem_padded hx, rfl, by omega, ?_⟩⟩
    intro k hk
    cases hk
    omega
  let minutes := padded 2 (ms / 60000 % 60) ++ ':' :: (padded 2 (ms / 1000 % 60) ++ '.' ::
    (padded 3 (ms % 1000) ++ rest))
  have htext : fmtTsVtt ms ++ rest = padded 2 (ms / 3600000) ++ ':' :: minutes := by
    simp [fmtTsVtt_eq, minutes]
  obtain ⟨p₁, h₁⟩ := hgreedy prev (':' :: minutes) (hlength (ms / 3600000) (by omega))
    (show 1 ≤ 2 by omega)
  obtain ⟨p₂, h₂⟩ := hgreedy (some ':') (':' :: (padded 2 (ms / 1000 % 60) ++ '.' ::
    (padded 3 (ms % 1000) ++ rest))) (hlength (ms / 60000 % 60) (by omega)) le_rfl
  obtain ⟨p₃, h₃⟩ := hgreedy (some ':') ('.' :: (padded 3 (ms % 1000) ++ rest))
    (hlength (ms / 1000 % 60) (by omega)) le_rfl
  obtain ⟨p₄, h₄⟩ := hgreedy (some '.') rest hlength₃ le_rfl
  have hhours : (some ':', (⟨some ':', minutes⟩ : Cursor)) ∈ opt (do
      let _ ← greedy Char.isDigit 1 (some 2)
      one (· == ':')) ⟨prev, padded 2 (ms / 3600000) ++ ':' :: minutes⟩ :=
    mem_opt.2 (Or.inl ⟨':', rfl, mem_bind.2 ⟨_, _, h₁, mem_one.2 ⟨rfl, rfl, rfl⟩⟩⟩)
  rw [htext]
  exact ⟨p₄, mem_bind.2 ⟨_, _, hhours, mem_bind.2 ⟨_, _, h₂, mem_bind.2 ⟨':', ⟨some ':', _⟩,
    mem_one.2 ⟨rfl, rfl, rfl⟩, mem_bind.2 ⟨_, _, h₃, mem_bind.2 ⟨'.', ⟨some '.', _⟩,
      mem_one.2 ⟨rfl, rfl, rfl⟩, mem_bind.2 ⟨_, _, h₄, mem_pure.2 rfl⟩⟩⟩⟩⟩⟩⟩

end Timing

/-! ## A block -/

theorem cutArrow_append {a b : List Char} (h : ∀ x ∈ a, x ≠ '-') :
    cutArrow (a ++ ("-->".toList ++ b)) = some (a, b) := by
  induction a with
  | nil => rfl
  | cons x a ih =>
    obtain ⟨hx, ha⟩ := List.forall_mem_cons.1 h
    have hnot : "-->".toList.isPrefixOf (x :: (a ++ ("-->".toList ++ b))) = false := by
      rw [Bool.eq_false_iff, ne_eq, List.isPrefixOf_iff_prefix]
      exact fun hp => hx (List.cons_prefix_cons.1 hp).1.symm
    rw [List.cons_append, cutArrow, hnot, if_neg Bool.false_ne_true, ih ha]
    rfl

theorem cutArrow_eq_none {a : List Char} (h : ∀ x ∈ a, x ≠ '-') : cutArrow a = none := by
  induction a with
  | nil => rfl
  | cons x a ih =>
    obtain ⟨hx, ha⟩ := List.forall_mem_cons.1 h
    have hnot : "-->".toList.isPrefixOf (x :: a) = false := by
      rw [Bool.eq_false_iff, ne_eq, List.isPrefixOf_iff_prefix]
      exact fun hp => hx (List.cons_prefix_cons.1 hp).1.symm
    rw [cutArrow, hnot, if_neg Bool.false_ne_true, ih ha]
    rfl

/-- The timing line of a cue. -/
def timingLine (c : Subtitle.Cue) : List Char :=
  fmtTsVtt c.startMs ++ (" --> ".toList ++ fmtTsVtt c.endMs)

theorem search_timingLine {c : Subtitle.Cue} (hstart : c.startMs < 360000000)
    (hend : c.endMs < 360000000) : search timing (timingLine c) ≠ none := by
  have hspace : ∀ {prev : Option Char} (rest : List Char), ([' '], (⟨some ' ', rest⟩ : Cursor)) ∈
      greedy isSpace 0 none ⟨prev, ' ' :: rest⟩ := by
    intro prev rest
    refine mem_greedy.2 ⟨rfl, ?_, rfl, Nat.zero_le _, nofun⟩
    intro x hx
    rw [List.mem_singleton.1 hx]
    rfl
  obtain ⟨p₁, h₁⟩ := @vttTime_fmtTsVtt none c.startMs
    (' ' :: ("-->".toList ++ ' ' :: fmtTsVtt c.endMs)) hstart
  obtain ⟨p₂, h₂⟩ := @vttTime_fmtTsVtt (some ' ') c.endMs [] hend
  have harrow : ((), (⟨some '>', ' ' :: fmtTsVtt c.endMs⟩ : Cursor)) ∈
      word (· == ·) "-->".toList ⟨some ' ', "-->".toList ++ ' ' :: fmtTsVtt c.endMs⟩ := by
    rw [word_apply fun x => beq_self_eq_true x]
    exact List.mem_singleton_self _
  have hmatch : ((), (⟨p₂, []⟩ : Cursor)) ∈ timing ⟨none, timingLine c⟩ := by
    refine mem_bind.2 ⟨_, _, h₁, mem_bind.2 ⟨_, _, hspace _, mem_bind.2 ⟨_, _, harrow,
      mem_bind.2 ⟨_, _, hspace _, ?_⟩⟩⟩⟩
    rwa [List.append_nil] at h₂
  exact search_ne_none (List.ne_nil_of_mem hmatch)

theorem timesOf_timingLine {S : Source} (hexact : S.engine.rounding = .exact)
    (c : Subtitle.Cue) : S.timesOf (timingLine c) = (.fin c.startMs, .fin c.endMs) := by
  have htake : ∀ ms, ((fmtTsVtt ms).takeWhile fun c => !isSpace c) = fmtTsVtt ms := by
    intro ms
    rw [List.takeWhile_eq_self_iff]
    intro x hx
    simp [isSpace_of_timeChar (timeChar_of_mem hx)]
  have hspaces : ∀ x ∈ [' '], isSpace x = true := List.forall_mem_singleton.2 rfl
  have hparts : timingParts (timingLine c) = (fmtTsVtt c.startMs, fmtTsVtt c.endMs) := by
    have hcut :
        cutArrow (timingLine c) = some (fmtTsVtt c.startMs ++ [' '], ' ' :: fmtTsVtt c.endMs) := by
      have hline : timingLine c =
          (fmtTsVtt c.startMs ++ [' ']) ++ ("-->".toList ++ ' ' :: fmtTsVtt c.endMs) := by
        simp [timingLine]
      rw [hline, cutArrow_append]
      intro x hx
      rcases List.mem_append.1 hx with hx | hx
      · exact ne_dash_of_timeChar (timeChar_of_mem hx)
      · rw [List.mem_singleton.1 hx]
        decide
    have hnone : cutArrow (' ' :: fmtTsVtt c.endMs) = none := by
      refine cutArrow_eq_none fun x hx => ?_
      rcases List.mem_cons.1 hx with rfl | hx
      · decide
      · exact ne_dash_of_timeChar (timeChar_of_mem hx)
    rw [timingParts, hcut]
    dsimp only
    rw [hnone, trim_append_spaces hspaces, Option.elim_none, ← List.singleton_append,
      trim_spaces_append hspaces, trim_fmtTsVtt, trim_fmtTsVtt]
  rw [Source.timesOf, hparts, htake, htake, parseVttTimestamp_fmtTsVtt hexact,
    parseVttTimestamp_fmtTsVtt hexact]

/-- The writer and the reader know this cue: it is valid and ends before 100 hours, and its text is
one trimmed line without a tag. -/
structure VttExportable (c : Subtitle.Cue) : Prop where
  valid : validateCue c = .ok ()
  short : c.endMs < 360000000
  trimmed : trim c.text.toList = c.text.toList
  oneLine : '\n' ∉ c.text.toList
  noTag : '<' ∉ c.text.toList

theorem VttExportable.lt {c : Subtitle.Cue} (h : VttExportable c) : c.startMs < c.endMs := by
  have hvalid := h.valid
  unfold validateCue at hvalid
  split_ifs at hvalid with htime
  exact not_le.1 htime

theorem VttExportable.text_ne {c : Subtitle.Cue} (h : VttExportable c) : c.text.toList ≠ [] := by
  have hvalid := h.valid
  unfold validateCue at hvalid
  split_ifs at hvalid with htime hblank
  intro hnil
  rw [hnil] at hblank
  exact hblank rfl

/-- A timing line begins with a digit. -/
theorem exists_timingLine (c : Subtitle.Cue) :
    ∃ x line, timingLine c = x :: line ∧ x.isDigit = true := by
  obtain ⟨x, digits, hdigits⟩ := List.exists_cons_of_ne_nil (padded_ne_nil 2 (c.startMs / 3600000))
  have hdigit : x.isDigit = true := isDigit_of_mem_padded (hdigits ▸ List.mem_cons_self)
  refine ⟨x, (timingLine c).tail, ?_, hdigit⟩
  rw [timingLine, fmtTsVtt_eq, hdigits]
  rfl

theorem fmtTsVtt_ne_nil (ms : Nat) : fmtTsVtt ms ≠ [] := by
  rw [fmtTsVtt_eq]
  exact List.append_ne_nil_of_left_ne_nil (padded_ne_nil _ _) _

theorem trim_timingLine (c : Subtitle.Cue) : trim (timingLine c) = timingLine c := by
  rw [trim_eq_self_iff]
  constructor
  · obtain ⟨y, line, hline, hdigit⟩ := exists_timingLine c
    intro x hx
    rw [hline] at hx
    cases hx
    exact isSpace_of_isDigit hdigit
  · intro x hx
    rw [timingLine, List.getLast?_append_of_ne_nil _ (by simp),
      List.getLast?_append_of_ne_nil _ (fmtTsVtt_ne_nil _)] at hx
    exact isSpace_of_timeChar (timeChar_of_mem (List.mem_of_getLast? hx))

theorem not_mem_timingLine (c : Subtitle.Cue) : '\n' ∉ timingLine c := by
  intro h
  have htime : ∀ ms, '\n' ∉ fmtTsVtt ms := fun ms hn => absurd (timeChar_of_mem hn) (by decide)
  simp [timingLine, htime] at h

theorem skipsLine_timingLine (c : Subtitle.Cue) : skipsLine (timingLine c) = false := by
  obtain ⟨x, line, hline, hdigit⟩ := exists_timingLine c
  have hnot : ∀ (y : Char) (w : List Char), y.isDigit = false →
      (y :: w).isPrefixOf (x :: line) = false := by
    intro y w hy
    rw [Bool.eq_false_iff, ne_eq, List.isPrefixOf_iff_prefix]
    intro hp
    rw [(List.cons_prefix_cons.1 hp).1, hdigit] at hy
    cases hy
  rw [hline, skipsLine, List.isEmpty_cons, Bool.false_or]
  have hW := hnot 'W' "EBVTT".toList rfl
  have hN := hnot 'N' "OTE".toList rfl
  have hS := hnot 'S' "TYLE".toList rfl
  exact Bool.or_eq_false_iff.2 ⟨Bool.or_eq_false_iff.2 ⟨hW, hN⟩, hS⟩

/-- The timing line has an arrow in it. -/
theorem hasPart_timingLine (c : Subtitle.Cue) : hasPart (timingLine c) "-->".toList = true := by
  rw [hasPart, List.any_eq_true]
  refine ⟨"-->".toList ++ ' ' :: fmtTsVtt c.endMs, (List.mem_tails _ _).2 ?_,
    List.isPrefixOf_iff_prefix.2 (List.prefix_append _ _)⟩
  exact ⟨fmtTsVtt c.startMs ++ [' '], by simp [timingLine]⟩

/-- The timing line is taken as it stands, and the text up to the blank line behind it. -/
theorem vttBlocks_block {c : Subtitle.Cue} (h : VttExportable c) {rest : List (List Char)}
    (hrest : ∀ l ∈ rest.head?, l = []) :
    vttBlocks (timingLine c :: c.text.toList :: rest) =
      (timingLine c, c.text.toList) :: vttBlocks rest.tail := by
  have hshort := h.lt
  have htimed : timingLineOf (timingLine c) (c.text.toList :: rest) =
      (timingLine c, c.text.toList :: rest) := by
    rw [timingLineOf, hasPart_timingLine, if_neg (by simp)]
  have hsearch : search timing (timingLine c) ≠ none :=
    search_timingLine (by have := h.short; omega) h.short
  have htext : trim c.text.toList ≠ [] := by
    rw [h.trimmed]
    exact h.text_ne
  have hstop : (rest.takeWhile fun l => trim l ≠ []) = [] ∧
      (rest.dropWhile fun l => trim l ≠ []) = rest := by
    cases rest with
    | nil => exact ⟨rfl, rfl⟩
    | cons l rest =>
      obtain rfl := hrest l rfl
      exact ⟨rfl, rfl⟩
  have hlines : textLines (c.text.toList :: rest) = [c.text.toList] := by
    rw [textLines, List.takeWhile_cons_of_pos (by simpa using htext), hstop.1, List.map_singleton,
      h.trimmed]
  have hblock : blockText [c.text.toList] = c.text.toList := by
    rw [blockText, List.intercalate_singleton, replaceAll_of_none (matchAll_anyTag h.noTag),
      h.trimmed]
  rw [vttBlocks]
  dsimp only
  rw [trim_timingLine, skipsLine_timingLine, if_neg Bool.false_ne_true, htimed]
  dsimp only
  rw [if_neg hsearch, hlines, hblock, List.dropWhile_cons_of_pos (by simpa using htext), hstop.2]

/-- The lines of the cues, with a blank line between two of them. -/
def linesOf : List Subtitle.Cue → List (List Char)
  | [] => []
  | [c] => [timingLine c, c.text.toList]
  | c :: cues => timingLine c :: c.text.toList :: [] :: linesOf cues

/-- The blocks are those of the cues. -/
theorem vttBlocks_linesOf {cues : List Subtitle.Cue} (h : ∀ c ∈ cues, VttExportable c) :
    vttBlocks (linesOf cues) = cues.map fun c => (timingLine c, c.text.toList) := by
  induction cues with
  | nil => rw [linesOf, vttBlocks, List.map_nil]
  | cons c cues ih =>
    obtain ⟨hc, hcues⟩ := List.forall_mem_cons.1 h
    cases cues with
    | nil =>
      rw [linesOf, vttBlocks_block hc (by simp), List.tail_nil, vttBlocks]
      rfl
    | cons d cues =>
      have hlines : linesOf (c :: d :: cues) =
          timingLine c :: c.text.toList :: [] :: linesOf (d :: cues) := rfl
      rw [hlines, vttBlocks_block hc (by simp), List.tail_cons, ih hcues]
      rfl

/-! ## The file -/

/-- The file without the line feeds at its end. -/
def bodyOf : List Subtitle.Cue → List Char
  | [] => []
  | [c] => timingLine c ++ '\n' :: c.text.toList
  | c :: cues => timingLine c ++ '\n' :: (c.text.toList ++ '\n' :: '\n' :: bodyOf cues)

theorem splitLines_bodyOf {cues : List Subtitle.Cue} (h : ∀ c ∈ cues, VttExportable c)
    (hne : cues ≠ []) : splitLines (bodyOf cues) = linesOf cues := by
  induction cues with
  | nil => exact absurd rfl hne
  | cons c cues ih =>
    obtain ⟨hc, hcues⟩ := List.forall_mem_cons.1 h
    have hline : '\n' ∉ timingLine c := not_mem_timingLine c
    have hlast : (timingLine c).getLast? ≠ some '\r' :=
      getLast?_ne_of_trim (trim_timingLine c) rfl
    have htextLast : c.text.toList.getLast? ≠ some '\r' := getLast?_ne_of_trim hc.trimmed rfl
    cases cues with
    | nil => rw [bodyOf, linesOf, splitLines_append hline hlast, splitLines_line hc.oneLine]
    | cons d cues =>
      have hbody : bodyOf (c :: d :: cues) =
          timingLine c ++ '\n' :: (c.text.toList ++ '\n' :: '\n' :: bodyOf (d :: cues)) := rfl
      have hlines : linesOf (c :: d :: cues) =
          timingLine c :: c.text.toList :: [] :: linesOf (d :: cues) := rfl
      rw [hbody, hlines, splitLines_append hline hlast, splitLines_append hc.oneLine htextLast,
        ← ih hcues (List.cons_ne_nil _ _)]
      rfl

/-- The file in its parts. -/
theorem toList_toVtt (cues : List Subtitle.Cue) (hne : cues ≠ []) :
    (toVtt cues).toList = "WEBVTT\n\n".toList ++ bodyOf cues ++ ['\n', '\n'] := by
  have hblocks : ∀ cues : List Subtitle.Cue, cues ≠ [] → (cues.flatMap fun c =>
      fmtTsVtt c.startMs ++ " --> ".toList ++ fmtTsVtt c.endMs ++ '\n' :: c.text.toList ++
        "\n\n".toList) = bodyOf cues ++ ['\n', '\n'] := by
    intro cues
    induction cues with
    | nil => exact fun hne => absurd rfl hne
    | cons c cues ih =>
      intro _
      cases cues with
      | nil => simp [bodyOf, timingLine]
      | cons d cues =>
        rw [List.flatMap_cons, ih (List.cons_ne_nil _ _)]
        simp [bodyOf, timingLine]
  have hlist : (toVtt cues).toList = "WEBVTT\n\n".toList ++ cues.flatMap fun c =>
      fmtTsVtt c.startMs ++ " --> ".toList ++ fmtTsVtt c.endMs ++ '\n' :: c.text.toList ++
        "\n\n".toList := String.toList_ofList
  rw [hlist, hblocks cues hne, List.append_assoc]

theorem bodyOf_ne_nil {cues : List Subtitle.Cue} (hne : cues ≠ []) : bodyOf cues ≠ [] := by
  match cues, hne with
  | [c], _ => simp [bodyOf]
  | c :: d :: cues, _ => simp [bodyOf]

/-- The file ends with the last text. -/
theorem getLast_bodyOf {cues : List Subtitle.Cue} (h : ∀ c ∈ cues, VttExportable c) :
    ∀ x ∈ (bodyOf cues).getLast?, isSpace x = false := by
  induction cues with
  | nil => nofun
  | cons c cues ih =>
    obtain ⟨hc, hcues⟩ := List.forall_mem_cons.1 h
    intro x hx
    cases cues with
    | nil =>
      rw [bodyOf, List.getLast?_append_of_ne_nil _ (List.cons_ne_nil _ _), List.getLast?_cons,
        List.getLast?_eq_some_getLast hc.text_ne] at hx
      cases hx
      exact (trim_eq_self_iff.1 hc.trimmed).2 _ (List.getLast?_eq_some_getLast hc.text_ne)
    | cons d cues =>
      have hne := bodyOf_ne_nil (List.cons_ne_nil d cues)
      have hbody :
        bodyOf (c :: d :: cues) = (timingLine c ++ '\n' :: c.text.toList ++ ['\n', '\n']) ++
          bodyOf (d :: cues) := by simp [bodyOf]
      rw [hbody, List.getLast?_append_of_ne_nil _ hne] at hx
      exact ih hcues x hx

theorem trim_toVtt {cues : List Subtitle.Cue} (h : ∀ c ∈ cues, VttExportable c)
    (hne : cues ≠ []) :
    trim (toVtt cues).toList = "WEBVTT\n\n".toList ++ bodyOf cues := by
  rw [toList_toVtt cues hne, trim_append_spaces (List.all_eq_true.1 rfl), trim_eq_self_iff]
  refine ⟨fun c hc => by cases hc; rfl, fun x hx => ?_⟩
  rw [List.getLast?_append_of_ne_nil _ (bodyOf_ne_nil hne)] at hx
  exact getLast_bodyOf h x hx

/-- The blocks of the file are those of the cues. -/
theorem textBlocks_toVtt {cues : List Subtitle.Cue} (h : ∀ c ∈ cues, VttExportable c) :
    textBlocks (trim (toVtt cues).toList) = cues.map fun c => (timingLine c, c.text.toList) := by
  have hblocks : vttBlocks (splitLines (trim (toVtt cues).toList)) =
      cues.map fun c => (timingLine c, c.text.toList) := by
    by_cases hne : cues = []
    · subst hne
      have hbody : splitLines (trim (toVtt []).toList) = ["WEBVTT".toList] := by decide
      rw [hbody, vttBlocks]
      dsimp only
      rw [if_pos (by decide), vttBlocks]
      rfl
    · have hbody : splitLines (trim (toVtt cues).toList) =
          "WEBVTT".toList :: [] :: linesOf cues := by
        rw [trim_toVtt h hne, ← splitLines_bodyOf h hne]
        rfl
      rw [hbody, vttBlocks]
      dsimp only
      rw [if_pos (by decide), vttBlocks]
      dsimp only
      rw [if_pos (by decide), vttBlocks_linesOf h]
  rw [textBlocks, hblocks, List.filter_eq_self]
  intro b hb
  obtain ⟨c, hc, rfl⟩ := List.mem_map.1 hb
  simpa using (h c hc).text_ne

/-- The start, the end and the text of each cue. -/
def timed (timeline : TimelineOf JsValue) : List (JsValue × JsValue × String) :=
  timeline.cues.map fun c => (c.startMs, c.endMs, c.text)

/-- The trimmed file begins with its signature. -/
theorem exists_trim_toVtt {cues : List Subtitle.Cue} (h : ∀ c ∈ cues, VttExportable c) :
    ∃ rest, trim (toVtt cues).toList = "WEBVTT".toList ++ rest := by
  by_cases hne : cues = []
  · subst hne
    exact ⟨[], by decide⟩
  · exact ⟨'\n' :: '\n' :: bodyOf cues, trim_toVtt h hne⟩

/-- The cues that are read from the trimmed file. -/
theorem timed_parseVttTimedtext {S : Source} (hexact : S.engine.rounding = .exact)
    {cues : List Subtitle.Cue} (h : ∀ c ∈ cues, VttExportable c) {body : List Char}
    (hbody : body.head? = some 'W') (htrim : trim body = trim (toVtt cues).toList) :
    timed (S.parseVttTimedtext body) =
      cues.map fun c => (.number (.fin c.startMs), .number (.fin c.endMs), c.text) := by
  obtain ⟨rest, hrest⟩ := exists_trim_toVtt h
  have hbom : body.head? ≠ some '\uFEFF' := by
    rw [hbody]
    decide
  have hne : trim body ≠ [] := by
    rw [htrim, hrest]
    exact List.cons_ne_nil _ _
  rw [Source.parseVttTimedtext, if_neg hbom, if_neg hne, htrim, textBlocks_toVtt h]
  refine List.ext_getElem? fun i => ?_
  rw [timed, Source.timelineFromCues, List.getElem?_map, List.getElem?_mapIdx, List.getElem?_map,
    List.getElem?_map]
  cases cues[i]? with
  | none => rfl
  | some c =>
    have htimes := timesOf_timingLine hexact c
    simp [Source.numberCue, Source.cue, htimes]

/-- Every list of exportable cues comes back, by the parser of the format and by the one that finds
out the format. -/
theorem vtt_roundTrip (S : Source) (hexact : S.engine.rounding = .exact)
    (cues : List Subtitle.Cue) (h : ∀ c ∈ cues, VttExportable c) :
    timed (S.parseVttTimedtext (toVtt cues).toList) =
        cues.map (fun c => (.number (.fin c.startMs), .number (.fin c.endMs), c.text)) ∧
      (S.parseTimedtextBody (toVtt cues) none).map timed =
        some (cues.map fun c => (.number (.fin c.startMs), .number (.fin c.endMs), c.text)) := by
  obtain ⟨rest, hrest⟩ := exists_trim_toVtt h
  have hhead : (toVtt cues).toList.head? = some 'W' := by
    have hlist : (toVtt cues).toList = _ := String.toList_ofList
    rw [hlist]
    rfl
  have hne : trim (toVtt cues).toList ≠ [] := by
    rw [hrest]
    exact List.cons_ne_nil _ _
  have hdetect : detectFormat (trim (toVtt cues).toList) = .vtt := by
    have hpart : hasPart (trim (toVtt cues).toList) "WEBVTT".toList = true := by
      rw [hrest, hasPart, List.any_eq_true]
      exact ⟨_, (List.mem_tails _ _).2 List.suffix_rfl,
        List.isPrefixOf_iff_prefix.2 (List.prefix_append _ _)⟩
    have hfirst : (trim (toVtt cues).toList).head? = some 'W' := by
      rw [hrest]
      rfl
    rw [detectFormat, trim_trim, hfirst, if_neg (by decide), if_pos hpart]
  refine ⟨timed_parseVttTimedtext hexact h hhead rfl, ?_⟩
  have hroute : route (trim (toVtt cues).toList) none = .vtt := by
    rw [route, Option.getD_none, hdetect]
  rw [Source.parseTimedtextBody, if_neg hne, hroute, Option.map_some,
    timed_parseVttTimedtext hexact h (by rw [hrest]; rfl) (trim_trim _)]

/-- Texts that look like lines of the format. -/
theorem vtt_roundTrip_note :
    timed (Source.parseVttTimedtext ⟨⟨.exact, fun _ => "", fun _ => none⟩, "v", .autoCaption⟩
      (toVtt [⟨0, 1500, "NOTE 00:00:01.000 --> 00:00:02.000"⟩,
        ⟨1500, 359999999, "WEBVTT"⟩]).toList) =
        [(.number (.fin 0), .number (.fin 1500), "NOTE 00:00:01.000 --> 00:00:02.000"),
          (.number (.fin 1500), .number (.fin 359999999), "WEBVTT")] := by
  refine (vtt_roundTrip _ rfl _ fun c hc => ?_).1
  rcases List.mem_pair.1 hc with rfl | rfl
  · exact ⟨rfl, by decide, by decide, by decide, by decide⟩
  · exact ⟨rfl, by decide, by decide, by decide, by decide⟩

end LanguageLlm.Captions
