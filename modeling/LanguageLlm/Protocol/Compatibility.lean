import LanguageLlm.Desktop.Protocol
import LanguageLlm.LanguageKits.Adapters

/-!
# Protocol versions

`compatibility.ts` of the protocol package beside `versions_compatible` of its Rust crate. Both
compare the majors of two versions; `versions_agree_iff` says for which pairs they come to the same
answer.
-/

namespace LanguageLlm.Protocol

open PageTranslate (isSpace trim)
open LanguageKits (isLineTerminator Plus Stops stops_cons stops_dropWhile takeWhile_run
  takeWhile_dropWhile)
open Desktop (parseU32 parseMajor)

/-! ## The extension -/

structure VersionParts where
  major : Nat
  minor : Nat
  patch : Nat
  raw : String
  deriving DecidableEq

/-- `Number` of digits. -/
def number (digits : List Char) : Nat := Nat.ofDigitChars 10 digits 0

/-- `(\d+)` and the text behind it. -/
def matchDigits (cs : List Char) : Option (List Char × List Char) :=
  if cs.takeWhile Char.isDigit = [] then none else some
    (cs.takeWhile Char.isDigit, cs.dropWhile Char.isDigit)

/-- `\.` and the text behind it. -/
def matchDot : List Char → Option (List Char)
  | '.' :: cs => some cs
  | _ => none

/-- `(?:[-+].*)?$`. -/
def matchesEnd : List Char → Bool
  | [] => true
  | c :: cs => (c = '-' || c = '+') && !cs.any isLineTerminator

/-- `/^(\d+)\.(\d+)\.(\d+)(?:[-+].*)?$/`: its groups. -/
def matchSemver (cs : List Char) : Option (List Char × List Char × List Char) := do
  let (major, cs) ← matchDigits cs
  let cs ← matchDot cs
  let (minor, cs) ← matchDigits cs
  let cs ← matchDot cs
  let (patch, cs) ← matchDigits cs
  if matchesEnd cs then some (major, minor, patch) else none

def parseSemver (version : String) : Option VersionParts :=
  (matchSemver (trim version.toList)).map fun (major, minor, patch) =>
    { major := number major
      minor := number minor
      patch := number patch
      raw := String.ofList (trim version.toList) }

def versionsCompatible (clientVersion companionVersion : String) : Bool :=
  match parseSemver clientVersion, parseSemver companionVersion with
  | some client, some companion => client.major = companion.major
  | _, _ => false

example : versionsCompatible "1.2.3" "1.0.0" ∧ ¬ versionsCompatible "2.0.0" "1.0.0" := by
    decide +kernel

/-! ## The texts that have a major -/

/-- The text is three numbers and an end; the first of them is `major`. -/
def IsSemver (cs major : List Char) : Prop :=
  ∃ minor patch rest, cs = major ++ '.' :: (minor ++ '.' :: (patch ++ rest)) ∧
    Plus Char.isDigit major ∧ Plus Char.isDigit minor ∧ Plus Char.isDigit patch ∧
      matchesEnd rest = true

/-- The version is of three parts, with this major, up to the spaces around it. -/
def HasSemver (version : String) (major : Nat) : Prop :=
  ∃ digits, IsSemver (trim version.toList) digits ∧ number digits = major

/-- The version starts with this number of 32 bits, and then ends or goes on with a dot. -/
def HasMajor (version : String) (major : Nat) : Prop :=
  ∃ plus digits rest, version.toList = plus ++ (digits ++ rest) ∧ (plus = [] ∨ plus = ['+']) ∧
    Plus Char.isDigit digits ∧ (rest = [] ∨ ∃ more, rest = '.' :: more) ∧ number digits = major ∧
      major < 2 ^ 32

theorem matchDigits_iff {cs digits rest : List Char} :
    matchDigits cs = some (digits, rest) ↔ cs = digits ++ rest ∧ Plus Char.isDigit digits ∧
      Stops Char.isDigit rest := by
  rw [matchDigits]
  constructor
  · intro h
    split at h
    · cases h
    · next hne =>
      cases h
      obtain ⟨hcs, hdigits⟩ := takeWhile_dropWhile Char.isDigit cs
      exact ⟨hcs, ⟨hne, hdigits⟩, stops_dropWhile _ cs⟩
  · rintro ⟨rfl, ⟨hne, hdigits⟩, hstops⟩
    obtain ⟨htake, hdrop⟩ := takeWhile_run hdigits hstops
    rw [htake, hdrop, if_neg hne]

theorem matchDot_iff {cs rest : List Char} : matchDot cs = some rest ↔ cs = '.' :: rest := by
  constructor
  · intro h
    unfold matchDot at h
    split at h
    · cases h
      rfl
    · cases h
  · rintro rfl
    rfl

theorem stops_dot (cs : List Char) : Stops Char.isDigit ('.' :: cs) := stops_cons (by decide)

theorem stops_end {cs : List Char} (h : matchesEnd cs = true) : Stops Char.isDigit cs := by
  rintro c rest rfl
  simp only [matchesEnd, Bool.and_eq_true, Bool.or_eq_true, decide_eq_true_eq] at h
  rcases h.1 with rfl | rfl <;> decide

/-- The matcher finds the numbers. -/
theorem matchSemver_iff {cs major : List Char} :
    (∃ minor patch, matchSemver cs = some (major, minor, patch)) ↔ IsSemver cs major := by
  simp only [matchSemver, Option.bind_eq_bind, Option.bind_eq_some_iff]
  constructor
  · rintro ⟨minor, patch, ⟨_, cs₁⟩, h₁, cs₂, h₂, ⟨_, cs₃⟩, h₃, cs₄, h₄, ⟨_, cs₅⟩, h₅, hend⟩
    obtain ⟨rfl, hmajor, -⟩ := matchDigits_iff.1 h₁
    obtain rfl := matchDot_iff.1 h₂
    obtain ⟨rfl, hminor, -⟩ := matchDigits_iff.1 h₃
    obtain rfl := matchDot_iff.1 h₄
    obtain ⟨rfl, hpatch, -⟩ := matchDigits_iff.1 h₅
    dsimp only at hend
    split at hend
    · next hrest =>
      cases hend
      exact ⟨minor, patch, cs₅, rfl, hmajor, hminor, hpatch, hrest⟩
    · cases hend
  · rintro ⟨minor, patch, rest, rfl, hmajor, hminor, hpatch, hend⟩
    refine ⟨minor, patch, (major, _), matchDigits_iff.2 ⟨rfl, hmajor, stops_dot _⟩, _,
      matchDot_iff.2 rfl, (minor, _),
      matchDigits_iff.2 ⟨rfl, hminor, stops_dot _⟩, _, matchDot_iff.2 rfl, (patch, rest),
      matchDigits_iff.2 ⟨rfl, hpatch, stops_end hend⟩, ?_⟩
    exact if_pos hend

theorem parseSemver_major_iff {version : String} {major : Nat} :
    (∃ parts, parseSemver version = some parts ∧ parts.major = major) ↔
      HasSemver version major := by
  simp only [parseSemver, HasSemver, Option.map_eq_some_iff, ← matchSemver_iff]
  constructor
  · rintro ⟨_, ⟨⟨digits, minor, patch⟩, hmatch, rfl⟩, rfl⟩
    exact ⟨digits, ⟨minor, patch, hmatch⟩, rfl⟩
  · rintro ⟨digits, ⟨minor, patch, hmatch⟩, rfl⟩
    exact ⟨_, ⟨_, hmatch, rfl⟩, rfl⟩

theorem versionsCompatible_iff {client companion : String} :
    versionsCompatible client companion = true ↔ ∃ major, HasSemver client major ∧
      HasSemver companion major := by
  simp only [← parseSemver_major_iff, versionsCompatible]
  constructor
  · intro h
    split at h
    · next a b ha hb => exact ⟨a.major, ⟨a, ha, rfl⟩, b, hb, (of_decide_eq_true h).symm⟩
    · cases h
  · rintro ⟨major, ⟨a, ha, hmajor⟩, b, hb, rfl⟩
    rw [ha, hb]
    exact decide_eq_true hmajor

/-! ## The companion -/

theorem digit_ne_dot {c : Char} (h : c.isDigit = true) : c ≠ '.' := by
  rintro rfl
  cases h

theorem isSpace_digit {c : Char} (h : c.isDigit = true) : isSpace c = false := by
  simp only [Char.isDigit, Bool.and_eq_true, decide_eq_true_eq] at h
  have hlow : 48 ≤ c.toNat := h.1
  have hhigh : c.toNat ≤ 57 := h.2
  simp only [isSpace, Bool.or_eq_false_iff, Bool.and_eq_false_iff, decide_eq_false_iff_not]
  omega

theorem parseU32_iff {cs : List Char} {n : Nat} :
    parseU32 (String.ofList cs) = some n ↔ ∃ plus digits, cs = plus ++ digits ∧
      (plus = [] ∨ plus = ['+']) ∧
      Plus Char.isDigit digits ∧ number digits = n ∧ n < 2 ^ 32 := by
  have hread : ∀ digits : List Char,
      ((if digits ≠ [] ∧ digits.all Char.isDigit = true then
        if Nat.ofDigitChars 10 digits 0 < 2 ^ 32 then some (Nat.ofDigitChars 10 digits 0) else none
      else none) = some n ↔ Plus Char.isDigit digits ∧ number digits = n ∧ n < 2 ^ 32) := by
    intro digits
    constructor
    · intro h
      split at h
      · next hdigits =>
        split at h
        · next hlt =>
          cases h
          exact ⟨⟨hdigits.1, List.all_eq_true.1 hdigits.2⟩, rfl, hlt⟩
        · cases h
      · cases h
    · rintro ⟨hdigits, rfl, hlt⟩
      exact (if_pos ⟨hdigits.1, List.all_eq_true.2 hdigits.2⟩).trans (if_pos hlt)
  simp only [parseU32, String.toList_ofList]
  constructor
  · intro h
    split at h
    · next digits => exact ⟨['+'], digits, rfl, Or.inr rfl, (hread digits).1 h⟩
    · exact ⟨[], cs, rfl, Or.inl rfl, (hread cs).1 h⟩
  · rintro ⟨plus, digits, rfl, hplus, hdigits⟩
    rcases hplus with rfl | rfl
    · split
      · next digits' heq =>
        -- a digit is not the sign
        obtain rfl : digits = '+' :: digits' := heq
        have hsign := hdigits.1.2 '+' List.mem_cons_self
        cases hsign
      · exact (hread digits).2 hdigits
    · exact (hread digits).2 hdigits

/-- `parse_major` reads the number. -/
theorem parseMajor_iff {version : String} {major : Nat} :
    parseMajor version = some major ↔ HasMajor version major := by
  rw [parseMajor, parseU32_iff, HasMajor]
  constructor
  · rintro ⟨plus, digits, hsegment, hplus, hdigits, hmajor⟩
    obtain ⟨hversion, -⟩ := takeWhile_dropWhile (fun c => decide (c ≠ '.')) version.toList
    have hstops := stops_dropWhile (fun c => decide (c ≠ '.')) version.toList
    refine ⟨plus, digits, version.toList.dropWhile (fun c => decide (c ≠ '.')), ?_, hplus, hdigits,
      ?_, hmajor⟩
    · rw [← List.append_assoc, ← hsegment]
      exact hversion
    · cases hrest : version.toList.dropWhile fun c => decide (c ≠ '.') with
      | nil => exact Or.inl rfl
      | cons c more =>
        have hc := hstops c more hrest
        simp only [ne_eq, decide_not, Bool.not_eq_false', decide_eq_true_eq] at hc
        exact Or.inr ⟨more, by rw [hc]⟩
  · rintro ⟨plus, digits, rest, hversion, hplus, hdigits, hrest, hmajor⟩
    refine ⟨plus, digits, ?_, hplus, hdigits, hmajor⟩
    have hall : ∀ c ∈ plus ++ digits, decide (c ≠ '.') = true := by
      intro c hc
      rcases List.mem_append.1 hc with hc | hc
      · rcases hplus with rfl | rfl
        · cases hc
        · obtain rfl := List.mem_singleton.1 hc
          decide
      · exact decide_eq_true (digit_ne_dot (hdigits.2 c hc))
    have hstops : Stops (fun c => decide (c ≠ '.')) rest := by
      rcases hrest with rfl | ⟨more, rfl⟩
      · exact nofun
      · exact stops_cons (by decide)
    rw [hversion, ← List.append_assoc, (takeWhile_run hall hstops).1]

theorem desktop_versionsCompatible_iff {client companion : String} :
    Desktop.versionsCompatible client companion = true ↔
      ∃ major, HasMajor client major ∧ HasMajor companion major := by
  simp only [← parseMajor_iff, Desktop.versionsCompatible]
  constructor
  · intro h
    split at h
    · next a b ha hb => exact ⟨a, ha, hb.trans (congrArg some (of_decide_eq_true h).symm)⟩
    · cases h
  · rintro ⟨major, ha, hb⟩
    rw [ha, hb]
    exact decide_eq_true rfl

/-! ## Both -/

def StartsBlank (version : String) : Prop := ∃ c rest, version.toList = c :: rest ∧ isSpace c = true

/-- Without spaces before it the version is its trimmed text and the spaces behind. -/
theorem toList_eq_trim {version : String} (hblank : ¬ StartsBlank version) :
    ∃ spaces, version.toList = trim version.toList ++ spaces := by
  have hdrop : version.toList.dropWhile isSpace = version.toList := by
    cases hlist : version.toList with
    | nil => rfl
    | cons c rest =>
      rw [List.dropWhile_cons, if_neg]
      exact fun hc => hblank ⟨c, rest, hlist, hc⟩
  refine ⟨(version.toList.reverse.takeWhile isSpace).reverse, ?_⟩
  rw [trim, hdrop, ← List.reverse_append, List.takeWhile_append_dropWhile, List.reverse_reverse]

/-- What the companion reads of a version of three parts: its major, unless that is too large or the
version starts with a space. -/
theorem hasMajor_iff_of_semver {version : String} {n m : Nat} (hsemver : HasSemver version n) :
    HasMajor version m ↔ m = n ∧ n < 2 ^ 32 ∧ ¬ StartsBlank version := by
  obtain ⟨major, ⟨minor, patch, tail, htrim, hmajor, -⟩, rfl⟩ := hsemver
  constructor
  · rintro ⟨plus, digits, rest, hversion, hplus, hdigits, hrest, rfl, hlt⟩
    have hblank : ¬ StartsBlank version := by
      rintro ⟨c, more, hlist, hc⟩
      rw [hversion] at hlist
      rcases hplus with rfl | rfl
      · cases digits with
        | nil => exact hdigits.1 rfl
        | cons d digits =>
          cases hlist
          rw [isSpace_digit (hdigits.2 c List.mem_cons_self)] at hc
          cases hc
      · cases hlist
        cases hc
    obtain ⟨spaces, hspaces⟩ := toList_eq_trim hblank
    rw [htrim, hversion, List.append_assoc] at hspaces
    rcases hplus with rfl | rfl
    · have hstops : Stops Char.isDigit rest := by
        rcases hrest with rfl | ⟨more, rfl⟩
        · exact nofun
        · exact stops_dot more
      have hsame : digits = major := by
        have hleft := (takeWhile_run hdigits.2 hstops).1
        have hright :=
          (takeWhile_run hmajor.2 (stops_dot ((minor ++ '.' :: (patch ++ tail)) ++ spaces))).1
        rw [← hleft, ← hright]
        exact congrArg _ hspaces
      exact ⟨by rw [hsame], hsame ▸ hlt, hblank⟩
    · cases major with
      | nil => exact absurd rfl hmajor.1
      | cons c major =>
        obtain ⟨rfl, -⟩ := List.cons.inj hspaces
        cases hmajor.2 '+' List.mem_cons_self
  · rintro ⟨rfl, hlt, hblank⟩
    obtain ⟨spaces, hspaces⟩ := toList_eq_trim hblank
    refine ⟨[], major, '.' :: (minor ++ '.' :: (patch ++ tail)) ++ spaces, ?_, Or.inl rfl, hmajor,
      Or.inr ⟨_, rfl⟩, rfl, hlt⟩
    rw [hspaces, htrim, List.append_assoc]
    rfl

/-- Two versions in which both sides find what they look for, or neither: when the companion reads
the same number of both they have three parts, and when they have three parts with the same major it
is of 32 bits and no space comes before it. -/
def AlikeVersions (client companion : String) : Prop :=
  ∀ major,
    (HasMajor client major → HasMajor companion major → HasSemver client major ∧
      HasSemver companion major) ∧
    (HasSemver client major → HasSemver companion major →
      major < 2 ^ 32 ∧ ¬ StartsBlank client ∧ ¬ StartsBlank companion)

/-- Both sides give the same answer exactly for such versions. -/
theorem versions_agree_iff (client companion : String) :
    Desktop.versionsCompatible client companion = versionsCompatible client companion ↔
      AlikeVersions client companion := by
  rw [Bool.eq_iff_iff, desktop_versionsCompatible_iff, versionsCompatible_iff]
  constructor
  · intro h major
    constructor
    · intro hclient hcompanion
      obtain ⟨n, hn, hn'⟩ := h.1 ⟨major, hclient, hcompanion⟩
      obtain ⟨rfl, -⟩ := (hasMajor_iff_of_semver hn).1 hclient
      exact ⟨hn, hn'⟩
    · intro hclient hcompanion
      obtain ⟨n, hn, hn'⟩ := h.2 ⟨major, hclient, hcompanion⟩
      obtain ⟨-, hlt, hblank⟩ := (hasMajor_iff_of_semver hclient).1 hn
      exact ⟨hlt, hblank, ((hasMajor_iff_of_semver hcompanion).1 hn').2.2⟩
  · intro h
    constructor
    · rintro ⟨major, hclient, hcompanion⟩
      exact ⟨major, (h major).1 hclient hcompanion⟩
    · rintro ⟨major, hclient, hcompanion⟩
      obtain ⟨hlt, hblank, hblank'⟩ := (h major).2 hclient hcompanion
      exact ⟨major, (hasMajor_iff_of_semver hclient).2 ⟨rfl, hlt, hblank⟩,
        (hasMajor_iff_of_semver hcompanion).2 ⟨rfl, hlt, hblank'⟩⟩

/-- The companion takes a bare major, the extension does not. -/
theorem not_versions_agree : ¬ ∀ client companion,
    Desktop.versionsCompatible client companion = versionsCompatible client companion := by
  intro hall
  exact absurd (hall "1" "1.0.0") (by decide +kernel)

end LanguageLlm.Protocol
