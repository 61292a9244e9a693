import LanguageLlm.JsText
import LanguageLlm.Lib.Scanning
import LanguageLlm.MtCore.Fidelity

/-!
# What the fidelity checks promise

Numbers and addresses are read from the joined texts; none reaches over a space, so they are those
of the texts one by one.
-/

namespace LanguageLlm.MtCore

open Lib PageTranslate Protocol

/-! ## Numbers -/

section Numbers

variable {cs rest : List Char} {c sep : Char}

theorem not_isDigit_of_isSpace (h : isSpace c = true) : c.isDigit = false := by
  cases hc : c.isDigit with
  | false => rfl
  | true =>
    rw [isSpace_of_isDigit hc] at h
    cases h

/-- `matchNumber` where a digit stands. -/
def takeNumber : List Char → Option (List Char × List Char)
  | [] => none
  | c :: cs => if c.isDigit then some (matchNumber (c :: cs)) else none

theorem numbersFrom_eq (fuel : Nat) (cs : List Char) :
    numbersFrom fuel cs = (scanFrom takeNumber fuel cs).map String.ofList := by
  induction fuel generalizing cs with
  | zero => rfl
  | succ fuel ih =>
    cases cs with
    | nil => rfl
    | cons c cs =>
      rw [numbersFrom, scanFrom, takeNumber]
      split_ifs
      · rw [List.map_cons, ← ih]
      · exact ih cs

theorem matchNumber_rest (cs : List Char) :
    (matchNumber cs).2.length ≤ (cs.dropWhile Char.isDigit).length := by
  unfold matchNumber
  split
  · next sep c rest hdrop =>
    rw [hdrop]
    have hle := (List.dropWhile_sublist Char.isDigit (l := c :: rest)).length_le
    split_ifs
    · exact hle.trans (Nat.le_succ _)
    · exact Nat.le_refl _
  · exact Nat.le_refl _

theorem consumes_takeNumber : Consumes takeNumber := by
  intro cs found rest h
  cases cs with
  | nil => cases h
  | cons c cs =>
    rw [takeNumber] at h
    split_ifs at h with hc
    have hrest : rest = (matchNumber (c :: cs)).2 := by rw [Option.some.inj h]
    have hle := matchNumber_rest (c :: cs)
    have hdrop := (List.dropWhile_sublist Char.isDigit (l := cs)).length_le
    rw [List.dropWhile_cons_of_pos hc] at hle
    rw [hrest, List.length_cons]
    omega

/-- A number ends before a space. -/
theorem matchNumber_append (hsep : isSpace sep = true) (cs rest : List Char) :
    matchNumber (cs ++ sep :: rest) = ((matchNumber cs).1, (matchNumber cs).2 ++ sep :: rest) := by
  have hdigit := not_isDigit_of_isSpace hsep
  obtain ⟨htake, hdrop⟩ := takeWhile_append_cons hdigit cs rest
  unfold matchNumber
  rw [htake, hdrop]
  rcases cs.dropWhile Char.isDigit with _ | ⟨point, _ | ⟨d, tail⟩⟩
  · -- the digits end at the space
    have hpoint : ¬ (sep = '.' ∨ sep = ',') := by
      rintro (rfl | rfl)
      all_goals exact absurd hsep (by decide)
    cases rest with
    | nil => rfl
    | cons d rest => simp [hpoint]
  · simp [hdigit]
  · obtain ⟨htake', hdrop'⟩ := takeWhile_append_cons hdigit (d :: tail) rest
    simp only [List.cons_append] at htake' hdrop' ⊢
    rw [htake', hdrop']
    split_ifs <;> rfl

theorem stopsAt_takeNumber (hsep : isSpace sep = true) : StopsAt takeNumber sep := by
  intro a b
  cases a with
  | nil => simp [takeNumber, not_isDigit_of_isSpace hsep]
  | cons c cs =>
    rw [List.cons_append, takeNumber, takeNumber, ← List.cons_append, matchNumber_append hsep]
    split_ifs <;> rfl

end Numbers

/-! ## Addresses -/

section Urls

variable {c sep : Char} {cs rest : List Char}

theorem urlsFrom_eq (fuel : Nat) (cs : List Char) :
    urlsFrom fuel cs = (scanFrom matchUrl fuel cs).map String.ofList := by
  induction fuel generalizing cs with
  | zero => rfl
  | succ fuel ih =>
    cases cs with
    | nil => rfl
    | cons c cs =>
      rw [urlsFrom, scanFrom]
      cases matchUrl (c :: cs) with
      | none => exact ih cs
      | some r =>
        dsimp only
        rw [List.map_cons, ← ih]

/-- The `s` behind `http`, if there is one. -/
def optionalS : List Char → List Char × List Char
  | c :: rest => if c.toLower = 's' then ([c], rest) else ([], c :: rest)
  | [] => ([], [])

/-- The address behind its scheme. -/
def matchAuthority (scheme rest : List Char) : Option (List Char × List Char) :=
  if [':', '/', '/'] <+: rest then
    let tail := (rest.drop 3).takeWhile fun c => !isSpace c
    if tail = [] then none
    else some (scheme ++ [':', '/', '/'] ++ tail, (rest.drop 3).dropWhile fun c => !isSpace c)
  else none

theorem take_eq_iff_prefix {w : List Char} {n : Nat} (h : w.length = n) :
    cs.take n = w ↔ w <+: cs := by
  subst h
  rw [List.prefix_iff_eq_take]
  exact eq_comm

theorem matchUrl_eq (cs : List Char) :
    matchUrl cs =
      if ['h', 't', 't', 'p'] <+: cs.map Char.toLower then
        matchAuthority (cs.take 4 ++ (optionalS (cs.drop 4)).1) (optionalS (cs.drop 4)).2
      else none := by
  have hscheme : (cs.take 4).map Char.toLower = ['h', 't', 't', 'p'] ↔
      ['h', 't', 't', 'p'] <+: cs.map Char.toLower := by
    rw [List.map_take]
    exact take_eq_iff_prefix rfl
  have hmark : ∀ rest : List Char, rest.take 3 = [':', '/', '/'] ↔ [':', '/', '/'] <+: rest :=
    fun rest => take_eq_iff_prefix rfl
  unfold matchUrl matchAuthority
  cases hdrop : cs.drop 4 with
  | nil => simp [optionalS]
  | cons c rest =>
    have hlength : (cs.take 4).length = 4 := by
      have hpos : 0 < (cs.drop 4).length := by simp [hdrop]
      rw [List.length_drop] at hpos
      rw [List.length_take]
      omega
    have htake : ∀ s : List Char, (cs.take 4 ++ s).take 4 = cs.take 4 := by
      intro s
      rw [List.take_append_of_le_length (by omega), List.take_of_length_le (by omega)]
    dsimp only [optionalS]
    by_cases hc : c.toLower = 's'
    · simp only [if_pos hc, htake, hscheme, hmark, ite_and]
    · have htake' := htake []
      rw [List.append_nil] at htake'
      simp only [if_neg hc, htake', hscheme, hmark, ite_and, List.append_nil]

theorem matchAuthority_rest {scheme found : List Char}
    (h : matchAuthority scheme rest = some (found, cs)) : cs.length < rest.length := by
  unfold matchAuthority at h
  dsimp only at h
  split_ifs at h with hmark hempty
  obtain ⟨-, rfl⟩ := Prod.mk.inj (Option.some.inj h)
  have hle := (List.dropWhile_sublist (fun c => !isSpace c) (l := rest.drop 3)).length_le
  have hlength := hmark.length_le
  rw [List.length_drop] at hle
  simp only [List.length_cons, List.length_nil] at hlength
  omega

theorem optionalS_rest (cs : List Char) : (optionalS cs).2.length ≤ cs.length := by
  cases cs with
  | nil => exact Nat.le_refl _
  | cons c cs =>
    rw [optionalS]
    split_ifs
    · exact Nat.le_succ _
    · exact Nat.le_refl _

theorem consumes_matchUrl : Consumes matchUrl := by
  intro cs found rest h
  rw [matchUrl_eq] at h
  split_ifs at h
  have hlt := matchAuthority_rest h
  have hle := optionalS_rest (cs.drop 4)
  rw [List.length_drop] at hle
  omega

/-- A space has no other case. -/
theorem toLower_of_isSpace (h : isSpace c = true) : c.toLower = c := by
  rcases toLower_cases c with hlower | ⟨hA, hZ, -⟩
  · exact hlower
  · simp only [isSpace, Bool.or_eq_true, Bool.and_eq_true, decide_eq_true_eq] at h
    omega

theorem not_mem_of_isSpace {w : List Char} (hw : (w.all fun c => !isSpace c) = true)
    (h : isSpace sep = true) : sep ∉ w := by
  intro hmem
  have hsep := List.all_eq_true.1 hw sep hmem
  rw [h] at hsep
  cases hsep

theorem matchAuthority_append (hsep : isSpace sep = true) (scheme cs rest : List Char) :
    matchAuthority scheme (cs ++ sep :: rest) =
      (matchAuthority scheme cs).map fun r => (r.1, r.2 ++ sep :: rest) := by
  have hmark : [':', '/', '/'] <+: cs ++ sep :: rest ↔ [':', '/', '/'] <+: cs :=
    prefix_append_cons_iff (not_mem_of_isSpace (by decide) hsep) cs rest
  unfold matchAuthority
  simp only [hmark]
  by_cases hcs : [':', '/', '/'] <+: cs
  · have hdrop : (cs ++ sep :: rest).drop 3 = cs.drop 3 ++ sep :: rest :=
      List.drop_append_of_le_length hcs.length_le
    have hstop : (!isSpace sep) = false := by rw [hsep]; rfl
    obtain ⟨htake, hrest⟩ :=
      takeWhile_append_cons (p := fun c => !isSpace c) hstop (cs.drop 3) rest
    simp only [if_pos hcs, hdrop, htake, hrest]
    split_ifs <;> rfl
  · simp only [if_neg hcs, Option.map_none]

theorem optionalS_append (hsep : isSpace sep = true) (cs rest : List Char) :
    optionalS (cs ++ sep :: rest) = ((optionalS cs).1, (optionalS cs).2 ++ sep :: rest) := by
  cases cs with
  | nil =>
    have hs : sep.toLower ≠ 's' := by
      rw [toLower_of_isSpace hsep]
      rintro rfl
      exact absurd hsep (by decide)
    rw [List.nil_append, optionalS, if_neg hs]
    rfl
  | cons c cs =>
    rw [List.cons_append, optionalS, optionalS]
    split_ifs <;> rfl

theorem stopsAt_matchUrl (hsep : isSpace sep = true) : StopsAt matchUrl sep := by
  intro cs rest
  have hscheme : ['h', 't', 't', 'p'] <+: (cs ++ sep :: rest).map Char.toLower ↔
      ['h', 't', 't', 'p'] <+: cs.map Char.toLower := by
    rw [List.map_append, List.map_cons, toLower_of_isSpace hsep]
    exact prefix_append_cons_iff (not_mem_of_isSpace (by decide) hsep) _ _
  rw [matchUrl_eq, matchUrl_eq]
  simp only [hscheme]
  by_cases hcs : ['h', 't', 't', 'p'] <+: cs.map Char.toLower
  · have hlength : 4 ≤ cs.length := by simpa using hcs.length_le
    rw [if_pos hcs, if_pos hcs, List.take_append_of_le_length hlength,
      List.drop_append_of_le_length hlength, optionalS_append hsep]
    exact matchAuthority_append hsep _ _ _
  · rw [if_neg hcs, if_neg hcs, Option.map_none]

end Urls

/-! ## Texts one by one -/

/-- The numbers of texts. -/
def numbersOf (texts : List String) : List String := texts.flatMap extractNumbers

/-- The addresses of texts, in lower case. -/
def urlsOf (toLowerCase : String → String) (texts : List String) : List String :=
  (texts.flatMap extractUrls).map toLowerCase

section Texts

variable {toLowerCase : String → String} {sources targets : List String}

theorem extractNumbers_eq (text : String) :
    extractNumbers text = (scan takeNumber text.toList).map String.ofList := numbersFrom_eq _ _

theorem extractUrls_eq (text : String) :
    extractUrls text = (scan matchUrl text.toList).map String.ofList := urlsFrom_eq _ _

/-- What is found in joined texts is what is found in each of them. -/
theorem scan_join {take : List Char → Option (List Char × List Char)} (hconsumes : Consumes take)
    (hstops : StopsAt take ' ') (texts : List String) :
    (scan take (" ".intercalate texts).toList).map String.ofList =
      texts.flatMap fun text => (scan take text.toList).map String.ofList := by
  have hspace : " ".toList = [' '] := rfl
  rw [String.toList_intercalate, hspace, scan_intercalate hconsumes hstops, List.flatMap_map,
    List.map_flatMap]

theorem extractNumbers_join (texts : List String) :
    extractNumbers (" ".intercalate texts) = numbersOf texts := by
  rw [extractNumbers_eq, scan_join consumes_takeNumber (stopsAt_takeNumber isSpace_space)]
  exact List.flatMap_congr fun text _ => (extractNumbers_eq text).symm

theorem extractUrls_join (texts : List String) :
    extractUrls (" ".intercalate texts) = texts.flatMap extractUrls := by
  rw [extractUrls_eq, scan_join consumes_matchUrl (stopsAt_matchUrl isSpace_space)]
  exact List.flatMap_congr fun text _ => (extractUrls_eq text).symm

theorem extractNumbers_append (a b : String) :
    extractNumbers (a ++ " " ++ b) = extractNumbers a ++ extractNumbers b := by
  simpa [numbersOf] using extractNumbers_join [a, b]

theorem extractUrls_append (a b : String) :
    extractUrls (a ++ " " ++ b) = extractUrls a ++ extractUrls b := by
  simpa using extractUrls_join [a, b]

/-- Nothing but spaces. -/
def Blank (text : String) : Prop := ∀ c ∈ text.toList, isSpace c = true

/-- Nothing of the sources is missing in the targets. -/
structure Kept (toLowerCase : String → String) (sources targets : List String) : Prop where
  numbers : numbersOf sources ⊆ numbersOf targets
  urls : urlsOf toLowerCase sources ⊆ urlsOf toLowerCase targets
  notBlank : ∀ text ∈ targets, ¬ Blank text

/-- A text that has at least what another one has. -/
structure Carries (text longer : String) : Prop where
  numbers : extractNumbers text ⊆ extractNumbers longer
  urls : extractUrls text ⊆ extractUrls longer
  notBlank : ¬ Blank text → ¬ Blank longer

theorem Carries.refl (text : String) : Carries text text where
  numbers := List.Subset.refl _
  urls := List.Subset.refl _
  notBlank := id

theorem carries_append_left (before text : String) : Carries text (before ++ " " ++ text) where
  numbers := by
    rw [extractNumbers_append]
    exact List.subset_append_right _ _
  urls := by
    rw [extractUrls_append]
    exact List.subset_append_right _ _
  notBlank h hblank := h fun c hc => hblank c (by simp [hc])

theorem carries_append_right (text after : String) : Carries text (text ++ " " ++ after) where
  numbers := by
    rw [extractNumbers_append]
    exact List.subset_append_left _ _
  urls := by
    rw [extractUrls_append]
    exact List.subset_append_left _ _
  notBlank h hblank := h fun c hc => hblank c (by simp [hc])

/-- What every text carries over, the texts carry over together. -/
theorem flatMap_subset_of_carries {β : Type} {f : String → List β}
    (hf : ∀ {a b : String}, Carries a b → f a ⊆ f b) (h : List.Forall₂ Carries sources targets) :
    sources.flatMap f ⊆ targets.flatMap f := by
  induction h with
  | nil => exact List.Subset.refl _
  | cons hfirst _ ih =>
    exact List.append_subset.2 ⟨List.subset_append_of_subset_left _ (hf hfirst),
      List.subset_append_of_subset_right _ ih⟩

theorem numbersOf_subset (h : List.Forall₂ Carries sources targets) :
    numbersOf sources ⊆ numbersOf targets :=
  flatMap_subset_of_carries Carries.numbers h

theorem urlsOf_subset (h : List.Forall₂ Carries sources targets) :
    urlsOf toLowerCase sources ⊆ urlsOf toLowerCase targets :=
  List.map_subset _ (flatMap_subset_of_carries Carries.urls h)

/-- Texts with additions keep what the texts keep. -/
theorem Kept.of_carries {longer : List String} (h : Kept toLowerCase sources targets)
    (hlonger : List.Forall₂ Carries targets longer) : Kept toLowerCase sources longer where
  numbers := List.Subset.trans h.numbers (numbersOf_subset hlonger)
  urls := List.Subset.trans h.urls (urlsOf_subset hlonger)
  notBlank := by
    have hblank := h.notBlank
    clear h
    induction hlonger with
    | nil => nofun
    | cons hfirst _ ih =>
      obtain ⟨htext, htexts⟩ := List.forall_mem_cons.1 hblank
      exact List.forall_mem_cons.2 ⟨hfirst.notBlank htext, ih htexts⟩

/-- A mock draft keeps its source, in whatever language. -/
theorem kept_mockMtDraft (texts : List String) (targetLang : String) :
    Kept toLowerCase texts (mockMtDraft texts targetLang) := by
  have hcarries : List.Forall₂ Carries texts (mockMtDraft texts targetLang) := by
    rw [mockMtDraft, List.forall₂_map_right_iff]
    refine List.forall₂_same.2 fun text _ => ?_
    have hmark : "[" ++ targetLang ++ "] " ++ text = "[" ++ targetLang ++ "]" ++ " " ++ text := by
      simp [String.append_assoc]
    rw [hmark]
    exact carries_append_left _ _
  refine ⟨numbersOf_subset hcarries, urlsOf_subset hcarries, ?_⟩
  intro draft hdraft hblank
  obtain ⟨text, -, rfl⟩ := List.mem_map.1 hdraft
  exact absurd (hblank '[' (by simp)) (by decide)

/-- As many targets as the checks allow. -/
def CueCountOk (sources targets : Nat) : Prop :=
  targets = 0 ∨
    targets ≤ sources + max 2 (sources / 2) ∧ sources ≤ targets + max 2 (sources / 2)

/-- The locked terms stand in the targets. -/
def NamesKept (targets : List String) (glossary : List GlossaryEntry) : Prop :=
  ∀ g ∈ glossary, g.locked = true → g.target.toList <:+: (" ".intercalate targets).toList

theorem includes_iff (text part : String) :
    includes text part = true ↔ part.toList <:+: text.toList := by
  rw [includes, List.any_eq_true]
  constructor
  · rintro ⟨tail, htail, hpart⟩
    exact (List.isPrefixOf_iff_prefix.1 hpart).isInfix.trans ((List.mem_tails _ _).1 htail).isInfix
  · rintro ⟨before, after, h⟩
    refine ⟨part.toList ++ after, (List.mem_tails _ _).2 ⟨before, ?_⟩, ?_⟩
    · rw [← List.append_assoc, h]
    · exact List.isPrefixOf_iff_prefix.2 (List.prefix_append _ _)

theorem forall_locked_iff {glossary : List GlossaryEntry} :
    (∀ g ∈ glossary, g.locked = false ∨ includes (" ".intercalate targets) g.target = true) ↔
      NamesKept targets glossary := by
  refine forall₂_congr fun g _ => ?_
  rw [includes_iff]
  cases g.locked <;> simp

theorem forall_distinct_iff :
    (∀ n ∈ distinct (extractNumbers (" ".intercalate sources)),
        n ∈ distinct (extractNumbers (" ".intercalate targets))) ↔
      numbersOf sources ⊆ numbersOf targets := by
  simp only [distinct, List.mem_eraseDups, extractNumbers_join]
  rfl

theorem forall_urls_iff :
    (∀ u ∈ (extractUrls (" ".intercalate sources)).map toLowerCase,
        u ∈ (extractUrls (" ".intercalate targets)).map toLowerCase) ↔
      urlsOf toLowerCase sources ⊆ urlsOf toLowerCase targets := by
  rw [extractUrls_join, extractUrls_join]
  rfl

theorem forall_trim_iff :
    (∀ text ∈ targets, ¬ trim text.toList = []) ↔ ∀ text ∈ targets, ¬ Blank text := by
  simp only [trim_eq_nil_iff, Blank]

end Texts

/-! ## The checks -/

section Checks

variable {toLowerCase : String → String} {sourceCues : List Cue} {targetTexts : List String}
  {glossary : List GlossaryEntry}

/-- The critical checks pass when nothing is missing. -/
theorem not_critical_iff :
    hasCriticalFidelityFailure (runFidelityChecks toLowerCase sourceCues targetTexts glossary) =
        false ↔
      Kept toLowerCase (sourceCues.map Cue.text) targetTexts := by
  have hchecks :
      hasCriticalFidelityFailure (runFidelityChecks toLowerCase sourceCues targetTexts glossary) =
          false ↔
        (∀ n ∈ distinct (extractNumbers (" ".intercalate (sourceCues.map Cue.text))),
            n ∈ distinct (extractNumbers (" ".intercalate targetTexts))) ∧
          (∀ u ∈ (extractUrls (" ".intercalate (sourceCues.map Cue.text))).map toLowerCase,
            u ∈ (extractUrls (" ".intercalate targetTexts)).map toLowerCase) ∧
          ∀ text ∈ targetTexts, ¬ trim text.toList = [] := by
    simp [hasCriticalFidelityFailure, runFidelityChecks, listing, FidelityCheckKind.critical]
  rw [hchecks, forall_distinct_iff, forall_urls_iff, forall_trim_iff]
  exact ⟨fun h => ⟨h.1, h.2.1, h.2.2⟩, fun h => ⟨h.numbers, h.urls, h.notBlank⟩⟩

/-- What else a passing result asks for. -/
structure Checked (toLowerCase : String → String) (sources targets : List String)
    (glossary : List GlossaryEntry) : Prop extends Kept toLowerCase sources targets where
  noExtraNumber : numbersOf targets ⊆ numbersOf sources
  names : NamesKept targets glossary
  count : CueCountOk sources.length targets.length

theorem ok_iff :
    (runFidelityChecks toLowerCase sourceCues targetTexts glossary).ok = true ↔
      Checked toLowerCase (sourceCues.map Cue.text) targetTexts glossary := by
  have hcount : (targetTexts = [] ∨
      max targetTexts.length sourceCues.length - min targetTexts.length sourceCues.length ≤
        max 2 (sourceCues.length / 2)) ↔
      CueCountOk (sourceCues.map Cue.text).length targetTexts.length := by
    rw [CueCountOk, List.length_map, List.length_eq_zero_iff]
    exact or_congr Iff.rfl (by omega)
  have hchecks :
      (runFidelityChecks toLowerCase sourceCues targetTexts glossary).ok = true ↔
        (∀ n ∈ distinct (extractNumbers (" ".intercalate (sourceCues.map Cue.text))),
            n ∈ distinct (extractNumbers (" ".intercalate targetTexts))) ∧
          (∀ n ∈ distinct (extractNumbers (" ".intercalate targetTexts)),
            n ∈ distinct (extractNumbers (" ".intercalate (sourceCues.map Cue.text)))) ∧
          (∀ u ∈ (extractUrls (" ".intercalate (sourceCues.map Cue.text))).map toLowerCase,
            u ∈ (extractUrls (" ".intercalate targetTexts)).map toLowerCase) ∧
          (∀ text ∈ targetTexts, ¬ trim text.toList = []) ∧
          (targetTexts = [] ∨
            max targetTexts.length sourceCues.length - min targetTexts.length sourceCues.length ≤
              max 2 (sourceCues.length / 2)) ∧
          ∀ g ∈ glossary, g.locked = false ∨ includes (" ".intercalate targetTexts) g.target =
            true := by
    simp [runFidelityChecks, listing]
  rw [hchecks, forall_distinct_iff, forall_distinct_iff, forall_urls_iff, forall_trim_iff, hcount,
    forall_locked_iff]
  constructor
  · rintro ⟨hmissing, hextra, hurls, hblank, hlength, hnames⟩
    exact ⟨⟨hmissing, hurls, hblank⟩, hextra, hnames, hlength⟩
  · intro h
    exact ⟨h.numbers, h.noExtraNumber, h.urls, h.notBlank, h.count, h.names⟩

/-- Nothing of the sources is missing in the targets and nothing is added. -/
structure Faithful (toLowerCase : String → String) (sources targets : List String)
    (glossary : List GlossaryEntry) : Prop where
  numbers : ∀ n, n ∈ numbersOf sources ↔ n ∈ numbersOf targets
  urls : ∀ u, u ∈ urlsOf toLowerCase sources ↔ u ∈ urlsOf toLowerCase targets
  notBlank : ∀ text ∈ targets, ¬ Blank text
  names : NamesKept targets glossary

/-- An added address is the one thing that a passing result does not speak of. -/
theorem ok_faithful_iff (toLowerCase : String → String) (sourceCues : List Cue)
    (targetTexts : List String) (glossary : List GlossaryEntry) :
    (((runFidelityChecks toLowerCase sourceCues targetTexts glossary).ok = true →
        Faithful toLowerCase (sourceCues.map Cue.text) targetTexts glossary) ∧
      (Faithful toLowerCase (sourceCues.map Cue.text) targetTexts glossary ∧
          CueCountOk sourceCues.length targetTexts.length →
        (runFidelityChecks toLowerCase sourceCues targetTexts glossary).ok = true)) ↔
      urlsOf toLowerCase targetTexts ⊆ urlsOf toLowerCase (sourceCues.map Cue.text) ∨
        ¬ Checked toLowerCase (sourceCues.map Cue.text) targetTexts glossary := by
  have hpasses : Faithful toLowerCase (sourceCues.map Cue.text) targetTexts glossary ∧
      CueCountOk sourceCues.length targetTexts.length →
      Checked toLowerCase (sourceCues.map Cue.text) targetTexts glossary := by
    intro h
    obtain ⟨⟨hnumbers, hurls, hblank, hnames⟩, hcount⟩ := h
    refine ⟨⟨fun n => (hnumbers n).1, fun u => (hurls u).1, hblank⟩, fun n => (hnumbers n).2,
      hnames, ?_⟩
    rwa [List.length_map]
  rw [ok_iff, and_iff_left hpasses]
  constructor
  · intro h
    by_cases hchecked : Checked toLowerCase (sourceCues.map Cue.text) targetTexts glossary
    · exact Or.inl fun u => ((h hchecked).urls u).2
    · exact Or.inr hchecked
  · intro h hchecked
    have hurls := h.resolve_right (not_not_intro hchecked)
    exact
      { numbers := fun n => ⟨@hchecked.numbers n, @hchecked.noExtraNumber n⟩
        urls := fun u => ⟨@hchecked.urls u, @hurls u⟩
        notBlank := hchecked.notBlank
        names := hchecked.names }

/-- `toLowerCase` of an ASCII text. -/
def lowerAscii (text : String) : String := String.ofList (text.toList.map Char.toLower)

theorem not_ok_faithful :
    ¬ ((runFidelityChecks lowerAscii [⟨"c-0", 0, 1000, "hello", .humanCaption⟩]
          ["hola http://a.b"] []).ok = true →
        Faithful lowerAscii ["hello"] ["hola http://a.b"] []) := by
  have hok : (runFidelityChecks lowerAscii [⟨"c-0", 0, 1000, "hello", .humanCaption⟩]
      ["hola http://a.b"] []).ok = true := by decide +kernel
  have hadded : "http://a.b" ∈ urlsOf lowerAscii ["hola http://a.b"] := by decide +kernel
  have hmissing : "http://a.b" ∉ urlsOf lowerAscii ["hello"] := by decide +kernel
  intro h
  exact hmissing (((h hok).urls _).2 hadded)

end Checks

end LanguageLlm.MtCore
