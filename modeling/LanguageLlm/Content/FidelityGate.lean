import LanguageLlm.Content.Isolation
import LanguageLlm.MtCore.Faithful

/-!
# Only texts that pass are shown

The drafts that a handler gives to `applyTranslationTexts` are shown when no critical check fails;
otherwise the mock draft takes their place, or nothing does. Neither it nor the visual review loses
a number or an address.
-/

namespace LanguageLlm.Content

open MtCore Protocol

variable {host : Host} {sources : List SourceText} {drafts : List Draft}

theorem not_blocks_iff : host.blocks sources drafts = false ↔
    MtCore.Kept host.toLowerCase (sources.map SourceText.text) (drafts.map Draft.text) := by
  have htexts : (sources.mapIdx fun i source =>
      ({ id := "c-" ++ toString i
         startMs := 0
         endMs := 1000
         text := source.text
         provenance := .humanCaption } : Cue)).map Cue.text = sources.map SourceText.text := by
    refine List.ext_getElem? fun i => ?_
    cases hi : sources[i]? <;> simp [hi]
  rw [Host.blocks, Host.fidelity, not_critical_iff, htexts]

theorem texts_mockDrafts (sources : List SourceText) :
    (mockDrafts sources).map Draft.text = mockMtDraft (sources.map SourceText.text) "en" := by
  unfold mockDrafts mockMtDraft
  induction sources with
  | nil => rfl
  | cons source sources ih =>
    rw [List.map_cons, List.map_cons, List.zipWith_cons_cons, List.map_cons, ih]

/-- What `applyTranslationTexts` shows is nothing or passes. -/
theorem accepted_passes (host : Host) (sources : List SourceText) (drafts : List Draft) :
    accepted host sources drafts = [] ∨
      host.blocks sources (accepted host sources drafts) = false := by
  unfold accepted
  split_ifs with hblocks
  · right
    rw [not_blocks_iff, texts_mockDrafts]
    exact kept_mockMtDraft _ _
  · exact Or.inl rfl
  · exact Or.inr (Bool.eq_false_iff.2 hblocks)

theorem carries_runVlmGate (sourceText draftText : String) (confidence : Rat)
    (profile : Profile) :
    Carries draftText (runVlmGate sourceText draftText confidence profile).1 := by
  rcases runVlmGate_text sourceText draftText confidence profile with htext | htext
  · rw [htext]
    exact Carries.refl _
  · have hmark : draftText ++ " [visual-ref]" = draftText ++ " " ++ "[visual-ref]" := by
      rw [String.append_assoc]
      rfl
    rw [htext, hmark]
    exact carries_append_right _ _

/-- The review adds to the drafts. -/
theorem carries_review {sources drafts : List String} (h : drafts.length = sources.length)
    (confidences : Option (List Rat)) (profile : Profile) :
    List.Forall₂ Carries drafts
      (applyVlmGateToDraftsWith sources drafts confidences profile).texts := by
  rw [List.forall₂_iff_get]
  refine ⟨by simp [applyVlmGateToDraftsWith, h], fun i hi hi' => ?_⟩
  have hsource : i < sources.length := h ▸ hi
  have htext : (applyVlmGateToDraftsWith sources drafts confidences profile).texts[i] =
      (runVlmGate sources[i] drafts[i]
        ((confidences.bind fun given => given[i]?).getD (1 / 2)) profile).1 := by
    simp [applyVlmGateToDraftsWith, hi]
  rw [List.get_eq_getElem, List.get_eq_getElem, htext]
  exact carries_runVlmGate _ _ _ _

/-- No text is shown that fails a critical check: the drafts that fail are replaced by a mock draft,
which passes, or by nothing, and the review does not make a draft fail. -/
theorem shown_texts_pass (host : Host) :
    (∀ (s : Script) (sources : List SourceText) (drafts : List Draft) (provisional : Bool)
        (reason : Option ProvisionalReason),
      (s.applyTranslationTexts host sources drafts provisional reason).translationTexts = [] ∨
        hasCriticalFidelityFailure (host.fidelity sources
          (s.applyTranslationTexts host sources drafts provisional reason).translationTexts) =
            false) ∧
      (∀ (cues : List Cue) (targetLang : String) (glossary : List GlossaryEntry),
        hasCriticalFidelityFailure (runFidelityChecks host.toLowerCase cues
          (mockMtDraft (cues.map Cue.text) targetLang) glossary) = false) ∧
      ∀ (cues : List Cue) (drafts : List String) (confidences : Option (List Rat))
        (profile : Profile) (glossary : List GlossaryEntry), drafts.length = cues.length →
        hasCriticalFidelityFailure (runFidelityChecks host.toLowerCase cues drafts glossary) =
          false →
        hasCriticalFidelityFailure (runFidelityChecks host.toLowerCase cues
          (applyVlmGateToDraftsWith (cues.map Cue.text) drafts confidences profile).texts
          glossary) = false := by
  refine ⟨fun s sources drafts provisional reason => ?_, fun cues targetLang glossary => ?_,
    fun cues drafts confidences profile glossary hlength hpasses => ?_⟩
  · rw [applyTranslationTexts_texts]
    exact accepted_passes host sources drafts
  · rw [not_critical_iff]
    exact kept_mockMtDraft _ _
  · rw [not_critical_iff] at hpasses ⊢
    exact hpasses.of_carries (carries_review (by rw [hlength, List.length_map]) confidences profile)

end LanguageLlm.Content
