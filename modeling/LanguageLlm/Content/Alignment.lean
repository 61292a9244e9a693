import LanguageLlm.Content.Isolation
import LanguageLlm.Lib.StableSort

/-!
# Translations stay beside their cues

The script keeps the translations by index, and every handler that writes the cues or the
translations leaves the other list as it is. `aligned_of_matches` says when no translation comes to
stand beside another cue's text.
-/

namespace LanguageLlm.Content

open Lib Protocol MtCore Lyrics

/-! ## The claim and the condition -/

/-- Each text is a translation of the cue at its index. -/
def Beside (drafts : List Draft) (cues : List HeldCue) : Prop :=
  ∀ (i : Nat) (d : Draft) (c : HeldCue), drafts[i]? = some d → cues[i]? = some c → d.text ≠ "" →
    d.source.text = c.text

/-- And so is each text of a transcript. -/
def Published (transcript : Option Transcript) : Prop :=
  ∀ t, transcript = some t → ∀ item ∈ t.items, ∀ d, item.translationText = some d →
    d.source.text = item.text

/-- The translations stand beside the cues that they are translations of, also in the frame and in
the transcript. -/
structure Aligned (s : Script) : Prop where
  beside : ∀ t, s.timeline = some t → Beside s.translationTexts t.cues
  shown : ∀ t, s.timeline = some t → ∀ c ∈ t.cues, ∀ d, s.translationOf t c = some d →
    d.source.text = c.text
  published : Published s.transcript

def DistinctIds (cues : List HeldCue) : Prop := (cues.map fun c => c.id).Nodup

/-- The drafts are blocked, or are translations of the cues at their indices. -/
def Host.Matches (host : Host) (timeline : HeldTimeline) (drafts : List Draft) : Prop :=
  host.blocks timeline.texts drafts = true ∨ Beside drafts timeline.cues

/-- The cues whose texts were sent are still at their indices, and the reply translates the texts by
index; when there is no reply and no development draft, nothing is shown. -/
def ReplyMatches (host : Host) (cues : List HeldCue) (texts : List SourceText)
    (reply : Option (List TranslationCue)) :
    Prop :=
  (reply = none ∧ host.isDevelopmentMtFallbackAllowed = false) ∨
    (∀ (i : Nat) (x : SourceText) (c : HeldCue), texts[i]? = some x → cues[i]? = some c →
      x.text = c.text) ∧
      ∀ answer, reply = some answer → ∀ (i : Nat) (d : Draft) (x : SourceText),
        (draftsOf texts answer)[i]? = some d → texts[i]? = some x → d.source.text = x.text

/-- Every merged cue gets a place where no other cue's translation stands. -/
def MergeMatches (drafts : List Draft) (held incoming : List HeldCue) : Prop :=
  ∀ before c after, byId held incoming = before ++ c :: after →
    ∀ d, drafts[place (fun c : HeldCue => c.startMs) before c after]? = some d → d.text ≠ "" →
      d.source.text = c.text

def Outcome.Matches (host : Host) (s : Script) (run : CaptionRun) : Outcome → Prop
  | hydrated res => ∀ stored, res.stored = some stored → DistinctIds (hold stored).cues ∧
      match res.cues with
      | some cues => host.Matches (hold stored) (draftsOf (hold stored).texts cues)
      | none => Beside s.translationTexts (hold stored).cues
  | fetched cues | events cues =>
    let live := hold (timelineFromCues run.id (cues.getD []) .autoCaption)
    DistinctIds live.cues ∧ Beside s.translationTexts live.cues
  | translated reply => ∀ texts, run.awaiting = .translate texts → ∀ t, s.timeline = some t →
      ReplyMatches host t.cues texts reply
  | bridged _ | fixtures _ | rejected => True

def CompanionEvent.Matches (host : Host) (s : Script) : CompanionEvent → Prop
  | timelineSource incoming => incoming.cues ≠ [] →
      match s.timeline.filter fun t => t.cues ≠ [] with
      | some t => MergeMatches s.translationTexts t.cues (hold incoming).cues
      | none => DistinctIds (hold incoming).cues ∧ Beside s.translationTexts (hold incoming).cues
  | timelineTranslation cues => ∀ t, s.timeline = some t → host.Matches t (draftsOf t.texts cues)
  | jobProgress .. | error .. => True

/-- The event leaves beside every cue no translation of another one: cues come where the
translations are of them, drafts come for the cues that are held, and the identifiers of a timeline
are distinct. -/
def ScriptEvent.Matches (host : Host) (s : Script) : ScriptEvent → Prop
  | resumed i _ outcome => ∀ run, s.runs[i]?.join = some run → outcome.Matches host s run
  | companion event => event.Matches host s
  | importLyrics videoId href format content => s.timeline = none →
      let id := (videoId <|> s.videoId <|> host.extractVideoId href).getD "import"
      let lyrics := hold (resolveImportedLyrics host id format content)
      DistinctIds lyrics.cues ∧ Beside s.translationTexts lyrics.cues
  | navigate _ | applyLrc .. | confirmCandidate .. | confirmLyrics _ | setSyncOffset _ | setEmpty _
  | toggle .. | transcribeTab | tick _ => True

/-! ## What is kept -/

section Kept

variable {host : Host} {s s' : Script} {texts : List SourceText} {drafts : List Draft}

/-- The cues that are held have distinct identifiers, and the translations stand beside them. -/
structure Stands (s : Shown) : Prop where
  ids : ∀ t, s.timeline = some t → DistinctIds t.cues
  beside : ∀ t, s.timeline = some t → Beside s.translationTexts t.cues

structure Kept (s : Script) : Prop where
  stands : Stands s.shown
  published : Published s.transcript

/-- The frame takes the translation of the cue itself. -/
theorem findIdx_of_distinct {cues : List HeldCue} (h : DistinctIds cues) {c : HeldCue} {i : Nat}
    (hc : cues[i]? = some c) : cues.findIdx (fun c' => c'.id = c.id) = i := by
  obtain ⟨hi, rfl⟩ := List.getElem?_eq_some_iff.1 hc
  rw [List.findIdx_eq hi]
  refine ⟨by simp, fun j hj => ?_⟩
  rw [decide_eq_false_iff_not]
  intro hid
  have hlt : j < (cues.map fun c => c.id).length := by rw [List.length_map]; omega
  have hlt' : i < (cues.map fun c => c.id).length := by rw [List.length_map]; omega
  have hboth : (cues.map fun c => c.id)[j] = (cues.map fun c => c.id)[i] := by simpa using hid
  have hsame : j = i := h.getElem_inj_iff.1 hboth
  omega

theorem Kept.aligned (h : Kept s) : Aligned s where
  beside := h.stands.beside
  shown := by
    intro t ht c hc d hd
    obtain ⟨i, hi⟩ := List.mem_iff_getElem?.1 hc
    obtain ⟨hdraft, hne⟩ := Option.filter_eq_some_iff.1 hd
    rw [findIdx_of_distinct (h.stands.ids t ht) hi] at hdraft
    exact h.stands.beside t ht i d c hdraft hi (by simpa using hne)
  published := h.published

/-- What is published of translations that stand beside the cues. -/
theorem published_publishTranscript {activeCueId : Option String} (h : Stands s.shown) :
    Published (s.publishTranscript activeCueId).transcript := by
  intro t ht item hitem d hd
  unfold Script.publishTranscript at ht
  split at ht
  · cases ht
    cases hitem
  · next timeline htimeline =>
    cases ht
    obtain ⟨i, hi, rfl⟩ := List.mem_mapIdx.1 hitem
    obtain ⟨hdraft, hne⟩ := Option.filter_eq_some_iff.1 hd
    exact h.beside timeline htimeline i d _ hdraft (List.getElem?_eq_getElem hi)
      (by simpa using hne)

/-- A step that publishes what it leaves. -/
theorem Kept.publish {s₁ : Script} {activeCueId : Option String} (h : Stands s'.shown)
    (hshown : s₁.shown = s'.shown)
    (htranscript : s'.transcript = (s₁.publishTranscript activeCueId).transcript) : Kept s' :=
  ⟨h, htranscript ▸ published_publishTranscript (hshown ▸ h)⟩

theorem Kept.congr (h : Kept s) (hshown : s'.shown = s.shown)
    (htranscript : s'.transcript = s.transcript) : Kept s' :=
  ⟨hshown ▸ h.stands, htranscript ▸ h.published⟩

theorem stands_of_timeline {t : HeldTimeline} {shown : Shown} (htimeline : shown.timeline = some t)
    (hids : DistinctIds t.cues) (hbeside : Beside shown.translationTexts t.cues) :
    Stands shown where
  ids _ ht' := Option.some.inj (htimeline.symm.trans ht') ▸ hids
  beside _ ht' := Option.some.inj (htimeline.symm.trans ht') ▸ hbeside

/-! ## Drafts -/

/-- Each draft is a translation of the text at its index. -/
def Translates (drafts : List Draft) (texts : List SourceText) : Prop :=
  ∀ (i : Nat) (d : Draft), drafts[i]? = some d → ∃ x, texts[i]? = some x ∧ d.source.text = x.text

theorem translates_mockDrafts (texts : List SourceText) : Translates (mockDrafts texts) texts := by
  intro i d hd
  rw [mockDrafts, List.getElem?_zipWith] at hd
  split at hd
  · next text source _ hsource =>
    cases hd
    exact ⟨source, hsource, rfl⟩
  · cases hd

/-- Drafts that are shown in place of `drafts` are translations of the texts. -/
theorem translates_accepted (h : host.blocks texts drafts = true ∨ Translates drafts texts) :
    Translates (accepted host texts drafts) texts := by
  unfold accepted
  split
  · split
    · exact translates_mockDrafts texts
    · intro i d hd
      cases hd
  · next hpasses => exact h.resolve_left hpasses

theorem translates_reviewed {reviewedTexts : List String}
    (h : ∀ (i : Nat) (d : Draft) (x : SourceText), drafts[i]? = some d → texts[i]? = some x →
      d.source.text = x.text) :
    Translates (Script.reviewed texts drafts reviewedTexts) texts := by
  intro i d hd
  rw [Script.reviewed, List.getElem?_mapIdx] at hd
  obtain ⟨⟨text, x⟩, hzip, rfl⟩ := Option.map_eq_some_iff.1 hd
  have hx : texts[i]? = some x := (List.getElem?_zip_eq_some.1 hzip).2
  refine ⟨x, hx, ?_⟩
  dsimp only
  cases hdraft : drafts[i]? with
  | none => rfl
  | some draft => exact h i draft x hdraft hx

theorem beside_of_translates (texts : List SourceText) {cues : List HeldCue}
    (h : Translates drafts texts)
    (htexts : ∀ (i : Nat) (x : SourceText) (c : HeldCue), texts[i]? = some x → cues[i]? = some c →
      x.text = c.text) :
    Beside drafts cues := by
  intro i d c hd hc _
  obtain ⟨x, hx, hsource⟩ := h i d hd
  exact hsource.trans (htexts i x c hx hc)

theorem texts_getElem? {t : HeldTimeline} {i : Nat} :
    t.texts[i]? = (t.cues[i]?).map HeldCue.source :=
  List.getElem?_map ..

/-- What is shown of drafts for the cues that are held stands beside them. -/
theorem beside_accepted {t : HeldTimeline} (h : host.Matches t drafts) :
    Beside (accepted host t.texts drafts) t.cues := by
  unfold accepted
  split
  · refine beside_of_translates t.texts ?_ ?_
    · split
      · exact translates_mockDrafts t.texts
      · intro i d hd
        cases hd
    · intro i x c hx hc
      rw [texts_getElem?, hc] at hx
      cases hx
      rfl
  · next hpasses => exact h.resolve_left hpasses

end Kept

/-! ## Handlers -/

section Handlers

variable {host : Host} {s s' : Script} {run : CaptionRun} {title : String}

theorem transcript_offerLyrics (s : Script) (host : Host) (run : CaptionRun) (title : String) :
    (s.offerLyrics host run title).transcript = s.transcript := by
  unfold Script.offerLyrics
  split <;> rfl

theorem transcript_showEmpty (s : Script) (restoredCueCount : Nat) (statusMessage : Option String) :
    (s.showEmpty restoredCueCount statusMessage).transcript = s.transcript := by
  unfold Script.showEmpty
  split <;> rfl

theorem transcript_routeSource (s : Script) (host : Host) (run : CaptionRun) (title : String)
    (restoredCueCount : Nat) (tracks : List CaptionTrackMeta) :
    (s.routeSource host run title restoredCueCount tracks).1.transcript = s.transcript := by
  unfold Script.routeSource
  split
  · dsimp only
    split <;> rfl
  · exact (transcript_offerLyrics ..).trans (transcript_showEmpty ..)
  · exact (transcript_offerLyrics ..).trans (transcript_showEmpty ..)

theorem kept_hydrated {res : Hydrated} (h : Kept s)
    (hmatches : Outcome.Matches host s run (.hydrated res)) :
    Kept (s.applyHydratedCompanionState host res) := by
  cases hstored : res.stored with
  | none =>
    rw [hydrated_none hstored]
    exact h
  | some stored =>
    obtain ⟨hids, hbeside⟩ := hmatches stored hstored
    obtain ⟨s₁, hs₁, hshown⟩ := shown_hydrated s host hstored
    have hpublish : ∃ s₂ : Script, s₂.shown = (s.applyHydratedCompanionState host res).shown ∧
        (s.applyHydratedCompanionState host res).transcript =
          (s₂.publishTranscript none).transcript := by
      unfold Script.applyHydratedCompanionState
      rw [hstored]
      exact ⟨_, (Script.shown_publishTranscript ..).symm, rfl⟩
    obtain ⟨s₂, hs₂, htranscript⟩ := hpublish
    refine Kept.publish ?_ hs₂ htranscript
    rw [hshown]
    cases hcues : res.cues with
    | none =>
      rw [hcues] at hbeside
      dsimp only
      rw [hs₁]
      exact stands_of_timeline rfl hids hbeside
    | some cues =>
      rw [hcues] at hbeside
      dsimp only
      rw [shown_applyTranslationTexts, hs₁]
      exact stands_of_timeline rfl hids (beside_accepted hbeside)

theorem kept_loaded {restoredCueCount : Nat} {track : CaptionTrackMeta} {cues : List Cue}
    (h : Kept s) (hids : DistinctIds (hold (timelineFromCues run.id cues .autoCaption)).cues)
    (hbeside : Beside s.translationTexts (hold (timelineFromCues run.id cues .autoCaption)).cues) :
    Kept (s.loaded host run title restoredCueCount track cues).1 := by
  unfold Script.loaded
  split
  · exact ⟨stands_of_timeline rfl hids hbeside, h.published⟩
  · exact h.congr ((shown_offerLyrics ..).trans (shown_showEmpty ..))
      ((transcript_offerLyrics ..).trans (transcript_showEmpty ..))

/-- What the review leaves of drafts that translate the texts. -/
theorem translates_review {texts : List SourceText} {mtProvisional : Bool}
    {mtReason : Option ProvisionalReason}
    (h : ∀ (i : Nat) (d : Draft) (x : SourceText), s.translationTexts[i]? = some d →
      texts[i]? = some x →
      d.source.text = x.text) :
    Translates (s.review host texts mtProvisional mtReason).translationTexts texts := by
  by_cases htexts : s.translationTexts = []
  · rw [review_of_nil htexts, htexts]
    intro i d hd
    cases hd
  · obtain ⟨reviewedTexts, hshown⟩ := shown_review host texts mtProvisional mtReason htexts
    have htranslations := congrArg Shown.translationTexts hshown
    dsimp only at htranslations
    change (s.review host texts mtProvisional mtReason).translationTexts = _ at htranslations
    rw [htranslations]
    exact translates_accepted (Or.inr (translates_reviewed h))

/-- Drafts that are shown in place of ones that translate the texts, where there is a text. -/
theorem accepted_source {texts : List SourceText} {drafts : List Draft}
    (h : ∀ (i : Nat) (d : Draft) (x : SourceText), drafts[i]? = some d → texts[i]? = some x →
      d.source.text = x.text)
    {i : Nat} {d : Draft} {x : SourceText} (hd : (accepted host texts drafts)[i]? = some d)
    (hx : texts[i]? = some x) :
    d.source.text = x.text := by
  unfold accepted at hd
  split at hd
  · split at hd
    · obtain ⟨x', hx', hsource⟩ := translates_mockDrafts texts i d hd
      rwa [Option.some.inj (hx.symm.trans hx')]
    · cases hd
  · exact h i d x hd hx

theorem review_timeline {texts : List SourceText} {mtProvisional : Bool}
    {mtReason : Option ProvisionalReason} :
    (s.review host texts mtProvisional mtReason).timeline = s.timeline := by
  by_cases htexts : s.translationTexts = []
  · rw [review_of_nil htexts]
  · obtain ⟨_, hshown⟩ := shown_review host texts mtProvisional mtReason htexts
    exact congrArg Shown.timeline hshown

theorem applyReply_timeline {texts : List SourceText} {reply : Option (List TranslationCue)} :
    (s.applyReply host texts reply).1.timeline = s.timeline := by
  unfold Script.applyReply
  split
  · exact applyTranslationTexts_timeline
  · split
    · exact applyTranslationTexts_timeline
    · rfl

/-- What is shown of a reply translates the texts. -/
theorem translates_applyReply {cues : List HeldCue} {texts : List SourceText}
    {reply : Option (List TranslationCue)}
    (h : ReplyMatches host cues texts reply) {i : Nat} {d : Draft} {x : SourceText}
    (hd : (s.applyReply host texts reply).1.translationTexts[i]? = some d)
    (hx : texts[i]? = some x) :
    d.source.text = x.text := by
  unfold Script.applyReply at hd
  cases reply with
  | some answer =>
    have hanswer : ∀ (i : Nat) (d : Draft) (x : SourceText), (draftsOf texts answer)[i]? = some d →
      texts[i]? = some x →
        d.source.text = x.text := by
      rcases h with ⟨hnone, -⟩ | ⟨-, hmatches⟩
      · cases hnone
      · exact hmatches answer rfl
    dsimp only at hd
    rw [applyTranslationTexts_texts] at hd
    exact accepted_source hanswer hd hx
  | none =>
    dsimp only at hd
    split at hd
    · rw [applyTranslationTexts_texts] at hd
      refine accepted_source (fun i d x hd hx => ?_) hd hx
      obtain ⟨x', hx', hsource⟩ := translates_mockDrafts texts i d hd
      rwa [Option.some.inj (hx.symm.trans hx')]
    · cases hd

/-- Without a reply and a development draft nothing is shown. -/
theorem texts_unanswered {texts : List SourceText}
    (hdev : host.isDevelopmentMtFallbackAllowed = false) :
    (s.translated host run title texts none).translationTexts = [] := by
  have hshown := congrArg Shown.translationTexts (shown_translated s host run title texts none)
  have hreply : (s.applyReply host texts none).1.translationTexts = [] := by
    unfold Script.applyReply
    simp only [hdev]
    rfl
  rw [review_of_nil hreply] at hshown
  exact hshown.trans hreply

theorem kept_translated {texts : List SourceText} {reply : Option (List TranslationCue)}
    (h : Kept s) (hmatches : ∀ t, s.timeline = some t → ReplyMatches host t.cues texts reply) :
    Kept (s.translated host run title texts reply) := by
  have hpublish : ∃ s₁ : Script, s₁.shown = (s.translated host run title texts reply).shown ∧
      (s.translated host run title texts reply).transcript =
        (s₁.publishTranscript none).transcript := by
    rw [shown_translated]
    unfold Script.translated
    dsimp only
    rw [transcript_offerLyrics]
    exact ⟨_, rfl, rfl⟩
  obtain ⟨s₁, hs₁, htranscript⟩ := hpublish
  refine Kept.publish ?_ hs₁ htranscript
  have htimeline : (s.translated host run title texts reply).timeline = s.timeline :=
    (congrArg Shown.timeline (shown_translated s host run title texts reply)).trans
      (review_timeline.trans applyReply_timeline)
  have hdistinct : ∀ t, (s.translated host run title texts reply).timeline = some t →
      DistinctIds t.cues :=
    fun t ht => h.stands.ids t (htimeline.symm.trans ht)
  refine ⟨hdistinct, fun t ht => ?_⟩
  change Beside (s.translated host run title texts reply).translationTexts t.cues
  have hreply := hmatches t (htimeline.symm.trans ht)
  rcases hreply with ⟨rfl, hdev⟩ | hreply
  · rw [texts_unanswered hdev]
    intro i d c hd
    cases hd
  · refine beside_of_translates texts ?_ hreply.1
    have hshown := congrArg Shown.translationTexts (shown_translated s host run title texts reply)
    change (s.translated host run title texts reply).translationTexts = _ at hshown
    rw [hshown]
    exact translates_review fun i d x hd hx => translates_applyReply (Or.inr hreply) hd hx

/-- Merged cues get places where no other cue's translation stands. -/
theorem beside_mergedCues {drafts : List Draft} {held incoming : List HeldCue}
    (h : MergeMatches drafts held incoming) : Beside drafts (mergedCues held incoming) := by
  intro i d c hd hc hne
  obtain ⟨before, after, hsplit, rfl⟩ := place_of_insertionSort hc
  exact h before c after hsplit d hd hne

theorem distinctIds_mergedCues (held incoming : List HeldCue) :
    DistinctIds (mergedCues held incoming) :=
  ((List.perm_insertionSort _ _).map _).nodup_iff.2 (nodup_byId held incoming)

theorem kept_companion {event : CompanionEvent} (h : Kept s) (hmatches : event.Matches host s) :
    Kept (s.companionEvent host event) := by
  cases event with
  | timelineSource incoming =>
    have hpublish :
      ∃ s₁ : Script, s₁.shown = (s.companionEvent host (.timelineSource incoming)).shown ∧
        (s.companionEvent host (.timelineSource incoming)).transcript =
          (s₁.publishTranscript none).transcript :=
      ⟨_, (Script.shown_publishTranscript ..).symm, rfl⟩
    obtain ⟨s₁, hs₁, htranscript⟩ := hpublish
    refine Kept.publish ?_ hs₁ htranscript
    rw [shown_timelineSource]
    rw [CompanionEvent.Matches] at hmatches
    unfold Script.mergeAsrTimeline
    split
    · exact h.stands
    · next hne =>
      have hmatches := hmatches hne
      cases hheld : s.timeline.filter fun t => t.cues ≠ [] with
      | some t =>
        simp only [hheld] at hmatches ⊢
        exact stands_of_timeline rfl (distinctIds_mergedCues ..) (beside_mergedCues hmatches)
      | none =>
        simp only [hheld] at hmatches ⊢
        exact stands_of_timeline rfl hmatches.1 hmatches.2
  | timelineTranslation cues =>
    rw [CompanionEvent.Matches] at hmatches
    simp only [Script.companionEvent]
    cases htimeline : s.timeline with
    | none => exact h
    | some t =>
      dsimp only
      refine Kept.publish ?_ (Script.shown_publishTranscript ..).symm rfl
      rw [Script.shown_publishTranscript, shown_applyTranslationTexts]
      exact stands_of_timeline htimeline (h.stands.ids t htimeline)
        (beside_accepted (hmatches t htimeline))
  | jobProgress status message =>
    simp only [Script.companionEvent]
    split
    · exact h
    · exact h.congr rfl rfl
  | error message code => exact h.congr rfl rfl

theorem kept_importLyrics {videoId : Option String} {href : String} {format : LyricsFormat}
    {content : String}
    (h : Kept s)
    (hmatches : ScriptEvent.Matches host s (.importLyrics videoId href format content)) :
    Kept (s.importLyrics host videoId href format content) := by
  rw [ScriptEvent.Matches] at hmatches
  refine ⟨?_, h.published⟩
  cases htimeline : s.timeline with
  | some t =>
    have hshown : (s.importLyrics host videoId href format content).timeline = some t := by
      simp only [Script.importLyrics, Script.update, htimeline]
      rfl
    exact stands_of_timeline hshown (h.stands.ids t htimeline) (h.stands.beside t htimeline)
  | none =>
    obtain ⟨hids, hbeside⟩ := hmatches htimeline
    have hshown : (s.importLyrics host videoId href format content).timeline =
        some (hold (resolveImportedLyrics host
          ((videoId <|> s.videoId <|> host.extractVideoId href).getD "import") format
          content)) := by
      simp only [Script.importLyrics, Script.update, htimeline]
      rfl
    exact stands_of_timeline hshown hids hbeside

/-- A navigation clears the cues and the translations, or leaves both. -/
theorem kept_navigate {href : String} (h : Kept s) (hstep : s.navigate host href = some s') :
    Kept s' := by
  unfold Script.navigate at hstep
  split at hstep
  · cases hstep
  · dsimp only at hstep
    split at hstep
    · cases hstep
      exact ⟨⟨h.stands.ids, h.stands.beside⟩, h.published⟩
    · cases hstep
      refine ⟨⟨nofun, nofun⟩, ?_⟩
      intro t ht item hitem
      cases ht
      cases hitem

theorem kept_tick {currentTimeMs : Option Int} (h : Kept s) : Kept (s.tick currentTimeMs) := by
  have htranscript : (s.tick currentTimeMs).transcript = s.transcript ∨
    ∃ (s₁ : Script) (activeCueId : Option String),
      s₁.shown = s.shown ∧
        (s.tick currentTimeMs).transcript = (s₁.publishTranscript activeCueId).transcript := by
    unfold Script.tick
    split
    · dsimp only
      split
      · refine Or.inr ⟨_, _, ?_, rfl⟩
        rfl
      · exact Or.inl rfl
    · split
      · exact Or.inl rfl
      · exact Or.inl rfl
  rcases htranscript with hsame | ⟨s₁, activeCueId, hs₁, hpublish⟩
  · exact h.congr (Script.shown_tick ..) hsame
  · refine Kept.publish ?_ (hs₁.trans (Script.shown_tick ..).symm) hpublish
    rw [Script.shown_tick]
    exact h.stands

theorem kept_confirmLyrics {href : String} (h : Kept s) : Kept (s.confirmLyrics host href) := by
  unfold Script.confirmLyrics
  dsimp only
  split
  · exact ⟨⟨h.stands.ids, h.stands.beside⟩, h.published⟩
  · split
    · exact ⟨⟨h.stands.ids, h.stands.beside⟩, h.published⟩
    · exact h

theorem kept_resume {outcome : Outcome} {awaiting : Option Awaiting} (h : Kept s)
    (hstep : run.resume host title s outcome = some (s', awaiting))
    (hmatches : outcome.Matches host s run) :
    Kept s' := by
  cases outcome with
  | hydrated res =>
    simp only [CaptionRun.resume] at hstep
    split at hstep <;> cases hstep
    exact kept_hydrated h hmatches
  | bridged tracks =>
    simp only [CaptionRun.resume] at hstep
    split at hstep <;> cases hstep
    exact h
  | fixtures tracks =>
    simp only [CaptionRun.resume] at hstep
    split at hstep
    · have hs := congrArg Prod.fst (Option.some.inj hstep)
      subst hs
      exact h.congr (shown_routeSource ..) (transcript_routeSource ..)
    · cases hstep
  | fetched cues =>
    simp only [CaptionRun.resume] at hstep
    split at hstep
    · have hs := congrArg Prod.fst (Option.some.inj hstep)
      subst hs
      exact kept_loaded h hmatches.1 hmatches.2
    · cases hstep
      exact h
    · cases hstep
  | events cues =>
    simp only [CaptionRun.resume] at hstep
    split at hstep
    · have hs := congrArg Prod.fst (Option.some.inj hstep)
      subst hs
      exact kept_loaded h hmatches.1 hmatches.2
    · cases hstep
  | translated reply =>
    simp only [CaptionRun.resume] at hstep
    split at hstep
    · next texts hawaiting =>
      cases hstep
      exact kept_translated h (hmatches texts hawaiting)
    · cases hstep
  | rejected =>
    simp only [CaptionRun.resume] at hstep
    split at hstep <;> cases hstep <;> exact h

theorem kept_step {e : ScriptEvent} (h : Kept s) (hmatches : e.Matches host s)
    (hstep : s.step host e = some s') :
    Kept s' := by
  cases e with
  | navigate href => exact kept_navigate h hstep
  | resumed i title outcome =>
    simp only [Script.step] at hstep
    split at hstep
    · next run hrun =>
      obtain ⟨⟨s₁, awaiting⟩, hresume, rfl⟩ := Option.map_eq_some_iff.1 hstep
      exact (kept_resume h hresume (hmatches run hrun)).congr rfl rfl
    · cases hstep
  | companion event =>
    cases hstep
    exact kept_companion h hmatches
  | importLyrics videoId href format content =>
    cases hstep
    exact kept_importLyrics h hmatches
  | confirmLyrics href =>
    cases hstep
    exact kept_confirmLyrics h
  | tick currentTimeMs =>
    cases hstep
    exact kept_tick h
  | applyLrc | confirmCandidate | setSyncOffset | setEmpty | toggle | transcribeTab =>
    cases hstep
    exact ⟨⟨h.stands.ids, h.stands.beside⟩, h.published⟩

end Handlers

/-! ## Every run -/

theorem kept_fresh : Kept .fresh := ⟨⟨nofun, nofun⟩, nofun⟩

/-- The translations stand beside their cues after every run whose events match what is held. -/
theorem aligned_of_matches {host : Host} {h : List (Fired Script ScriptEvent)} {s : Script}
    (hr : Run (Script.step host) .fresh h s) (hmatches : ∀ f ∈ h, f.label.Matches host f.pre) :
    Aligned s := by
  refine Kept.aligned ?_
  apply hr.invWhen (fun f => f.label.Matches host f.pre) (fun _ s => Kept s) kept_fresh
  · intro _ s e s' _ hkept hevent hstep
    exact kept_step hkept hevent hstep
  · exact hmatches

/-! ## One video -/

/-- The event is one of the video. -/
def ScriptEvent.OfVideo (host : Host) (videoId : String) : ScriptEvent → Prop
  | navigate href => host.extractVideoId href = some videoId
  | resumed _ _ (.hydrated res) => ∀ t, res.timeline = some t → t.videoId = videoId
  | companion (.timelineSource t) => t.videoId = videoId
  | importLyrics id _ _ _ => ∀ other, id = some other → other = videoId
  | _ => True

def storedTranslation : List TranslationCue :=
  [{ text := some "one"
     provisional := false
     source := { text := "eins", video := "aaaaaaaaaaa" } }]

/-- A stored timeline with its translation is restored, and then the companion sends a cue. -/
def pushedCue (startMs : Int) : List ScriptEvent :=
  [.navigate "https://www.youtube.com/watch?v=aaaaaaaaaaa",
    .resumed 0 "" (.hydrated
      { ok := true, timeline := some storedTimeline, translation := some storedTranslation }),
    .companion (.timelineSource { storedTimeline with
      cues := [{ id := "c-1", startMs := startMs, endMs := startMs + 900, text := "null",
                 provenance := .asr }] })]

theorem exec_pushedCue : ∀ startMs ∈ [-1000, (1000 : Int)], ∃ h s,
    exec (Script.step twoVideos) .fresh (pushedCue startMs) = some (h, s) ∧
      (h.map fun f => (f.pre.timeline, f.pre.translationTexts)) =
        [(some (hold storedTimeline),
            [{ text := "one", source := { text := "eins", video := "aaaaaaaaaaa" } }]),
          (none, []), (none, [])] ∧
      s.translationTexts =
        [{ text := "one", source := { text := "eins", video := "aaaaaaaaaaa" } }] ∧
      (s.timeline.map fun t => t.cues.map fun c => c.text) =
        some (if startMs < 0 then ["null", "eins"] else ["eins", "null"]) := by
  intro startMs hstart
  have hend : (exec (Script.step twoVideos) .fresh (pushedCue startMs)).map
      (fun p => (p.1.map fun f => (f.pre.timeline, f.pre.translationTexts), p.2.translationTexts,
        p.2.timeline.map fun t => t.cues.map fun c => c.text)) =
      some ([(some (hold storedTimeline),
        [{ text := "one", source := { text := "eins", video := "aaaaaaaaaaa" } }]),
          (none, []), (none, [])],
            [{ text := "one", source := { text := "eins", video := "aaaaaaaaaaa" } }],
        some (if startMs < 0 then ["null", "eins"] else ["eins", "null"])) := by
    rcases List.mem_pair.1 hstart with rfl | rfl
    · decide +kernel
    · decide +kernel
  obtain ⟨⟨h, s⟩, hexec, hp⟩ := Option.map_eq_some_iff.1 hend
  simp only [Prod.mk.injEq] at hp
  exact ⟨h, s, hexec, hp⟩

/-- A merge of two cues, of which the first is translated and stays the first. -/
theorem mergeMatches_pair {d : Draft} {held incoming : List HeldCue} {c c' : HeldCue}
    (hby : byId held incoming = [c, c']) (hlater : c.startMs < c'.startMs)
    (hsource : d.source.text = c.text) :
    MergeMatches [d] held incoming := by
  intro before x after hsplit d' hd' _
  rw [hby] at hsplit
  match before with
  | [] =>
    obtain ⟨rfl, rfl⟩ := List.cons.inj hsplit
    rw [place, List.countP_nil, List.countP_singleton, if_neg (by simpa using hlater.le)] at hd'
    cases hd'
    exact hsource
  | [b] =>
    obtain ⟨rfl, hrest⟩ := List.cons.inj hsplit
    obtain ⟨rfl, rfl⟩ := List.cons.inj hrest
    rw [place, List.countP_singleton, if_pos (by simpa using hlater.le)] at hd'
    cases hd'
  | b :: b' :: before => simp at hsplit

theorem aligned_of_matches_pushed :
    ∃ h s, exec (Script.step twoVideos) .fresh (pushedCue 1000) = some (h, s) ∧ Aligned s := by
  obtain ⟨h, s, hexec, hpre, -, -⟩ := exec_pushedCue 1000 (by simp)
  refine ⟨h, s, hexec, aligned_of_matches (exec_run hexec) ?_⟩
  have hlabels := exec_labels hexec
  obtain ⟨f₃, h, rfl, hpushed, hrest⟩ := List.map_eq_cons_iff.1 hlabels
  obtain ⟨f₂, h, rfl, hhydrated, hrest⟩ := List.map_eq_cons_iff.1 hrest
  obtain ⟨f₁, h, rfl, hnavigate, hrest⟩ := List.map_eq_cons_iff.1 hrest
  obtain rfl := List.map_eq_nil_iff.1 hrest
  simp only [List.map_cons, List.cons.injEq, Prod.mk.injEq] at hpre
  obtain ⟨⟨htimeline, htexts⟩, -⟩ := hpre
  simp only [List.forall_mem_cons]
  refine ⟨?_, ?_, ?_, List.forall_mem_nil _⟩
  · rw [hpushed, ScriptEvent.Matches, CompanionEvent.Matches, htimeline, htexts]
    intro _
    exact mergeMatches_pair rfl (by decide) rfl
  · rw [hhydrated, ScriptEvent.Matches]
    intro run _ stored hstored
    obtain rfl : storedTimeline = stored := Option.some.inj hstored
    refine ⟨List.nodup_singleton _, Or.inr ?_⟩
    intro i d c hd hc _
    match i with
    | 0 =>
      cases hd
      cases hc
      rfl
    | i + 1 => cases hd
  · rw [hnavigate]
    trivial

/-- A cue that starts before the held ones takes the place of the first, whose translation stays
where it was. -/
theorem not_aligned : ¬ ∀ (host : Host) (videoId : String) (h : List (Fired Script ScriptEvent))
    (s : Script),
    Run (Script.step host) .fresh h s → (∀ f ∈ h, f.label.OfVideo host videoId) → Aligned s := by
  intro hall
  obtain ⟨h, s, hexec, -, htexts, hcues⟩ := exec_pushedCue (-1000) (by simp)
  have hlabels := exec_labels hexec
  have hof : ∀ f ∈ h, f.label.OfVideo twoVideos "aaaaaaaaaaa" := by
    intro f hf
    have hmem : f.label ∈ (pushedCue (-1000)).reverse := hlabels ▸ List.mem_map_of_mem hf
    have hevents : ∀ e ∈ (pushedCue (-1000)).reverse, e.OfVideo twoVideos "aaaaaaaaaaa" := by
      simp [pushedCue, ScriptEvent.OfVideo, twoVideos, storedTimeline]
    exact hevents _ hmem
  obtain ⟨t, ht, hcues⟩ := Option.map_eq_some_iff.1 hcues
  have hbeside := (hall twoVideos _ h s (exec_run hexec) hof).beside t ht
  rw [htexts] at hbeside
  match hheld : t.cues with
  | [] =>
    rw [hheld] at hcues
    cases hcues
  | c :: cues =>
    rw [hheld] at hcues hbeside
    have htext : c.text = "null" := (List.cons.inj hcues).1
    have hsource := hbeside 0 _ c rfl rfl (by decide)
    rw [htext] at hsource
    exact absurd hsource (by decide)

end LanguageLlm.Content
