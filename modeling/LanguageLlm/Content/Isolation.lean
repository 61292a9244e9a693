import LanguageLlm.Content.Handlers

/-!
# What the script shows is of the video of the page

A run of `runCaptionSmoke` that an earlier navigation started goes on after the next one, and writes
the same variables; nothing compares its video with that of the page. `isolated_iff` says in which
runs of the script all that is held is of the current video.
-/

namespace LanguageLlm.Content

open Lib Protocol MtCore Lyrics

/-! ## The claim and the condition -/

/-- The videos are all the given one. -/
def AllOf (videoId : Option String) (videos : List String) : Prop := ∀ v ∈ videos, videoId = some v

def sourceVideos (sources : List SourceText) : List String := sources.map SourceText.video

def draftVideos (drafts : List Draft) : List String := drafts.map fun d => d.source.video

/-- The timeline is empty or of the video, and the translations, the evidence and the lyrics were
made of its cues and lyrics. -/
structure IsolatedAt (videoId : Option String) (s : Shown) : Prop where
  timeline : ∀ t, s.timeline = some t → t.cues = [] ∨ videoId = some t.videoId
  translations : AllOf videoId (draftVideos s.translationTexts)
  evidence : AllOf videoId s.evidenceFrom
  lyrics : ∀ t, s.lyricsTimeline = some t → AllOf videoId (t.cues.map HeldCue.video)

def Isolated (s : Script) : Prop := IsolatedAt s.videoId s.shown

/-- The drafts are of the video, and so are the texts that they are checked against when evidence of
it is kept. -/
def AppliesOwn (host : Host) (videoId : Option String) (sources : List SourceText)
    (drafts : List Draft) (provisional : Bool) : Prop :=
  AllOf videoId (draftVideos drafts) ∧
    (provisional = true ∨ (host.fidelity sources drafts).ok = false →
      AllOf videoId (sourceVideos sources))

/-- The texts that were sent and the drafts of the reply are of the video, as far as they are used.
-/
def AnswersOwn (host : Host) (videoId : Option String) (texts : List SourceText) :
    Option (List TranslationCue) → Prop
  | none => host.isDevelopmentMtFallbackAllowed = true → AllOf videoId (sourceVideos texts)
  | some cues =>
    if host.blocks texts (draftsOf texts cues) then
      AllOf videoId (sourceVideos texts) ∧
        (host.isDevelopmentMtFallbackAllowed = false ∨ texts = [] →
          AllOf videoId (draftVideos (draftsOf texts cues)))
    else
      (draftsOf texts cues ≠ [] ∨ (host.fidelity texts (draftsOf texts cues)).ok = false →
        AllOf videoId (sourceVideos texts)) ∧ AllOf videoId (draftVideos (draftsOf texts cues))

/-- What a run goes on with is of the video of the page, wherever it is shown. -/
def Outcome.Own (host : Host) (s : Script) (run : CaptionRun) : Outcome → Prop
  | hydrated res => ∀ stored, res.stored = some stored → s.videoId = some stored.videoId ∧
      ∀ cues, res.cues = some cues →
        AllOf s.videoId (draftVideos (draftsOf (hold stored).texts cues))
  | fetched cues | events cues => cues.getD [] ≠ [] → s.videoId = some run.id
  | translated reply =>
    ∀ texts, run.awaiting = .translate texts → AnswersOwn host s.videoId texts reply
  | bridged _ | fixtures _ | rejected => True

def CompanionEvent.Own (host : Host) (s : Script) : CompanionEvent → Prop
  | timelineSource incoming =>
    incoming.cues = [] ∨ (∃ t, s.timeline = some t ∧ t.cues ≠ []) ∨
      s.videoId = some incoming.videoId
  | timelineTranslation cues => ∀ t, s.timeline = some t →
      AppliesOwn host s.videoId t.texts (draftsOf t.texts cues)
        (cues.any TranslationCue.provisional)
  | jobProgress .. | error .. => True

/-- What the event brings is of the video of the page, and a navigation to a page without a video
finds nothing of another one. -/
def ScriptEvent.Own (host : Host) (s : Script) : ScriptEvent → Prop
  | navigate href =>
    (host.extractVideoId href).filter (· ≠ "") = none →
    IsolatedAt (host.extractVideoId href) s.shown
  | resumed i _ outcome => ∀ run, s.runs[i]?.join = some run → outcome.Own host s run
  | companion event => event.Own host s
  | importLyrics videoId href format content =>
    let id := (videoId <|> s.videoId <|> host.extractVideoId href).getD "import"
    (resolveImportedLyrics host id format content).cues ≠ [] → s.videoId = some id
  | applyLrc videoId lrc =>
    host.parseLrc lrc ≠ [] → s.videoId = some ((videoId <|> s.videoId).getD "lrclib")
  | confirmLyrics href =>
    match s.pendingLyricsLrc.filter (· ≠ "") with
    | some lrc =>
      host.parseLrc lrc ≠ [] →
      s.videoId = some ((s.videoId <|> host.extractVideoId href).getD "lrclib")
    | none => ∀ t, s.pendingLyricsTimeline = some t → AllOf s.videoId (t.cues.map HeldCue.video)
  | confirmCandidate .. | setSyncOffset _ | setEmpty _ | toggle .. | transcribeTab | tick _ => True

/-! ## Drafts -/

section Drafts

variable {v : Option String} {host : Host} {s : Script} {sources texts : List SourceText}
  {drafts : List Draft}
  {provisional : Bool} {reason : Option ProvisionalReason}

theorem allOf_append {xs ys : List String} : AllOf v (xs ++ ys) ↔ AllOf v xs ∧ AllOf v ys :=
  List.forall_mem_append

@[simp] theorem allOf_nil : AllOf v [] := nofun

@[simp] theorem draftVideos_nil : draftVideos [] = [] := rfl

/-- What `applyTranslationTexts` shows. -/
def accepted (host : Host) (sources : List SourceText) (drafts : List Draft) : List Draft :=
  if host.blocks sources drafts then
    if host.isDevelopmentMtFallbackAllowed then mockDrafts sources else []
  else drafts

theorem ok_eq_false_of_blocks (h : host.blocks sources drafts = true) :
    (host.fidelity sources drafts).ok = false :=
  ok_eq_false_of_critical h

theorem shown_applyTranslationTexts (s : Script) (host : Host) (sources : List SourceText)
    (drafts : List Draft) (provisional : Bool) (reason : Option ProvisionalReason) :
    (s.applyTranslationTexts host sources drafts provisional reason).shown = { s.shown with
      translationTexts := accepted host sources drafts
      evidenceFrom :=
        if provisional || !(host.fidelity sources drafts).ok then
          sourceVideos sources ++ draftVideos drafts
        else s.evidenceFrom } := by
  unfold Script.applyTranslationTexts accepted
  dsimp only
  split
  · next hblocks =>
    rw [ok_eq_false_of_blocks hblocks, Bool.not_false, Bool.or_true]
    split <;> rfl
  · split
    · split <;> rfl
    · rfl

theorem mockDrafts_source {d : Draft} (h : d ∈ mockDrafts sources) : d.source ∈ sources := by
  obtain ⟨i, hi⟩ := List.mem_iff_getElem?.1 h
  rw [mockDrafts, List.getElem?_zipWith] at hi
  split at hi
  · next text source _ hsource =>
    cases hi
    exact List.mem_of_getElem? hsource
  · cases hi

theorem mockDrafts_eq_nil_iff : mockDrafts sources = [] ↔ sources = [] := by
  rw [← List.length_eq_zero_iff, ← List.length_eq_zero_iff, mockDrafts, List.length_zipWith,
    mockMtDraft, List.length_map, List.length_map, Nat.min_self]

theorem allOf_mockDrafts (h : AllOf v (sourceVideos sources)) :
    AllOf v (draftVideos (mockDrafts sources)) := by
  intro video hvideo
  obtain ⟨d, hd, rfl⟩ := List.mem_map.1 hvideo
  exact h _ (List.mem_map_of_mem (mockDrafts_source hd))

theorem allOf_accepted (hsources : AllOf v (sourceVideos sources))
    (hdrafts : AllOf v (draftVideos drafts)) :
    AllOf v (draftVideos (accepted host sources drafts)) := by
  unfold accepted
  split
  · split
    · exact allOf_mockDrafts hsources
    · exact allOf_nil
  · exact hdrafts

/-- A reviewed draft is a translation of what the draft was, or of the text itself. -/
theorem allOf_reviewed {reviewedTexts : List String} (hsources : AllOf v (sourceVideos sources))
    (hdrafts : AllOf v (draftVideos drafts)) :
    AllOf v (draftVideos (Script.reviewed sources drafts reviewedTexts)) := by
  intro video hvideo
  obtain ⟨d, hd, rfl⟩ := List.mem_map.1 hvideo
  obtain ⟨i, hi, rfl⟩ := List.mem_mapIdx.1 hd
  dsimp only
  cases hdraft : drafts[i]? with
  | none => exact hsources _ (List.mem_map_of_mem (List.of_mem_zip (List.getElem_mem hi)).2)
  | some draft => exact hdrafts _ (List.mem_map.2 ⟨draft, List.mem_of_getElem? hdraft, rfl⟩)

/-- Showing drafts keeps to the video exactly when they do. -/
theorem isolated_apply_iff (h : IsolatedAt v s.shown) :
    IsolatedAt v (s.applyTranslationTexts host sources drafts provisional reason).shown ↔
      AppliesOwn host v sources drafts provisional := by
  rw [shown_applyTranslationTexts]
  constructor
  · intro hpost
    by_cases hwrites : (provisional || !(host.fidelity sources drafts).ok) = true
    · have hevidence := hpost.evidence
      dsimp only at hevidence
      rw [if_pos hwrites, allOf_append] at hevidence
      exact ⟨hevidence.2, fun _ => hevidence.1⟩
    · have hquiet : provisional = false ∧ (host.fidelity sources drafts).ok = true := by
        simpa using hwrites
      have hpasses : host.blocks sources drafts = false := by
        rw [Bool.eq_false_iff]
        intro hblocks
        rw [ok_eq_false_of_blocks hblocks] at hquiet
        exact nomatch hquiet.2
      have htranslations := hpost.translations
      dsimp only [accepted] at htranslations
      rw [hpasses] at htranslations
      refine ⟨htranslations, ?_⟩
      rw [hquiet.1, hquiet.2]
      rintro (h | h) <;> cases h
  · intro ⟨hdrafts, hsources⟩
    refine ⟨h.timeline, ?_, ?_, h.lyrics⟩
    · dsimp only [accepted]
      split
      · next hblocks =>
        split
        · exact allOf_mockDrafts (hsources (Or.inr (ok_eq_false_of_blocks hblocks)))
        · exact allOf_nil
      · exact hdrafts
    · dsimp only
      split
      · next hwrites =>
        exact allOf_append.2 ⟨hsources (by simpa using hwrites), hdrafts⟩
      · exact h.evidence

/-- The timeline and the lyrics are of the video, whatever is written beside them. -/
theorem IsolatedAt.with_texts {t : Shown} (h : IsolatedAt v s.shown)
    (htimeline : t.timeline = s.timeline)
    (hlyrics : t.lyricsTimeline = s.lyricsTimeline)
    (htranslations : AllOf v (draftVideos t.translationTexts))
    (hevidence : AllOf v t.evidenceFrom) : IsolatedAt v t :=
  ⟨fun u hu => h.timeline u (htimeline.symm.trans hu), htranslations, hevidence,
    fun u hu => h.lyrics u (hlyrics.symm.trans hu)⟩

theorem shown_review (host : Host) (texts : List SourceText) (mtProvisional : Bool)
    (mtReason : Option ProvisionalReason) (htexts : s.translationTexts ≠ []) :
    ∃ reviewedTexts, (s.review host texts mtProvisional mtReason).shown = { s.shown with
      translationTexts :=
        accepted host texts (Script.reviewed texts s.translationTexts reviewedTexts)
      evidenceFrom := sourceVideos texts ++ draftVideos s.translationTexts } := by
  let gated :=
    applyVlmGateToDrafts (texts.map SourceText.text) (s.translationTexts.map Draft.text) .balanced
  refine ⟨gated.texts, ?_⟩
  have happly :=
    shown_applyTranslationTexts s host texts (Script.reviewed texts s.translationTexts gated.texts)
    (mtProvisional || decide (0 < gated.invokedCount))
      (if 0 < gated.invokedCount then some .vlmStub else mtReason)
  unfold Script.review
  rw [if_neg htexts]
  exact congrArg (fun shown : Shown => { shown with
    evidenceFrom := sourceVideos texts ++ draftVideos s.translationTexts }) happly

theorem review_of_nil {mtProvisional : Bool} {mtReason : Option ProvisionalReason}
    (htexts : s.translationTexts = []) :
    s.review host texts mtProvisional mtReason = s := by
  unfold Script.review
  rw [if_pos htexts]

/-- The review keeps to the video exactly when the texts and the drafts do. -/
theorem isolated_review_iff {mtProvisional : Bool} {mtReason : Option ProvisionalReason}
    {t : Script} (h : IsolatedAt v t.shown) (htimeline : s.timeline = t.timeline)
    (hlyrics : s.lyricsTimeline = t.lyricsTimeline) (htexts : s.translationTexts ≠ []) :
    IsolatedAt v (s.review host texts mtProvisional mtReason).shown ↔
      AllOf v (sourceVideos texts) ∧ AllOf v (draftVideos s.translationTexts) := by
  obtain ⟨reviewedTexts, hshown⟩ := shown_review host texts mtProvisional mtReason htexts
  rw [hshown]
  refine ⟨fun hpost => allOf_append.1 hpost.evidence, fun ⟨hsources, hdrafts⟩ => ?_⟩
  exact h.with_texts htimeline hlyrics (allOf_accepted hsources (allOf_reviewed hsources hdrafts))
    (allOf_append.2 ⟨hsources, hdrafts⟩)

theorem applyTranslationTexts_texts :
    (s.applyTranslationTexts host sources drafts provisional reason).translationTexts =
      accepted host sources drafts :=
  congrArg Shown.translationTexts
    (shown_applyTranslationTexts s host sources drafts provisional reason)

theorem applyTranslationTexts_videoId :
    (s.applyTranslationTexts host sources drafts provisional reason).videoId = s.videoId :=
  congrArg Shown.videoId (shown_applyTranslationTexts s host sources drafts provisional reason)

theorem applyTranslationTexts_timeline :
    (s.applyTranslationTexts host sources drafts provisional reason).timeline = s.timeline :=
  congrArg Shown.timeline (shown_applyTranslationTexts s host sources drafts provisional reason)

theorem applyTranslationTexts_lyrics :
    (s.applyTranslationTexts host sources drafts provisional reason).lyricsTimeline =
      s.lyricsTimeline :=
  congrArg Shown.lyricsTimeline
    (shown_applyTranslationTexts s host sources drafts provisional reason)

theorem review_videoId {mtProvisional : Bool} {mtReason : Option ProvisionalReason} :
    (s.review host texts mtProvisional mtReason).videoId = s.videoId := by
  by_cases htexts : s.translationTexts = []
  · rw [review_of_nil htexts]
  · obtain ⟨_, hshown⟩ := shown_review host texts mtProvisional mtReason htexts
    exact congrArg Shown.videoId hshown

/-- Drafts that are shown and then reviewed. -/
theorem isolated_apply_review_iff {mtProvisional : Bool} {mtReason : Option ProvisionalReason}
    (h : IsolatedAt v s.shown) :
    IsolatedAt v ((s.applyTranslationTexts host texts drafts provisional reason).review host texts
      mtProvisional
        mtReason).shown ↔
      if accepted host texts drafts = [] then AppliesOwn host v texts drafts provisional
      else AllOf v (sourceVideos texts) ∧ AllOf v (draftVideos (accepted host texts drafts)) := by
  split
  · next hnil =>
    rw [review_of_nil (applyTranslationTexts_texts.trans hnil)]
    exact isolated_apply_iff h
  · next hne =>
    rw [isolated_review_iff h applyTranslationTexts_timeline applyTranslationTexts_lyrics
      (applyTranslationTexts_texts ▸ hne), applyTranslationTexts_texts]

end Drafts

/-! ## Handlers -/

section Handlers

variable {host : Host} {s s' : Script} {run : CaptionRun} {title : String}

theorem isolated_congr (h : s'.shown = s.shown) : Isolated s' ↔ Isolated s := by
  have hvideo : s'.videoId = s.videoId := congrArg Shown.videoId h
  rw [Isolated, Isolated, h, hvideo]

/-- Two states with one video and the same lyrics, of which the later one has got a timeline. -/
theorem isolated_timeline_iff {timeline : HeldTimeline} (h : Isolated s)
    (hshown : s'.shown = { s.shown with timeline := some timeline }) :
    Isolated s' ↔ timeline.cues = [] ∨ s.videoId = some timeline.videoId := by
  have hvideo : s'.videoId = s.videoId := congrArg Shown.videoId hshown
  rw [Isolated, hvideo, hshown]
  refine ⟨fun hpost => hpost.timeline timeline rfl,
    fun hown => ⟨?_, h.translations, h.evidence, h.lyrics⟩⟩
  intro t ht
  cases ht
  exact hown

/-- And one of which the later one has got lyrics. -/
theorem isolated_lyrics_iff {lyrics : HeldTimeline} (h : Isolated s)
    (hshown : s'.shown = { s.shown with lyricsTimeline := some lyrics }) :
    Isolated s' ↔ AllOf s.videoId (lyrics.cues.map HeldCue.video) := by
  have hvideo : s'.videoId = s.videoId := congrArg Shown.videoId hshown
  rw [Isolated, hvideo, hshown]
  refine ⟨fun hpost => hpost.lyrics lyrics rfl,
    fun hown => ⟨h.timeline, h.translations, h.evidence, ?_⟩⟩
  intro t ht
  cases ht
  exact hown

theorem hold_videos (timeline : SourceTimeline) :
    (hold timeline).cues.map HeldCue.video = timeline.cues.map fun _ => timeline.videoId := by
  rw [hold, List.map_map]
  rfl

theorem hold_texts_videos (timeline : SourceTimeline) :
    sourceVideos (hold timeline).texts = timeline.cues.map fun _ => timeline.videoId := by
  rw [sourceVideos, HeldTimeline.texts, hold, List.map_map, List.map_map]
  rfl

theorem hold_cues_eq_nil_iff {timeline : SourceTimeline} :
    (hold timeline).cues = [] ↔ timeline.cues = [] := by
  simp [hold]

theorem allOf_hold_iff {v : Option String} {timeline : SourceTimeline} :
    AllOf v ((hold timeline).cues.map HeldCue.video) ↔ timeline.cues ≠ [] →
      v = some timeline.videoId := by
  rw [hold_videos]
  constructor
  · intro hall hne
    obtain ⟨c, hc⟩ := List.exists_mem_of_ne_nil _ hne
    exact hall _ (List.mem_map.2 ⟨c, hc, rfl⟩)
  · intro hown video hvideo
    obtain ⟨c, hc, rfl⟩ := List.mem_map.1 hvideo
    exact hown (List.ne_nil_of_mem hc)

theorem shown_offerLyrics (s : Script) (host : Host) (run : CaptionRun) (title : String) :
    (s.offerLyrics host run title).shown = s.shown := by
  unfold Script.offerLyrics
  split <;> rfl

theorem shown_showEmpty (s : Script) (restoredCueCount : Nat) (statusMessage : Option String) :
    (s.showEmpty restoredCueCount statusMessage).shown = s.shown := by
  unfold Script.showEmpty
  split <;> rfl

theorem shown_routeSource (s : Script) (host : Host) (run : CaptionRun) (title : String)
    (restoredCueCount : Nat) (tracks : List CaptionTrackMeta) :
    (s.routeSource host run title restoredCueCount tracks).1.shown = s.shown := by
  unfold Script.routeSource
  split
  · dsimp only
    split <;> rfl
  · exact (shown_offerLyrics ..).trans (shown_showEmpty ..)
  · exact (shown_offerLyrics ..).trans (shown_showEmpty ..)

/-- Live captions are shown as those of the run's video. -/
theorem isolated_loaded_iff {restoredCueCount : Nat} {track : CaptionTrackMeta} {cues : List Cue}
    (h : Isolated s) :
    Isolated (s.loaded host run title restoredCueCount track cues).1 ↔
      (cues ≠ [] → s.videoId = some run.id) := by
  unfold Script.loaded
  split
  · next hne =>
    rw [isolated_timeline_iff h rfl, hold_cues_eq_nil_iff]
    exact ⟨fun hown _ => hown.resolve_left hne, fun hown => Or.inr (hown hne)⟩
  · next hnil =>
    rw [isolated_congr ((shown_offerLyrics ..).trans (shown_showEmpty ..))]
    exact iff_of_true h fun hne => absurd hne hnil

theorem stored_cues_ne_nil {res : Hydrated} {stored : SourceTimeline}
    (h : res.stored = some stored) :
    stored.cues ≠ [] := by
  unfold Hydrated.stored at h
  split at h
  · simpa using (Option.filter_eq_some_iff.1 h).2
  · cases h

theorem shown_hydrated (s : Script) (host : Host) {res : Hydrated} {stored : SourceTimeline}
    (hstored : res.stored = some stored) :
    ∃ s₁ : Script, s₁.shown = { s.shown with timeline := some (hold stored) } ∧
      (s.applyHydratedCompanionState host res).shown =
        match res.cues with
        | none => s₁.shown
        | some cues =>
          (s₁.applyTranslationTexts host (hold stored).texts (draftsOf (hold stored).texts cues)
            (cues.any TranslationCue.provisional) none).shown := by
  refine ⟨{ s with
    timeline := some (hold stored)
    emptyKind := none
    captionSourceLabel := some (stored.captionSource.getD .asrLive) }, rfl, ?_⟩
  unfold Script.applyHydratedCompanionState
  rw [hstored]
  cases res.cues with
  | none => exact (Script.shown_update _ _).trans (Script.shown_publishTranscript _ _)
  | some cues => exact (Script.shown_update _ _).trans (Script.shown_publishTranscript _ _)

/-- Nothing stored, nothing shown. -/
theorem hydrated_none {res : Hydrated} (hstored : res.stored = none) :
    s.applyHydratedCompanionState host res = s := by
  unfold Script.applyHydratedCompanionState
  rw [hstored]

/-- A stored timeline is shown with its translation. -/
theorem isolated_hydrated_iff {res : Hydrated} (h : Isolated s) :
    Isolated (s.applyHydratedCompanionState host res) ↔ Outcome.Own host s run (.hydrated res) := by
  unfold Outcome.Own
  cases hstored : res.stored with
  | none =>
    rw [hydrated_none hstored]
    exact iff_of_true h fun _ hsome => nomatch hstored.symm.trans hsome
  | some stored =>
    obtain ⟨s₁, hs₁, hshown⟩ := shown_hydrated s host hstored
    have htimeline : Isolated s₁ ↔ s.videoId = some stored.videoId := by
      rw [isolated_timeline_iff h hs₁, hold_cues_eq_nil_iff]
      exact ⟨fun hown => hown.resolve_left (stored_cues_ne_nil hstored), Or.inr⟩
    have hvideo : s₁.videoId = s.videoId := congrArg Shown.videoId hs₁
    simp only [hstored, Option.some.injEq, forall_eq']
    cases hcues : res.cues with
    | none =>
      rw [hcues] at hshown
      rw [isolated_congr hshown, htimeline]
      exact ⟨fun hown => ⟨hown, nofun⟩, And.left⟩
    | some cues =>
      rw [hcues] at hshown
      simp only [Option.some.injEq, forall_eq']
      rw [isolated_congr hshown]
      rw [Isolated, applyTranslationTexts_videoId, hvideo]
      rw [Isolated, hvideo] at htimeline
      constructor
      · intro hpost
        have hown : s.videoId = some stored.videoId := by
          have hheld := hpost.timeline (hold stored)
            (applyTranslationTexts_timeline.trans (congrArg Shown.timeline hs₁))
          rw [hold_cues_eq_nil_iff] at hheld
          exact hheld.resolve_left (stored_cues_ne_nil hstored)
        exact ⟨hown, ((isolated_apply_iff (htimeline.2 hown)).1 hpost).1⟩
      · intro ⟨hown, hdrafts⟩
        refine (isolated_apply_iff (htimeline.2 hown)).2 ⟨hdrafts, fun _ => ?_⟩
        rw [hold_texts_videos]
        intro video hmem
        obtain ⟨_, -, rfl⟩ := List.mem_map.1 hmem
        exact hown

theorem draftsOf_eq_nil_iff {texts : List SourceText} {cues : List TranslationCue} :
    draftsOf texts cues = [] ↔ cues = [] := by
  rw [← List.length_eq_zero_iff, draftsOf, List.length_mapIdx, List.length_eq_zero_iff]

theorem shown_translated (s : Script) (host : Host) (run : CaptionRun) (title : String)
    (texts : List SourceText) (reply : Option (List TranslationCue)) :
    (s.translated host run title texts reply).shown =
      ((s.applyReply host texts reply).1.review host texts (s.applyReply host texts reply).2.1
        (s.applyReply host texts reply).2.2).shown := by
  unfold Script.translated
  dsimp only
  rw [shown_offerLyrics, Script.shown_update]
  exact Script.shown_publishTranscript _ _

theorem isolated_reviewed_iff {texts : List SourceText} {drafts : List Draft}
    {provisional mtProvisional : Bool}
    {reason mtReason : Option ProvisionalReason} (h : Isolated s) :
    Isolated ((s.applyTranslationTexts host texts drafts provisional reason).review host texts
      mtProvisional mtReason) ↔
      if accepted host texts drafts = [] then AppliesOwn host s.videoId texts drafts provisional
      else AllOf s.videoId (sourceVideos texts) ∧
        AllOf s.videoId (draftVideos (accepted host texts drafts)) := by
  rw [Isolated, review_videoId, applyTranslationTexts_videoId]
  exact isolated_apply_review_iff h

/-- Without a reply the development drafts are shown, or none. -/
theorem isolated_unanswered_iff {texts : List SourceText} (h : Isolated s) :
    Isolated (s.translated host run title texts none) ↔ AnswersOwn host s.videoId texts none := by
  rw [isolated_congr (shown_translated ..), AnswersOwn]
  unfold Script.applyReply
  dsimp only
  cases hdev : host.isDevelopmentMtFallbackAllowed with
  | false =>
    rw [if_neg Bool.false_ne_true, review_of_nil rfl]
    exact iff_of_true ⟨h.timeline, allOf_nil, h.evidence, h.lyrics⟩ nofun
  | true =>
    have hmock : accepted host texts (mockDrafts texts) = mockDrafts texts := by
      rw [accepted, hdev]
      split <;> rfl
    rw [if_pos rfl, isolated_reviewed_iff h, hmock]
    simp only [mockDrafts_eq_nil_iff]
    split
    · next hnil =>
      subst hnil
      exact iff_of_true ⟨allOf_nil, fun _ => allOf_nil⟩ fun _ => allOf_nil
    · exact ⟨fun hown _ => hown.1, fun hown => ⟨hown trivial, allOf_mockDrafts (hown trivial)⟩⟩

/-- A reply is shown with the texts that were sent. -/
theorem isolated_answered_iff {texts : List SourceText} {cues : List TranslationCue}
    (h : Isolated s) :
    Isolated (s.translated host run title texts (some cues)) ↔
      AnswersOwn host s.videoId texts (some cues) := by
  rw [isolated_congr (shown_translated ..), AnswersOwn]
  refine (isolated_reviewed_iff h).trans ?_
  cases hblocks : host.blocks texts (draftsOf texts cues) with
  | true =>
    have hfails := ok_eq_false_of_blocks hblocks
    rw [if_pos rfl, accepted, hblocks, if_pos rfl]
    cases hdev : host.isDevelopmentMtFallbackAllowed with
    | false =>
      rw [if_neg Bool.false_ne_true, if_pos rfl, AppliesOwn]
      exact ⟨fun hown => ⟨hown.2 (Or.inr hfails), fun _ => hown.1⟩,
        fun hown => ⟨hown.2 (Or.inl rfl), fun _ => hown.1⟩⟩
    | true =>
      rw [if_pos rfl]
      simp only [mockDrafts_eq_nil_iff]
      split
      · next hnil =>
        rw [AppliesOwn]
        exact ⟨fun hown => ⟨hown.2 (Or.inr hfails), fun _ => hown.1⟩,
          fun hown => ⟨hown.2 (Or.inr hnil), fun _ => hown.1⟩⟩
      · next hne =>
        refine ⟨fun hown => ⟨hown.1, fun hcase => ?_⟩,
          fun hown => ⟨hown.1, allOf_mockDrafts hown.1⟩⟩
        rcases hcase with hcase | hcase
        · cases hcase
        · exact absurd hcase hne
  | false =>
    rw [if_neg Bool.false_ne_true, accepted, hblocks, if_neg Bool.false_ne_true]
    split
    · next hnil =>
      -- no cue, so none is provisional
      have hcues := draftsOf_eq_nil_iff.1 hnil
      rw [AppliesOwn, hnil, hcues]
      simp
    · next hne =>
        exact ⟨fun hown => ⟨fun _ => hown.1, hown.2⟩, fun hown => ⟨hown.1 (Or.inl hne), hown.2⟩⟩

theorem isolated_translated_iff {texts : List SourceText} {reply : Option (List TranslationCue)}
    (h : Isolated s) :
    Isolated (s.translated host run title texts reply) ↔ AnswersOwn host s.videoId texts reply := by
  cases reply with
  | none => exact isolated_unanswered_iff h
  | some cues => exact isolated_answered_iff h

theorem shown_timelineSource (s : Script) (host : Host) (incoming : SourceTimeline) :
    (s.companionEvent host (.timelineSource incoming)).shown =
      (s.mergeAsrTimeline incoming).shown := Script.shown_publishTranscript _ _

theorem isolated_companion_iff {event : CompanionEvent} (h : Isolated s) :
    Isolated (s.companionEvent host event) ↔ event.Own host s := by
  cases event with
  | timelineSource incoming =>
    rw [isolated_congr (shown_timelineSource s host incoming), CompanionEvent.Own]
    unfold Script.mergeAsrTimeline
    split
    · next hnil => exact iff_of_true h (Or.inl hnil)
    · next hne =>
      dsimp only
      split
      · next t ht =>
        obtain ⟨hheld, hcues⟩ := Option.filter_eq_some_iff.1 ht
        have hcues : t.cues ≠ [] := by simpa using hcues
        rw [isolated_timeline_iff h rfl]
        refine iff_of_true (Or.inr ?_) (Or.inr (Or.inl ⟨t, hheld, hcues⟩))
        exact (h.timeline t hheld).resolve_left hcues
      · next hnone =>
        rw [isolated_timeline_iff h rfl, hold_cues_eq_nil_iff]
        refine ⟨fun hown => Or.inr (Or.inr (hown.resolve_left hne)), fun hown => Or.inr ?_⟩
        rcases hown with hnil | ⟨t, hheld, hcues⟩ | hown
        · exact absurd hnil hne
        · have := Option.filter_eq_none_iff.1 hnone t hheld
          exact absurd (by simpa using this) hcues
        · exact hown
  | timelineTranslation cues =>
    rw [CompanionEvent.Own]
    unfold Script.companionEvent
    cases htimeline : s.timeline with
    | none => exact iff_of_true h fun _ hsome => nomatch hsome
    | some t =>
      simp only [Option.some.injEq, forall_eq']
      rw [isolated_congr (Script.shown_publishTranscript _ _), Isolated,
        applyTranslationTexts_videoId]
      exact isolated_apply_iff h
  | jobProgress status message =>
    refine iff_of_true ?_ trivial
    simp only [Script.companionEvent]
    split
    · exact h
    · exact h
  | error message code => exact iff_of_true h trivial

theorem linesToTimeline_cues_ne_nil_iff {videoId : String} {lines : List ParsedLine}
    {provenance : Provenance} :
    (linesToTimeline videoId lines provenance).cues ≠ [] ↔ lines ≠ [] := by
  rw [not_iff_not, ← List.length_eq_zero_iff, linesToTimeline]
  simp

/-- Imported lyrics are shown as those of the video they are imported for. -/
theorem isolated_importLyrics_iff {videoId : Option String} {href : String} {format : LyricsFormat}
    {content : String}
    (h : Isolated s) : Isolated (s.importLyrics host videoId href format content) ↔
      ScriptEvent.Own host s (.importLyrics videoId href format content) := by
  rw [ScriptEvent.Own]
  let id := (videoId <|> s.videoId <|> host.extractVideoId href).getD "import"
  let lyrics := resolveImportedLyrics host id format content
  change Isolated (s.importLyrics host videoId href format content) ↔
    (lyrics.cues ≠ [] → s.videoId = some id)
  have hid : lyrics.videoId = id := rfl
  constructor
  · intro hpost
    exact hid ▸ allOf_hold_iff.1 (hpost.lyrics (hold lyrics) rfl)
  · intro hown
    refine ⟨fun t ht => ?_, h.translations, h.evidence, fun t ht => ?_⟩
    · change (s.timeline <|> some (hold lyrics)) = some t at ht
      cases htimeline : s.timeline with
      | some held =>
        rw [htimeline] at ht
        cases ht
        exact h.timeline t htimeline
      | none =>
        rw [htimeline] at ht
        cases ht
        by_cases hnil : lyrics.cues = []
        · exact Or.inl (hold_cues_eq_nil_iff.2 hnil)
        · exact Or.inr (hown hnil)
    · cases ht
      exact allOf_hold_iff.2 (hid ▸ hown)

theorem isolated_applyLrc_iff {videoId : Option String} {lrc : String} (h : Isolated s) :
    Isolated (s.applyLrc host videoId lrc) ↔ ScriptEvent.Own host s (.applyLrc videoId lrc) := by
  unfold Script.applyLrc
  rw [isolated_lyrics_iff h rfl, allOf_hold_iff, linesToTimeline_cues_ne_nil_iff]
  rfl

theorem isolated_confirmLyrics_iff {href : String} (h : Isolated s) :
    Isolated (s.confirmLyrics host href) ↔ ScriptEvent.Own host s (.confirmLyrics href) := by
  unfold Script.confirmLyrics ScriptEvent.Own
  cases hlrc : s.pendingLyricsLrc.filter (· ≠ "") with
  | some lrc =>
    dsimp only
    rw [isolated_lyrics_iff h rfl, allOf_hold_iff, linesToTimeline_cues_ne_nil_iff]
    rfl
  | none =>
    dsimp only
    split
    · next t ht =>
      rw [isolated_lyrics_iff h rfl]
      exact ⟨fun hown t' ht' => Option.some.inj (ht.symm.trans ht') ▸ hown, fun hown => hown t ht⟩
    · next hnone => exact iff_of_true h fun t ht => nomatch hnone.symm.trans ht

/-- A run starts with everything cleared; on a page without a video nothing is. -/
theorem isolated_navigate_iff {href : String} (hstep : s.navigate host href = some s') :
    Isolated s' ↔ ScriptEvent.Own host s (.navigate href) := by
  unfold Script.navigate at hstep
  rw [ScriptEvent.Own]
  split at hstep
  · cases hstep
  · dsimp only at hstep
    split at hstep
    · next hnone =>
      cases hstep
      exact ⟨fun hpost _ => ⟨hpost.timeline, hpost.translations, hpost.evidence, hpost.lyrics⟩,
        fun hown =>
        have hheld := hown hnone
        ⟨hheld.timeline, hheld.translations, hheld.evidence, hheld.lyrics⟩⟩
    · next id hid =>
      cases hstep
      refine iff_of_true ⟨nofun, allOf_nil, allOf_nil, nofun⟩ fun hnone => ?_
      rw [hnone] at hid
      cases hid

/-- What a run shows when it goes on is of the video exactly when what it gets is. -/
theorem isolated_resume_iff {outcome : Outcome} {awaiting : Option Awaiting} (h : Isolated s)
    (hstep : run.resume host title s outcome = some (s', awaiting)) :
    Isolated s' ↔ outcome.Own host s run := by
  cases outcome with
  | hydrated res =>
    simp only [CaptionRun.resume] at hstep
    split at hstep <;> cases hstep
    exact isolated_hydrated_iff h
  | bridged tracks =>
    simp only [CaptionRun.resume] at hstep
    split at hstep <;> cases hstep
    exact iff_of_true h trivial
  | fixtures tracks =>
    simp only [CaptionRun.resume] at hstep
    split at hstep
    · have hs := congrArg Prod.fst (Option.some.inj hstep)
      subst hs
      exact iff_of_true ((isolated_congr (shown_routeSource ..)).2 h) trivial
    · cases hstep
  | fetched cues =>
    simp only [CaptionRun.resume] at hstep
    split at hstep
    · have hs := congrArg Prod.fst (Option.some.inj hstep)
      subst hs
      exact isolated_loaded_iff h
    · cases hstep
      exact iff_of_true h fun hne => absurd rfl hne
    · cases hstep
  | events cues =>
    simp only [CaptionRun.resume] at hstep
    split at hstep
    · have hs := congrArg Prod.fst (Option.some.inj hstep)
      subst hs
      exact isolated_loaded_iff h
    · cases hstep
  | translated reply =>
    simp only [CaptionRun.resume] at hstep
    split at hstep
    · next texts hawaiting =>
      cases hstep
      rw [isolated_translated_iff h, Outcome.Own, hawaiting]
      simp
    · cases hstep
  | rejected =>
    simp only [CaptionRun.resume] at hstep
    split at hstep <;> cases hstep <;> exact iff_of_true h trivial

theorem isolated_step_iff {e : ScriptEvent} (h : Isolated s) (hstep : s.step host e = some s') :
    Isolated s' ↔ e.Own host s := by
  cases e with
  | navigate href => exact isolated_navigate_iff hstep
  | resumed i title outcome =>
    simp only [Script.step] at hstep
    split at hstep
    · next run hrun =>
      obtain ⟨⟨s₁, awaiting⟩, hresume, rfl⟩ := Option.map_eq_some_iff.1 hstep
      have hown := isolated_resume_iff h hresume
      rw [ScriptEvent.Own, hrun]
      exact (isolated_congr (s := s₁) rfl).trans (hown.trans (by simp))
    · cases hstep
  | companion event =>
    cases hstep
    exact isolated_companion_iff h
  | importLyrics videoId href format content =>
    cases hstep
    exact isolated_importLyrics_iff h
  | applyLrc videoId lrc =>
    cases hstep
    exact isolated_applyLrc_iff h
  | confirmLyrics href =>
    cases hstep
    exact isolated_confirmLyrics_iff h
  | confirmCandidate | setSyncOffset | setEmpty | toggle | transcribeTab =>
    cases hstep
    exact iff_of_true h trivial
  | tick currentTimeMs =>
    cases hstep
    exact iff_of_true ((isolated_congr (Script.shown_tick ..)).2 h) trivial

end Handlers

/-! ## Every run -/

theorem isolated_fresh : Isolated .fresh := ⟨nofun, allOf_nil, allOf_nil, nofun⟩

/-- What the script holds is of the video of the page after every step of a run exactly when every
event brings what is of that video. -/
theorem isolated_iff {host : Host} {h : List (Fired Script ScriptEvent)} {s : Script}
    (hr : Run (Script.step host) .fresh h s) :
    (∀ f ∈ h, Isolated f.post) ↔ ∀ f ∈ h, f.label.Own host f.pre := by
  apply hr.forall_iff isolated_fresh
  · exact fun _ hisolated => hisolated
  · intro _ s e s' _ hisolated hstep
    exact isolated_step_iff hisolated hstep

/-- Two videos, and a build for production. -/
def twoVideos : Host where
  toLowerCase := String.map Char.toLower
  extractVideoId href :=
    if href = "https://www.youtube.com/watch?v=aaaaaaaaaaa" then some "aaaaaaaaaaa"
    else if href = "https://www.youtube.com/watch?v=bbbbbbbbbbb" then some "bbbbbbbbbbb"
    else none
  parseLrc _ := []
  parseTtml _ := []
  parsePlain _ := []
  isDevelopmentMtFallbackAllowed := false

def storedTimeline : SourceTimeline where
  videoId := "aaaaaaaaaaa"
  cues := [{ id := "c-0", startMs := 0, endMs := 1000, text := "eins", provenance := .asr }]
  sourceHash := "0"
  captionSource := some .asrLive
  developmentFallback := none

/-- The companion's answer for the first video comes when the second one is played. -/
def lateHydration : List ScriptEvent :=
  [.navigate "https://www.youtube.com/watch?v=aaaaaaaaaaa",
    .navigate "https://www.youtube.com/watch?v=bbbbbbbbbbb",
    .resumed 0 "" (.hydrated { ok := true, timeline := some storedTimeline, translation := none })]

theorem exec_lateHydration :
    ∃ h s, exec (Script.step twoVideos) .fresh lateHydration = some (h, s) ∧
    s.videoId = some "bbbbbbbbbbb" ∧ s.timeline = some (hold storedTimeline) := by
  have hend : (exec (Script.step twoVideos) .fresh lateHydration).map
    (fun p => (p.2.videoId, p.2.timeline)) =
      some (some "bbbbbbbbbbb", some (hold storedTimeline)) := by
    decide +kernel
  obtain ⟨⟨h, s⟩, hexec, hp⟩ := Option.map_eq_some_iff.1 hend
  simp only [Prod.mk.injEq] at hp
  exact ⟨h, s, hexec, hp⟩

theorem isolated_iff_lateHydration : ∃ h : List (Fired Script ScriptEvent),
    h.map Fired.label = lateHydration.reverse ∧
      ((∀ f ∈ h, Isolated f.post) ↔ ∀ f ∈ h, f.label.Own twoVideos f.pre) := by
  obtain ⟨h, s, hexec, -⟩ := exec_lateHydration
  exact ⟨h, exec_labels hexec, isolated_iff (exec_run hexec)⟩

/-- The overlay has the first video's timeline beside the second video. -/
theorem not_isolated : ¬ ∀ (host : Host) (h : List (Fired Script ScriptEvent)) (s : Script),
    Run (Script.step host) .fresh h s → Isolated s := by
  intro hall
  obtain ⟨h, s, hexec, hvideo, htimeline⟩ := exec_lateHydration
  have hown := (hall twoVideos h s (exec_run hexec)).timeline (hold storedTimeline) htimeline
  rw [hvideo] at hown
  exact absurd hown (by decide)

end LanguageLlm.Content
