import LanguageLlm.Desktop.Execution

/-!
# Hydration

`handle_timeline_hydrate` looks up the timeline and the translation of a video one after the other.
`hydrated_matches_iff` says for which stores and requests the translation is that of the timeline.
-/

namespace LanguageLlm.Desktop

open Lib Handler

/-! ## What is put into the store -/

/-- A put of a timeline or of a translation. -/
inductive StorePut where
  | timeline (timeline : Json) (nowMs : Nat)
  | translation (key : TranslationKey) (cues : Json) (revisionId : String) (nowMs : Nat)

namespace StorePut

/-- The JSON that is written. -/
def body : StorePut → Json
  | .timeline v _ => v
  | .translation _ cues _ _ => cues

def apply (env : External) (db : SqliteStore) : StorePut → SqliteStore
  | .timeline v nowMs =>
    match v.getStr "videoId", v.getStr "sourceHash" with
    | some videoId, some sourceHash => db.putTranscript videoId sourceHash (env.toString v) nowMs
    | _, _ => db
  | .translation key cues revisionId nowMs =>
    db.putTranslation key (env.toString cues) revisionId nowMs

/-- The store after a sequence of puts. -/
def applyAll (env : External) (puts : List StorePut) : SqliteStore :=
  puts.foldl (apply env) .empty

end StorePut

variable {others : Stores → Stores → Prop} {env : External} {s s' : Stores} {sent : List Json}

/-- A `timeline.source` message is a put of its timeline. -/
theorem exec_handleTimelineSource {value timeline : Json}
    (ht : value.get "timeline" = some timeline)
    (he : Exec Eq (handleTimelineSource env value) s sent () s') :
    ∃ t, s' = { s with
      sqlite := s.sqlite.map fun db => StorePut.apply env db (.timeline timeline t) } := by
  simp only [handleTimelineSource, ht] at he
  split at he
  · next videoId sourceHash hvideo hsource =>
    simp only [exec_bind_iff, exec_withSqlite_iff, exec_return_iff] at he
    obtain ⟨_, _, _, _, ⟨t, _, _, _, rfl⟩, ⟨_, _, rfl⟩, _⟩ := he
    exact ⟨t, by simp only [StorePut.apply, hvideo, hsource]⟩
  · simp only [exec_return_iff] at he
    obtain ⟨_, _, rfl⟩ := he
    exact ⟨0, by simp [StorePut.apply]⟩

/-- A translate job puts its translation. -/
theorem exec_persistTranslation {videoId : String} {result : Json}
    (he : Exec Eq (persistTranslation env videoId result) s sent () s') :
    ∃ key revisionId t, key.videoId = videoId ∧ s' = { s with
      sqlite := s.sqlite.map fun db => StorePut.apply env db
        (.translation key (result.getOr "cues" (.arr [])) revisionId t) } := by
  simp only [persistTranslation, exec_bind_iff, exec_withSqlite_iff, exec_return_iff] at he
  obtain ⟨_, _, _, _, ⟨t, _, _, _, rfl⟩, ⟨_, _, rfl⟩, _⟩ := he
  exact ⟨_, _, t, rfl, rfl⟩

/-- `serde_json` reads a value back that it has written, with its source hash. -/
def ReadsBack (env : External) (v : Json) : Prop :=
  env.toString v ≠ "" ∧
  ∃ v', env.fromStr (env.toString v) = some v' ∧ v'.getStr "sourceHash" = v.getStr "sourceHash"

/-- Every row can be read, and a timeline is stored under its source hash. -/
structure Keyed (env : External) (db : SqliteStore) : Prop where
  transcript : ∀ {key row}, db.transcripts.get? key = some row → row.timelineJson ≠ "" ∧
    ∃ timeline, env.fromStr row.timelineJson = some timeline ∧
      timeline.getStr "sourceHash" = some key.2
  translation : ∀ {key row}, db.translations.get? key = some row →
    ∃ cues, env.fromStr row.cuesJson = some cues

theorem Keyed.apply {db : SqliteStore} (hk : Keyed env db) {p : StorePut}
    (hread : ReadsBack env p.body) : Keyed env (p.apply env db) := by
  obtain ⟨hne, v, hfrom, hhash⟩ := hread
  cases p with
  | timeline timeline t =>
    simp only [StorePut.apply]
    split
    · next videoId sourceHash _ hsource =>
      refine ⟨fun {key row} hrow => ?_, hk.translation⟩
      simp only [SqliteStore.putTranscript] at hrow
      rw [OrderedMap.get?_set] at hrow
      split at hrow
      · next hkey =>
        obtain rfl := Option.some.inj hrow
        subst hkey
        exact ⟨hne, v, hfrom, hhash.trans hsource⟩
      · exact hk.transcript hrow
    · exact hk
  | translation key' cues revisionId t =>
    refine ⟨hk.transcript, fun {key row} hrow => ?_⟩
    simp only [StorePut.apply, SqliteStore.putTranslation] at hrow
    rw [OrderedMap.get?_set] at hrow
    split at hrow
    · obtain rfl := Option.some.inj hrow
      exact ⟨v, hfrom⟩
    · exact hk.translation hrow

theorem keyed_applyAll {puts : List StorePut} (hread : ∀ p ∈ puts, ReadsBack env p.body) :
    Keyed env (StorePut.applyAll env puts) := by
  suffices h : ∀ db, Keyed env db → Keyed env (puts.foldl (StorePut.apply env) db) by
    refine h _ ⟨fun hrow => ?_, fun hrow => ?_⟩ <;> cases hrow
  intro db hk
  induction puts generalizing db with
  | nil => exact hk
  | cons p puts ih =>
    exact ih (fun q hq => hread q (List.mem_cons_of_mem _ hq))
      _ (hk.apply (hread p List.mem_cons_self))

/-! ## What is hydrated -/

/-- The transcript that a request may find. -/
def findTranscript (db : SqliteStore) (videoId : String) (sourceHash : Option String) (tie : Nat) :
    Option String :=
  match sourceHash with
  | some hash => db.getTranscript videoId hash
  | none => db.getLatestTranscript videoId tie

/-- The answer to a request that has found a transcript and a translation. -/
def hydrated (env : External) (token videoId body : String)
    (found : Option (TranslationKey × TranslationRow)) : Json :=
  let timeline : Option Json := if body = "" then none else env.fromStr body
  let translation : Option Json := found.bind fun tr =>
    (env.fromStr tr.2.cuesJson).map fun cues =>
      .obj [("videoId", .str videoId), ("cues", cues), ("revisionId", .str tr.2.revisionId),
        ("sourceHash", .str tr.1.sourceHash), ("targetLang", .str tr.1.targetLang)]
  .obj [("type", .str "timeline.hydrated"), ("sessionToken", .str token),
    ("videoId", .str videoId), ("timeline", timeline.getD .null),
    ("translation", translation.getD .null)]

theorem handleTimelineHydrate_eq (env : External) (value : Json) (token : String) :
    handleTimelineHydrate env value token = (do
      let videoId := value.strOr "videoId" ""
      let sourceHash := value.getStr "sourceHash"
      let body ← withSqlite fun _ a db =>
        (some ((findTranscript db videoId sourceHash a.tie).getD ""), db)
      let found ← withSqlite fun _ a db => (some (db.getTranslation videoId sourceHash a.tie), db)
      reply (hydrated env token videoId (body.getD "") found.join)) := by
  have htimeline (body : Option String) :
      (body.bind fun b => if b = "" then none else env.fromStr b) =
        if body.getD "" = "" then none else env.fromStr (body.getD "") := by
    cases body <;> rfl
  simp only [handleTimelineHydrate, hydrated, htimeline]
  cases value.getStr "sourceHash" <;> rfl

/-- A request looks up the transcript and then the translation. -/
theorem exec_handleTimelineHydrate_iff {value : Json} {token : String} {db : SqliteStore}
    (hdb : s.sqlite = some db) :
    Exec Eq (handleTimelineHydrate env value token) s sent () s' ↔
      s' = s ∧ ∃ tie tie', sent = [hydrated env token (value.strOr "videoId" "")
        ((findTranscript db (value.strOr "videoId" "") (value.getStr "sourceHash") tie).getD "")
        (db.getTranslation (value.strOr "videoId" "") (value.getStr "sourceHash") tie')] := by
  have hsame : { s with sqlite := s.sqlite.map fun db => db } = s := by simp
  simp only [handleTimelineHydrate_eq, exec_bind_iff, exec_withSqlite_iff, exec_reply_iff]
  constructor
  · rintro ⟨_, _, _, _, ⟨_, a, rfl, rfl, rfl⟩,
      ⟨_, _, _, _, ⟨_, a', rfl, rfl, rfl⟩, ⟨rfl, rfl⟩, rfl⟩, rfl⟩
    refine ⟨by simp, a.tie, a'.tie, ?_⟩
    simp [hdb]
  · rintro ⟨rfl, tie, tie', rfl⟩
    refine ⟨_, _, s', _, ⟨0, { (default : Answers) with tie }, rfl, rfl, hsame⟩,
      ⟨_, _, s', _, ⟨0, { (default : Answers) with tie := tie' }, rfl, rfl, hsame⟩, ⟨rfl, rfl⟩,
        rfl⟩, ?_⟩
    simp [hdb]

/-- The translation of a `timeline.hydrated` message was made from its timeline. -/
def Matching (message : Json) : Prop :=
  ∀ timeline translation, message.get "timeline" = some timeline → timeline ≠ .null →
    message.get "translation" = some translation → translation ≠ .null →
    translation.getStr "sourceHash" = timeline.getStr "sourceHash"

/-- Every answer to a request in a store matches. -/
def AnswersMatch (env : External) (value : Json) (token : String) (s : Stores) : Prop :=
  ∀ sent s', Exec Eq (handleTimelineHydrate env value token) s sent () s' →
    ∀ message ∈ sent, Matching message

/-- The newest transcripts of a video. -/
def newestTranscripts (db : SqliteStore) (videoId : String) :
    List ((String × String) × TranscriptRow) :=
  newestBy (fun r => r.2.updatedAtMs) (db.transcripts.entries.filter fun r => r.1.1 = videoId)

/-- The newest translations of a video, whatever they were made from. -/
def newestTranslations (db : SqliteStore) (videoId : String) :
    List (TranslationKey × TranslationRow) :=
  newestBy (fun r => r.2.updatedAtMs)
    (db.translations.entries.filter fun r => r.1.videoId = videoId)

section Selection

variable {db : SqliteStore} {videoId : String}

theorem findTranscript_hash {hash : String} {tie : Nat} {body : String}
    (h : findTranscript db videoId (some hash) tie = some body) :
    ∃ row, db.transcripts.get? (videoId, hash) = some row ∧ row.timelineJson = body :=
  Option.map_eq_some_iff.1 h

theorem findTranscript_latest_iff {body : String} :
    (∃ tie, findTranscript db videoId none tie = some body) ↔
      ∃ r ∈ newestTranscripts db videoId, r.2.timelineJson = body := by
  simp only [newestTranscripts, ← latestBy_eq_some_iff, findTranscript,
    SqliteStore.getLatestTranscript, Option.map_eq_some_iff]
  constructor
  · rintro ⟨tie, r, h, rfl⟩
    exact ⟨r, ⟨tie, h⟩, rfl⟩
  · rintro ⟨r, ⟨tie, h⟩, rfl⟩
    exact ⟨tie, r, h, rfl⟩

theorem getTranslation_hash {hash : String} {tie : Nat} {r : TranslationKey × TranslationRow}
    (h : db.getTranslation videoId (some hash) tie = some r) : r.1.sourceHash = hash := by
  have hmem := latestBy_eq_some_iff.1 ⟨tie, h⟩
  have hhash := (List.mem_filter.1 (List.mem_filter.1 hmem).1).2
  simp only [Bool.and_eq_true, Option.all_some, decide_eq_true_eq] at hhash
  exact hhash.2

theorem getTranslation_latest_iff {r : TranslationKey × TranslationRow} :
    (∃ tie, db.getTranslation videoId none tie = some r) ↔ r ∈ newestTranslations db videoId := by
  simp [SqliteStore.getTranslation, newestTranslations, latestBy_eq_some_iff]

end Selection

theorem mem_newestTranscripts {db : SqliteStore} {videoId : String}
    {r : (String × String) × TranscriptRow} (hr : r ∈ newestTranscripts db videoId) :
    db.transcripts.get? r.1 = some r.2 :=
  (OrderedMap.get?_eq_some_iff _).2 (List.mem_filter.1 (List.mem_filter.1 hr).1).1

theorem mem_getTranslation {db : SqliteStore} {videoId : String} {sourceHash : Option String}
    {tie : Nat} {r : TranslationKey × TranslationRow}
    (hr : db.getTranslation videoId sourceHash tie = some r) :
    db.translations.get? r.1 = some r.2 := by
  have hmem := latestBy_eq_some_iff.1 ⟨tie, hr⟩
  exact (OrderedMap.get?_eq_some_iff _).2 (List.mem_filter.1 (List.mem_filter.1 hmem).1).1

/-- What is hydrated from a timeline and a translation matches when their hashes do. -/
theorem matching_hydrated_iff {token videoId : String} {db : SqliteStore} (hk : Keyed env db)
    {key : String × String} {row : TranscriptRow} (hrow : db.transcripts.get? key = some row)
    {r : TranslationKey × TranslationRow} (hr : db.translations.get? r.1 = some r.2) :
    Matching (hydrated env token videoId row.timelineJson (some r)) ↔ r.1.sourceHash = key.2 := by
  obtain ⟨hne, timeline, hfrom, hhash⟩ := hk.transcript hrow
  obtain ⟨cues, hcues⟩ := hk.translation hr
  have htimeline : (hydrated env token videoId row.timelineJson (some r)).get "timeline" =
      some timeline := by
    simp only [hydrated, hne, if_false, hfrom]
    rfl
  have htranslation : (hydrated env token videoId row.timelineJson (some r)).get "translation" =
      some (.obj [("videoId", .str videoId), ("cues", cues), ("revisionId", .str r.2.revisionId),
        ("sourceHash", .str r.1.sourceHash), ("targetLang", .str r.1.targetLang)]) := by
    simp only [hydrated, Option.bind_some, hcues]
    rfl
  constructor
  · intro h
    have heq := h _ _ htimeline (by rintro rfl; cases hhash) htranslation nofun
    rw [hhash] at heq
    exact Option.some.inj heq
  · intro h timeline' translation ht _ htr _
    rw [htimeline, Option.some.injEq] at ht
    rw [htranslation, Option.some.injEq] at htr
    subst ht htr
    rw [hhash, ← h]
    rfl

/-- Without a timeline or without a translation there is nothing to match. -/
theorem matching_hydrated_empty {token videoId : String}
    {found : Option (TranslationKey × TranslationRow)} :
    Matching (hydrated env token videoId "" found) := by
  intro timeline _ ht hne
  obtain rfl : Json.null = timeline := Option.some.inj ht
  exact absurd rfl hne

theorem matching_hydrated_none {token videoId body : String} :
    Matching (hydrated env token videoId body none) := by
  intro _ translation _ _ htr hne
  obtain rfl : Json.null = translation := Option.some.inj htr
  exact absurd rfl hne

/-- Every answer to a request for a video matches if and only if the request names a source hash or
all newest timelines and translations of the video have the same. -/
theorem hydrated_matches_iff {puts : List StorePut} (hread : ∀ p ∈ puts, ReadsBack env p.body)
    (hs : s.sqlite = some (StorePut.applyAll env puts)) (value : Json) (token : String) :
    AnswersMatch env value token s ↔
      (value.getStr "sourceHash").isSome ∨
      ∀ r ∈ newestTranscripts (StorePut.applyAll env puts) (value.strOr "videoId" ""),
        ∀ r' ∈ newestTranslations (StorePut.applyAll env puts) (value.strOr "videoId" ""),
          r'.1.sourceHash = r.1.2 := by
  have hk := keyed_applyAll hread
  generalize StorePut.applyAll env puts = db at hs hk ⊢
  simp only [AnswersMatch, exec_handleTimelineHydrate_iff hs]
  cases hhash : value.getStr "sourceHash" with
  | some hash =>
    refine iff_of_true ?_ (Or.inl rfl)
    rintro _ _ ⟨_, tie, tie', rfl⟩ _ hm
    obtain rfl := List.mem_singleton.1 hm
    cases hbody : findTranscript db (value.strOr "videoId" "") (some hash) tie with
    | none => exact matching_hydrated_empty
    | some body =>
      obtain ⟨row, hrow, rfl⟩ := findTranscript_hash hbody
      cases hfound : db.getTranslation (value.strOr "videoId" "") (some hash) tie' with
      | none => exact matching_hydrated_none
      | some r =>
        rw [Option.getD_some, matching_hydrated_iff hk hrow (mem_getTranslation hfound)]
        exact getTranslation_hash hfound
  | none =>
    constructor
    · intro h
      refine Or.inr fun r hr r' hr' => ?_
      obtain ⟨tie, hbody⟩ := findTranscript_latest_iff.2 ⟨r, hr, rfl⟩
      obtain ⟨tie', hfound⟩ := getTranslation_latest_iff.2 hr'
      have hmatching := h _ _ ⟨rfl, tie, tie', rfl⟩ _ List.mem_cons_self
      rw [hbody, hfound, Option.getD_some] at hmatching
      exact (matching_hydrated_iff hk (mem_newestTranscripts hr) (mem_getTranslation hfound)).1
        hmatching
    · rintro (h | h)
      · cases h
      rintro _ _ ⟨_, tie, tie', rfl⟩ _ hm
      obtain rfl := List.mem_singleton.1 hm
      cases hbody : findTranscript db (value.strOr "videoId" "") none tie with
      | none => exact matching_hydrated_empty
      | some body =>
        obtain ⟨r, hr, rfl⟩ := findTranscript_latest_iff.1 ⟨tie, hbody⟩
        cases hfound : db.getTranslation (value.strOr "videoId" "") none tie' with
        | none => exact matching_hydrated_none
        | some r' =>
          rw [Option.getD_some,
            matching_hydrated_iff hk (mem_newestTranscripts hr) (mem_getTranslation hfound)]
          exact h r hr r' (getTranslation_latest_iff.1 ⟨tie', hfound⟩)

/-! A video whose captions are fetched again after they were translated. -/

def captions (sourceHash : String) : Json :=
  .obj [("sourceHash", .str sourceHash), ("videoId", .str "v")]

def captionsText (sourceHash : String) : String :=
  "\x7b\"sourceHash\":\"" ++ sourceHash ++ "\",\"videoId\":\"v\"\x7d"

/-- `serde_json`, on these timelines and on an empty cue list. -/
def captionsJson : External where
  toString v :=
    match v.getStr "sourceHash" with
    | some sourceHash => captionsText sourceHash
    | none => "[]"
  fromStr text :=
    if text = captionsText "h1" then some (captions "h1")
    else if text = captionsText "h2" then some (captions "h2")
    else if text = "[]" then some (.arr [])
    else none
  decodeBase64 _ := none

/-- Captions and their translation. -/
def translatedCaptions : List StorePut :=
  [.timeline (captions "h1") 1,
    .translation
      { videoId := "v", sourceHash := "h1", modelId := "mock", modelRevision := "1"
        targetLang := "en" }
      (.arr []) "rev-2" 2]

theorem readsBack_captions : ReadsBack captionsJson (captions "h1") ∧
    ReadsBack captionsJson (captions "h2") ∧ ReadsBack captionsJson (.arr []) :=
  ⟨⟨by decide, _, rfl, rfl⟩, ⟨by decide, _, rfl, rfl⟩, ⟨by decide, _, rfl, rfl⟩⟩

def hydrateRequest : Json := .obj [("type", .str "timeline.hydrate"), ("videoId", .str "v")]

/-- As long as the captions are not fetched again the answers match. -/
theorem hydrated_matches_translated : AnswersMatch captionsJson hydrateRequest ""
    (Stores.new (some (StorePut.applyAll captionsJson translatedCaptions))) := by
  have hread : ∀ p ∈ translatedCaptions, ReadsBack captionsJson p.body := by
    simp [translatedCaptions, StorePut.body, readsBack_captions]
  refine (hydrated_matches_iff hread rfl hydrateRequest "").2 (Or.inr ?_)
  decide +kernel

/-- Once they are fetched again with another hash, the new timeline comes with the old translation.
-/
theorem not_hydrated_matches : ¬ ∀ (env : External) (puts : List StorePut) (s : Stores)
    (value : Json) (token : String), (∀ p ∈ puts, ReadsBack env p.body) →
      s.sqlite = some (StorePut.applyAll env puts) → AnswersMatch env value token s := by
  intro h
  let puts := translatedCaptions ++ [.timeline (captions "h2") 3]
  let s := Stores.new (some (StorePut.applyAll captionsJson puts))
  have hp :
    ∃ translation, perform 0 default (handleTimelineHydrate captionsJson hydrateRequest "") s =
      some ([.obj [("type", .str "timeline.hydrated"), ("sessionToken", .str ""),
        ("videoId", .str "v"), ("timeline", captions "h2"), ("translation", translation)]], (), s) ∧
      translation.getStr "sourceHash" = some "h1" :=
    ⟨_, rfl, rfl⟩
  obtain ⟨translation, hp, hhash⟩ := hp
  have hread : ∀ p ∈ puts, ReadsBack captionsJson p.body := by
    simp [puts, translatedCaptions, StorePut.body, readsBack_captions]
  have heq := h captionsJson puts s hydrateRequest "" hread rfl _ _ (exec_of_perform hp) _
    List.mem_cons_self (captions "h2") translation rfl nofun rfl (by rintro rfl; cases hhash)
  rw [hhash] at heq
  exact absurd heq (by decide)

end LanguageLlm.Desktop
