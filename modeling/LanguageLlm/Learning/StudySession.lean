import LanguageLlm.Learning.StudyStore

/-!
# Study sessions over one store

`StudySession` (`features/learning/session.ts`) in the content script and in the side panel. Each
keeps the snapshot that it has loaded in memory and saves it as a whole. `stored_updates_kept` says
when the store ends up with the updates of both.
-/

namespace LanguageLlm.Learning

open Lib

/-! ## Cards and words -/

/-- `StudyCard`, for any state of the scheduler. -/
structure StudyCard (Fsrs : Type) where
  id : String
  videoId : Option String
  sourceText : String
  translationText : Option String
  tags : List String
  provenance : String
  fsrs : Fsrs
  createdAtMs : Nat
  updatedAtMs : Nat

/-- `FsrsRating`: 1 to 4. -/
inductive FsrsRating where
  | again
  | hard
  | good
  | easy
  deriving DecidableEq

/-- What lies outside: the scheduler, which computes with floating point, and Unicode. -/
structure Learner (Fsrs : Type) where
  createInitialFsrs : Nat → Fsrs
  reviewFsrs : Fsrs → FsrsRating → Nat → Fsrs
  toLowerCase : String → String
  tokenizeSurfaces : String → List String

/-- `set.add(word)`. -/
def setAdd (words : List String) (word : String) : List String :=
  if word ∈ words then words else words ++ [word]

structure KnownWordTracker where
  known : List String
  encounters : OrderedMap String Nat

variable {Fsrs : Type} (env : Learner Fsrs)

def createKnownWordTracker (known : List String) : KnownWordTracker where
  known := (known.map env.toLowerCase).foldl setAdd []
  encounters := .empty

def noteEncounter (tracker : KnownWordTracker) (surface : String) : KnownWordTracker :=
  let key := env.toLowerCase surface
  { tracker with
    encounters := tracker.encounters.set key ((tracker.encounters.get? key).getD 0 + 1) }

def markKnown (tracker : KnownWordTracker) (surface : String) : KnownWordTracker :=
  { tracker with known := setAdd tracker.known (env.toLowerCase surface) }

/-- What `mineSentence` is given, and the identifier that it draws. -/
structure MinedSentence where
  id : String
  sourceText : String
  translationText : Option String
  videoId : Option String
  tags : Option (List String)

/-- `createStudyCard`. -/
def createStudyCard (input : MinedSentence) (now : Nat) : StudyCard Fsrs where
  id := input.id
  videoId := input.videoId
  sourceText := input.sourceText
  translationText := input.translationText
  tags := input.tags.getD ["mined"]
  provenance := "user-edit"
  fsrs := env.createInitialFsrs now
  createdAtMs := now
  updatedAtMs := now

/-! ## Sessions -/

/-- What a session saves and loads. -/
abbrev CardSnapshot (Fsrs : Type) := StudySessionSnapshot (StudyCard Fsrs) String

/-- The memory of a `StudySession`. -/
structure StudySession (Fsrs : Type) where
  cards : List (StudyCard Fsrs)
  tracker : KnownWordTracker

/-- The cards after the first one with an identifier was reviewed. -/
def reviewCard (cards : List (StudyCard Fsrs)) (cardId : String) (rating : FsrsRating) (now : Nat) :
    Option (List (StudyCard Fsrs)) :=
  (cards.findIdx? fun c => c.id = cardId).bind fun idx =>
    cards[idx]?.map fun card =>
      cards.set idx { card with fsrs := env.reviewFsrs card.fsrs rating now, updatedAtMs := now }

namespace StudySession

/-- A session that has not loaded anything yet. -/
def new : StudySession Fsrs where
  cards := []
  tracker := { known := [], encounters := .empty }

/-- `hydrate`, with the snapshot that was loaded. -/
def hydrate (snap : CardSnapshot Fsrs) : StudySession Fsrs where
  cards := snap.cards
  tracker := createKnownWordTracker env snap.knownWords

/-- What `persist` saves. -/
def snapshot (s : StudySession Fsrs) : CardSnapshot Fsrs where
  cards := s.cards
  knownWords := s.tracker.known

def mineSentence (s : StudySession Fsrs) (input : MinedSentence) (now : Nat) :
    StudySession Fsrs where
  cards := s.cards ++ [createStudyCard env input now]
  tracker := (env.tokenizeSurfaces input.sourceText).foldl (noteEncounter env) s.tracker

/-- `review`: `none` for a card that the session does not have. -/
def review (s : StudySession Fsrs) (cardId : String) (rating : FsrsRating) (now : Nat) :
    Option (StudySession Fsrs) :=
  (reviewCard env s.cards cardId rating now).map fun cards => { s with cards }

def markSurfaceKnown (s : StudySession Fsrs) (surface : String) : StudySession Fsrs :=
  { s with tracker := markKnown env s.tracker surface }

end StudySession

/-- An update of the study data. -/
inductive StudyUpdate where
  | mine (input : MinedSentence) (now : Nat)
  | review (cardId : String) (rating : FsrsRating) (now : Nat)
  | markKnown (surface : String)

/-- A session after an update; `none` when there is nothing to review. -/
def StudySession.update (s : StudySession Fsrs) : StudyUpdate → Option (StudySession Fsrs)
  | .mine input now => some (s.mineSentence env input now)
  | .review cardId rating now => s.review env cardId rating now
  | .markKnown surface => some (s.markSurfaceKnown env surface)

/-! ## Two sessions -/

/-- Where a session is. -/
inductive Surface where
  | contentScript
  | sidePanel
  deriving DecidableEq

/-- A session with the snapshots that it has read from the store and not taken up yet, and those
that it saves, the oldest first. -/
structure SessionState (Fsrs : Type) where
  session : StudySession Fsrs
  loaded : List (CardSnapshot Fsrs)
  saving : List (CardSnapshot Fsrs)

structure SharedStudy (Fsrs : Type) where
  store : CardSnapshot Fsrs
  sessions : Surface → SessionState Fsrs

inductive StudyEvent where
  /-- The `load` of a `hydrate` reads the store. -/
  | load (i : Surface)
  /-- One of the loads returns to its `hydrate`. -/
  | hydrate (i : Surface) (n : Nat)
  | update (i : Surface) (u : StudyUpdate)
  /-- The oldest save reaches the store. -/
  | saved (i : Surface)

namespace SharedStudy

/-- Two new sessions. -/
def start (store : CardSnapshot Fsrs) : SharedStudy Fsrs where
  store
  sessions _ := { session := .new, loaded := [], saving := [] }

def set (s : SharedStudy Fsrs) (i : Surface) (state : SessionState Fsrs) : SharedStudy Fsrs :=
  { s with sessions := Function.update s.sessions i state }

def step (s : SharedStudy Fsrs) : StudyEvent → Option (SharedStudy Fsrs)
  | .load i =>
    let state := s.sessions i
    some (s.set i { state with loaded := state.loaded ++ [s.store] })
  | .hydrate i n =>
    let state := s.sessions i
    state.loaded[n]?.map fun snap =>
      s.set i { state with session := .hydrate env snap, loaded := state.loaded.eraseIdx n }
  | .update i u =>
    let state := s.sessions i
    match state.session.update env u with
    | some session =>
      some (s.set i { state with session, saving := state.saving ++ [session.snapshot] })
    | none => some s
  | .saved i =>
    let state := s.sessions i
    match state.saving with
    | snap :: saving => some ({ s with store := snap }.set i { state with saving })
    | [] => none

end SharedStudy

/-! ## What the store contains -/

/-- A card apart from its reviews. -/
def StudyCard.content (c : StudyCard Fsrs) : StudyCard Unit where
  id := c.id
  videoId := c.videoId
  sourceText := c.sourceText
  translationText := c.translationText
  tags := c.tags
  provenance := c.provenance
  fsrs := ()
  createdAtMs := c.createdAtMs
  updatedAtMs := 0

def findCard (id : String) (cards : List (StudyCard Fsrs)) : Option (StudyCard Fsrs) :=
  cards.find? fun c => c.id = id

/-- The cards that are mined. -/
def minedCards (updates : List StudyUpdate) : List (StudyCard Fsrs) :=
  updates.filterMap fun
    | .mine input now => some (createStudyCard env input now)
    | _ => none

/-- The reviews of a card. -/
def reviews (id : String) (updates : List StudyUpdate) : List (FsrsRating × Nat) :=
  updates.filterMap fun
    | .review cardId rating now => if cardId = id then some (rating, now) else none
    | _ => none

/-- The snapshot `after` contains every card that is mined, every review and every word that is
marked, on top of the cards of `before`. -/
structure Contains (before : CardSnapshot Fsrs) (updates : List StudyUpdate)
    (after : CardSnapshot Fsrs) : Prop where
  mined : ∀ card ∈ minedCards env updates, card.content ∈ after.cards.map StudyCard.content
  reviewed : ∀ id, (findCard id after.cards).map StudyCard.fsrs =
    (findCard id (before.cards ++ minedCards env updates)).map fun card =>
      (reviews id updates).foldl (fun fsrs r => env.reviewFsrs fsrs r.1 r.2) card.fsrs
  marked : ∀ surface, .markKnown surface ∈ updates → env.toLowerCase surface ∈ after.knownWords

/-- The snapshot contains the updates, and only its cards were reviewed. -/
structure Tracks (before : CardSnapshot Fsrs) (updates : List StudyUpdate)
    (after : CardSnapshot Fsrs) : Prop extends Contains env before updates after where
  unreviewed : ∀ id, findCard id (before.cards ++ minedCards env updates) = none →
    reviews id updates = []

section Updates

variable {env} {before : CardSnapshot Fsrs} {updates : List StudyUpdate}
  {session session' : StudySession Fsrs}

/-- A review replaces the first card with its identifier. -/
theorem reviewCard_split {cards cards' : List (StudyCard Fsrs)} {cardId : String}
    {rating : FsrsRating} {now : Nat} (h : reviewCard env cards cardId rating now = some cards') :
    ∃ l₁ card l₂, cards = l₁ ++ card :: l₂ ∧ card.id = cardId ∧ (∀ c ∈ l₁, c.id ≠ cardId) ∧
      cards' = l₁ ++
        { card with fsrs := env.reviewFsrs card.fsrs rating now, updatedAtMs := now } :: l₂ := by
  obtain ⟨idx, hidx, h⟩ := Option.bind_eq_some_iff.1 h
  obtain ⟨card, hcard, rfl⟩ := Option.map_eq_some_iff.1 h
  obtain ⟨hlt, hid, hbefore⟩ := List.findIdx?_eq_some_iff_getElem.1 hidx
  obtain ⟨_, rfl⟩ := List.getElem?_eq_some_iff.1 hcard
  refine ⟨cards.take idx, cards[idx], cards.drop (idx + 1), ?_,
    by simpa using hid, fun c hc => ?_, ?_⟩
  · rw [List.getElem_cons_drop, List.take_append_drop]
  · obtain ⟨j, hj, rfl⟩ := List.mem_take_iff_getElem.1 hc
    simpa using hbefore j (by omega)
  · rw [List.set_eq_take_append_cons_drop, if_pos hlt]

theorem mem_setAdd {words : List String} {word w : String} :
    w ∈ setAdd words word ↔ w ∈ words ∨ w = word := by
  unfold setAdd
  split
  · next h =>
    constructor
    · exact Or.inl
    · rintro (hw | rfl)
      · exact hw
      · exact h
  · simp

theorem findCard_append (id : String) (l₁ l₂ : List (StudyCard Fsrs)) :
    findCard id (l₁ ++ l₂) = (findCard id l₁).or (findCard id l₂) :=
  List.find?_append

theorem minedCards_append (us : List StudyUpdate) :
    minedCards env (updates ++ us) = minedCards env updates ++ minedCards env us :=
  List.filterMap_append

theorem reviews_append (id : String) (us : List StudyUpdate) :
    reviews id (updates ++ us) = reviews id updates ++ reviews id us :=
  List.filterMap_append

theorem findCard_cons (id : String) (c : StudyCard Fsrs) (l : List (StudyCard Fsrs)) :
    findCard id (c :: l) = if c.id = id then some c else findCard id l := by
  simp only [findCard, List.find?_cons]
  by_cases hid : c.id = id <;> simp [hid]

theorem reviews_singleton (id cardId : String) (rating : FsrsRating) (now : Nat) :
    reviews id [.review cardId rating now] = if cardId = id then [(rating, now)] else [] := by
  by_cases hid : cardId = id <;> simp [reviews, hid]

theorem known_noteEncounters (tokens : List String) (tracker : KnownWordTracker) :
    (tokens.foldl (noteEncounter env) tracker).known = tracker.known := by
  induction tokens generalizing tracker with
  | nil => rfl
  | cons token tokens ih => exact ih _

theorem Tracks.mine (ht : Tracks env before updates session.snapshot) (input : MinedSentence)
    (now : Nat) :
    Tracks env before (updates ++ [.mine input now])
    (session.mineSentence env input now).snapshot := by
  have hmined : minedCards env (updates ++ [.mine input now]) =
      minedCards env updates ++ [createStudyCard env input now] :=
    minedCards_append _
  have hreviews (id : String) : reviews id (updates ++ [.mine input now]) = reviews id updates := by
    rw [reviews_append]
    exact List.append_nil _
  constructor
  · constructor
    · intro card hcard
      rw [hmined, List.mem_append, List.mem_singleton] at hcard
      simp only [StudySession.snapshot, StudySession.mineSentence, List.map_append, List.mem_append]
      rcases hcard with hcard | rfl
      · exact Or.inl (ht.mined card hcard)
      · exact Or.inr List.mem_cons_self
    · intro id
      have hold := ht.reviewed id
      rw [hmined, hreviews, ← List.append_assoc]
      simp only [StudySession.snapshot, StudySession.mineSentence] at hold ⊢
      rw [findCard_append, findCard_append]
      cases hfind : findCard id (before.cards ++ minedCards env updates) with
      | none =>
        -- the first card with this identifier, if it is one, has no reviews yet
        rw [hfind, Option.map_none, Option.map_eq_none_iff] at hold
        rw [hold, ht.unreviewed id hfind]
        rfl
      | some card =>
        rw [hfind, Option.map_some, Option.map_eq_some_iff] at hold
        obtain ⟨c, hc, hfsrs⟩ := hold
        rw [hc, Option.some_or, Option.some_or, Option.map_some, Option.map_some, hfsrs]
    · intro surface hmem
      simp only [StudySession.snapshot, StudySession.mineSentence, known_noteEncounters]
      exact ht.marked surface (by simpa using hmem)
  · intro id hnone
    rw [hmined, ← List.append_assoc, findCard_append, Option.or_eq_none_iff] at hnone
    rw [hreviews]
    exact ht.unreviewed id hnone.1

theorem Tracks.review {cardId : String} {rating : FsrsRating} {now : Nat}
    {cards : List (StudyCard Fsrs)} (ht : Tracks env before updates session.snapshot)
    (hcards : reviewCard env session.cards cardId rating now = some cards) :
    Tracks env before (updates ++ [.review cardId rating now])
      ({ session with cards } : StudySession Fsrs).snapshot := by
  obtain ⟨l₁, card, l₂, hsplit, rfl, hl₁, rfl⟩ := reviewCard_split hcards
  have hmined : minedCards env (updates ++ [.review card.id rating now]) = minedCards env
      updates := by
    rw [minedCards_append]
    exact List.append_nil _
  have hfind₁ : findCard card.id l₁ = none := by
    simpa [findCard] using hl₁
  have hold := ht.reviewed
  simp only [StudySession.snapshot, hsplit, findCard_append, findCard_cons] at hold
  constructor
  · constructor
    · intro c hc
      rw [hmined] at hc
      have hcontent := ht.mined c hc
      simp only [StudySession.snapshot, hsplit, List.map_append, List.map_cons] at hcontent ⊢
      exact hcontent
    · intro id
      rw [hmined, reviews_append, reviews_singleton]
      simp only [StudySession.snapshot, findCard_append, findCard_cons]
      by_cases hid : card.id = id
      · subst hid
        have hcard := hold card.id
        rw [hfind₁, if_pos rfl, Option.none_or, Option.map_some, eq_comm, Option.map_eq_some_iff]
          at hcard
        obtain ⟨first, hfirst, hfsrs⟩ := hcard
        rw [hfind₁, if_pos rfl, hfirst, if_pos rfl, Option.none_or, Option.map_some,
          Option.map_some, List.foldl_append, hfsrs]
        rfl
      · rw [if_neg hid, if_neg hid, List.append_nil, ← hold id, if_neg hid]
    · intro surface hmem
      exact ht.marked surface (by simpa using hmem)
  · intro id hnone
    rw [hmined] at hnone
    rw [reviews_append, ht.unreviewed id hnone, reviews_singleton, if_neg, List.append_nil]
    rintro rfl
    have hcard := hold card.id
    rw [hfind₁, if_pos rfl, ← findCard_append, hnone] at hcard
    cases hcard

theorem Tracks.markKnown (ht : Tracks env before updates session.snapshot) (surface : String) :
    Tracks env before (updates ++ [.markKnown surface])
    (session.markSurfaceKnown env surface).snapshot := by
  have hmined : minedCards env (updates ++ [.markKnown surface]) = minedCards env updates := by
    rw [minedCards_append]
    exact List.append_nil _
  have hreviews (id : String) : reviews id (updates ++ [.markKnown surface]) = reviews id
      updates := by
    rw [reviews_append]
    exact List.append_nil _
  constructor
  · constructor
    · intro card hcard
      exact ht.mined card (hmined ▸ hcard)
    · intro id
      rw [hmined, hreviews]
      exact ht.reviewed id
    · intro surface' hmem
      rw [List.mem_append, List.mem_singleton, StudyUpdate.markKnown.injEq] at hmem
      refine mem_setAdd.2 ?_
      rcases hmem with hmem | rfl
      · exact Or.inl (ht.marked surface' hmem)
      · exact Or.inr rfl
  · intro id hnone
    rw [hmined] at hnone
    rw [hreviews]
    exact ht.unreviewed id hnone

/-- An update of a session that has all updates so far. -/
theorem Tracks.update {u : StudyUpdate} (ht : Tracks env before updates session.snapshot)
    (hu : session.update env u = some session') :
    Tracks env before (updates ++ [u]) session'.snapshot := by
  cases u with
  | mine input now =>
    obtain rfl := Option.some.inj hu
    exact ht.mine input now
  | review cardId rating now =>
    obtain ⟨cards, hcards, rfl⟩ := Option.map_eq_some_iff.1 hu
    exact ht.review hcards
  | markKnown surface =>
    obtain rfl := Option.some.inj hu
    exact ht.markKnown surface

end Updates

/-! ## Runs -/

abbrev StudyHistory (Fsrs : Type) := List (Fired (SharedStudy Fsrs) StudyEvent)

/-- The update of a step; a review of a card that the session does not have is none. -/
def appliedUpdate (f : Fired (SharedStudy Fsrs) StudyEvent) : Option StudyUpdate :=
  match f.label with
  | .update i u => ((f.pre.sessions i).session.update env u).map fun _ => u
  | _ => none

/-- The updates of a run in their order. -/
def appliedUpdates (h : StudyHistory Fsrs) : List StudyUpdate :=
  (h.filterMap (appliedUpdate env)).reverse

/-- What the store holds once the saves of a session have reached it. -/
def SharedStudy.latest (s : SharedStudy Fsrs) (i : Surface) : CardSnapshot Fsrs :=
  ((s.sessions i).saving.getLast?).getD s.store

/-- An update is made by a session whose memory is what was saved last, while the other session
saves nothing. -/
def UpToDate (f : Fired (SharedStudy Fsrs) StudyEvent) : Prop :=
  ∀ i u, f.label = .update i u → appliedUpdate env f = some u →
    (∀ j, j ≠ i → (f.pre.sessions j).saving = []) ∧
    (f.pre.sessions i).session.snapshot = f.pre.latest i

/-- At most one session saves, and what it has saved last contains all updates. -/
def Tracked (before : CardSnapshot Fsrs) (h : StudyHistory Fsrs) (s : SharedStudy Fsrs) : Prop :=
  ∃ i, (∀ j, j ≠ i → (s.sessions j).saving = []) ∧
    Tracks env before (appliedUpdates env h) (s.latest i)

section Runs

variable {env} {before : CardSnapshot Fsrs} {h : StudyHistory Fsrs} {s s' : SharedStudy Fsrs}

theorem appliedUpdates_cons (f : Fired (SharedStudy Fsrs) StudyEvent) :
    appliedUpdates env (f :: h) = appliedUpdates env h ++ (appliedUpdate env f).toList := by
  cases hf : appliedUpdate env f <;> simp [appliedUpdates, hf]

/-- A step that leaves the store and the saves alone. -/
theorem Tracked.frame {l : StudyEvent} (ht : Tracked env before h s)
    (hl : appliedUpdate env ⟨s, l, s'⟩ = none) (hstore : s'.store = s.store)
    (hsaving : ∀ i, (s'.sessions i).saving = (s.sessions i).saving) :
    Tracked env before (⟨s, l, s'⟩ :: h) s' := by
  obtain ⟨i, hothers, ht⟩ := ht
  refine ⟨i, fun j hj => (hsaving j).trans (hothers j hj), ?_⟩
  rw [appliedUpdates_cons, hl, Option.toList_none, List.append_nil]
  simpa only [SharedStudy.latest, hstore, hsaving] using ht

theorem set_saving (i j : Surface) (state : SessionState Fsrs) :
    ((s.set i state).sessions j).saving =
      if j = i then state.saving else (s.sessions j).saving := by
  by_cases hj : j = i
  · subst hj
    simp [SharedStudy.set]
  · simp [SharedStudy.set, hj]

/-- Where the other session saves nothing, a session has saved what was saved last. -/
theorem Tracked.latest {i : Surface} (ht : Tracked env before h s)
    (hothers : ∀ j, j ≠ i → (s.sessions j).saving = []) :
    Tracks env before (appliedUpdates env h) (s.latest i) := by
  obtain ⟨i', hothers', ht⟩ := ht
  by_cases hi : i' = i
  · exact hi ▸ ht
  · have hlatest : s.latest i = s.latest i' := by
      rw [SharedStudy.latest, SharedStudy.latest, hothers i' hi, hothers' i (Ne.symm hi)]
    rwa [hlatest]

theorem tracked_start : Tracked env before [] (.start before) := by
  refine ⟨.contentScript, fun _ _ => rfl, ⟨⟨nofun, fun id => ?_, nofun⟩, fun _ _ => rfl⟩⟩
  simp [minedCards, appliedUpdates, reviews, SharedStudy.latest, SharedStudy.start]

/-- A state with the saves of the one before changes no save of any session. -/
theorem saving_set_of_eq {i : Surface} {state : SessionState Fsrs}
    (h : state.saving = (s.sessions i).saving) (j : Surface) :
    ((s.set i state).sessions j).saving = (s.sessions j).saving := by
  rw [set_saving]
  split
  · next hj => rw [hj, h]
  · rfl

/-- An update that is applied is saved by a session that has what was saved last. -/
theorem Tracked.update {i : Surface} {u : StudyUpdate} {session : StudySession Fsrs}
    (ht : Tracked env before h s) (hu : (s.sessions i).session.update env u = some session)
    (hothers : ∀ j, j ≠ i → (s.sessions j).saving = [])
    (hmemory : (s.sessions i).session.snapshot = s.latest i) :
    let s' := s.set i
      { s.sessions i with session, saving := (s.sessions i).saving ++ [session.snapshot] }
    Tracked env before (⟨s, .update i u, s'⟩ :: h) s' := by
  intro s'
  have happlied : appliedUpdate env ⟨s, .update i u, s'⟩ = some u := by
    simp only [appliedUpdate, hu, Option.map_some]
  have hlatest := ht.latest hothers
  rw [← hmemory] at hlatest
  refine ⟨i, fun j hj => ?_, ?_⟩
  · rw [set_saving, if_neg hj]
    exact hothers j hj
  · rw [appliedUpdates_cons, happlied, SharedStudy.latest, set_saving, if_pos rfl,
      List.getLast?_concat]
    exact hlatest.update hu

/-- A save that ends leaves what was saved last. -/
theorem Tracked.saved {i : Surface} {snap : CardSnapshot Fsrs} {saving : List (CardSnapshot Fsrs)}
    (ht : Tracked env before h s) (hsaving : (s.sessions i).saving = snap :: saving) :
    let s' : SharedStudy Fsrs := { s.set i { s.sessions i with saving } with store := snap }
    Tracked env before (⟨s, .saved i, s'⟩ :: h) s' := by
  intro s'
  obtain ⟨i', hothers, ht⟩ := ht
  obtain rfl : i = i' := by
    by_contra hne
    rw [hothers i hne] at hsaving
    cases hsaving
  have hlatest : ((s.sessions i).saving.getLast?).getD s.store = saving.getLast?.getD snap := by
    rw [hsaving, List.getLast?_cons, Option.getD_some]
  refine ⟨i, fun j hj => ?_, ?_⟩
  · rw [set_saving, if_neg hj]
    exact hothers j hj
  · rw [appliedUpdates_cons, SharedStudy.latest, set_saving, if_pos rfl]
    simp only [SharedStudy.latest, hlatest] at ht
    simpa [appliedUpdate, SharedStudy.set] using ht

theorem Tracked.step {l : StudyEvent} (ht : Tracked env before h s)
    (hC : UpToDate env ⟨s, l, s'⟩) (hs : s.step env l = some s') :
    Tracked env before (⟨s, l, s'⟩ :: h) s' := by
  cases l with
  | load i =>
    obtain rfl := Option.some.inj hs
    exact ht.frame rfl rfl (saving_set_of_eq rfl)
  | hydrate i n =>
    obtain ⟨snap, _, rfl⟩ := Option.map_eq_some_iff.1 hs
    exact ht.frame rfl rfl (saving_set_of_eq rfl)
  | update i u =>
    simp only [SharedStudy.step] at hs
    split at hs
    · next session hu =>
      obtain rfl := Option.some.inj hs
      obtain ⟨hothers, hmemory⟩ := hC i u rfl (by simp only [appliedUpdate, hu, Option.map_some])
      exact ht.update hu hothers hmemory
    · next hnone =>
      obtain rfl := Option.some.inj hs
      refine ht.frame ?_ rfl fun _ => rfl
      simp only [appliedUpdate, hnone, Option.map_none]
  | saved i =>
    simp only [SharedStudy.step] at hs
    split at hs
    · next snap saving hsaving =>
      obtain rfl := Option.some.inj hs
      exact ht.saved hsaving
    · cases hs

/-- The store ends up with the updates of both sessions, when every update is made by a session that
has loaded what was saved last. -/
theorem stored_updates_kept (hr : Run (SharedStudy.step env) (.start before) h s)
    (hC : ∀ f ∈ h, UpToDate env f) (hsaved : ∀ i, (s.sessions i).saving = []) :
    Contains env before (appliedUpdates env h) s.store := by
  have ht : Tracked env before h s :=
    hr.invWhen (UpToDate env) (Tracked env before) tracked_start
      (fun _ _ _ _ _ ht hC hs => ht.step hC hs) hC
  have hlatest := ht.latest (i := .contentScript) fun j _ => hsaved j
  rw [SharedStudy.latest, hsaved] at hlatest
  exact hlatest.toContains

end Runs

/-! A word that is marked in either session. -/

/-- Single words of ASCII letters, and no cards. -/
def asciiWords : Learner Unit where
  createInitialFsrs _ := ()
  reviewFsrs _ _ _ := ()
  toLowerCase text := String.ofList (text.toList.map Char.toLower)
  tokenizeSurfaces text := [text]

def noCards : CardSnapshot Unit := { cards := [], knownWords := [] }

/-- `hydrate` of a session. -/
def hydrateNow (i : Surface) : List StudyEvent := [.load i, .hydrate i 0]

/-- A session marks a word and saves it. -/
def markNow (i : Surface) (word : String) : List StudyEvent :=
  [.update i (.markKnown word), .saved i]

/-- A session that loads the word of the other one keeps it. -/
theorem stored_updates_kept_words : ∃ h s,
    exec (SharedStudy.step asciiWords) (.start noCards)
      (hydrateNow .contentScript ++ markNow .contentScript "cat" ++
        (hydrateNow .sidePanel ++ markNow .sidePanel "dog")) = some (h, s) ∧
    Contains asciiWords noCards (appliedUpdates asciiWords h) s.store := by
  obtain ⟨h, s, hr, hC, hsaved⟩ : ∃ h s,
      exec (SharedStudy.step asciiWords) (.start noCards)
        (hydrateNow .contentScript ++ markNow .contentScript "cat" ++
          (hydrateNow .sidePanel ++ markNow .sidePanel "dog")) = some (h, s) ∧
      (∀ f ∈ h, UpToDate asciiWords f) ∧ ∀ i, (s.sessions i).saving = [] := by
    refine ⟨_, _, rfl, ?_, ?_⟩
    · simp only [List.forall_mem_cons]
      refine ⟨nofun, ?_, nofun, nofun, nofun, ?_, nofun, nofun, nofun⟩
      · rintro i u ⟨⟩ _
        exact ⟨fun j _ => by cases j <;> rfl, rfl⟩
      · rintro i u ⟨⟩ _
        exact ⟨fun j _ => by cases j <;> rfl, rfl⟩
    · intro i
      cases i <;> rfl
  exact ⟨h, s, hr, stored_updates_kept (exec_run hr) hC hsaved⟩

/-- When both sessions have loaded the store first, the word of the first one is lost. -/
theorem not_stored_updates_kept :
    ¬ ∀ (Fsrs : Type) (env : Learner Fsrs) (before : CardSnapshot Fsrs)
    (h : StudyHistory Fsrs) (s : SharedStudy Fsrs), Run (SharedStudy.step env) (.start before) h s →
      (∀ i, (s.sessions i).saving = []) → Contains env before (appliedUpdates env h) s.store := by
  intro h
  obtain ⟨hist, s, hr, hsaved, hcat, hstore⟩ : ∃ hist s,
      exec (SharedStudy.step asciiWords) (.start noCards)
        (hydrateNow .contentScript ++ hydrateNow .sidePanel ++
          (markNow .contentScript "cat" ++ markNow .sidePanel "dog")) = some (hist, s) ∧
      (∀ i, (s.sessions i).saving = []) ∧
      .markKnown "cat" ∈ appliedUpdates asciiWords hist ∧ s.store.knownWords = ["dog"] := by
    refine ⟨_, _, rfl, ?_, .head _, rfl⟩
    intro i
    cases i <;> rfl
  have hkept := (h Unit asciiWords noCards hist s (exec_run hr) hsaved).marked "cat" hcat
  rw [hstore] at hkept
  exact absurd hkept (by decide +kernel)

end LanguageLlm.Learning
