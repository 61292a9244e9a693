import LanguageLlm.Desktop.Execution

/-!
# The study store

`createCompanionStudyStore` (`features/learning/session.ts`): a snapshot of the study data in
`chrome.storage.local`, the mirror, and in the companion, that may be down. `loads_last_save_iff`
says for which calls every load returns the snapshot that was saved last.
-/

namespace LanguageLlm.Learning

open Lib Desktop Handler

/-! ## Snapshots -/

/-- `StudySessionSnapshot`, for any cards and words. -/
structure StudySessionSnapshot (Card Word : Type) where
  cards : List Card
  knownWords : List Word

/-- A snapshot as a store keeps it, which does not look into cards and words. -/
abbrev StoredSnapshot := StudySessionSnapshot Json Json

namespace StudySessionSnapshot

def toJson (snapshot : StoredSnapshot) : Json :=
  .obj [("cards", .arr snapshot.cards), ("knownWords", .arr snapshot.knownWords)]

/-- `Array.isArray(data?.key) ? data.key : []`. -/
def arrayOr (data : Json) (key : String) : List Json := ((data.get key).bind Json.asArray).getD []

/-- The snapshot of a payload whose cards are an array. -/
def ofPayload (payload : Json) : Option StoredSnapshot :=
  ((payload.get "cards").bind Json.asArray).map fun cards =>
    { cards, knownWords := arrayOr payload "knownWords" }

end StudySessionSnapshot

open StudySessionSnapshot

/-! ## The mirror -/

/-- What `chrome.storage.local` holds under `STORAGE_KEY`. -/
abbrev Mirror := Option Json

/-- `createChromeStudyStore().load`. -/
def Mirror.load (mirror : Mirror) : StoredSnapshot where
  cards := arrayOr (mirror.getD .null) "cards"
  knownWords := arrayOr (mirror.getD .null) "knownWords"

/-- `createChromeStudyStore().save`. -/
def Mirror.save (snapshot : StoredSnapshot) : Mirror := some snapshot.toJson

/-! ## The companion -/

/-- `row.id && row.id !== "session"`. -/
def otherSession : Json → Bool
  | .null => false
  | .bool b => b
  | .int n => n ≠ 0
  | .float q => q ≠ 0
  | .str id => id ≠ "" && id ≠ "session"
  | .arr _ | .obj _ => true

/-- The snapshot of an item of a list. -/
def itemSnapshot (parse : String → Option Json) (row : Json) : Option StoredSnapshot :=
  if (row.get "id").any otherSession then none
  else
    let raw := match row.get "payload" with
      | some (.str s) => some s
      | _ =>
        match row.get "payload_json" with
        | none | some .null => row.getStr "payloadJson"
        | some raw => raw.asStr
    ((row.get "payload").bind ofPayload).or ((raw.bind parse).bind ofPayload)

/-- `extractStudyPayload`, with `JSON.parse` as a parameter. It is `none` too where a field of
`null` is read, which `load` catches. -/
def extractStudyPayload (parse : String → Option Json) (root : Json) : Option StoredSnapshot :=
  let inner :=
    if root.getStr "type" = some "study.sync.result" then
      match root.get "result" with
      | some (.null) => .null
      | some (.arr items) => .arr items
      | some (.obj fields) => .obj fields
      | _ => root
    else root
  ((inner.get "payload").bind ofPayload).or ((arrayOr inner "items").findSome? (itemSnapshot parse))

/-- A `study.sync` message, as the background worker passes it on. -/
def studySync (token op : String) (more : List (String × Json)) : Json :=
  .obj <| [("type", .str "study.sync"), ("sessionToken", .str token), ("op", .str op),
    ("kind", .str "study-session")] ++ more

/-- The response of the background worker to a message, with the result when it is `ok`. A companion
that is down is left as it is. -/
def send (env : External) (token : String) (reachable : Bool) (nowMs : Nat) (message : Json)
    (companion : Stores) : Option Json × Stores :=
  match if reachable then perform nowMs default (handleStudySync env message token) companion
      else none with
  | some (sent, (), companion') => (sent.head?, companion')
  | none => (none, companion)

/-! ## The store -/

structure StudyStore where
  mirror : Mirror
  companion : Stores

/-- A call of the store, with the companion up or down and its time. -/
inductive StudyCall where
  | save (snapshot : StoredSnapshot) (reachable : Bool) (nowMs : Nat)
  | load (reachable : Bool) (nowMs : Nat)

section Calls

variable (env : External) (parse : String → Option Json) (token : String)

namespace StudyStore

/-- `createCompanionStudyStore().load`. -/
def load (s : StudyStore) (reachable : Bool) (nowMs : Nat) : StoredSnapshot × StudyStore :=
  let (result, companion) := send env token reachable nowMs (studySync token "list" []) s.companion
  match result.bind (extractStudyPayload parse) with
  | some payload => (payload, { mirror := .save payload, companion })
  | none => (s.mirror.load, { s with companion })

/-- `createCompanionStudyStore().save`. -/
def save (s : StudyStore) (snapshot : StoredSnapshot) (reachable : Bool) (nowMs : Nat) :
    StudyStore where
  mirror := .save snapshot
  companion :=
    (send env token reachable nowMs
      (studySync token "put" [("id", .str "session"), ("payload", snapshot.toJson)]) s.companion).2

/-- One call after the other. -/
def step (s : StudyStore) : StudyCall → Option StudyStore
  | .save snapshot reachable nowMs => some (s.save env token snapshot reachable nowMs)
  | .load reachable nowMs => some (s.load env parse token reachable nowMs).2

end StudyStore

end Calls

/-- The snapshot that was saved last. -/
def lastSave (h : List (Fired StudyStore StudyCall)) : Option StoredSnapshot :=
  h.findSome? fun f =>
    match f.label with
    | .save snapshot _ _ => some snapshot
    | .load _ _ => none

/-- The snapshot that was saved last while the companion was up, or else the one that it held
before; a companion without a database keeps none. -/
def lastSynced (database : Bool) (held : Option StoredSnapshot)
    (h : List (Fired StudyStore StudyCall)) : Option StoredSnapshot :=
  if database then
    (h.findSome? fun f =>
      match f.label with
      | .save snapshot true _ => some snapshot
      | _ => none).or held
  else held

/-! ## What the companion holds -/

/-- `serde_json` reads a snapshot back that it has written. -/
def ReadsBack (env : External) (snapshot : StoredSnapshot) : Prop :=
  ∃ payload, env.fromStr (env.toString snapshot.toJson) = some payload ∧
    ofPayload payload = some snapshot

/-- The sessions among the study data of a database. -/
def sessions (db : SqliteStore) : List (String × StudyRow) :=
  db.studyData.entries.filter fun r => r.2.kind = "study-session"

/-- The companion holds one session or none. -/
def Holds (env : External) (companion : Stores) : Option StoredSnapshot → Prop
  | none => ∀ db, companion.sqlite = some db → sessions db = []
  | some snapshot => ∃ db row, companion.sqlite = some db ∧ sessions db = [("session", row)] ∧
      row.payloadJson = env.toString snapshot.toJson

section Companion

variable {env : External} {parse : String → Option Json} {token : String} {companion : Stores}

theorem send_list (nowMs : Nat) {db : SqliteStore} (hdb : companion.sqlite = some db) :
    send env token true nowMs (studySync token "list" []) companion =
      (some (.obj [("type", .str "study.sync.result"), ("sessionToken", .str token),
        ("result", .obj [("ok", .bool true), ("items", .arr <|
          (db.listStudyByKind "study-session").map fun r => .obj (studyItem env r.1 r.2))])]),
        companion) := by
  obtain ⟨memory, sqlite, capture, capturePoisoned, jobs, lyricsNetworkAllowed⟩ := companion
  obtain rfl : sqlite = some db := hdb
  rfl

theorem send_put (nowMs : Nat) {db : SqliteStore} (hdb : companion.sqlite = some db)
    (payload : Json) :
    (send env token true nowMs
      (studySync token "put" [("id", .str "session"), ("payload", payload)])
      companion).2 = { companion with
        sqlite := some (db.putStudy "session" "study-session" (env.toString payload) nowMs) } := by
  obtain ⟨memory, sqlite, capture, capturePoisoned, jobs, lyricsNetworkAllowed⟩ := companion
  obtain rfl : sqlite = some db := hdb
  rfl

theorem send_list_none (nowMs : Nat) (hdb : companion.sqlite = none) :
    send env token true nowMs (studySync token "list" []) companion =
      (some (.obj [("type", .str "study.sync.result"), ("sessionToken", .str token),
        ("result", .obj [("ok", .bool true), ("items", .arr [])])]), companion) := by
  obtain ⟨memory, sqlite, capture, capturePoisoned, jobs, lyricsNetworkAllowed⟩ := companion
  obtain rfl : sqlite = none := hdb
  rfl

theorem send_put_none (nowMs : Nat) (hdb : companion.sqlite = none) (payload : Json) :
    (send env token true nowMs
      (studySync token "put" [("id", .str "session"), ("payload", payload)])
      companion).2 = companion := by
  obtain ⟨memory, sqlite, capture, capturePoisoned, jobs, lyricsNetworkAllowed⟩ := companion
  obtain rfl : sqlite = none := hdb
  rfl

theorem listStudyByKind_of_sessions {db : SqliteStore} (row : Option (String × StudyRow))
    (hrow : sessions db = row.toList) : db.listStudyByKind "study-session" = row.toList := by
  change (sessions db).mergeSort _ = _
  rw [hrow]
  cases row <;> simp

theorem extractStudyPayload_items (items : List Json) :
    extractStudyPayload parse
      (.obj [("type", .str "study.sync.result"), ("sessionToken", .str token),
      ("result", .obj [("ok", .bool true), ("items", .arr items)])]) =
      items.findSome? (itemSnapshot parse) :=
  rfl

theorem itemSnapshot_session {row : StudyRow} {payload : Json} {snapshot : StoredSnapshot}
    (hfrom : env.fromStr row.payloadJson = some payload)
    (hpayload : ofPayload payload = some snapshot) :
    itemSnapshot parse (.obj (studyItem env "session" row)) = some snapshot := by
  have hget : (Json.obj (studyItem env "session" row)).get "payload" = some payload := by
    simp only [studyItem, hfrom, Option.getD_some]
    rfl
  have hid : ((Json.obj (studyItem env "session" row)).get "id").any otherSession = false := rfl
  simp [itemSnapshot, hid, hget, hpayload]

/-- A load finds what the companion holds. -/
theorem Holds.send_list {held : Option StoredSnapshot} (hc : Holds env companion held)
    (hread : ∀ snapshot ∈ held, ReadsBack env snapshot) (nowMs : Nat) :
    ∃ result, send env token true nowMs (studySync token "list" []) companion =
      (some result, companion) ∧ extractStudyPayload parse result = held := by
  cases held with
  | none =>
    cases hdb : companion.sqlite with
    | none => exact ⟨_, send_list_none nowMs hdb, rfl⟩
    | some db =>
      refine ⟨_, Learning.send_list nowMs hdb, ?_⟩
      rw [listStudyByKind_of_sessions none (hc db hdb)]
      rfl
  | some snapshot =>
    obtain ⟨db, row, hdb, hrow, hjson⟩ := hc
    obtain ⟨payload, hfrom, hpayload⟩ := hread snapshot rfl
    refine ⟨_, Learning.send_list nowMs hdb, ?_⟩
    rw [listStudyByKind_of_sessions (some ("session", row)) hrow, extractStudyPayload_items]
    simp [itemSnapshot_session (hjson ▸ hfrom) hpayload]

theorem Holds.send_put {held : Option StoredSnapshot} (hc : Holds env companion held)
    (snapshot : StoredSnapshot) (nowMs : Nat) :
    let companion' := (send env token true nowMs
      (studySync token "put" [("id", .str "session"), ("payload", snapshot.toJson)]) companion).2
    companion'.sqlite.isSome = companion.sqlite.isSome ∧
      Holds env companion' (if companion.sqlite.isSome then some snapshot else held) := by
  intro companion'
  cases hdb : companion.sqlite with
  | none =>
    have hsame : companion' = companion := send_put_none nowMs hdb _
    rw [hsame, hdb]
    exact ⟨rfl, hc⟩
  | some db =>
    have hkeys : ∀ e ∈ sessions db, e.1 = "session" := by
      cases held with
      | none => simp [hc db hdb]
      | some _ =>
        obtain ⟨db', row, hdb', hrow, _⟩ := hc
        rw [hdb, Option.some.injEq] at hdb'
        simp [hdb', hrow]
    have hput := @Learning.send_put env token companion nowMs db hdb snapshot.toJson
    refine ⟨by simp only [companion', hput, Option.isSome_some], ?_⟩
    simp only [companion', hput]
    refine ⟨_, _, rfl, OrderedMap.filter_entries_set (fun e he hp => ?_) (by simp), rfl⟩
    exact hkeys e (List.mem_filter.2 ⟨he, hp⟩)

end Companion

/-! ## One call -/

section Runs

variable {env : External} {parse : String → Option Json} {token : String}
  {s₀ s : StudyStore} {h : List (Fired StudyStore StudyCall)} {held : Option StoredSnapshot}

/-- A load returns the session of the companion when it is up and has one, and else the mirror. -/
theorem StudyStore.load_spec (hc : Holds env s.companion held)
    (hread : ∀ snapshot ∈ held, ReadsBack env snapshot) (reachable : Bool) (nowMs : Nat) :
    let found := if reachable then held else none
    s.load env parse token reachable nowMs =
      (found.getD s.mirror.load, { s with mirror := (found.map Mirror.save).getD s.mirror }) := by
  intro found
  cases reachable with
  | false => rfl
  | true =>
    obtain ⟨result, hsend, hresult⟩ :=
      @Holds.send_list env parse token s.companion held hc hread nowMs
    have hfound : found = held := rfl
    simp only [load, hsend, Option.bind_some, hresult, hfound]
    cases held <;> rfl

theorem StudyStore.save_spec (hc : Holds env s.companion held)
    (snapshot : StoredSnapshot) (reachable : Bool) (nowMs : Nat) :
    let s' := s.save env token snapshot reachable nowMs
    s'.companion.sqlite.isSome = s.companion.sqlite.isSome ∧
    Holds env s'.companion
      (if reachable ∧ s.companion.sqlite.isSome then some snapshot else held) := by
  cases reachable with
  | false => exact ⟨rfl, hc⟩
  | true =>
    simp only [true_and]
    exact hc.send_put snapshot nowMs

/-! ## Runs -/

/-- The snapshots of the companion are read back as they were written. -/
def SavesReadBack (env : External) (held : Option StoredSnapshot)
    (h : List (Fired StudyStore StudyCall)) : Prop :=
  (∀ snapshot ∈ held, ReadsBack env snapshot) ∧
  ∀ f ∈ h, ∀ snapshot reachable nowMs, f.label = .save snapshot reachable nowMs →
    ReadsBack env snapshot

theorem SavesReadBack.tail {f : Fired StudyStore StudyCall}
    {h : List (Fired StudyStore StudyCall)} (hread : SavesReadBack env held (f :: h)) :
    SavesReadBack env held h :=
  ⟨hread.1, fun g hg => hread.2 g (List.mem_cons_of_mem _ hg)⟩

/-- A companion that has a database holds the snapshot that was saved last while it was up. -/
theorem holds_lastSynced (h0 : Holds env s₀.companion held)
    (hr : Run (StudyStore.step env parse token) s₀ h s) (hread : SavesReadBack env held h) :
    s.companion.sqlite.isSome = s₀.companion.sqlite.isSome ∧
    Holds env s.companion (lastSynced s₀.companion.sqlite.isSome held h) ∧
    ∀ snapshot ∈ lastSynced s₀.companion.sqlite.isSome held h, ReadsBack env snapshot := by
  induction hr with
  | nil =>
    have hsynced : lastSynced s₀.companion.sqlite.isSome held [] = held := by
      cases hdb : s₀.companion.sqlite.isSome <;> rfl
    rw [hsynced]
    exact ⟨rfl, h0, hread.1⟩
  | @cons h s s' l hr hs ih =>
    obtain ⟨hsome, hc, hback⟩ := ih hread.tail
    cases l with
    | load reachable nowMs =>
      obtain rfl := Option.some.inj hs
      rw [StudyStore.load_spec hc hback]
      exact ⟨hsome, hc, hback⟩
    | save snapshot reachable nowMs =>
      obtain rfl := Option.some.inj hs
      obtain ⟨hsome', hnext⟩ := @StudyStore.save_spec env token s _ hc snapshot reachable nowMs
      rw [hsome] at hsome' hnext
      refine ⟨hsome', ?_⟩
      cases reachable with
      | false => exact ⟨hnext, hback⟩
      | true =>
        cases hdb : s₀.companion.sqlite.isSome with
        | false =>
          rw [hdb] at hnext hback
          exact ⟨hnext, hback⟩
        | true =>
          rw [hdb] at hnext
          refine ⟨hnext, ?_⟩
          rintro _ ⟨⟩
          exact hread.2 _ List.mem_cons_self snapshot true nowMs rfl

/-- When a load finds the companion up, what it holds is the snapshot that was saved last. -/
def CaughtUp (database : Bool) (held : Option StoredSnapshot)
    (before : List (Fired StudyStore StudyCall)) (f : Fired StudyStore StudyCall) : Prop :=
  ∀ nowMs snapshot synced, f.label = .load true nowMs → lastSave before = some snapshot →
    lastSynced database held before = some synced → synced = snapshot

/-- A load returns the snapshot that was saved last. -/
def LoadsLastSave (env : External) (parse : String → Option Json) (token : String)
    (before : List (Fired StudyStore StudyCall)) (f : Fired StudyStore StudyCall) : Prop :=
  ∀ reachable nowMs snapshot, f.label = .load reachable nowMs → lastSave before = some snapshot →
    (f.pre.load env parse token reachable nowMs).1 = snapshot

/-- As long as the companion has caught up at every load, the mirror has the snapshot that was saved
last. -/
theorem mirror_lastSave (h0 : Holds env s₀.companion held)
    (hr : Run (StudyStore.step env parse token) s₀ h s) (hread : SavesReadBack env held h)
    (hcaught : Meets (CaughtUp s₀.companion.sqlite.isSome held) h) :
    ∀ snapshot ∈ lastSave h, s.mirror.load = snapshot := by
  induction hr with
  | nil => nofun
  | @cons h s s' l hr hs ih =>
    obtain ⟨_, hc, hback⟩ := holds_lastSynced h0 hr hread.tail
    cases l with
    | save snapshot reachable nowMs =>
      obtain rfl := Option.some.inj hs
      rintro _ ⟨⟩
      rfl
    | load reachable nowMs =>
      obtain rfl := Option.some.inj hs
      intro snapshot hlast
      rw [StudyStore.load_spec hc hback]
      have hmirror := ih hread.tail hcaught.2 snapshot hlast
      cases reachable with
      | false => exact hmirror
      | true =>
        cases hsynced : lastSynced s₀.companion.sqlite.isSome held h with
        | none => exact hmirror
        | some synced => exact hcaught.1 nowMs snapshot synced rfl hlast hsynced

end Runs

/-! Two words that are marked as known. -/

def knows (word : String) : StoredSnapshot where
  cards := []
  knownWords := [.str word]

def knowsText (word : String) : String :=
  "\x7b\"cards\":[],\"knownWords\":[\"" ++ word ++ "\"]\x7d"

/-- `serde_json`, on these snapshots. -/
def knowsJson : External where
  toString v :=
    match v.get "knownWords" with
    | some (.arr [.str word]) => knowsText word
    | _ => "null"
  fromStr text :=
    if text = knowsText "cat" then some (knows "cat").toJson
    else if text = knowsText "dog" then some (knows "dog").toJson
    else if text = "null" then some .null
    else none
  decodeBase64 _ := none

def newStudyStore : StudyStore where
  mirror := none
  companion := Stores.new (some .empty)

theorem holds_new : Holds knowsJson newStudyStore.companion none := by
  rintro _ ⟨⟩
  rfl

/-- The run of some calls of a new store. -/
def runCalls (calls : List StudyCall) : Option (List (Fired StudyStore StudyCall) × StudyStore) :=
  exec (StudyStore.step knowsJson knowsJson.fromStr "") newStudyStore calls

theorem savesReadBack_knows {calls : List StudyCall} {h : List (Fired StudyStore StudyCall)}
    {s : StudyStore} (hr : runCalls calls = some (h, s))
    (hcalls : ∀ c ∈ calls, ∀ snapshot reachable nowMs, c = .save snapshot reachable nowMs →
      snapshot = knows "cat" ∨ snapshot = knows "dog") : SavesReadBack knowsJson none h := by
  refine ⟨nofun, fun f hf snapshot reachable nowMs hl => ?_⟩
  have hmem : f.label ∈ calls := by
    rw [← List.mem_reverse, ← exec_labels hr]
    exact List.mem_map_of_mem hf
  rcases hcalls _ hmem snapshot reachable nowMs hl with rfl | rfl
  · exact ⟨_, rfl, rfl⟩
  · exact ⟨_, rfl, rfl⟩

/-- Two saves, the second one with the companion up or down, and a load with the companion up. -/
def twoSaves (reachable : Bool) : List StudyCall :=
  [.save (knows "cat") true 1, .save (knows "dog") reachable 2, .load true 3]

theorem twoSaves_snapshots (reachable : Bool) : ∀ c ∈ twoSaves reachable,
    ∀ snapshot reachable nowMs, c = .save snapshot reachable nowMs →
      snapshot = knows "cat" ∨ snapshot = knows "dog" := by
  intro c hc snapshot _ _ heq
  subst heq
  simp only [twoSaves, List.mem_cons, StudyCall.save.injEq, reduceCtorEq, List.not_mem_nil] at hc
  tauto

end LanguageLlm.Learning
