import LanguageLlm.Desktop.LocalStore
import LanguageLlm.Lib.LastWrite

/-!
# The latest rows

`get_latest_transcript` and `get_translation` ask for the newest row by the millisecond in which it
was written. `latestWins_iff` says after which calls, under a clock that never goes back, that is
the row of the last call.
-/

namespace LanguageLlm.Desktop

open Lib

/-! ## Rows by their time -/

section Newest

variable {ι κ ρ β : Type} [DecidableEq κ] {key : ι → κ} {row : ι → ρ} {time : ρ → Nat}
  {p : κ → Bool} {log : List ι}

/-- The table that a log of upserts leaves. -/
def tableOf (key : ι → κ) (row : ι → ρ) (log : List ι) : OrderedMap κ ρ :=
  log.foldl (fun m x => m.set (key x) (row x)) .empty

theorem get?_tableOf (key : ι → κ) (row : ι → ρ) (log : List ι) (k : κ) :
    (tableOf key row log).get? k = (lastOf (fun x => k = key x) log).map row := by
  have hset : ∀ (m : OrderedMap κ ρ) (x : ι) k,
      (m.set (key x) (row x)).get? k = if k = key x then some (row x) else m.get? k :=
    fun m x k => m.get?_set (key x) k (row x)
  rw [tableOf, look_foldl hset]
  exact Option.or_none

theorem mem_tableOf_iff {r : κ × ρ} :
    r ∈ (tableOf key row log).entries ↔
      ∃ x, lastOf (fun y => r.1 = key y) log = some x ∧ row x = r.2 := by
  rw [← OrderedMap.get?_eq_some_iff, get?_tableOf, Option.map_eq_some_iff]

/-- The rows of the keys that are asked for. -/
def matching (p : κ → Bool) (m : OrderedMap κ ρ) : List (κ × ρ) := m.entries.filter fun r => p r.1

/-- The newest rows are those that were last written in the millisecond of the last write. -/
theorem mem_newestBy_iff (hclock : log.Pairwise fun x y => time (row x) ≤ time (row y))
    {r : κ × ρ} :
    r ∈ newestBy (fun r => time r.2) (matching p (tableOf key row log)) ↔
      ∃ w x, lastOf (fun y => p (key y)) log = some w ∧
        lastOf (fun y => r.1 = key y) log = some x ∧ row x = r.2 ∧ p r.1 = true ∧
        time (row x) = time (row w) := by
  simp only [newestBy, matching, List.mem_filter, List.all_eq_true, decide_eq_true_eq,
    mem_tableOf_iff]
  constructor
  · rintro ⟨⟨⟨x, hx, hrow⟩, hp⟩, hmax⟩
    obtain ⟨hxlog, hxkey⟩ := lastOf_mem hx
    rw [decide_eq_true_eq] at hxkey
    obtain ⟨w, hw⟩ := exists_lastOf (p := fun y => p (key y)) hxlog (hxkey ▸ hp)
    obtain ⟨hwlog, hwp⟩ := lastOf_mem hw
    have hle := hmax (key w, row w) ⟨⟨w, lastOf_key hw, rfl⟩, hwp⟩
    have hge := le_lastOf hclock hw hxlog (hxkey ▸ hp)
    rw [← hrow] at hle
    exact ⟨w, x, hw, hx, hrow, hp, Nat.le_antisymm hge hle⟩
  · rintro ⟨w, x, hw, hx, hrow, hp, htime⟩
    refine ⟨⟨⟨x, hx, hrow⟩, hp⟩, ?_⟩
    rintro r' ⟨⟨y, hy, hrow'⟩, hp'⟩
    obtain ⟨hylog, hykey⟩ := lastOf_mem hy
    rw [decide_eq_true_eq] at hykey
    rw [← hrow, ← hrow', htime]
    exact @le_lastOf ι _ _ _ _ (fun y => time (row y)) hclock hw hylog (hykey ▸ hp')

/-- The row of the last write is one of the newest. -/
theorem last_mem_newestBy (hclock : log.Pairwise fun x y => time (row x) ≤ time (row y)) {w : ι}
    (hw : lastOf (fun y => p (key y)) log = some w) :
    (key w, row w) ∈ newestBy (fun r => time r.2) (matching p (tableOf key row log)) := by
  have hp : p (key w) = true := (lastOf_mem hw).2
  exact (mem_newestBy_iff hclock).2 ⟨w, w, hw, lastOf_key hw, rfl, hp, rfl⟩

/-- Whichever of the newest rows is returned, it is seen as the last write, exactly when every row
that was last written in the same millisecond is. -/
theorem latestBy_eq_last_iff (hclock : log.Pairwise fun x y => time (row x) ≤ time (row y))
    (see : κ × ρ → β) :
    (∀ tie, (latestBy (fun r => time r.2) tie (matching p (tableOf key row log))).map see =
        (lastOf (fun y => p (key y)) log).map fun w => see (key w, row w)) ↔
      ∀ w x, lastOf (fun y => p (key y)) log = some w →
        lastOf (fun y => key x = key y) log = some x → p (key x) = true →
        time (row x) = time (row w) → see (key x, row x) = see (key w, row w) := by
  constructor
  · intro h w x hw hx hp htime
    obtain ⟨tie, htie⟩ := latestBy_eq_some_iff.2
      ((mem_newestBy_iff (r := (key x, row x)) hclock).2 ⟨w, x, hw, hx, rfl, hp, htime⟩)
    have hsee := h tie
    rw [htie, hw] at hsee
    exact Option.some.inj hsee
  · intro h tie
    cases hrow : latestBy (fun r => time r.2) tie (matching p (tableOf key row log)) with
    | none =>
      cases hw : lastOf (fun y => p (key y)) log with
      | none => rfl
      | some w =>
        obtain ⟨r, hr⟩ := exists_latestBy (last_mem_newestBy hclock hw) tie
        rw [hrow] at hr
        cases hr
    | some r =>
      obtain ⟨k, b⟩ := r
      obtain ⟨w, x, hw, hx, hb, hp, htime⟩ :=
        (mem_newestBy_iff hclock).1 (latestBy_eq_some_iff.1 ⟨tie, hrow⟩)
      obtain rfl : k = key x := of_decide_eq_true (lastOf_mem hx).2
      obtain rfl : row x = b := hb
      rw [hw, Option.map_some, Option.map_some, h w x hw hx hp htime]

end Newest

/-! ## The calls -/

/-- A call of `put_transcript` and the time of its `now_ms`. -/
structure TranscriptPut where
  videoId : String
  sourceHash : String
  timelineJson : String
  nowMs : Nat

/-- A call of `put_translation` and the time of its `now_ms`. -/
structure TranslationPut where
  key : TranslationKey
  cuesJson : String
  revisionId : String
  nowMs : Nat

inductive RowPut where
  | transcript (put : TranscriptPut)
  | translation (put : TranslationPut)

namespace RowPut

def nowMs : RowPut → Nat
  | transcript put => put.nowMs
  | translation put => put.nowMs

def transcript? : RowPut → Option TranscriptPut
  | transcript put => some put
  | translation _ => none

def translation? : RowPut → Option TranslationPut
  | transcript _ => none
  | translation put => some put

/-- The call on a database. -/
def run (db : SqliteStore) : RowPut → SqliteStore
  | transcript put => db.putTranscript put.videoId put.sourceHash put.timelineJson put.nowMs
  | translation put => db.putTranslation put.key put.cuesJson put.revisionId put.nowMs

end RowPut

namespace TranscriptPut

/-- The row that the call writes. -/
def key (put : TranscriptPut) : String × String := (put.videoId, put.sourceHash)

def row (put : TranscriptPut) : TranscriptRow where
  timelineJson := put.timelineJson
  updatedAtMs := put.nowMs

end TranscriptPut

def TranslationPut.row (put : TranslationPut) : TranslationRow where
  cuesJson := put.cuesJson
  revisionId := put.revisionId
  updatedAtMs := put.nowMs

/-- What `get_translation` returns of a row: all but the video and the time. -/
structure TranslationRecord where
  cuesJson : String
  revisionId : String
  modelId : String
  modelRevision : String
  targetLang : String
  sourceHash : String
  deriving DecidableEq

def TranslationRecord.of (r : TranslationKey × TranslationRow) : TranslationRecord where
  cuesJson := r.2.cuesJson
  revisionId := r.2.revisionId
  modelId := r.1.modelId
  modelRevision := r.1.modelRevision
  targetLang := r.1.targetLang
  sourceHash := r.1.sourceHash

/-- The translations that `get_translation` looks among. -/
def TranslationKey.Matches (videoId : String) (sourceHash : Option String) (key : TranslationKey) :
    Bool :=
  key.videoId = videoId && sourceHash.all fun hash => key.sourceHash = hash

section Calls

variable (calls : List RowPut)

def transcriptPuts : List TranscriptPut := calls.filterMap RowPut.transcript?

def translationPuts : List TranslationPut := calls.filterMap RowPut.translation?

/-- The last `put_transcript` for a video. -/
def lastTranscript (videoId : String) : Option TranscriptPut :=
  lastOf (fun put => put.videoId = videoId) (transcriptPuts calls)

/-- The last `put_translation` for a video, or for a video and the hash of a source. -/
def lastTranslation (videoId : String) (sourceHash : Option String) : Option TranslationPut :=
  lastOf (fun put => put.key.Matches videoId sourceHash) (translationPuts calls)

/-- Whichever of the rows with one time SQLite returns, the latest rows are those of the last
calls. -/
def LatestWins (db : SqliteStore) : Prop :=
  ∀ videoId tie,
    db.getLatestTranscript videoId tie =
      (lastTranscript calls videoId).map TranscriptPut.timelineJson ∧
    ∀ sourceHash, (db.getTranslation videoId sourceHash tie).map TranslationRecord.of =
      (lastTranslation calls videoId sourceHash).map fun put => .of (put.key, put.row)

/-- In the millisecond of the last `put_transcript` for a video, no other row of it was left with
another timeline, and in that of the last `put_translation` for a video (or for a video and a hash)
no other row of it was left. -/
def NoTies : Prop :=
  ∀ videoId,
    (∀ w x, lastTranscript calls videoId = some w →
      lastOf (fun put => x.key = put.key) (transcriptPuts calls) = some x → x.videoId = videoId →
      x.nowMs = w.nowMs → x.timelineJson = w.timelineJson) ∧
    ∀ sourceHash w x, lastTranslation calls videoId sourceHash = some w →
      x ∈ translationPuts calls → x.key.Matches videoId sourceHash = true → x.nowMs = w.nowMs →
      x.key = w.key

variable {calls}

theorem transcripts_run (db : SqliteStore) :
    (calls.foldl RowPut.run db).transcripts =
      (transcriptPuts calls).foldl (fun m put => m.set put.key put.row) db.transcripts := by
  induction calls generalizing db with
  | nil => rfl
  | cons call calls ih =>
    rw [List.foldl_cons, ih]
    cases call <;> rfl

theorem translations_run (db : SqliteStore) :
    (calls.foldl RowPut.run db).translations =
      (translationPuts calls).foldl (fun m put => m.set put.key put.row) db.translations := by
  induction calls generalizing db with
  | nil => rfl
  | cons call calls ih =>
    rw [List.foldl_cons, ih]
    cases call <;> rfl

/-- The calls of one kind follow one clock. -/
theorem pairwise_filterMap {γ : Type} {f : RowPut → Option γ} {time : γ → Nat}
    (hf : ∀ call x, f call = some x → call.nowMs = time x)
    (hclock : calls.Pairwise fun a b => a.nowMs ≤ b.nowMs) :
    (calls.filterMap f).Pairwise fun x y => time x ≤ time y := by
  refine hclock.filterMap f fun a b hab x hx y hy => ?_
  rw [← hf a x hx, ← hf b y hy]
  exact hab

theorem getLatestTranscript_run_iff (hclock : calls.Pairwise fun a b => a.nowMs ≤ b.nowMs)
    (videoId : String) :
    (∀ tie, (calls.foldl RowPut.run .empty).getLatestTranscript videoId tie =
        (lastTranscript calls videoId).map TranscriptPut.timelineJson) ↔
      ∀ w x, lastTranscript calls videoId = some w →
        lastOf (fun put => x.key = put.key) (transcriptPuts calls) = some x →
        x.videoId = videoId → x.nowMs = w.nowMs → x.timelineJson = w.timelineJson := by
  have hputs : (transcriptPuts calls).Pairwise fun x y => x.nowMs ≤ y.nowMs := by
    refine pairwise_filterMap (fun call x h => ?_) hclock
    cases call <;> cases h
    rfl
  have hrows : (calls.foldl RowPut.run .empty).transcripts =
      tableOf TranscriptPut.key TranscriptPut.row (transcriptPuts calls) := transcripts_run _
  have htable := @latestBy_eq_last_iff _ _ _ _ _ TranscriptPut.key TranscriptPut.row
    TranscriptRow.updatedAtMs (fun k => k.1 = videoId) _ hputs fun r => r.2.timelineJson
  simp only [SqliteStore.getLatestTranscript, hrows]
  refine htable.trans (forall₂_congr fun w x => ?_)
  rw [decide_eq_true_iff]
  exact Iff.rfl

/-- Two rows with one record that match the same query are one row. -/
theorem key_eq_of_record {videoId : String} {sourceHash : Option String}
    {r r' : TranslationKey × TranslationRow} (hr : r.1.Matches videoId sourceHash = true)
    (hr' : r'.1.Matches videoId sourceHash = true)
    (h : TranslationRecord.of r = TranslationRecord.of r') : r.1 = r'.1 := by
  obtain ⟨⟨video, hash, model, revision, target⟩, row⟩ := r
  obtain ⟨⟨video', hash', model', revision', target'⟩, row'⟩ := r'
  simp only [TranslationKey.Matches, Bool.and_eq_true, decide_eq_true_eq] at hr hr'
  simp only [TranslationRecord.of, TranslationRecord.mk.injEq] at h
  rw [TranslationKey.mk.injEq]
  exact ⟨hr.1.trans hr'.1.symm, h.2.2.2.2.2, h.2.2.1, h.2.2.2.1, h.2.2.2.2.1⟩

theorem getTranslation_run_iff (hclock : calls.Pairwise fun a b => a.nowMs ≤ b.nowMs)
    (videoId : String) (sourceHash : Option String) :
    (∀ tie, ((calls.foldl RowPut.run .empty).getTranslation videoId sourceHash tie).map
          TranslationRecord.of =
        (lastTranslation calls videoId sourceHash).map fun put => .of (put.key, put.row)) ↔
      ∀ w x, lastTranslation calls videoId sourceHash = some w → x ∈ translationPuts calls →
        x.key.Matches videoId sourceHash = true → x.nowMs = w.nowMs → x.key = w.key := by
  have hputs : (translationPuts calls).Pairwise fun x y => x.nowMs ≤ y.nowMs := by
    refine pairwise_filterMap (fun call x h => ?_) hclock
    cases call <;> cases h
    rfl
  have hrows : (calls.foldl RowPut.run .empty).translations =
      tableOf TranslationPut.key TranslationPut.row (translationPuts calls) := translations_run _
  have htable := @latestBy_eq_last_iff _ _ _ _ _ TranslationPut.key TranslationPut.row
    TranslationRow.updatedAtMs (TranslationKey.Matches videoId sourceHash) _ hputs
    TranslationRecord.of
  simp only [SqliteStore.getTranslation, hrows]
  refine htable.trans ⟨fun h w x hw hx hmatch htime => ?_, fun h w x hw hx hmatch htime => ?_⟩
  · -- the row of `x` was last written by `y`, in the same millisecond
    obtain ⟨y, hy⟩ := exists_lastOf (p := fun put => decide (x.key = put.key)) hx
      (decide_eq_true rfl)
    obtain ⟨hyput, hykey⟩ := lastOf_mem hy
    rw [decide_eq_true_eq] at hykey
    rw [hykey] at hy hmatch ⊢
    have hlate : x.nowMs ≤ y.nowMs := le_lastOf hputs hy hx (decide_eq_true hykey.symm)
    have hearly : y.nowMs ≤ w.nowMs := le_lastOf hputs hw hyput hmatch
    have hrecord := h w y hw hy hmatch (Nat.le_antisymm hearly (htime.symm.le.trans hlate))
    exact key_eq_of_record hmatch (lastOf_mem hw).2 hrecord
  · have hkey := h w x hw (lastOf_mem hx).1 hmatch htime
    have hlast : lastOf (fun put => decide (w.key = put.key)) (translationPuts calls) = some w :=
      lastOf_key hw
    rw [hkey, hlast] at hx
    obtain rfl := Option.some.inj hx
    rfl

/-- Under a clock that never goes back, the latest rows are those of the last calls exactly when no
other row was left in the millisecond of the last call. -/
theorem latestWins_iff (hclock : calls.Pairwise fun a b => a.nowMs ≤ b.nowMs) :
    LatestWins calls (calls.foldl RowPut.run .empty) ↔ NoTies calls := by
  refine Iff.trans ?_ (forall_congr' fun videoId => and_congr
    (getLatestTranscript_run_iff hclock videoId)
    (forall_congr' (getTranslation_run_iff hclock videoId)))
  constructor
  · intro h videoId
    exact ⟨fun tie => (h videoId tie).1, fun sourceHash tie => (h videoId tie).2 sourceHash⟩
  · intro h videoId tie
    exact ⟨(h videoId).1 tie, fun sourceHash => (h videoId).2 sourceHash tie⟩

end Calls

/-- Two timelines of a video, stored at the times `t` and `t'`. -/
def twoTimelines (t t' : Nat) : List RowPut :=
  [.transcript ⟨"v", "h1", "first", t⟩, .transcript ⟨"v", "h2", "second", t'⟩]

theorem latestWins_iff_twoTimelines :
    LatestWins (twoTimelines 5 6) ((twoTimelines 5 6).foldl RowPut.run .empty) ↔
      NoTies (twoTimelines 5 6) :=
  latestWins_iff (by simp [twoTimelines, RowPut.nowMs])

/-- Of two timelines that were stored in one millisecond, the first may be returned. -/
theorem not_latestWins : ¬ ∀ calls : List RowPut,
    calls.Pairwise (fun a b => a.nowMs ≤ b.nowMs) →
      LatestWins calls (calls.foldl RowPut.run .empty) := by
  intro h
  have hclock : (twoTimelines 5 5).Pairwise fun a b => a.nowMs ≤ b.nowMs := by
    simp [twoTimelines, RowPut.nowMs]
  have hlatest : some "first" = some "second" := (h _ hclock "v" 0).1
  simp at hlatest

end LanguageLlm.Desktop
