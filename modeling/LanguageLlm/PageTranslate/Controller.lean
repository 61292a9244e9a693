import LanguageLlm.Lib.Run
import LanguageLlm.PageTranslate.Apply

/-!
# The page translation controller

`createPageTranslateController` (`controller.ts`) on a document that the page may edit. A call of
the translator is pending until it settles; what runs between two awaits is one step, and at the
end of a step the mutation observer is given the records that the step has queued.
-/

namespace LanguageLlm.PageTranslate

open Lib

/-- `lastProvisionalSource`. -/
inductive ProvisionalSource where
  | none
  | companionMock
  | devFallback
  deriving DecidableEq

/-- Who awaits the translator: `translateNow` or the flush of a batch of mutations. -/
inductive Purpose where
  | call
  | batch
  deriving DecidableEq

/-- A call of `translateSegments` that has not settled. -/
structure Pending where
  purpose : Purpose
  segments : List PageSegment
  lang : String

/-- How `translateSegments` settles. -/
inductive Outcome where
  | resolved (batch : List PageTranslateSegmentResult)
  | rejected (message : String)

/-- The document and the variables of its controller. The calls of the translator are numbered. -/
structure Page where
  doc : Document
  mode : PageTranslateMode
  restore : RestoreTable
  results : List PageTranslateSegmentResult
  targetLang : String
  lastError : Option String
  applying : Bool
  lastProvisionalSource : ProvisionalSource
  pending : OrderedMap Nat Pending
  serial : Nat
  /-- The buffer of `coalesceMutations`, and whether its timer is armed. -/
  buffer : List MutationRecord
  timer : Bool

/-- A new controller, whose observer has nothing queued. -/
def Page.fresh (doc : Document) : Page where
  doc := { doc with records := [] }
  mode := .original
  restore := .empty
  results := []
  targetLang := "en"
  lastError := none
  applying := false
  lastProvisionalSource := .none
  pending := .empty
  serial := 0
  buffer := []
  timer := false

/-- The options with which the controller collects. -/
def collectOptions : DomSegmentOptions :=
  { skipCodePre := true, includeContentEditable := false, minLength := 1 }

/-! ## `applyToDom` and `restoreOriginal` -/

/-- `displayByPath` of `applyToDom`. -/
def displayByPath (mode : PageTranslateMode) (restore : RestoreTable)
    (results : List PageTranslateSegmentResult) : OrderedMap String String :=
  .ofList <| (buildAppliedMap mode restore results).filterMap fun seg =>
    (restore.get seg.id).map fun entry => (entry.path, seg.displayText)

/-- `applyToDom` at a text node. -/
def applyText (mode : PageTranslateMode) (displayByPath originalsByPath : OrderedMap String String)
    (d : Document) (t : TextNode) : Document :=
  match displayByPath.get? t.absoluteNodePath, t.parentElement with
  | some display, some parent =>
    if d.data t.id ≠ display then
      let original := (originalsByPath.get? t.absoluteNodePath).getD (d.data t.id)
      let resolved := resolveDisplayText mode original display
      let d := d.setText t.id resolved.text
      match resolved.title with
      | some title =>
        if title ≠ "" then
          (d.setAttribute parent "title" title).setAttribute parent "data-llm-original" original
        else d
      | none => d
    else d
  | _, _ => d

/-- `restoreOriginal` at a text node. -/
def restoreText (originalsByPath : OrderedMap String String) (d : Document) (t : TextNode) :
    Document :=
  match originalsByPath.get? t.absoluteNodePath with
  | some original =>
    let d := d.setText t.id original
    match t.parentElement with
    | some parent =>
      (d.removeAttribute parent "title").removeAttribute parent "data-llm-original"
    | none => d
  | none => d

namespace Page

def applyToDom (p : Page) : Page :=
  if p.mode = .original then p
  else
    { p with
      doc := p.doc.texts.foldl
        (applyText p.mode (displayByPath p.mode p.restore p.results) p.restore.originalsByPath)
          p.doc
      applying := false }

def restoreOriginal (p : Page) : Page :=
  { p with
    doc := p.doc.texts.foldl (restoreText p.restore.originalsByPath) p.doc
    mode := .original
    applying := false }

def setMode (p : Page) (m : PageTranslateMode) : Page :=
  let p := { p with mode := m }
  if m = .original then p.restoreOriginal else p.applyToDom

/-! ## `translateNow` -/

/-- A call of `translateSegments`. -/
def translateSegments (p : Page) (purpose : Purpose) (segments : List PageSegment) (lang : String) :
    Page :=
  { p with
    pending := p.pending.set p.serial { purpose, segments, lang }
    serial := p.serial + 1 }

/-- `translateNow` up to its await. -/
def translateNow (p : Page) (lang : String) : Page :=
  let collected := collectTextSegments p.doc p.doc.tree.bodyId collectOptions
  let p :=
    { p with
      targetLang := lang
      lastError := none
      restore := .new (collected.map Collected.entry) }
  p.translateSegments .call (collected.map Collected.segment) lang

/-- `runTranslation` when the translator has settled: the source of the text, and the batch or the
error. `dev` is `isDevelopmentMtFallbackAllowed`. -/
def runTranslation (dev : Bool) (segments : List PageSegment) (lang : String) :
    Outcome → ProvisionalSource × Except String (List PageTranslateSegmentResult)
  | .resolved batch =>
    (if batch.any PageTranslateSegmentResult.provisional then .companionMock else .none, .ok batch)
  | .rejected message =>
    if dev then
      (.devFallback, .ok <| segments.map fun s =>
        { id := s.id
          translatedText := mockTranslateSegment s.originalText lang
          confidence := 7 / 10
          provisional := true })
    else (.none, .error message)

/-- `translateNow` after its await. -/
def settleCall (p : Page) (source : ProvisionalSource) :
    Except String (List PageTranslateSegmentResult) → Page
  | .ok batch =>
    { p with lastProvisionalSource := source, results := batch, mode := .translated }.applyToDom
  | .error message =>
    { p with lastProvisionalSource := source, lastError := some message, results := [] }

/-- The flush of a batch after its await. -/
def settleBatch (p : Page) (source : ProvisionalSource) :
    Except String (List PageTranslateSegmentResult) → Page
  | .ok batch =>
    { { p with lastProvisionalSource := source, results := p.results ++ batch }.applyToDom with
      applying := false }
  | .error message =>
    { { p with lastProvisionalSource := source, lastError := some message }.applyToDom with
      applying := false }

/-- A call of the translator settles. -/
def settle (dev : Bool) (p : Page) (serial : Nat) (outcome : Outcome) : Option Page :=
  match p.pending.get? serial with
  | some c =>
    let p := { p with pending := p.pending.delete serial }
    let (source, result) := runTranslation dev c.segments c.lang outcome
    match c.purpose with
    | .call => some (p.settleCall source result)
    | .batch => some (p.settleBatch source result)
  | none => none

theorem settle_cases {dev : Bool} {p q : Page} {serial : Nat} {outcome : Outcome}
    (h : p.settle dev serial outcome = some q) : ∃ c, p.pending.get? serial = some c ∧
      ((c.purpose = .call ∧ q = { p with pending := p.pending.delete serial }.settleCall
          (runTranslation dev c.segments c.lang outcome).1
          (runTranslation dev c.segments c.lang outcome).2) ∨
        (c.purpose = .batch ∧ q = { p with pending := p.pending.delete serial }.settleBatch
          (runTranslation dev c.segments c.lang outcome).1
          (runTranslation dev c.segments c.lang outcome).2)) := by
  unfold settle at h
  split at h
  · next c hc =>
    refine ⟨c, hc, ?_⟩
    dsimp only at h
    split at h <;> cases h
    · next hp => exact Or.inl ⟨hp, rfl⟩
    · next hp => exact Or.inr ⟨hp, rfl⟩
  · cases h

theorem settle_isSome {p : Page} {serial : Nat} {c : Pending} (dev : Bool) (outcome : Outcome)
    (h : p.pending.get? serial = some c) : ∃ q, p.settle dev serial outcome = some q := by
  unfold settle
  rw [h]
  dsimp only
  split <;> exact ⟨_, rfl⟩

/-! ## `onMutations` -/

def addedRoots (d : Document) (records : List MutationRecord) : List NodeId :=
  records.flatMap fun
    | .childList addedNodes => addedNodes.filterMap fun
      | .element id => some id
      | .text id => d.tree.parentElement id
      | .comment _ => none
    | .characterData => []

/-- What the flush has changed before it awaits the translator. -/
structure Batch where
  doc : Document
  restore : RestoreTable
  newSegments : List PageSegment

/-- The flush at one of the added roots. -/
def collectRoot (results : List PageTranslateSegmentResult) (b : Batch) (root : NodeId) : Batch :=
  if b.doc.closest root "data-llm-page-translated" then b
  else
    let collected := collectTextSegments b.doc root collectOptions
    { doc := b.doc.setAttribute root "data-llm-page-translated" "1"
      restore := (collected.map Collected.entry).foldl RestoreTable.set b.restore
      newSegments := b.newSegments ++
        (collected.map Collected.segment).filter fun s => !results.any fun r => r.id = s.id }

/-- The timer of `coalesceMutations` fires: the flush of the buffer up to its await. -/
def flush (p : Page) : Page :=
  let records := p.buffer
  let p := { p with buffer := [], timer := false }
  if p.mode = .original ∨ p.applying then p
  else
    let roots := addedRoots p.doc records
    if roots = [] then p
    else
      let b := roots.foldl (collectRoot p.results)
        { doc := p.doc, restore := p.restore, newSegments := [] }
      let p := { p with doc := b.doc, restore := b.restore, applying := true }
      if b.newSegments ≠ [] then p.translateSegments .batch b.newSegments p.targetLang
      else { p.applyToDom with applying := false }

/-- The observer calls `coalesceMutations` with the queued records. -/
def deliver (p : Page) : Page :=
  if p.doc.records = [] then p
  else
    { p with
      doc := { p.doc with records := [] }
      buffer := p.buffer ++ p.doc.records
      timer := true }

end Page

/-! ## Steps -/

/-- What can happen on the page. -/
inductive PageEvent where
  | translateNow (lang : String)
  | settle (serial : Nat) (outcome : Outcome)
  | setMode (m : PageTranslateMode)
  | restore
  /-- A task of the page. -/
  | edit (edits : List PageEdit)
  /-- The timer of the mutations fires. -/
  | flush

/-- One step. -/
def Page.step (dev : Bool) (p : Page) (e : PageEvent) : Option Page :=
  (match e with
    | .translateNow lang => some (p.translateNow lang)
    | .settle serial outcome => p.settle dev serial outcome
    | .setMode m => some (p.setMode m)
    | .restore => some p.restoreOriginal
    | .edit edits => (edits.foldlM Document.edit p.doc).map fun doc => { p with doc }
    | .flush => if p.timer then some p.flush else none).map Page.deliver

/-! ## A page -/

/-- A page with one paragraph. -/
def helloPage : Document where
  tree :=
    { bodyIndex := 1
      bodyId := 0
      childNodes := .element 1 "P" (.text 2 .nil) .nil
      detached := .nil
      nodup := by decide }
  data := fun n => if n = 2 then "Hello" else ""
  attributes := fun _ _ => none
  records := []

/-- A committed translation of the segment `id`. -/
def answer (id translatedText : String) : Outcome :=
  .resolved [{ id, translatedText, confidence := 9 / 10, provisional := false }]

end LanguageLlm.PageTranslate
