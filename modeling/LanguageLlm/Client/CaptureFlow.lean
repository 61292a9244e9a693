import Mathlib.Data.List.Perm.Subperm
import LanguageLlm.Client.AudioFrames
import LanguageLlm.Lib.Run

/-!
# The flow of a capture

The capture handlers of `background.ts` and the offscreen document, with the messages between them.
A handler is suspended at each of its awaits, and any suspended handler may be the next to go on;
the worker may be stopped and started again. `capture_flow` says what reaches the companion in every
run, and from which tab.
-/

namespace LanguageLlm.Client

open Lib

/-! ## The offscreen document -/

/-- A message to the offscreen document. -/
inductive OffscreenMessage where
  | capture (jobId : String) (tabId : Option Int)
  | stop
  | pause
  | resume
  deriving DecidableEq

/-- A `ScriptProcessorNode` with its audio context, made for the capture of a tab. -/
structure Processor where
  jobId : String
  tabId : Int
  connected : Bool
  running : Bool
  deriving DecidableEq

/-- The module's variables, the calls of `startCapture` that wait for the stream of their tab, and
all processors that were made; the variable `processor` is one of them by its position. -/
structure Offscreen where
  jobId : Option String
  seq : Nat
  processor : Option Nat
  waiting : List (String × Int)
  processors : List Processor

namespace Offscreen

def fresh : Offscreen where
  jobId := none
  seq := 0
  processor := none
  waiting := []
  processors := []

/-- The processor of the module's variable, changed. -/
def modify (d : Offscreen) (f : Processor → Processor) : Offscreen :=
  { d with processors := match d.processor with
      | some i => d.processors.modify i f
      | none => d.processors }

/-- `stopCapture`. -/
def stopCapture (d : Offscreen) : Offscreen :=
  { d.modify fun p => { p with connected := false } with
    jobId := none
    seq := 0
    processor := none }

/-- `startCapture` up to its first await; without a tab there is none. -/
def startCapture (d : Offscreen) (jobId : String) (tabId : Option Int) : Offscreen :=
  { d.stopCapture with
    jobId := some jobId
    waiting := match tabId with
      | some tabId => d.waiting ++ [(jobId, tabId)]
      | none => d.waiting }

/-- `startCapture` once it has the stream. -/
def streamed (d : Offscreen) (jobId : String) (tabId : Int) : Offscreen :=
  { d with
    processor := some d.processors.length
    processors := d.processors ++ [{ jobId, tabId, connected := true, running := true }] }

/-- The listener of messages. -/
def onMessage (d : Offscreen) : OffscreenMessage → Offscreen
  | .capture jobId tabId => d.startCapture jobId tabId
  | .stop => d.stopCapture
  | .pause => d.modify fun p => { p with running := false }
  | .resume => d.modify fun p => { p with running := true }

end Offscreen

/-! ## The worker -/

/-- A frame that a processor was given, with the module's variables `jobId` and `seq` at that time
and the tab that the processor was made for. -/
structure AudioFrame where
  own : Option String
  seq : Nat
  input : List Rat
  tab : Int

/-- A handler of `background.ts` at an await: `ensureCompanionSession`, `activeTabId` or
`ensureOffscreen`. A frame is named by its position. -/
inductive Suspended where
  | startEnsuring (sender : Option Int) (videoId : String)
  | startQuerying (jobId videoId : String)
  | startOffscreen (jobId : String) (tabId : Option Int)
  | chunk (frame : Nat) (message : CaptureChunk)

/-- How an await ends: it throws, or with a session and what `crypto.randomUUID` will return, or
with a tab, or without a value. -/
inductive Answer where
  | failed
  | session (token uuid : String)
  | tab (tabId : Option Int)
  | done

/-- What leaves the worker, and where its variables are set. -/
inductive Entry where
  | restarted
  | begun (jobId : String)
  | submit (jobId videoId : String) (tabId : Option Int)
  | audio (frame : Nat) (jobId : String) (seq : Nat) (value : Json)
  | control (type jobId : String)
  | cancelled
  | forwarded (tabId : Int) (event : Json)

/-- `CONTENT_FAN_IN`. -/
def contentFanIn : List String :=
  ["timeline.source", "timeline.translation", "job.progress", "error"]

/-- The worker, the offscreen document and what is on the way between them. The log has the latest
entry first. -/
structure Capturer where
  session : Option String
  captureJobId : Option String
  captureTabId : Option Int
  audioSeq : Nat
  fanInRegistered : Bool
  handlers : List Suspended
  toOffscreen : List OffscreenMessage
  toWorker : List (Nat × CaptureChunk)
  offscreen : Offscreen
  frames : List AudioFrame
  log : List Entry

def Capturer.fresh : Capturer where
  session := none
  captureJobId := none
  captureTabId := none
  audioSeq := 0
  fanInRegistered := false
  handlers := []
  toOffscreen := []
  toWorker := []
  offscreen := .fresh
  frames := []
  log := []

inductive CaptureEvent where
  | start (sender : Option Int) (videoId : String)
  | chunkArrives (k : Nat)
  | resume (k : Nat) (answer : Answer)
  | cancel
  | pause
  | unpause
  | offscreenGets
  | offscreenMisses
  | streamed (k : Nat) (ok : Bool)
  | audioprocess (i : Nat) (input : List Rat)
  | companionEvent (event : Json)
  | restart

/-- The jobs that were begun. -/
def begunJobs : List Entry → List String :=
  List.filterMap fun
    | .begun jobId => some jobId
    | _ => none

namespace Capturer

/-- `session.send` of a control message for the job that captures. -/
def sendControl (s : Capturer) (type : String) : Capturer :=
  match s.session, s.captureJobId with
  | some _, some jobId =>
    if jobId = "" then s else { s with log := .control type jobId :: s.log }
  | _, _ => s

/-- A job is submitted for a tab. -/
def submitFor (s : Capturer) (jobId videoId : String) (tabId : Option Int) : Capturer :=
  { s with
    captureTabId := tabId
    handlers := s.handlers ++ [.startOffscreen jobId tabId]
    log := .submit jobId videoId tabId :: s.log }

/-- A handler goes on; `none` where the answer is not one of its await. A UUID is not drawn
twice. -/
def goOn (s : Capturer) (handler : Suspended) (answer : Answer) : Option Capturer :=
  match handler, answer with
  | _, .failed => some s
  | .startEnsuring sender videoId, .session token jobId =>
    if jobId = "" ∨ jobId ∈ begunJobs s.log then none
    else
      let s :=
        { s with
          session := some token
          fanInRegistered := true
          captureJobId := some jobId
          audioSeq := 0
          log := .begun jobId :: s.log }
      match sender with
      | some tabId => some (s.submitFor jobId videoId (some tabId))
      | none => some { s with handlers := s.handlers ++ [.startQuerying jobId videoId] }
  | .startQuerying jobId videoId, .tab tabId => some (s.submitFor jobId videoId tabId)
  | .startOffscreen jobId tabId, .done =>
    some { s with toOffscreen := s.toOffscreen ++ [.capture jobId tabId] }
  | .chunk frame message, .session token _ =>
    let s := { s with session := some token, fanInRegistered := true }
    match relayChunk token s.captureJobId s.audioSeq message with
    | some (some value) =>
      some
        { s with
          audioSeq := s.audioSeq + 1
          log := .audio frame (message.job s.captureJobId) s.audioSeq value :: s.log }
    | some none => some s
    | none => some { s with audioSeq := s.audioSeq + 1 }
  | _, _ => none

def step (s : Capturer) : CaptureEvent → Option Capturer
  | .start sender videoId =>
    some { s with handlers := s.handlers ++ [.startEnsuring sender videoId] }
  | .chunkArrives k =>
    (s.toWorker[k]?).map fun c =>
      { s with
        toWorker := s.toWorker.eraseIdx k
        handlers := s.handlers ++ [.chunk c.1 c.2] }
  | .resume k answer =>
    (s.handlers[k]?).bind fun handler =>
      { s with handlers := s.handlers.eraseIdx k }.goOn handler answer
  | .cancel =>
    let s := s.sendControl "job.cancel"
    some
      { s with
        captureJobId := none
        captureTabId := none
        toOffscreen := s.toOffscreen ++ [.stop]
        log := .cancelled :: s.log }
  | .pause =>
    let s := s.sendControl "job.pause"
    some { s with toOffscreen := s.toOffscreen ++ [.pause] }
  | .unpause =>
    let s := s.sendControl "job.resume"
    some { s with toOffscreen := s.toOffscreen ++ [.resume] }
  | .offscreenGets =>
    match s.toOffscreen with
    | m :: rest => some { s with toOffscreen := rest, offscreen := s.offscreen.onMessage m }
    | [] => none
  | .offscreenMisses =>
    match s.toOffscreen with
    | _ :: rest => some { s with toOffscreen := rest }
    | [] => none
  | .streamed k ok =>
    (s.offscreen.waiting[k]?).map fun c =>
      let d := { s.offscreen with waiting := s.offscreen.waiting.eraseIdx k }
      { s with offscreen := if ok then d.streamed c.1 c.2 else d }
  | .audioprocess i input =>
    (s.offscreen.processors[i]?).bind fun p =>
      if p.connected && p.running then
        (onAudioProcess s.offscreen.jobId s.offscreen.seq input).map fun message =>
          { s with
            offscreen := { s.offscreen with seq := s.offscreen.seq + 1 }
            toWorker := s.toWorker ++ [(s.frames.length, message)]
            frames := s.frames ++
              [{ own := s.offscreen.jobId, seq := s.offscreen.seq, input, tab := p.tabId }] }
      else none
  | .companionEvent event =>
    some (match s.captureTabId, event.getStr "type" with
      | some tabId, some type =>
        if s.fanInRegistered ∧ type ∈ contentFanIn then
          { s with log := .forwarded tabId event :: s.log }
        else s
      | _, _ => s)
  | .restart =>
    some
      { s with
        session := none
        captureJobId := none
        captureTabId := none
        audioSeq := 0
        fanInRegistered := false
        handlers := []
        log := .restarted :: s.log }

end Capturer

/-! ## What reaches the companion -/

/-- How many audio messages were sent since a job was begun. -/
def sentSince : List Entry → Nat
  | .audio .. :: log => sentSince log + 1
  | .begun _ :: _ | .restarted :: _ | [] => 0
  | .submit .. :: log | .control .. :: log | .cancelled :: log | .forwarded .. :: log =>
    sentSince log

/-- The job that captures. -/
def currentJob : List Entry → Option String
  | .begun jobId :: _ => some jobId
  | .cancelled :: _ | .restarted :: _ | [] => none
  | .submit .. :: log | .control .. :: log | .audio .. :: log | .forwarded .. :: log =>
    currentJob log

/-- The tab that the events of the companion are for. -/
def currentTab : List Entry → Option Int
  | .submit _ _ tabId :: _ => tabId
  | .cancelled :: _ | .restarted :: _ | [] => none
  | .begun _ :: log | .control .. :: log | .audio .. :: log | .forwarded .. :: log => currentTab log

namespace Entry

/-- The frame of an audio message. -/
def frame? : Entry → Option Nat
  | audio frame .. => some frame
  | _ => none

/-- The job that is submitted. -/
def submitted? : Entry → Option String
  | submit jobId .. => some jobId
  | _ => none

end Entry

/-- The job was submitted for the tab. -/
def Submitted (log : List Entry) (jobId : String) (tabId : Option Int) : Prop :=
  ∃ videoId, Entry.submit jobId videoId tabId ∈ log

/-- What holds of an entry after the entries before it: an audio message has the next number and the
samples of a frame that was not sent before, for the job of the frame, which was submitted, or
without one for the job that captures; a job is begun once and submitted once; and an event goes to
the tab of the latest job alone. -/
def Entry.Sound (frames : List AudioFrame) (log : List Entry) : Entry → Prop
  | audio f jobId seq value =>
    seq = sentSince log ∧ f ∉ log.filterMap frame? ∧ ∃ frame token, frames[f]? = some frame ∧
      value = audioMessage token jobId 48000 seq (floatTo16Le frame.input) ∧
      (frame.own = some jobId ∧ (∃ tabId, Submitted log jobId tabId) ∨
        frame.own = none ∧ currentJob log = some jobId)
  | begun jobId => jobId ∉ begunJobs log
  | submit jobId _ _ => jobId ∈ begunJobs log ∧ jobId ∉ log.filterMap submitted?
  | control _ jobId => currentJob log = some jobId
  | forwarded tabId event =>
    currentTab log = some tabId ∧ ∃ type ∈ contentFanIn, event.getStr "type" = some type
  | restarted | cancelled => True

/-- An audio message has the samples of a frame of the tab that its job was submitted for. -/
def Entry.FromTab (frames : List AudioFrame) (log : List Entry) : Entry → Prop
  | audio f jobId .. => ∃ frame, frames[f]? = some frame ∧ frame.own = some jobId ∧
      Submitted log jobId (some frame.tab)
  | _ => True

/-- Every entry of a log has the property after the entries before it. -/
def Everywhere (P : List Entry → Entry → Prop) : List Entry → Prop
  | [] => True
  | e :: log => P log e ∧ Everywhere P log

/-- No capture starts or stops while the offscreen document waits for the stream of another. -/
def InTurn (f : Fired Capturer CaptureEvent) : Prop :=
  f.label = .offscreenGets → f.pre.offscreen.waiting ≠ [] →
    f.pre.toOffscreen.head? = some .pause ∨ f.pre.toOffscreen.head? = some .resume

/-! ## What is on the way -/

/-- The chunk of a frame. -/
def AudioFrame.chunk (frame : AudioFrame) : CaptureChunk :=
  frameChunk frame.own frame.seq frame.input

namespace Suspended

def chunk? : Suspended → Option (Nat × CaptureChunk)
  | chunk f message => some (f, message)
  | _ => none

def querying? : Suspended → Option String
  | startQuerying jobId _ => some jobId
  | _ => none

def capture? : Suspended → Option (String × Option Int)
  | startOffscreen jobId tabId => some (jobId, tabId)
  | _ => none

end Suspended

def OffscreenMessage.capture? : OffscreenMessage → Option (String × Option Int)
  | capture jobId tabId => some (jobId, tabId)
  | _ => none

/-- The captures that the offscreen document has started. -/
def Offscreen.captures (d : Offscreen) : List (String × Option Int) :=
  d.waiting.map (fun c => (c.1, some c.2)) ++ d.processors.map fun p => (p.jobId, some p.tabId)

namespace Capturer

/-- The chunks on the way to the companion. -/
def chunks (s : Capturer) : List (Nat × CaptureChunk) :=
  s.toWorker ++ s.handlers.filterMap Suspended.chunk?

/-- The frames on the way to the companion and there. -/
def places (s : Capturer) : List Nat := s.chunks.map Prod.fst ++ s.log.filterMap Entry.frame?

/-- The jobs that are submitted or will be. -/
def jobs (s : Capturer) : List String :=
  s.handlers.filterMap Suspended.querying? ++ s.log.filterMap Entry.submitted?

/-- The captures that were submitted, on their way into the offscreen document. -/
def captures (s : Capturer) : List (String × Option Int) :=
  s.handlers.filterMap Suspended.capture? ++
    (s.toOffscreen.filterMap OffscreenMessage.capture? ++ s.offscreen.captures)

end Capturer

/-- The job is that of the offscreen document or of one of its frames. -/
def Capturer.Owns (s : Capturer) (jobId : String) : Prop :=
  s.offscreen.jobId = some jobId ∨ ∃ frame ∈ s.frames, frame.own = some jobId

/-- What holds in every state. -/
structure Flow (s : Capturer) : Prop where
  placesOnce : s.places.Nodup
  placesMade : ∀ f ∈ s.places, f < s.frames.length
  jobsOnce : s.jobs.Nodup
  jobsBegun : ∀ jobId ∈ s.jobs, jobId ∈ begunJobs s.log
  known : ∀ c ∈ s.chunks, ∃ frame, s.frames[c.1]? = some frame ∧ c.2 = frame.chunk
  captured : ∀ c ∈ s.captures, Submitted s.log c.1 c.2
  owned : ∀ jobId, s.Owns jobId → ∃ tabId, Submitted s.log jobId tabId
  job : s.captureJobId = currentJob s.log
  tab : s.captureTabId = currentTab s.log
  number : s.audioSeq = sentSince s.log
  sound : Everywhere (Entry.Sound s.frames) s.log

section Logs

variable {P Q : List Entry → Entry → Prop} {log : List Entry} {e : Entry}

theorem Everywhere.mono (hPQ : ∀ log e, P log e → Q log e) :
    ∀ {log : List Entry}, Everywhere P log → Everywhere Q log
  | [], _ => trivial
  | _ :: _, h => ⟨hPQ _ _ h.1, Everywhere.mono hPQ h.2⟩

theorem Submitted.append {jobId : String} {tabId : Option Int} (h : Submitted log jobId tabId)
    (new : List Entry) : Submitted (new ++ log) jobId tabId := by
  obtain ⟨videoId, h⟩ := h
  exact ⟨videoId, List.mem_append_right new h⟩

theorem begunJobs_append (new log : List Entry) :
    begunJobs (new ++ log) = begunJobs new ++ begunJobs log :=
  List.filterMap_append

/-- More frames change nothing. -/
theorem Entry.Sound.frames {frames : List AudioFrame} (h : Entry.Sound frames log e)
    (new : List AudioFrame) :
    Entry.Sound (frames ++ new) log e := by
  cases e with
  | audio f jobId seq value =>
    obtain ⟨hseq, hnew, frame, token, hframe, hrest⟩ := h
    exact ⟨hseq, hnew, frame, token, by rw [List.getElem?_append_left
      (List.getElem?_eq_some_iff.1 hframe).1, hframe], hrest⟩
  | _ => exact h

end Logs

section Steps

variable {s s' : Capturer}

theorem nodup_of_subperm {α : Type} {l l' : List α} (h : l.Subperm l') (hl : l'.Nodup) :
    l.Nodup := by
  obtain ⟨m, hperm, hsub⟩ := h
  exact hperm.nodup_iff.1 (hsub.nodup hl)

/-- What is on the way moves on: a frame that is sent is no longer on the way, and a job that is
submitted will not be any more. -/
theorem Flow.move (h : Flow s) (new : List Entry) (hlog : s'.log = new ++ s.log)
    (hframes : s'.frames = s.frames)
    (hvars : s'.captureJobId = currentJob s'.log ∧ s'.captureTabId = currentTab s'.log ∧
      s'.audioSeq = sentSince s'.log)
    (hsound : Everywhere (Entry.Sound s.frames) s'.log)
    (hplaces : s'.places.Subperm s.places) (hchunks : s'.chunks ⊆ s.chunks)
    (hjobs : s'.jobs.Subperm s.jobs)
    (hcaptures : ∀ c ∈ s'.captures, c ∈ s.captures ∨ Submitted s'.log c.1 c.2)
    (howns : ∀ jobId, s'.Owns jobId → s.Owns jobId ∨ ∃ tabId, Submitted s'.log jobId tabId) :
    Flow s' where
  placesOnce := nodup_of_subperm hplaces h.placesOnce
  placesMade := by
    rw [hframes]
    exact fun f hf => h.placesMade f (hplaces.subset hf)
  jobsOnce := nodup_of_subperm hjobs h.jobsOnce
  jobsBegun := by
    rw [hlog, begunJobs_append]
    exact fun jobId hjob => List.mem_append_right _ (h.jobsBegun jobId (hjobs.subset hjob))
  known := by
    rw [hframes]
    exact fun c hc => h.known c (hchunks hc)
  captured := by
    intro c hc
    rcases hcaptures c hc with hold | hnew
    · rw [hlog]
      exact (h.captured c hold).append new
    · exact hnew
  owned := by
    intro jobId hjob
    rcases howns jobId hjob with hold | hnew
    · obtain ⟨tabId, hsubmitted⟩ := h.owned jobId hold
      rw [hlog]
      exact ⟨tabId, hsubmitted.append new⟩
    · exact hnew
  job := hvars.1
  tab := hvars.2.1
  number := hvars.2.2
  sound := by
    rw [hframes]
    exact hsound

/-- Nothing is sent. -/
theorem Flow.quiet (h : Flow s) (hlog : s'.log = s.log) (hframes : s'.frames = s.frames)
    (hvars : s'.captureJobId = s.captureJobId ∧ s'.captureTabId = s.captureTabId ∧
      s'.audioSeq = s.audioSeq)
    (hchunks : s'.chunks.Subperm s.chunks)
    (hjobs : (s'.handlers.filterMap Suspended.querying?).Subperm
      (s.handlers.filterMap Suspended.querying?))
    (hcaptures : s'.captures ⊆ s.captures)
    (howns : ∀ jobId, s'.Owns jobId → s.Owns jobId ∨ ∃ tabId, Submitted s'.log jobId tabId) :
    Flow s' := by
  obtain ⟨l, hperm, hsub⟩ := hchunks
  refine h.move [] hlog hframes ?_ (hlog ▸ h.sound) ?_ (fun c hc =>
    hsub.subset (hperm.symm.subset hc)) ?_ (fun c hc => Or.inl (hcaptures hc)) howns
  · rw [hvars.1, hvars.2.1, hvars.2.2, hlog]
    exact ⟨h.job, h.tab, h.number⟩
  · rw [Capturer.places, Capturer.places, hlog, List.subperm_append_right]
    exact ⟨l.map Prod.fst, hperm.map _, hsub.map _⟩
  · rw [Capturer.jobs, Capturer.jobs, hlog]
    exact (List.subperm_append_right _).2 hjobs

/-! ## Handlers that go on -/

section Handlers

variable {hs : List Suspended} {handler : Suspended}

theorem subperm_handlers (hperm : s.handlers.Perm (handler :: hs)) {α : Type}
    (f : Suspended → Option α) : (hs.filterMap f).Subperm (s.handlers.filterMap f) := by
  have hcons := ((List.sublist_cons_self handler hs).filterMap f).subperm
  exact hcons.trans (hperm.filterMap f).symm.subperm

/-- A handler that `f` does not count. -/
theorem filterMap_concat {α : Type} {f : Suspended → Option α} (h : f handler = none) :
    (hs ++ [handler]).filterMap f = hs.filterMap f := by
  rw [List.filterMap_append, List.filterMap_cons, h]
  exact List.append_nil _

/-- A handler ends. -/
theorem Flow.drop (h : Flow s) (hperm : s.handlers.Perm (handler :: hs)) :
    Flow { s with handlers := hs } := by
  refine h.quiet rfl rfl ⟨rfl, rfl, rfl⟩ ?_ (subperm_handlers hperm _) ?_ fun _ hown => Or.inl hown
  · exact (List.subperm_append_left _).2 (subperm_handlers hperm _)
  · exact ((List.subperm_append_right _).2 (subperm_handlers hperm _)).subset

/-- A job is begun. -/
theorem Flow.begin (h : Flow s) {jobId : String} (hnew : jobId ∉ begunJobs s.log)
    (videoId : String) :
    Flow { s with
      captureJobId := some jobId
      audioSeq := 0
      handlers := s.handlers ++ [.startQuerying jobId videoId]
      log := .begun jobId :: s.log } := by
  let querying : Suspended := .startQuerying jobId videoId
  have hchunks : (s.handlers ++ [querying]).filterMap Suspended.chunk? =
      s.handlers.filterMap Suspended.chunk? := filterMap_concat rfl
  have hcaptures : (s.handlers ++ [querying]).filterMap Suspended.capture? =
      s.handlers.filterMap Suspended.capture? := filterMap_concat rfl
  have hjobs : ((s.handlers ++ [querying]).filterMap Suspended.querying? ++
      s.log.filterMap Entry.submitted?).Perm (jobId :: s.jobs) := by
    rw [List.filterMap_append, Capturer.jobs, List.append_assoc]
    exact List.perm_middle
  constructor
  · rw [Capturer.places, Capturer.chunks]
    dsimp only
    rw [hchunks]
    exact h.placesOnce
  · rw [Capturer.places, Capturer.chunks]
    dsimp only
    rw [hchunks]
    exact h.placesMade
  · refine hjobs.nodup_iff.2 (List.nodup_cons.2 ⟨fun hmem => ?_, h.jobsOnce⟩)
    exact hnew (h.jobsBegun jobId hmem)
  · intro id hid
    rcases List.mem_cons.1 (hjobs.subset hid) with rfl | hold
    · exact List.mem_cons_self
    · exact List.mem_cons_of_mem _ (h.jobsBegun id hold)
  · rw [Capturer.chunks]
    dsimp only
    rw [hchunks]
    exact h.known
  · rw [Capturer.captures]
    dsimp only
    rw [hcaptures]
    exact fun c hc => (h.captured c hc).append [_]
  · intro id hown
    obtain ⟨tabId, hsubmitted⟩ := h.owned id hown
    exact ⟨tabId, hsubmitted.append [_]⟩
  · rfl
  · exact h.tab
  · rfl
  · exact ⟨hnew, h.sound⟩

/-- A job is submitted. -/
theorem Flow.submit (h : Flow s) {jobId videoId : String}
    (hperm : s.handlers.Perm (.startQuerying jobId videoId :: hs)) (tabId : Option Int) :
    Flow ({ s with handlers := hs }.submitFor jobId videoId tabId) := by
  let starting : Suspended := .startOffscreen jobId tabId
  have hquerying : (s.handlers.filterMap Suspended.querying?).Perm
      (jobId :: hs.filterMap Suspended.querying?) := hperm.filterMap _
  have honce := h.jobsOnce
  rw [Capturer.jobs, (hquerying.append_right _).nodup_iff, List.cons_append, List.nodup_cons,
    List.mem_append, not_or] at honce
  have hbegun : jobId ∈ begunJobs s.log :=
    h.jobsBegun jobId (List.mem_append_left _ (hquerying.symm.subset List.mem_cons_self))
  have hchunks : ((hs ++ [starting]).filterMap Suspended.chunk?).Subperm
      (s.handlers.filterMap Suspended.chunk?) := by
    have hsame : (hs ++ [starting]).filterMap Suspended.chunk? =
      hs.filterMap Suspended.chunk? := filterMap_concat rfl
    rw [hsame]
    exact subperm_handlers hperm _
  have hjobs : ((hs ++ [starting]).filterMap Suspended.querying? ++
      jobId :: s.log.filterMap Entry.submitted?).Perm s.jobs := by
    have hsame : (hs ++ [starting]).filterMap Suspended.querying? =
      hs.filterMap Suspended.querying? := filterMap_concat rfl
    rw [hsame]
    exact List.perm_middle.trans (hquerying.append_right _).symm
  refine h.move [.submit jobId videoId tabId] rfl rfl ⟨h.job, rfl, h.number⟩
    ⟨⟨hbegun, honce.1.2⟩, h.sound⟩ ?_ ?_ hjobs.subperm ?_ fun _ hown => Or.inl hown
  · obtain ⟨l, hl, hsub⟩ := (List.subperm_append_left s.toWorker).2 hchunks
    exact (List.subperm_append_right _).2 ⟨l.map Prod.fst, hl.map _, hsub.map _⟩
  · exact ((List.subperm_append_left _).2 hchunks).subset
  · intro c hc
    simp only [Capturer.captures, Capturer.submitFor, List.filterMap_append, List.mem_append] at hc
    rw [Capturer.captures, List.mem_append]
    rcases hc with (hold | hsame) | hrest
    · exact Or.inl (Or.inl ((subperm_handlers hperm _).subset hold))
    · obtain rfl := List.mem_singleton.1 hsame
      exact Or.inr ⟨videoId, List.mem_cons_self⟩
    · exact Or.inl (Or.inr (List.mem_append.2 hrest))

/-- A capture is sent to the offscreen document. -/
theorem Flow.startOffscreen (h : Flow s) {jobId : String} {tabId : Option Int}
    (hperm : s.handlers.Perm (.startOffscreen jobId tabId :: hs)) :
    Flow { s with handlers := hs, toOffscreen := s.toOffscreen ++ [.capture jobId tabId] } := by
  have hstarting : (s.handlers.filterMap Suspended.capture?).Perm
      ((jobId, tabId) :: hs.filterMap Suspended.capture?) := hperm.filterMap _
  refine h.quiet rfl rfl ⟨rfl, rfl, rfl⟩ ?_ (subperm_handlers hperm _) ?_ fun _ hown => Or.inl hown
  · exact (List.subperm_append_left _).2 (subperm_handlers hperm _)
  · intro c hc
    simp only [Capturer.captures, List.filterMap_append, List.mem_append] at hc
    rw [Capturer.captures, List.mem_append, List.mem_append]
    rcases hc with hold | (hold | hmoved) | hrest
    · exact Or.inl ((subperm_handlers hperm _).subset hold)
    · exact Or.inr (Or.inl hold)
    · obtain rfl := List.mem_singleton.1 hmoved
      exact Or.inl (hstarting.symm.subset List.mem_cons_self)
    · exact Or.inr (Or.inr hrest)

/-- A chunk is sent, or dropped where there is no job for it. -/
theorem Flow.relay (h : Flow s) {f : Nat} {message : CaptureChunk} {token uuid : String}
    (hperm : s.handlers.Perm (.chunk f message :: hs))
    (hgo : { s with handlers := hs }.goOn (.chunk f message) (.session token uuid) = some s') :
    Flow s' := by
  have hchunk : (s.handlers.filterMap Suspended.chunk?).Perm
      ((f, message) :: hs.filterMap Suspended.chunk?) := hperm.filterMap _
  obtain ⟨frame, hframe, hmessage⟩ := h.known (f, message)
    (List.mem_append_right _ (hchunk.symm.subset List.mem_cons_self))
  obtain rfl : message = frame.chunk := hmessage
  have hplaces : s.places.Perm
      (f :: ((s.toWorker ++ hs.filterMap Suspended.chunk?).map Prod.fst ++
        s.log.filterMap Entry.frame?)) := by
    have hmoved : ((s.toWorker ++ s.handlers.filterMap Suspended.chunk?).map Prod.fst).Perm
        (f :: (s.toWorker ++ hs.filterMap Suspended.chunk?).map Prod.fst) :=
      ((hchunk.append_left _).trans List.perm_middle).map Prod.fst
    exact hmoved.append_right _
  have honce := h.placesOnce
  rw [hplaces.nodup_iff, List.nodup_cons, List.mem_append, not_or] at honce
  simp only [Capturer.goOn, AudioFrame.chunk, relayChunk_frame] at hgo
  by_cases hempty : (frame.own.or s.captureJobId).getD "" = ""
  · rw [if_pos hempty] at hgo
    obtain rfl := Option.some.inj hgo
    exact (h.drop hperm).quiet rfl rfl ⟨rfl, rfl, rfl⟩ (List.Subperm.refl _) (List.Subperm.refl _)
      (List.Subset.refl _) fun _ hown => Or.inl hown
  · rw [if_neg hempty] at hgo
    obtain rfl := Option.some.inj hgo
    have hjob : frame.own = some ((frame.own.or s.captureJobId).getD "") ∧
          (∃ tabId, Submitted s.log ((frame.own.or s.captureJobId).getD "") tabId) ∨
        frame.own = none ∧ currentJob s.log = some ((frame.own.or s.captureJobId).getD "") := by
      cases hown : frame.own with
      | some id =>
        exact Or.inl ⟨rfl, h.owned id (Or.inr ⟨frame, List.mem_of_getElem? hframe, hown⟩)⟩
      | none =>
        rw [Option.none_or, ← h.job]
        cases hcurrent : s.captureJobId with
        | some id => exact Or.inr ⟨rfl, rfl⟩
        | none =>
          rw [hown, hcurrent] at hempty
          exact absurd rfl hempty
    refine h.move [.audio f _ s.audioSeq _] rfl rfl
      ⟨h.job, h.tab, congrArg (· + 1) h.number⟩ ⟨⟨h.number, honce.1.2, frame, token, hframe, rfl,
        hjob⟩, h.sound⟩ ?_ ?_ ?_ ?_ fun _ hown => Or.inl hown
    · exact (List.perm_middle.trans hplaces.symm).subperm
    · exact ((List.subperm_append_left _).2 (subperm_handlers hperm _)).subset
    · exact (List.subperm_append_right _).2 (subperm_handlers hperm _)
    · exact fun c hc => Or.inl (((List.subperm_append_right _).2
        (subperm_handlers hperm _)).subset hc)

/-- One handler goes on. -/
theorem Flow.goOn (h : Flow s) (hperm : s.handlers.Perm (handler :: hs)) {answer : Answer}
    (hgo : { s with handlers := hs }.goOn handler answer = some s') : Flow s' := by
  cases answer with
  | failed =>
    obtain rfl : { s with handlers := hs } = s' := by
      cases handler <;> exact Option.some.inj hgo
    exact h.drop hperm
  | session token jobId =>
    cases handler with
    | startEnsuring sender videoId =>
      rw [Capturer.goOn] at hgo
      split at hgo
      · cases hgo
      · next hnew =>
        have hbegun := (h.drop hperm).begin (fun hmem => hnew (Or.inr hmem)) videoId
        cases sender with
        | none =>
          obtain rfl := Option.some.inj hgo
          exact hbegun.quiet rfl rfl ⟨rfl, rfl, rfl⟩ (List.Subperm.refl _) (List.Subperm.refl _)
            (List.Subset.refl _) fun _ hown => Or.inl hown
        | some tabId =>
          obtain rfl := Option.some.inj hgo
          exact (hbegun.submit (List.perm_append_singleton ..) (some tabId)).quiet rfl rfl
            ⟨rfl, rfl, rfl⟩ (List.Subperm.refl _) (List.Subperm.refl _)
            (List.Subset.refl _) fun _ hown => Or.inl hown
    | chunk f message => exact h.relay hperm hgo
    | startQuerying | startOffscreen => cases hgo
  | tab tabId =>
    cases handler with
    | startQuerying jobId videoId =>
      obtain rfl := Option.some.inj hgo
      exact h.submit hperm tabId
    | startEnsuring | startOffscreen | chunk => cases hgo
  | done =>
    cases handler with
    | startOffscreen jobId tabId =>
      obtain rfl := Option.some.inj hgo
      exact h.startOffscreen hperm
    | startEnsuring | startQuerying | chunk => cases hgo

end Handlers

/-! ## The other events -/

theorem perm_eraseIdx {α : Type} {l : List α} {k : Nat} {a : α} (h : l[k]? = some a) :
    l.Perm (a :: l.eraseIdx k) := by
  obtain ⟨hlt, rfl⟩ := List.getElem?_eq_some_iff.1 h
  exact (List.getElem_cons_eraseIdx_perm hlt).symm

/-- A control message is for the job that captures. -/
theorem Flow.control (h : Flow s) (type : String) : Flow (s.sendControl type) := by
  rw [Capturer.sendControl]
  split
  · next token jobId _ hjob =>
    split
    · exact h
    · exact h.move [.control type jobId] rfl rfl ⟨h.job, h.tab, h.number⟩
        ⟨h.job.symm.trans hjob, h.sound⟩ (List.Subperm.refl _) (List.Subset.refl _)
        (List.Subperm.refl _) (fun _ hc => Or.inl hc) fun _ hown => Or.inl hown
  · exact h

/-- A message to the offscreen document that starts no capture. -/
theorem Flow.toOffscreen (h : Flow s) {m : OffscreenMessage} (hm : m.capture? = none) :
    Flow { s with toOffscreen := s.toOffscreen ++ [m] } := by
  have hsame : (s.toOffscreen ++ [m]).filterMap OffscreenMessage.capture? =
      s.toOffscreen.filterMap OffscreenMessage.capture? := by
    rw [List.filterMap_append, List.filterMap_cons, hm]
    exact List.append_nil _
  refine h.quiet rfl rfl ⟨rfl, rfl, rfl⟩ (List.Subperm.refl _) (List.Subperm.refl _) ?_
    fun _ hown => Or.inl hown
  rw [Capturer.captures, Capturer.captures]
  dsimp only
  rw [hsame]
  exact List.Subset.refl _

/-- The captures of the processors do not change. -/
theorem captures_modify (d : Offscreen) {f : Processor → Processor}
    (hf : ∀ p, (f p).jobId = p.jobId ∧ (f p).tabId = p.tabId) :
    (d.modify f).captures = d.captures := by
  have hmap : (d.modify f).processors.map (fun p => (p.jobId, some p.tabId)) =
      d.processors.map fun p => (p.jobId, some p.tabId) := by
    cases hp : d.processor with
    | none => simp only [Offscreen.modify, hp]
    | some i =>
      simp only [Offscreen.modify, hp]
      apply List.ext_getElem?
      intro j
      rw [List.getElem?_map, List.getElem?_map, List.getElem?_modify]
      cases d.processors[j]? with
      | none => rfl
      | some p =>
        obtain ⟨hjob, htab⟩ := hf p
        by_cases hij : i = j
        · simp [hij, hjob, htab]
        · simp [hij]
  rw [Offscreen.captures, Offscreen.captures, hmap]
  rfl

/-- The offscreen document gets a message. -/
theorem Flow.offscreenGets (h : Flow s) {m : OffscreenMessage} {rest : List OffscreenMessage}
    (hqueue : s.toOffscreen = m :: rest) :
    Flow { s with toOffscreen := rest, offscreen := s.offscreen.onMessage m } := by
  have hcaptures : ∀ c ∈ (s.offscreen.onMessage m).captures,
      m.capture? = some c ∨ c ∈ s.offscreen.captures := by
    intro c hc
    cases m with
    | capture jobId tabId =>
      have hstop := captures_modify s.offscreen (f := fun p => { p with connected := false })
        fun p => ⟨rfl, rfl⟩
      rw [← hstop]
      cases tabId with
      | none => exact Or.inr hc
      | some tabId =>
        simp only [Offscreen.captures, Offscreen.onMessage, Offscreen.startCapture,
          List.map_append, List.mem_append] at hc
        rw [Offscreen.captures, List.mem_append]
        rcases hc with (hold | hnew) | hprocessor
        · exact Or.inr (Or.inl hold)
        · exact Or.inl (congrArg some (List.mem_singleton.1 hnew).symm)
        · exact Or.inr (Or.inr hprocessor)
    | stop =>
      right
      rw [← captures_modify s.offscreen (f := fun p => { p with connected := false })
        fun p => ⟨rfl, rfl⟩]
      exact hc
    | pause =>
      right
      rw [← captures_modify s.offscreen (f := fun p => { p with running := false })
        fun p => ⟨rfl, rfl⟩]
      exact hc
    | resume =>
      right
      rw [← captures_modify s.offscreen (f := fun p => { p with running := true })
        fun p => ⟨rfl, rfl⟩]
      exact hc
  have hmessage : ∀ c, m.capture? = some c → c ∈ s.captures := by
    intro c hc
    rw [Capturer.captures, hqueue, List.filterMap_cons_some hc]
    exact List.mem_append_right _ (List.mem_append_left _ List.mem_cons_self)
  have hown : ∀ jobId, (s.offscreen.onMessage m).jobId = some jobId →
      s.offscreen.jobId = some jobId ∨ ∃ tabId, m.capture? = some (jobId, tabId) := by
    intro jobId hjob
    cases m with
    | capture id tabId =>
      obtain rfl := Option.some.inj hjob
      exact Or.inr ⟨tabId, rfl⟩
    | stop => cases hjob
    | pause | resume => exact Or.inl hjob
  refine h.quiet rfl rfl ⟨rfl, rfl, rfl⟩ (List.Subperm.refl _) (List.Subperm.refl _) ?_ ?_
  · intro c hc
    rw [Capturer.captures, List.mem_append, List.mem_append] at hc
    have hrest : c ∈ rest.filterMap OffscreenMessage.capture? →
        c ∈ s.toOffscreen.filterMap OffscreenMessage.capture? := by
      rw [hqueue]
      exact fun hmem => ((List.sublist_cons_self m rest).filterMap _).subset hmem
    rcases hc with hhandler | hmem | hdocument
    · exact List.mem_append_left _ hhandler
    · exact List.mem_append_right _ (List.mem_append_left _ (hrest hmem))
    · rcases hcaptures c hdocument with hnew | hold
      · exact hmessage c hnew
      · exact List.mem_append_right _ (List.mem_append_right _ hold)
  · rintro jobId (hjob | hframe)
    · rcases hown jobId hjob with hold | ⟨tabId, hnew⟩
      · exact Or.inl (Or.inl hold)
      · exact Or.inr ⟨tabId, h.captured _ (hmessage _ hnew)⟩
    · exact Or.inl (Or.inr hframe)

/-- A capture gets its stream, or fails. -/
theorem Flow.streamed (h : Flow s) {k : Nat} {c : String × Int}
    (hwaiting : s.offscreen.waiting[k]? = some c) (ok : Bool) :
    Flow { s with offscreen :=
      let d := { s.offscreen with waiting := s.offscreen.waiting.eraseIdx k }
      if ok then d.streamed c.1 c.2 else d } := by
  have herased : ∀ x ∈ s.offscreen.waiting.eraseIdx k, x ∈ s.offscreen.waiting :=
    fun x hx => (List.eraseIdx_sublist ..).subset hx
  refine h.quiet rfl rfl ⟨rfl, rfl, rfl⟩ (List.Subperm.refl _) (List.Subperm.refl _) ?_ ?_
  · intro x hx
    rw [Capturer.captures, List.mem_append, List.mem_append] at hx ⊢
    rcases hx with hhandler | hmessage | hdocument
    · exact Or.inl hhandler
    · exact Or.inr (Or.inl hmessage)
    · refine Or.inr (Or.inr ?_)
      rw [Offscreen.captures, List.mem_append, List.mem_map, List.mem_map]
      cases ok with
      | false =>
        rcases List.mem_append.1 hdocument with hmem | hmem
        · obtain ⟨w, hw, rfl⟩ := List.mem_map.1 hmem
          exact Or.inl ⟨w, herased w hw, rfl⟩
        · exact Or.inr (List.mem_map.1 hmem)
      | true =>
        rcases List.mem_append.1 hdocument with hmem | hmem
        · obtain ⟨w, hw, rfl⟩ := List.mem_map.1 hmem
          exact Or.inl ⟨w, herased w hw, rfl⟩
        · obtain ⟨p, hp, rfl⟩ := List.mem_map.1 hmem
          rcases List.mem_append.1 hp with hold | hnew
          · exact Or.inr ⟨p, hold, rfl⟩
          · obtain rfl := List.mem_singleton.1 hnew
            exact Or.inl ⟨c, List.mem_of_getElem? hwaiting, rfl⟩
  · rintro jobId (hjob | hframe)
    · exact Or.inl (Or.inl (by cases ok <;> exact hjob))
    · exact Or.inl (Or.inr hframe)

/-- A processor gets a frame. -/
theorem Flow.audioprocess (h : Flow s) (frame : AudioFrame) (hown : frame.own = s.offscreen.jobId)
    (seq : Nat) :
    Flow { s with
      offscreen := { s.offscreen with seq }
      toWorker := s.toWorker ++ [(s.frames.length, frame.chunk)]
      frames := s.frames ++ [frame] } := by
  have hplaces : (((s.toWorker ++ [(s.frames.length, frame.chunk)]) ++
      s.handlers.filterMap Suspended.chunk?).map Prod.fst ++ s.log.filterMap Entry.frame?).Perm
      (s.frames.length :: s.places) := by
    rw [List.append_assoc]
    exact (List.perm_middle.map Prod.fst).append_right _
  have hlength : (s.frames ++ [frame]).length = s.frames.length + 1 := by
    rw [List.length_append, List.length_singleton]
  refine ⟨hplaces.nodup_iff.2 (List.nodup_cons.2 ⟨fun hmem => ?_, h.placesOnce⟩), fun f hf => ?_,
    h.jobsOnce, h.jobsBegun, fun c hc => ?_, h.captured, ?_, h.job, h.tab, h.number,
    h.sound.mono fun log e hsound => hsound.frames [frame]⟩
  · exact Nat.lt_irrefl _ (h.placesMade _ hmem)
  · change f < (s.frames ++ [frame]).length
    rw [hlength]
    rcases List.mem_cons.1 (hplaces.subset hf) with rfl | hold
    · exact Nat.lt_succ_self _
    · exact Nat.lt_succ_of_lt (h.placesMade f hold)
  · rw [Capturer.chunks, List.mem_append, List.mem_append, List.mem_singleton] at hc
    have hold : c ∈ s.chunks → ∃ frame', (s.frames ++ [frame])[c.1]? = some frame' ∧
        c.2 = frame'.chunk := by
      intro hmem
      obtain ⟨frame', hframe, hchunk⟩ := h.known c hmem
      refine ⟨frame', ?_, hchunk⟩
      rw [List.getElem?_append_left (List.getElem?_eq_some_iff.1 hframe).1, hframe]
    rcases hc with (hmem | rfl) | hmem
    · exact hold (List.mem_append_left _ hmem)
    · exact ⟨frame, List.getElem?_concat_length, rfl⟩
    · exact hold (List.mem_append_right _ hmem)
  · rintro jobId (hjob | ⟨frame', hframe, hjob⟩)
    · exact h.owned jobId (Or.inl hjob)
    · rcases List.mem_append.1 hframe with hold | hnew
      · exact h.owned jobId (Or.inr ⟨frame', hold, hjob⟩)
      · obtain rfl := List.mem_singleton.1 hnew
        exact h.owned jobId (Or.inl (hown.symm.trans hjob))

/-- One event keeps the flow. -/
theorem flow_step {e : CaptureEvent} (h : Flow s) (hstep : s.step e = some s') : Flow s' := by
  cases e with
  | start sender videoId =>
    obtain rfl := Option.some.inj hstep
    refine h.quiet rfl rfl ⟨rfl, rfl, rfl⟩ ?_ ?_ ?_ fun _ hown => Or.inl hown
    · rw [Capturer.chunks]
      dsimp only
      rw [filterMap_concat rfl]
      exact List.Subperm.refl _
    · dsimp only
      rw [filterMap_concat rfl]
    · rw [Capturer.captures]
      dsimp only
      rw [filterMap_concat rfl]
      exact List.Subset.refl _
  | chunkArrives k =>
    obtain ⟨c, hc, rfl⟩ := Option.map_eq_some_iff.1 hstep
    refine h.quiet rfl rfl ⟨rfl, rfl, rfl⟩ ?_ ?_ ?_ fun _ hown => Or.inl hown
    · refine List.Perm.subperm ?_
      rw [Capturer.chunks, Capturer.chunks]
      dsimp only
      rw [List.filterMap_append, ← List.append_assoc]
      exact (List.perm_append_singleton ..).trans ((perm_eraseIdx hc).append_right _).symm
    · dsimp only
      rw [filterMap_concat rfl]
    · rw [Capturer.captures]
      dsimp only
      rw [filterMap_concat rfl]
      exact List.Subset.refl _
  | resume k answer =>
    obtain ⟨handler, hhandler, hgo⟩ := Option.bind_eq_some_iff.1 hstep
    exact h.goOn (perm_eraseIdx hhandler) hgo
  | cancel =>
    obtain rfl := Option.some.inj hstep
    have hsent := (h.control "job.cancel").toOffscreen (m := .stop) rfl
    exact hsent.move [.cancelled] rfl rfl ⟨rfl, rfl, hsent.number⟩
      ⟨trivial, hsent.sound⟩ (List.Subperm.refl _) (List.Subset.refl _)
      (List.Subperm.refl _) (fun _ hc => Or.inl hc) fun _ hown => Or.inl hown
  | pause =>
    obtain rfl := Option.some.inj hstep
    exact (h.control "job.pause").toOffscreen rfl
  | unpause =>
    obtain rfl := Option.some.inj hstep
    exact (h.control "job.resume").toOffscreen rfl
  | offscreenGets =>
    cases hqueue : s.toOffscreen with
    | nil =>
      rw [Capturer.step, hqueue] at hstep
      cases hstep
    | cons m rest =>
      rw [Capturer.step, hqueue] at hstep
      obtain rfl := Option.some.inj hstep
      exact h.offscreenGets hqueue
  | offscreenMisses =>
    cases hqueue : s.toOffscreen with
    | nil =>
      rw [Capturer.step, hqueue] at hstep
      cases hstep
    | cons m rest =>
      rw [Capturer.step, hqueue] at hstep
      obtain rfl := Option.some.inj hstep
      refine h.quiet rfl rfl ⟨rfl, rfl, rfl⟩ (List.Subperm.refl _) (List.Subperm.refl _) ?_
        fun _ hown => Or.inl hown
      intro c hc
      rw [Capturer.captures, List.mem_append, List.mem_append] at hc ⊢
      rw [hqueue]
      rcases hc with hhandler | hmem | hdocument
      · exact Or.inl hhandler
      · exact Or.inr (Or.inl (((List.sublist_cons_self m rest).filterMap _).subset hmem))
      · exact Or.inr (Or.inr hdocument)
  | streamed k ok =>
    obtain ⟨c, hc, rfl⟩ := Option.map_eq_some_iff.1 hstep
    exact h.streamed hc ok
  | audioprocess i input =>
    obtain ⟨p, hp, hstep⟩ := Option.bind_eq_some_iff.1 hstep
    split at hstep
    · rw [onAudioProcess_eq] at hstep
      obtain rfl := Option.some.inj hstep
      exact h.audioprocess
        { own := s.offscreen.jobId, seq := s.offscreen.seq, input, tab := p.tabId } rfl _
    · cases hstep
  | companionEvent event =>
    obtain rfl := Option.some.inj hstep
    split
    · next tabId type htab htype =>
      split
      · next hregistered =>
        exact h.move [.forwarded tabId event] rfl rfl ⟨h.job, h.tab, h.number⟩
          ⟨⟨h.tab.symm.trans htab, type, hregistered.2, htype⟩, h.sound⟩ (List.Subperm.refl _)
          (List.Subset.refl _) (List.Subperm.refl _) (fun _ hc => Or.inl hc)
          fun _ hown => Or.inl hown
      · exact h
    · exact h
  | restart =>
    obtain rfl := Option.some.inj hstep
    have hnone : ∀ {α : Type} (f : Suspended → Option α),
        (([] : List Suspended).filterMap f).Subperm (s.handlers.filterMap f) :=
      fun f => (List.nil_sublist _).subperm
    refine h.move [.restarted] rfl rfl ⟨rfl, rfl, rfl⟩ ⟨trivial, h.sound⟩ ?_ ?_ ?_ ?_
      fun _ hown => Or.inl hown
    · obtain ⟨l, hl, hsub⟩ := (List.subperm_append_left s.toWorker).2 (hnone Suspended.chunk?)
      exact (List.subperm_append_right _).2 ⟨l.map Prod.fst, hl.map _, hsub.map _⟩
    · exact ((List.subperm_append_left _).2 (hnone _)).subset
    · exact (List.subperm_append_right _).2 (hnone _)
    · exact fun c hc => Or.inl (((List.subperm_append_right _).2 (hnone _)).subset hc)

end Steps

/-! ## The tab of a frame -/

/-- While one capture waits for its stream no processor is connected; a connected one is that of the
module's variable and of the job. -/
structure Calm (d : Offscreen) : Prop where
  waiting : ∀ c ∈ d.waiting, d.waiting = [c] ∧ d.jobId = some c.1 ∧
    ∀ p ∈ d.processors, p.connected = false
  connected : ∀ i p, d.processors[i]? = some p → p.connected = true →
    d.processor = some i ∧ d.jobId = some p.jobId

/-- Every frame is of the tab that its job was submitted for. -/
def Sourced (s : Capturer) : Prop :=
  ∀ frame ∈ s.frames, ∃ jobId, frame.own = some jobId ∧ Submitted s.log jobId (some frame.tab)

section Calm

variable {d : Offscreen} {s s' : Capturer}

theorem calm_fresh : Calm .fresh where
  waiting := nofun
  connected := nofun

/-- A processor after the one of the variable was changed. -/
theorem getElem?_modify_eq {f : Processor → Processor} {i : Nat} {p : Processor}
    (h : (d.modify f).processors[i]? = some p) : ∃ p₀, d.processors[i]? = some p₀ ∧
      p = if d.processor = some i then f p₀ else p₀ := by
  cases hvar : d.processor with
  | none =>
    simp only [Offscreen.modify, hvar] at h
    exact ⟨p, h, (if_neg nofun).symm⟩
  | some j =>
    simp only [Offscreen.modify, hvar, List.getElem?_modify, Option.map_eq_map,
      Option.map_eq_some_iff] at h
    obtain ⟨p₀, hp₀, rfl⟩ := h
    refine ⟨p₀, hp₀, ?_⟩
    simp only [Option.some.injEq]

theorem Calm.modify (h : Calm d) {f : Processor → Processor}
    (hf : ∀ p, (f p).jobId = p.jobId ∧ ((f p).connected = true → p.connected = true)) :
    Calm (d.modify f) where
  waiting c hc := by
    obtain ⟨hone, hjob, hnone⟩ := h.waiting c hc
    refine ⟨hone, hjob, fun p hp => ?_⟩
    obtain ⟨i, hi⟩ := List.mem_iff_getElem?.1 hp
    obtain ⟨p₀, hp₀, rfl⟩ := getElem?_modify_eq hi
    have hold := hnone p₀ (List.mem_of_getElem? hp₀)
    split
    · cases hnew : (f p₀).connected with
      | false => rfl
      | true => exact ((hf p₀).2 hnew).symm.trans hold
    · exact hold
  connected i p hp hconnected := by
    obtain ⟨p₀, hp₀, rfl⟩ := getElem?_modify_eq hp
    split at hconnected
    · next hvar =>
      obtain ⟨-, hjob⟩ := h.connected i p₀ hp₀ ((hf p₀).2 hconnected)
      rw [if_pos hvar, (hf p₀).1]
      exact ⟨hvar, hjob⟩
    · next hvar => exact absurd (h.connected i p₀ hp₀ hconnected).1 hvar

/-- `stopCapture` disconnects every processor. -/
theorem Calm.stop (h : Calm d) : ∀ p ∈ d.stopCapture.processors, p.connected = false := by
  intro p hp
  obtain ⟨i, hi⟩ := List.mem_iff_getElem?.1 hp
  obtain ⟨p₀, hp₀, rfl⟩ := getElem?_modify_eq (f := fun p => { p with connected := false }) hi
  split
  · rfl
  · next hvar =>
    cases hconnected : p₀.connected with
    | false => rfl
    | true => exact absurd (h.connected i p₀ hp₀ hconnected).1 hvar

theorem calm_of_disconnected (hnone : ∀ p ∈ d.processors, p.connected = false)
    (hwaiting : ∀ c ∈ d.waiting, d.waiting = [c] ∧ d.jobId = some c.1) : Calm d where
  waiting c hc := ⟨(hwaiting c hc).1, (hwaiting c hc).2, hnone⟩
  connected i p hp hconnected :=
    absurd hconnected (by rw [hnone p (List.mem_of_getElem? hp)]; exact Bool.false_ne_true)

/-- A message that does not disturb. -/
theorem Calm.onMessage (h : Calm d) {m : OffscreenMessage}
    (hm : d.waiting = [] ∨ m = .pause ∨ m = .resume) : Calm (d.onMessage m) := by
  cases m with
  | pause => exact h.modify fun p => ⟨rfl, id⟩
  | resume => exact h.modify fun p => ⟨rfl, id⟩
  | stop =>
    have hwaiting : d.waiting = [] := by rcases hm with hm | hm | hm <;> first | exact hm | cases hm
    refine calm_of_disconnected h.stop fun c hc => ?_
    change c ∈ d.waiting at hc
    rw [hwaiting] at hc
    cases hc
  | capture jobId tabId =>
    have hwaiting : d.waiting = [] := by rcases hm with hm | hm | hm <;> first | exact hm | cases hm
    refine calm_of_disconnected h.stop fun c hc => ?_
    cases tabId with
    | none =>
      change c ∈ d.waiting at hc
      rw [hwaiting] at hc
      cases hc
    | some tabId =>
      change c ∈ d.waiting ++ [(jobId, tabId)] at hc
      change d.waiting ++ [(jobId, tabId)] = [c] ∧ some jobId = some c.1
      rw [hwaiting, List.nil_append] at hc ⊢
      obtain rfl := List.mem_singleton.1 hc
      exact ⟨rfl, rfl⟩

theorem Calm.streamed (h : Calm d) {k : Nat} {c : String × Int} (hc : d.waiting[k]? = some c)
    (ok : Bool) :
    Calm (let d' := { d with waiting := d.waiting.eraseIdx k }
      if ok then d'.streamed c.1 c.2 else d') := by
  obtain ⟨hone, hjob, hnone⟩ := h.waiting c (List.mem_of_getElem? hc)
  have herased : d.waiting.eraseIdx k = [] := by
    obtain ⟨hlt, -⟩ := List.getElem?_eq_some_iff.1 hc
    rw [hone, List.length_singleton] at hlt
    obtain rfl := Nat.lt_one_iff.1 hlt
    rw [hone]
    rfl
  cases ok with
  | false =>
    refine ⟨fun c' hc' => ?_, h.connected⟩
    change c' ∈ d.waiting.eraseIdx k at hc'
    rw [herased] at hc'
    cases hc'
  | true =>
    refine ⟨fun c' hc' => ?_, fun i p hp hconnected => ?_⟩
    · change c' ∈ d.waiting.eraseIdx k at hc'
      rw [herased] at hc'
      cases hc'
    change (d.processors ++ [_])[i]? = some p at hp
    by_cases hi : i < d.processors.length
    · rw [List.getElem?_append_left hi] at hp
      rw [hnone p (List.mem_of_getElem? hp)] at hconnected
      cases hconnected
    · rw [List.getElem?_append_right (Nat.le_of_not_lt hi), List.getElem?_singleton] at hp
      split at hp
      · obtain rfl := Option.some.inj hp
        have hlast : i = d.processors.length := by omega
        rw [hlast]
        exact ⟨rfl, hjob⟩
      · cases hp

theorem sendControl_offscreen (s : Capturer) (type : String) :
    (s.sendControl type).offscreen = s.offscreen ∧ (s.sendControl type).frames = s.frames := by
  unfold Capturer.sendControl
  split
  · split
    · exact ⟨rfl, rfl⟩
    · exact ⟨rfl, rfl⟩
  · exact ⟨rfl, rfl⟩

/-- Handlers do not touch the offscreen document. -/
theorem goOn_offscreen {handler : Suspended} {answer : Answer}
    (hgo : s.goOn handler answer = some s') :
    s'.offscreen = s.offscreen ∧ s'.frames = s.frames := by
  cases answer with
  | failed =>
    obtain rfl : s = s' := by cases handler <;> exact Option.some.inj hgo
    exact ⟨rfl, rfl⟩
  | session token jobId =>
    cases handler with
    | startEnsuring sender videoId =>
      rw [Capturer.goOn] at hgo
      split at hgo
      · cases hgo
      · cases sender <;> obtain rfl := Option.some.inj hgo <;> exact ⟨rfl, rfl⟩
    | chunk f message =>
      rw [Capturer.goOn] at hgo
      dsimp only at hgo
      split at hgo <;> obtain rfl := Option.some.inj hgo <;> exact ⟨rfl, rfl⟩
    | startQuerying | startOffscreen => cases hgo
  | tab tabId =>
    cases handler with
    | startQuerying =>
      obtain rfl := Option.some.inj hgo
      exact ⟨rfl, rfl⟩
    | startEnsuring | startOffscreen | chunk => cases hgo
  | done =>
    cases handler with
    | startOffscreen =>
      obtain rfl := Option.some.inj hgo
      exact ⟨rfl, rfl⟩
    | startEnsuring | startQuerying | chunk => cases hgo

/-- One event that does not disturb. -/
theorem calm_step {e : CaptureEvent} (hcalm : Calm s.offscreen) (hstep : s.step e = some s')
    (he : InTurn ⟨s, e, s'⟩) : Calm s'.offscreen := by
  cases e with
  | start | restart =>
    obtain rfl := Option.some.inj hstep
    exact hcalm
  | chunkArrives k =>
    obtain ⟨c, -, rfl⟩ := Option.map_eq_some_iff.1 hstep
    exact hcalm
  | resume k answer =>
    obtain ⟨handler, -, hgo⟩ := Option.bind_eq_some_iff.1 hstep
    rwa [(goOn_offscreen hgo).1]
  | cancel =>
    obtain rfl := Option.some.inj hstep
    exact (sendControl_offscreen s "job.cancel").1 ▸ hcalm
  | pause =>
    obtain rfl := Option.some.inj hstep
    exact (sendControl_offscreen s "job.pause").1 ▸ hcalm
  | unpause =>
    obtain rfl := Option.some.inj hstep
    exact (sendControl_offscreen s "job.resume").1 ▸ hcalm
  | offscreenGets =>
    have hm := he rfl
    cases hqueue : s.toOffscreen with
    | nil =>
      rw [Capturer.step, hqueue] at hstep
      cases hstep
    | cons m rest =>
      rw [Capturer.step, hqueue] at hstep
      obtain rfl := Option.some.inj hstep
      refine hcalm.onMessage ?_
      by_cases hwaiting : s.offscreen.waiting = []
      · exact Or.inl hwaiting
      · have hhead := hm hwaiting
        simp only [hqueue, List.head?_cons, Option.some.injEq] at hhead
        exact Or.inr hhead
  | offscreenMisses =>
    cases hqueue : s.toOffscreen with
    | nil =>
      rw [Capturer.step, hqueue] at hstep
      cases hstep
    | cons m rest =>
      rw [Capturer.step, hqueue] at hstep
      obtain rfl := Option.some.inj hstep
      exact hcalm
  | streamed k ok =>
    obtain ⟨c, hc, rfl⟩ := Option.map_eq_some_iff.1 hstep
    exact hcalm.streamed hc ok
  | audioprocess i input =>
    obtain ⟨p, -, hstep⟩ := Option.bind_eq_some_iff.1 hstep
    split at hstep
    · obtain ⟨message, -, rfl⟩ := Option.map_eq_some_iff.1 hstep
      exact ⟨hcalm.waiting, hcalm.connected⟩
    · cases hstep
  | companionEvent event =>
    obtain rfl := Option.some.inj hstep
    split
    · split
      · exact hcalm
      · exact hcalm
    · exact hcalm

end Calm

section Source

variable {s s' : Capturer} {log full : List Entry} {frames : List AudioFrame}

theorem sendControl_log (s : Capturer) (type : String) :
    ∃ new, (s.sendControl type).log = new ++ s.log := by
  unfold Capturer.sendControl
  split
  · split
    · exact ⟨[], rfl⟩
    · exact ⟨[_], rfl⟩
  · exact ⟨[], rfl⟩

theorem goOn_log {handler : Suspended} {answer : Answer} (hgo : s.goOn handler answer = some s') :
    ∃ new, s'.log = new ++ s.log := by
  cases answer with
  | failed =>
    obtain rfl : s = s' := by cases handler <;> exact Option.some.inj hgo
    exact ⟨[], rfl⟩
  | session token jobId =>
    cases handler with
    | startEnsuring sender videoId =>
      rw [Capturer.goOn] at hgo
      split at hgo
      · cases hgo
      · cases sender with
        | none =>
          obtain rfl := Option.some.inj hgo
          exact ⟨[_], rfl⟩
        | some tabId =>
          obtain rfl := Option.some.inj hgo
          exact ⟨[_, _], rfl⟩
    | chunk f message =>
      rw [Capturer.goOn] at hgo
      dsimp only at hgo
      split at hgo
      · obtain rfl := Option.some.inj hgo
        exact ⟨[_], rfl⟩
      · obtain rfl := Option.some.inj hgo
        exact ⟨[], rfl⟩
      · obtain rfl := Option.some.inj hgo
        exact ⟨[], rfl⟩
    | startQuerying | startOffscreen => cases hgo
  | tab tabId =>
    cases handler with
    | startQuerying =>
      obtain rfl := Option.some.inj hgo
      exact ⟨[_], rfl⟩
    | startEnsuring | startOffscreen | chunk => cases hgo
  | done =>
    cases handler with
    | startOffscreen =>
      obtain rfl := Option.some.inj hgo
      exact ⟨[], rfl⟩
    | startEnsuring | startQuerying | chunk => cases hgo

/-- The log grows at its head. -/
theorem step_log {e : CaptureEvent} (hstep : s.step e = some s') :
    ∃ new, s'.log = new ++ s.log := by
  cases e with
  | start =>
    obtain rfl := Option.some.inj hstep
    exact ⟨[], rfl⟩
  | restart =>
    obtain rfl := Option.some.inj hstep
    exact ⟨[_], rfl⟩
  | chunkArrives k =>
    obtain ⟨c, -, rfl⟩ := Option.map_eq_some_iff.1 hstep
    exact ⟨[], rfl⟩
  | resume k answer =>
    obtain ⟨handler, -, hgo⟩ := Option.bind_eq_some_iff.1 hstep
    obtain ⟨new, hnew⟩ := goOn_log hgo
    exact ⟨new, hnew⟩
  | cancel =>
    obtain rfl := Option.some.inj hstep
    obtain ⟨new, hnew⟩ := sendControl_log s "job.cancel"
    exact ⟨.cancelled :: new, congrArg _ hnew⟩
  | pause =>
    obtain rfl := Option.some.inj hstep
    exact sendControl_log s "job.pause"
  | unpause =>
    obtain rfl := Option.some.inj hstep
    exact sendControl_log s "job.resume"
  | offscreenGets | offscreenMisses =>
    cases hqueue : s.toOffscreen with
    | nil =>
      rw [Capturer.step, hqueue] at hstep
      cases hstep
    | cons m rest =>
      rw [Capturer.step, hqueue] at hstep
      obtain rfl := Option.some.inj hstep
      exact ⟨[], rfl⟩
  | streamed k ok =>
    obtain ⟨c, -, rfl⟩ := Option.map_eq_some_iff.1 hstep
    exact ⟨[], rfl⟩
  | audioprocess i input =>
    obtain ⟨p, -, hstep⟩ := Option.bind_eq_some_iff.1 hstep
    split at hstep
    · obtain ⟨message, -, rfl⟩ := Option.map_eq_some_iff.1 hstep
      exact ⟨[], rfl⟩
    · cases hstep
  | companionEvent event =>
    obtain rfl := Option.some.inj hstep
    split
    · split
      · exact ⟨[_], rfl⟩
      · exact ⟨[], rfl⟩
    · exact ⟨[], rfl⟩

/-- A new frame is one of a connected processor, with the job of the module's variable. -/
theorem step_frames {e : CaptureEvent} (hstep : s.step e = some s') :
    s'.frames = s.frames ∨ ∃ (i : Nat) (p : Processor) (frame : AudioFrame),
      s.offscreen.processors[i]? = some p ∧ p.connected = true ∧ frame.own = s.offscreen.jobId ∧
        frame.tab = p.tabId ∧ s'.frames = s.frames ++ [frame] := by
  cases e with
  | start | restart =>
    obtain rfl := Option.some.inj hstep
    exact Or.inl rfl
  | chunkArrives k =>
    obtain ⟨c, -, rfl⟩ := Option.map_eq_some_iff.1 hstep
    exact Or.inl rfl
  | resume k answer =>
    obtain ⟨handler, -, hgo⟩ := Option.bind_eq_some_iff.1 hstep
    exact Or.inl (goOn_offscreen hgo).2
  | cancel =>
    obtain rfl := Option.some.inj hstep
    exact Or.inl (sendControl_offscreen s "job.cancel").2
  | pause =>
    obtain rfl := Option.some.inj hstep
    exact Or.inl (sendControl_offscreen s "job.pause").2
  | unpause =>
    obtain rfl := Option.some.inj hstep
    exact Or.inl (sendControl_offscreen s "job.resume").2
  | offscreenGets | offscreenMisses =>
    cases hqueue : s.toOffscreen with
    | nil =>
      rw [Capturer.step, hqueue] at hstep
      cases hstep
    | cons m rest =>
      rw [Capturer.step, hqueue] at hstep
      obtain rfl := Option.some.inj hstep
      exact Or.inl rfl
  | streamed k ok =>
    obtain ⟨c, -, rfl⟩ := Option.map_eq_some_iff.1 hstep
    exact Or.inl rfl
  | audioprocess i input =>
    obtain ⟨p, hp, hstep⟩ := Option.bind_eq_some_iff.1 hstep
    split at hstep
    · next hlive =>
      obtain ⟨message, -, rfl⟩ := Option.map_eq_some_iff.1 hstep
      exact Or.inr ⟨i, p, _, hp, (Bool.and_eq_true_iff.1 hlive).1, rfl, rfl, rfl⟩
    · cases hstep
  | companionEvent event =>
    obtain rfl := Option.some.inj hstep
    left
    split
    · split
      · rfl
      · rfl
    · rfl

theorem sourced_step {e : CaptureEvent} (h : Flow s) (hcalm : Calm s.offscreen)
    (hsourced : Sourced s) (hstep : s.step e = some s') : Sourced s' := by
  obtain ⟨new, hlog⟩ := step_log hstep
  have hold : ∀ frame ∈ s.frames, ∃ jobId, frame.own = some jobId ∧
      Submitted s'.log jobId (some frame.tab) := by
    intro frame hframe
    obtain ⟨jobId, hown, hsubmitted⟩ := hsourced frame hframe
    rw [hlog]
    exact ⟨jobId, hown, hsubmitted.append new⟩
  rcases step_frames hstep with hframes | ⟨i, p, frame, hp, hconnected, hown, htab, hframes⟩
  · rw [Sourced, hframes]
    exact hold
  · rw [Sourced, hframes]
    intro frame' hframe
    rcases List.mem_append.1 hframe with hmem | hmem
    · exact hold frame' hmem
    · obtain rfl := List.mem_singleton.1 hmem
      have hcaptured : (p.jobId, some p.tabId) ∈ s.captures :=
        List.mem_append_right _ (List.mem_append_right _ (List.mem_append_right _
          (List.mem_map.2 ⟨p, List.mem_of_getElem? hp, rfl⟩)))
      rw [hlog, htab]
      exact ⟨p.jobId, hown.trans (hcalm.connected i p hp hconnected).2,
        (h.captured _ hcaptured).append new⟩

/-- A job is submitted for one tab. -/
theorem submitted_unique (h : Everywhere (Entry.Sound frames) log) {jobId : String}
    {tabId tabId' : Option Int} (hone : Submitted log jobId tabId)
    (hother : Submitted log jobId tabId') : tabId = tabId' := by
  have habsent : ∀ {log : List Entry} {videoId : String} {tabId : Option Int},
      Entry.submit jobId videoId tabId ∈ log → jobId ∈ log.filterMap Entry.submitted? :=
    fun hmem => List.mem_filterMap.2 ⟨_, hmem, rfl⟩
  induction log with
  | nil =>
    obtain ⟨_, hmem⟩ := hone
    cases hmem
  | cons e log ih =>
    obtain ⟨video, hmem⟩ := hone
    obtain ⟨video', hmem'⟩ := hother
    rcases List.mem_cons.1 hmem with heq | hold
    · rcases List.mem_cons.1 hmem' with heq' | hold'
      · exact (Entry.submit.inj (heq.trans heq'.symm)).2.2
      · subst heq
        exact (h.1.2 (habsent hold')).elim
    · rcases List.mem_cons.1 hmem' with heq' | hold'
      · subst heq'
        exact (h.1.2 (habsent hold)).elim
      · exact ih h.2 ⟨video, hold⟩ ⟨video', hold'⟩

/-- The tab of a frame is the one that the job was submitted for before. -/
theorem fromTab_of_sourced (hfull : Everywhere (Entry.Sound frames) full)
    (hsourced : ∀ frame ∈ frames, ∃ jobId, frame.own = some jobId ∧
      Submitted full jobId (some frame.tab)) (hsuffix : log <:+ full)
    (h : Everywhere (Entry.Sound frames) log) : Everywhere (Entry.FromTab frames) log := by
  induction log with
  | nil => trivial
  | cons e log ih =>
    obtain ⟨before, hbefore⟩ := hsuffix
    have hlog : log <:+ full := ⟨before ++ [e], by rw [List.append_assoc]; exact hbefore⟩
    refine ⟨?_, ih hlog h.2⟩
    cases e with
    | audio f jobId seq value =>
      obtain ⟨-, -, frame, token, hframe, -, hjob⟩ := h.1
      obtain ⟨own, hown, hsubmitted⟩ := hsourced frame (List.mem_of_getElem? hframe)
      rcases hjob with ⟨hsame, tabId, hearlier⟩ | ⟨hnone, -⟩
      · obtain rfl := Option.some.inj (hown.symm.trans hsame)
        obtain ⟨before', rfl⟩ := hlog
        obtain rfl := submitted_unique hfull hsubmitted (hearlier.append before')
        exact ⟨frame, hframe, hown, hearlier⟩
      · rw [hown] at hnone
        cases hnone
    | _ => trivial

end Source

/-- A capture of tab 7 with two frames, of which the second is sent first. -/
def twoFrames : List CaptureEvent :=
  [.start (some 7) "v", .resume 0 (.session "t" "j"), .resume 0 .done, .offscreenGets,
    .streamed 0 true, .audioprocess 0 [], .audioprocess 0 [], .chunkArrives 0,
    .chunkArrives 0, .resume 1 (.session "t" ""), .resume 0 (.session "t" "")]

end LanguageLlm.Client
