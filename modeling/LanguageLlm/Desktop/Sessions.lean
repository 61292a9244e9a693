import LanguageLlm.Desktop.Companion

/-!
# A session, step by step

How a run goes on from a connection with a valid session: a message arrives and comes to its
handler, and the handler runs from section to section.
-/

namespace LanguageLlm.Desktop

open Lib Handler

/-- A connection with a valid session is at a task. -/
structure SessionAt (models : Option ModelManager) (t c : Nat) (token : String) (s : Companion)
    (task : Task) (stores : Stores) : Prop where
  conn : ∃ conn, s.server.connections[c]? = some conn ∧ conn.sessionToken = some token ∧
    conn.task = task
  valid : s.server.companion.sessionValid token t = true
  now : s.server.now = t
  stores : s.stores = stores
  models : s.models = models

/-- A handler neither asks nor sends a transcript next. -/
structure Unremarkable (body : Handler Unit) : Prop where
  ask : ∀ next, body ≠ .ask next
  transcript : ∀ message next, body = .send message next → ¬ IsTranscript message

/-- A step of the server in which no other connection acts, nothing is asked and no transcript is
sent. -/
structure Unasked (c : Nat) (f : Fired Companion CompanionEvent) : Prop where
  server : ∃ e, f.label = .server e
  acting : ∀ d an, f.label = .server (.act d an) → d = c
  handling : ∀ value body, f.pre.Handling c value body → Unremarkable body

/-- A handler comes to another one without asking anything or sending a transcript. -/
inductive Reaches (t : Nat) (an : Answers) (body' : Handler Unit) (s' : Stores) :
    Handler Unit → Stores → Prop
  | here : Reaches t an body' s' body' s'
  | next {body₁ body₂ : Handler Unit} {s₁ s₂ : Stores} (hn : Next t an body₁ s₁ body₂ s₂)
      (hbody : Unremarkable body₁) (hr : Reaches t an body' s' body₂ s₂) :
      Reaches t an body' s' body₁ s₁

theorem unremarkable_lock {update : Nat → Answers → Stores → Stores}
    {next : Nat → Answers → Stores → Handler Unit} : Unremarkable (.lock update next) :=
  ⟨nofun, nofun⟩

theorem unremarkable_now {next : Nat → Handler Unit} : Unremarkable (.now next) := ⟨nofun, nofun⟩

theorem unremarkable_send {message : Json} {next : Handler Unit} (hm : ¬ IsTranscript message) :
    Unremarkable (.send message next) where
  ask := nofun
  transcript := by
    rintro _ _ ⟨⟩
    exact hm

/-- The arms that check a valid session. -/
inductive Authorizes (t : Nat) (token : String) : Arm → Arm → Prop
  | now (rest : Nat → Arm) : Authorizes t token (.now rest) (rest t)
  | purge (rest : Arm) : Authorizes t token (.purge t rest) rest
  | valid (rest : Bool → Arm) : Authorizes t token (.valid token t rest) (rest true)

section Session

variable {env : External} {debug : Bool} {models : Option ModelManager} {t c : Nat} {token : String}
  {an : Answers} {value : Json} {body body' : Handler Unit} {s : Companion}
    {stores stores' : Stores}

theorem SessionAt.handling (hat : SessionAt models t c token s (.handling value (.handle body))
      stores) :
    s.Handling c value body := by
  obtain ⟨conn, hconn, _, htask⟩ := hat.conn
  exact ⟨conn, hconn, htask⟩

variable (env debug an)

/-- The handler of the connection runs an action. -/
theorem SessionAt.act (hat : SessionAt models t c token s (.handling value (.handle body)) stores)
    (hn : Next t (an.under models) body stores body' stores') :
    ∃ s', s.step env debug (.server (.act c an)) = some s' ∧
      SessionAt models t c token s' (.handling value (.handle body')) stores' := by
  obtain ⟨⟨conn, hconn, htoken, htask⟩, hvalid, rfl, rfl, rfl⟩ := hat
  have hstep : s.step env debug (.server (.act c an)) =
      some { s with server := s.server.actHandler c conn value (an.under s.models) body } := by
    simp [Companion.step, ServerEvent.under, Server.step, hconn, htask, Server.act]
  have hself (conn' : Connection) : (s.server.connections.set c conn')[c]? = some conn' :=
    List.getElem?_set_self (List.getElem?_eq_some_iff.1 hconn).1
  refine ⟨_, hstep, ?_⟩
  cases hn with
  | send | now | ask | lock | fetch => exact ⟨⟨_, hself _, htoken, rfl⟩, hvalid, rfl, rfl, rfl⟩

/-- The handler of the connection ends. -/
theorem SessionAt.finish
    (hat : SessionAt models t c token s (.handling value (.handle (.pure ()))) stores) :
    ∃ s', s.step env debug (.server (.act c an)) = some s' ∧
      SessionAt models t c token s' .listening stores := by
  obtain ⟨⟨conn, hconn, htoken, htask⟩, hvalid, rfl, rfl, rfl⟩ := hat
  have hstep : s.step env debug (.server (.act c an)) =
      some { s with server := s.server.goOn c conn .listening } := by
    simp [Companion.step, ServerEvent.under, Server.step, hconn, htask, Server.act,
      Server.actHandler]
  refine ⟨_, hstep, ⟨⟨{ conn with task := .listening }, ?_, htoken, rfl⟩, hvalid, rfl, rfl, rfl⟩⟩
  exact List.getElem?_set_self (List.getElem?_eq_some_iff.1 hconn).1

/-- A step from a task that does not ask. -/
theorem SessionAt.unasked {task : Task} (hat : SessionAt models t c token s task stores)
    (htask : ∀ value body, task = .handling value (.handle body) → Unremarkable body)
    {e : ServerEvent}
    (he : ∀ d an, e = .act d an → d = c) (s' : Companion) : Unasked c ⟨s, .server e, s'⟩ where
  server := ⟨e, rfl⟩
  acting d an hl := he d an (CompanionEvent.server.inj hl)
  handling := by
    rintro value body ⟨conn', hconn', htask'⟩
    obtain ⟨conn, hconn, _, rfl⟩ := hat.conn
    rw [hconn, Option.some.injEq] at hconn'
    exact htask value body (hconn' ▸ htask')

/-- A message arrives. -/
theorem SessionAt.receive (hat : SessionAt models t c token s .listening stores) {text : String}
    (htext : env.fromStr text = some value) :
    ∃ s', s.step env debug (.server (.receive c (.text text))) = some s' ∧
      SessionAt models t c token s' (.handling value (dispatch env debug
        s.server.companion.allowedExtensionId (some token) value)) stores := by
  obtain ⟨⟨conn, hconn, htoken, htask⟩, hvalid, rfl, rfl, rfl⟩ := hat
  let conn' : Connection :=
    { conn with
      task := .handling value (dispatch env debug s.server.companion.allowedExtensionId
        (some token) value)
      received := conn.received + 1 }
  have hreceive : conn.receive env debug s.server.companion (.text text) = conn' := by
    simp only [Connection.receive, htext, htoken, conn']
  have hstep : s.step env debug (.server (.receive c (.text text))) =
      some { s with
        server := { s.server with connections := s.server.connections.set c conn' } } := by
    simp [Companion.step, ServerEvent.under, Server.step, hconn, htask, hreceive]
  refine ⟨_, hstep, ⟨⟨conn', ?_, htoken, rfl⟩, hvalid, rfl, rfl, rfl⟩⟩
  exact List.getElem?_set_self (List.getElem?_eq_some_iff.1 hconn).1

/-- The check of a valid session goes on. -/
theorem SessionAt.authorize {arm arm' : Arm}
    (hat : SessionAt models t c token s (.handling value arm) stores)
    (ha : Authorizes t token arm arm') :
    ∃ s', s.step env debug (.server (.act c an)) = some s' ∧
      SessionAt models t c token s' (.handling value arm') stores := by
  obtain ⟨⟨conn, hconn, htoken, htask⟩, hvalid, rfl, rfl, rfl⟩ := hat
  have hself (conn' : Connection) : (s.server.connections.set c conn')[c]? = some conn' :=
    List.getElem?_set_self (List.getElem?_eq_some_iff.1 hconn).1
  have hstep : s.step env debug (.server (.act c an)) =
      (s.server.act c conn value (an.under s.models) arm).map fun server => { s with server } := by
    simp [Companion.step, ServerEvent.under, Server.step, hconn, htask]
  rw [hstep]
  cases ha with
  | now => exact ⟨_, rfl, ⟨{ conn with task := _ }, hself _, htoken, rfl⟩, hvalid, rfl, rfl, rfl⟩
  | purge =>
    refine ⟨_, rfl, ⟨{ conn with task := _ }, hself _, htoken, rfl⟩, ?_, rfl, rfl, rfl⟩
    change (s.server.companion.purgeExpiredSessions s.server.now).sessionValid token
      s.server.now = true
    simp only [CompanionState.sessionValid, CompanionState.purgeExpiredSessions, List.any_filter]
    rw [← hvalid]
    unfold CompanionState.sessionValid
    congr 1
    funext session
    cases decide (s.server.now < session.expiresAtMs) <;> simp
  | valid rest =>
    refine ⟨_, rfl, ⟨{ conn with task := _ }, hself _, htoken, ?_⟩, hvalid, rfl, rfl, rfl⟩
    rw [hvalid]

/-- An authorized message comes to its handler. -/
theorem SessionAt.arrives (hat : SessionAt models t c token s .listening stores) {text : String}
    (htext : env.fromStr text = some value) (htoken : value.strOr "sessionToken" "" = token)
    (hdispatch : ∀ allowed, dispatch env debug allowed (some token) value =
      ifAuthed (some token) value body) :
    ∃ h s', Run (Companion.step env debug) s h s' ∧ (∀ f ∈ h, Unasked c f) ∧
      SessionAt models t c token s' (.handling value (.handle body)) stores := by
  have harm : ifAuthed (some token) value body = .now fun now => .purge now
      (.valid token now fun ok => if !ok then .send authError .next else .handle body) := by
    simp only [ifAuthed, authed, htoken, if_pos]
  obtain ⟨s₁, hs₁, hat₁⟩ := hat.receive env debug htext
  rw [hdispatch, harm] at hat₁
  obtain ⟨s₂, hs₂, hat₂⟩ := hat₁.authorize env debug default (.now _)
  obtain ⟨s₃, hs₃, hat₃⟩ := hat₂.authorize env debug default (.purge _)
  obtain ⟨s₄, hs₄, hat₄⟩ := hat₃.authorize env debug default (.valid _)
  refine ⟨_, s₄, (((Run.nil.cons hs₁).cons hs₂).cons hs₃).cons hs₄, ?_, hat₄⟩
  have hacting (d : Nat) (an : Answers) : ServerEvent.act c default = .act d an → d = c :=
    fun h => (ServerEvent.act.inj h).1.symm
  simp only [List.mem_cons, List.not_mem_nil, or_false]
  rintro f (rfl | rfl | rfl | rfl)
  · exact hat₃.unasked nofun hacting _
  · exact hat₂.unasked nofun hacting _
  · exact hat₁.unasked nofun hacting _
  · exact hat.unasked nofun (fun d an h => by cases h) _

/-- The handler of the connection comes to another one. -/
theorem SessionAt.reaches (hat : SessionAt models t c token s
      (.handling value (.handle body)) stores)
    (hr : Reaches t (an.under models) body' stores' body stores) :
    ∃ h s', Run (Companion.step env debug) s h s' ∧
      (∀ f ∈ h, Unasked c f ∧ ∃ value body, f.post.Handling c value body) ∧
      SessionAt models t c token s' (.handling value (.handle body')) stores' := by
  induction hr generalizing s with
  | here => exact ⟨[], s, .nil, by simp, hat⟩
  | next hn hbody _ ih =>
    obtain ⟨s₁, hs₁, hat₁⟩ := hat.act env debug an hn
    obtain ⟨h, s', hr', hsteps, hat'⟩ := ih hat₁
    refine ⟨h ++ [_], s', (Run.nil.cons hs₁).append hr', ?_, hat'⟩
    simp only [List.mem_append, List.mem_singleton]
    rintro f (hf | rfl)
    · exact hsteps f hf
    · refine ⟨hat.unasked ?_ (fun d an h => (ServerEvent.act.inj h).1.symm) s₁, _, _, hat₁.handling⟩
      rintro value body ⟨⟩
      exact hbody

end Session

section Reaches

variable {α : Type} {t : Nat} {an : Answers} {s s' : Stores} {body' : Handler Unit}

theorem Reaches.lockJobs {f : Nat → JobRegistry → α × JobRegistry} {g : α → Handler Unit}
    (hr : Reaches t an body' s' (g (f t s.jobs).1) { s with jobs := (f t s.jobs).2 }) :
    Reaches t an body' s' (Handler.lockJobs f >>= g) s :=
  .next (.lock ..) unremarkable_lock hr

/-- A section of the capture queue. -/
theorem next_lockCapture {f : Answers → CaptureJobQueue → Option α × CaptureJobQueue}
    {g : α → Handler Unit} {a : α} (hs : s.capturePoisoned = false)
    (hf : (f an s.capture).1 = some a) :
    Next t an (Handler.lockCapture f >>= g) s (g a) { s with capture := (f an s.capture).2 } := by
  obtain ⟨body, stores, hnext⟩ : ∃ body stores, Next t an (Handler.lockCapture f >>= g)
    s body stores :=
    ⟨_, _, .lock _ _ _⟩
  obtain ⟨hbody, hstores⟩ := hnext.of_lock
  simp only [hs, hf, Bool.false_eq_true, if_false, Option.isNone_some] at hbody hstores
  rw [← hs] at hstores
  rw [hbody, hstores] at hnext
  exact hnext

theorem Reaches.lockCapture {f : Answers → CaptureJobQueue → Option α × CaptureJobQueue}
    {g : α → Handler Unit} {a : α} (hs : s.capturePoisoned = false)
    (hf : (f an s.capture).1 = some a)
    (hr : Reaches t an body' s' (g a) { s with capture := (f an s.capture).2 }) :
    Reaches t an body' s' (Handler.lockCapture f >>= g) s :=
  .next (next_lockCapture hs hf) unremarkable_lock hr

theorem Reaches.sendProgress {token jobId kind status : String} {fraction : Rat}
    {message : Option Json}
    {more : List (String × Json)} {g : Unit → Handler Unit} (hr : Reaches t an body' s' (g ()) s) :
    Reaches t an body' s' (Desktop.sendProgress token jobId kind status fraction message
      more >>= g) s :=
  .next (.now ..) unremarkable_now
    (.next (.send ..) (unremarkable_send (by simp [IsTranscript, strOr_type])) hr)

end Reaches

/-- The server leaves the models alone. -/
theorem run_models {env : External} {debug : Bool} {s₀ s : Companion}
    {h : List (Fired Companion CompanionEvent)} (hr : Run (Companion.step env debug) s₀ h s)
    (hl : ∀ f ∈ h, ∃ e, f.label = .server e) :
    (∀ f ∈ h, f.pre.models = s₀.models) ∧ s.models = s₀.models := by
  refine Run.invWhen (fun f => ∃ e, f.label = .server e)
    (fun h s => (∀ f ∈ h, f.pre.models = s₀.models) ∧ s.models = s₀.models) (by simp) ?_ hr hl
  rintro h s l s' _ ⟨hpre, hmodels⟩ ⟨e, he⟩ hs
  subst he
  obtain ⟨server, _, rfl⟩ := Option.map_eq_some_iff.1 hs
  refine ⟨fun f hf => ?_, hmodels⟩
  rcases List.mem_cons.1 hf with rfl | hf
  · exact hmodels
  · exact hpre f hf

/-- A task that is in a handler. -/
def Task.inHandler : Task → Bool
  | .handling _ (.handle _) => true
  | _ => false

/-- A step of the server before which no handler runs. -/
def Untouched (f : Fired Companion CompanionEvent) : Prop :=
  (∃ e, f.label = .server e) ∧ ∀ c value body, ¬ f.pre.Handling c value body

/-- The extension has connected. -/
theorem connected (env : External) (models : Option ModelManager)
    (hend : (exec (Companion.step env false) (startedWith models) connectEvents).map
      (fun x =>
        (x.2.server.connections[0]?.map fun conn => (conn.sessionToken, conn.task.isListening),
        x.2.server.companion.sessionValid (randomToken 1 2) 1000, x.2.server.now,
        x.2.stores.capturePoisoned,
        x.1.all fun f => f.pre.server.connections.all fun conn => !conn.task.inHandler)) =
      some (some (some (randomToken 1 2), true), true, 1000, false, true)) :
    ∃ h s, Run (Companion.step env false) (startedWith models) h s ∧
      SessionAt models 1000 0 (randomToken 1 2) s .listening s.stores ∧
      s.stores.capturePoisoned = false ∧ ∀ f ∈ h, Untouched f := by
  obtain ⟨⟨h, s⟩, hx, hfacts⟩ := Option.map_eq_some_iff.1 hend
  simp only [Prod.mk.injEq, Option.map_eq_some_iff] at hfacts
  obtain ⟨⟨conn, hconn, htoken, htask⟩, hvalid, hnow, hpoisoned, htasks⟩ := hfacts
  have hlisten : conn.task = .listening := by
    cases hc : conn.task with
    | listening => rfl
    | handling | returned =>
      rw [hc] at htask
      cases htask
  have hlabels : ∀ f ∈ h, ∃ e, f.label = .server e := by
    intro f hf
    have hlabel := List.mem_map_of_mem (f := Fired.label) hf
    rw [exec_labels hx, List.mem_reverse] at hlabel
    obtain ⟨e, _, he⟩ := List.mem_map.1 hlabel
    exact ⟨e, he.symm⟩
  have huntouched : ∀ f ∈ h, Untouched f := by
    refine fun f hf => ⟨hlabels f hf, ?_⟩
    rintro c value body ⟨conn, hconn, htask⟩
    have hall :=
      List.all_eq_true.1 (List.all_eq_true.1 htasks f hf) conn (List.mem_of_getElem? hconn)
    rw [htask] at hall
    cases hall
  have hr := exec_run hx
  exact ⟨h, s, hr, ⟨⟨conn, hconn, htoken, hlisten⟩, hvalid, hnow, rfl, (run_models hr hlabels).2⟩,
    hpoisoned, huntouched⟩

/-! ## A job that captures -/

/-! A job is submitted for a model, and silence arrives. Four characters of its Base64 text are
three bytes. -/

def audioText (quads : Nat) : String := String.ofList (List.replicate (4 * quads) 'A')

def audioBytes (quads : Nat) : List UInt8 := List.replicate (3 * quads) 0

def submitPlanText (modelId : String) : String :=
  sessionText ("\"type\":\"job.submit\",\"jobId\":\"a\",\"videoId\":\"v\",\"kind\":\"asr\"," ++
    "\"payload\":\x7b\"modelId\":\"" ++ modelId ++ "\"\x7d")

def submitPlanMessage (modelId : String) : Json :=
  sessionMessage [("type", .str "job.submit"), ("jobId", .str "a"), ("videoId", .str "v"),
    ("kind", .str "asr"), ("payload", .obj [("modelId", .str modelId)])]

def chunkText (quads : Nat) : String :=
  sessionText ("\"type\":\"audio.chunk\",\"jobId\":\"a\",\"sampleRateHz\":16000,\"seq\":0," ++
    "\"pcmI16LeBase64\":\"" ++ audioText quads ++ "\"")

def chunkMessage (quads : Nat) : Json :=
  sessionMessage [("type", .str "audio.chunk"), ("jobId", .str "a"), ("sampleRateHz", .int 16000),
    ("seq", .int 0), ("pcmI16LeBase64", .str (audioText quads))]

/-- The parser and the decoder, on a handshake and on these messages. -/
def hears (quads : Nat) (modelId : String) : External where
  toString _ := ""
  fromStr text :=
    (extensionMessages.fromStr text).or
      (if text = submitPlanText modelId then some (submitPlanMessage modelId)
        else if text = chunkText quads then some (chunkMessage quads) else none)
  decodeBase64 text := if text = audioText quads then some (audioBytes quads) else none

/-- Where the type of a message stands in its text. -/
def typeAt (text : String) : List Char := (text.toList.drop 9).take 3

theorem typeAt_submitPlanText (modelId : String) :
    typeAt (submitPlanText modelId) = ['j', 'o', 'b'] := by
  simp only [typeAt, submitPlanText, sessionText, String.toList_append]
  rfl

theorem typeAt_chunkText (quads : Nat) : typeAt (chunkText quads) = ['a', 'u', 'd'] := by
  simp only [typeAt, chunkText, sessionText, String.toList_append]
  rfl

theorem fromStr_of_typeAt {text : String}
    (hnot : typeAt text ∉ [['a', 'u', 't'], ['s', 'e', 't']]) :
    extensionMessages.fromStr text = none := by
  have hhandshake : text ≠ handshakeText := by
    rintro rfl
    exact hnot (by decide +kernel)
  have hnetwork : text ≠ networkText := by
    rintro rfl
    exact hnot (by decide +kernel)
  simp only [extensionMessages, hhandshake, hnetwork, if_false]

theorem fromStr_submitPlanText (quads : Nat) (modelId : String) :
    (hears quads modelId).fromStr (submitPlanText modelId) = some (submitPlanMessage modelId) := by
  have hnone : extensionMessages.fromStr (submitPlanText modelId) = none :=
    fromStr_of_typeAt (by rw [typeAt_submitPlanText]; decide)
  simp only [hears, hnone, Option.none_or, if_pos]

theorem fromStr_chunkText (quads : Nat) (modelId : String) :
    (hears quads modelId).fromStr (chunkText quads) = some (chunkMessage quads) := by
  have hnone : extensionMessages.fromStr (chunkText quads) = none :=
    fromStr_of_typeAt (by rw [typeAt_chunkText]; decide)
  have hne : chunkText quads ≠ submitPlanText modelId := by
    intro h
    have htype := congrArg typeAt h
    rw [typeAt_chunkText, typeAt_submitPlanText] at htype
    cases htype
  simp only [hears, hnone, Option.none_or, hne, if_false, if_pos]

theorem audioChunk_chunkMessage (quads : Nat) (modelId : String) :
    audioChunk (hears quads modelId) (chunkMessage quads) =
      { jobId := "a", sampleRateHz := 16000, pcmI16Le := audioBytes quads, seq := 0 } := by
  have hbytes : (chunkMessage quads).strOr "pcmI16LeBase64" "" = audioText quads := rfl
  simp only [audioChunk, hbytes, hears, if_pos]
  rfl

/-- The capture of a job that has heard this silence. -/
def heard (quads : Nat) (videoId : String) : CaptureJob where
  id := "a"
  videoId
  state := .running
  ring := (RingBuffer.new (targetSampleRateHz * 30)).pushSlice (pcmI16LeToF32 (audioBytes quads))
  nextSeq := 1
  chunksAccepted := 1
  lastAsrSegment := 0

theorem heard_lenSamples (quads : Nat) (videoId : String) :
    (heard quads videoId).ring.lenSamples = min (3 * quads / 2) 480000 := by
  rw [heard, RingBuffer.pushSlice_lenSamples, pcmI16LeToF32_length, audioBytes,
    List.length_replicate, RingBuffer.new_lenSamples, Nat.zero_add]
  rfl

/-- More than a second was heard: a segment is due. -/
theorem asrDecision_heard {quads : Nat} (hmany : 16000 < 3 * quads / 2) (videoId : String) :
    (asrDecision (heard quads videoId)).1 = true := by
  have hfilled := heard_lenSamples quads videoId
  have hlast : (heard quads videoId).lastAsrSegment = 0 := rfl
  simp only [asrDecision, hfilled, hlast, decide_eq_true_eq]
  omega

/-- The chunk is ingested. -/
theorem ingest_chunkMessage (quads : Nat) (modelId videoId : String) (q : CaptureJobQueue) :
    ingestSection (audioChunk (hears quads modelId) (chunkMessage quads))
    (q.startWithId "a" videoId) =
      (some (some none), (q.startWithId "a" videoId).put "a" (heard quads videoId)) := by
  have hget := CaptureJobQueue.get_startWithId q "a" videoId
  have hingest : (q.startWithId "a" videoId).ingestI16Le
      (audioChunk (hears quads modelId) (chunkMessage quads)) =
        (.ok 1, (q.startWithId "a" videoId).put "a" (heard quads videoId)) := by
    simp only [CaptureJobQueue.ingestI16Le, audioChunk_chunkMessage, hget]
    rfl
  unfold ingestSection
  rw [hingest, audioChunk_chunkMessage]
  simp only [hget, Option.isNone_some]
  rfl

section Reaches

variable {t : Nat} {an : Answers} {stores : Stores}

/-- The chunk comes to the capture. -/
theorem next_chunkMessage (quads : Nat) (modelId videoId token : String) (q : CaptureJobQueue)
    (hs : stores.capturePoisoned = false) (hq : stores.capture = q.startWithId "a" videoId) :
    Next t an (handleAudioChunk (hears quads modelId) (chunkMessage quads) token) stores
      (transcribeCapture "a" token)
      { stores with capture := (q.startWithId "a" videoId).put "a" (heard quads videoId) } := by
  have hingested : (ingestSection (audioChunk (hears quads modelId) (chunkMessage quads))
      stores.capture).1 = some (some none) := by rw [hq, ingest_chunkMessage]
  have hstores :
    { stores with capture := (q.startWithId "a" videoId).put "a" (heard quads videoId) } =
      { stores with capture := (ingestSection
        (audioChunk (hears quads modelId) (chunkMessage quads))
        stores.capture).2 } := by
    rw [hq, ingest_chunkMessage]
  rw [hstores, handleAudioChunk_eq]
  exact next_lockCapture
    (f := fun _ q => ingestSection (audioChunk (hears quads modelId) (chunkMessage quads)) q)
      hs hingested

/-- The snapshot of a segment is taken. -/
theorem next_transcribeSegment {jobId modelId : String} {mode : InferenceMode}
    (token videoId : String)
    (captureRunning : Bool) {pcm : PcmMono} (hs : stores.capturePoisoned = false)
    (hpcm : stores.capture.snapshotPcm jobId = .ok pcm) :
    Next t an (transcribeSegment jobId token videoId captureRunning modelId mode) stores
      (lockCapture (fun _ q =>
          (some (q.markAsrSegment jobId (max (pcm.samples.length / 16000) 1)).1,
            (q.markAsrSegment jobId (max (pcm.samples.length / 16000) 1)).2)) >>= fun _ =>
        sendTranscript jobId token videoId captureRunning pcm modelId mode) stores :=
  next_lockCapture (f := fun _ q => (some (q.snapshotPcm jobId), q)) hs (congrArg some hpcm)

/-- The segment is marked, and the transcript of the mock is about to be sent. -/
theorem next_mark_mock (jobId token videoId : String) (captureRunning : Bool) (pcm : PcmMono)
    (modelId : String) (segment : Nat) (hs : stores.capturePoisoned = false) :
    ∃ message next, IsTranscript message ∧
      Next t an (lockCapture (fun _ q =>
          (some (q.markAsrSegment jobId segment).1, (q.markAsrSegment jobId segment).2)) >>=
            fun _ =>
        sendTranscript jobId token videoId captureRunning pcm modelId .offlineMock) stores
        (.send message next)
        { stores with capture := (stores.capture.markAsrSegment jobId segment).2 } := by
  obtain ⟨message, next, hsend, hm⟩ : ∃ message next, sendTranscript jobId token videoId
    captureRunning
      pcm modelId .offlineMock = .send message next ∧ IsTranscript message := ⟨_, _, rfl, rfl⟩
  refine ⟨message, next, hm, ?_⟩
  rw [← hsend]
  exact next_lockCapture (f := fun _ q =>
    (some (q.markAsrSegment jobId segment).1, (q.markAsrSegment jobId segment).2)) hs rfl

end Reaches

/-- A job whose plan does not fail starts its capture. -/
theorem next_runAsrJob {models : Option ModelManager} {t : Nat} {an : Answers} {stores : Stores}
    {payload : Json} (token jobId videoId : String)
    (hplan : ∀ e, planAnswer models (payload.getStr "modelId") ≠ some (.error e)) :
    ∃ plan, Next t (an.under models) (runAsrJob token jobId videoId payload) stores
      (startCapture token jobId videoId plan) stores := by
  rw [runAsrJob_eq]
  obtain ⟨plan, hbody⟩ : ∃ plan, startPlanned token jobId videoId
      (planAnswer models (payload.getStr "modelId")) = startCapture token jobId videoId plan := by
    cases hanswer : planAnswer models (payload.getStr "modelId") with
    | none => exact ⟨_, rfl⟩
    | some answer =>
      cases answer with
      | ok plan => exact ⟨_, rfl⟩
      | error e => exact absurd hanswer (hplan e)
  refine ⟨plan, ?_⟩
  rw [← hbody]
  exact .ask _ _

/-- The model of a segment that is due is chosen. -/
theorem next_transcribeCapture_due {t : Nat} {an : Answers} {stores : Stores}
    {jobId modelId : String}
    {mode : InferenceMode} {job : CaptureJob} (token : String) (hs : stores.capturePoisoned = false)
    (hjob : stores.capture.get jobId = some job) (hdue : (asrDecision job).1 = true)
    (hmodel : an.asrModel = (modelId, mode)) :
    Next t an (transcribeCapture jobId token) stores (transcribeSegment jobId token job.videoId
      (decide (job.state = .running)) modelId mode) stores := by
  have hdecision : asrDecision job = (true, job.videoId, decide (job.state = .running)) := by
    rw [← hdue]
    rfl
  have hlearned : some ((stores.capture.get jobId).map fun job => (asrDecision job, an.asrModel)) =
      some (some ((true, job.videoId, decide (job.state = .running)), (modelId, mode))) := by
    simp only [hjob, Option.map_some, hdecision, hmodel]
  rw [transcribeCapture_eq]
  exact next_lockCapture
    (f := fun a q => (some ((q.get jobId).map fun job => (asrDecision job, a.asrModel)), q))
      hs hlearned

/-! ## A job that is transcribed -/

section Transcription

variable {debug : Bool} {models : Option ModelManager} {t quads : Nat} {modelId : String}
  {s : Companion}
  {stores : Stores}

variable (debug quads modelId) in
/-- The job is submitted, and its capture is about to be planned. -/
theorem SessionAt.submits (hat : SessionAt models t 0 (randomToken 1 2) s .listening stores) :
    ∃ h s' stores', Run (Companion.step (hears quads modelId) debug) s h s' ∧
      (∀ f ∈ h, Unasked 0 f) ∧
      SessionAt models t 0 (randomToken 1 2) s' (.handling (submitPlanMessage modelId)
        (.handle (runAsrJob (randomToken 1 2) "a" "v" (.obj [("modelId", .str modelId)]))))
          stores' ∧
      stores'.capturePoisoned = stores.capturePoisoned := by
  have hsubmit (allowed : Option String) : dispatch (hears quads modelId) debug allowed
      (some (randomToken 1 2)) (submitPlanMessage modelId) =
        ifAuthed (some (randomToken 1 2)) (submitPlanMessage modelId)
          (handleJobSubmit (hears quads modelId) (submitPlanMessage modelId)) := rfl
  obtain ⟨h₁, s₁, hr₁, hsteps₁, hat₁⟩ := hat.arrives (hears quads modelId) debug
    (fromStr_submitPlanText quads modelId) rfl hsubmit
  obtain ⟨h₂, s₂, hr₂, hsteps₂, hat₂⟩ := hat₁.reaches (hears quads modelId) debug default
    (Reaches.lockJobs (Reaches.sendProgress .here))
  refine ⟨h₂ ++ h₁, s₂, _, hr₁.append hr₂, ?_, hat₂, rfl⟩
  intro f hf
  rcases List.mem_append.1 hf with hf | hf
  · exact (hsteps₂ f hf).1
  · exact hsteps₁ f hf

variable (debug quads) in
/-- The capture starts, and the silence comes to it. -/
theorem SessionAt.captures {plan : Json}
    (hat : SessionAt models t 0 (randomToken 1 2) s (.handling (submitPlanMessage modelId)
      (.handle (startCapture (randomToken 1 2) "a" "v" plan))) stores)
    (hs : stores.capturePoisoned = false) :
    ∃ h s' stores', Run (Companion.step (hears quads modelId) debug) s h s' ∧
      (∀ f ∈ h, Unasked 0 f) ∧
      SessionAt models t 0 (randomToken 1 2) s' (.handling (chunkMessage quads)
        (.handle (transcribeCapture "a" (randomToken 1 2)))) stores' ∧
      stores'.capturePoisoned = false ∧ stores'.capture.get "a" = some (heard quads "v") := by
  obtain ⟨h₁, s₁, hr₁, hsteps₁, hat₁⟩ := hat.reaches (hears quads modelId) debug default
    (Reaches.lockCapture hs rfl (Reaches.sendProgress (g := Pure.pure) .here))
  obtain ⟨s₂, hs₂, hat₂⟩ := hat₁.finish (hears quads modelId) debug default
  have hchunk (allowed : Option String) : dispatch (hears quads modelId) debug allowed
      (some (randomToken 1 2)) (chunkMessage quads) =
        ifAuthed (some (randomToken 1 2)) (chunkMessage quads)
          (handleAudioChunk (hears quads modelId) (chunkMessage quads) (randomToken 1 2)) := rfl
  obtain ⟨h₃, s₃, hr₃, hsteps₃, hat₃⟩ := hat₂.arrives (hears quads modelId) debug
    (fromStr_chunkText quads modelId) rfl hchunk
  obtain ⟨stores₃, q, hat₃, hs₃, hq⟩ : ∃ (stores₃ : Stores) (q : CaptureJobQueue),
      SessionAt models t 0 (randomToken 1 2) s₃ (.handling (chunkMessage quads)
        (.handle (handleAudioChunk (hears quads modelId) (chunkMessage quads) (randomToken 1 2))))
          stores₃ ∧
      stores₃.capturePoisoned = false ∧ stores₃.capture = q.startWithId "a" "v" :=
    ⟨_, _, hat₃, hs, rfl⟩
  obtain ⟨s₄, hs₄, hat₄⟩ := hat₃.act (hears quads modelId) debug default
    (next_chunkMessage quads modelId "v" (randomToken 1 2) q hs₃ hq)
  have hfinish : Unasked 0 ⟨s₁, .server (.act 0 default), s₂⟩ := by
    refine hat₁.unasked ?_ (fun d an h => (ServerEvent.act.inj h).1.symm) s₂
    rintro value body ⟨⟩
    exact ⟨nofun, nofun⟩
  have hchunked : Unasked 0 ⟨s₃, .server (.act 0 default), s₄⟩ := by
    refine hat₃.unasked ?_ (fun d an h => (ServerEvent.act.inj h).1.symm) s₄
    rintro value body ⟨⟩
    exact unremarkable_lock
  refine ⟨_, s₄, _, ((hr₁.cons hs₂).append hr₃).cons hs₄, ?_, hat₄, hs₃,
    CaptureJobQueue.get_put_self ..⟩
  simp only [List.mem_cons, List.mem_append]
  rintro f (rfl | hf | rfl | hf)
  · exact hchunked
  · exact hsteps₃ f hf
  · exact hfinish
  · exact (hsteps₁ f hf).1

/-- A segment that is due is transcribed by the mock: its snapshot is taken and marked, and the
transcript is sent. -/
theorem SessionAt.transcribes (env : External) (debug : Bool) {value : Json} {token jobId : String}
    {job : CaptureJob}
    (hat : SessionAt models t 0 token s (.handling value (.handle (transcribeCapture jobId token)))
      stores)
    (hmock : liveAsrModel models = (modelId, .offlineMock)) (hs : stores.capturePoisoned = false)
    (hjob : stores.capture.get jobId = some job) (hdue : (asrDecision job).1 = true)
    (hfilled : job.ring.lenSamples ≠ 0) :
    ∃ s₁ s₂ s₃ s₄ videoId captureRunning marking message next,
      s.step env debug (.server (.act 0 default)) = some s₁ ∧
      SessionAt models t 0 token s₁ (.handling value (.handle (transcribeSegment jobId token videoId
        captureRunning modelId .offlineMock))) stores ∧
      s₁.step env debug (.server (.act 0 default)) = some s₂ ∧
      SessionAt models t 0 token s₂ (.handling value (.handle marking)) stores ∧
        Unremarkable marking ∧
      s₂.step env debug (.server (.act 0 default)) = some s₃ ∧
      s₃.Handling 0 value (.send message next) ∧ IsTranscript message ∧
      s₃.step env debug (.server (.act 0 default)) = some s₄ := by
  obtain ⟨s₁, hs₁, hat₁⟩ := hat.act env debug default
    (next_transcribeCapture_due token hs hjob hdue (by exact hmock))
  obtain ⟨pcm, hpcm⟩ : ∃ pcm, stores.capture.snapshotPcm jobId = .ok pcm :=
    ⟨_, CaptureJobQueue.snapshotPcm_eq hjob hfilled⟩
  obtain ⟨s₂, hs₂, hat₂⟩ := hat₁.act env debug default
    (next_transcribeSegment token job.videoId (decide (job.state = .running)) hs hpcm)
  obtain ⟨message, next, hm, hmark⟩ := next_mark_mock jobId token job.videoId
    (decide (job.state = .running)) pcm modelId (max (pcm.samples.length / 16000) 1) hs
  obtain ⟨s₃, hs₃, hat₃⟩ := hat₂.act env debug default hmark
  obtain ⟨s₄, hs₄, _⟩ := hat₃.act env debug default (.send message next _)
  exact ⟨s₁, s₂, s₃, s₄, _, _, _, message, next, hs₁, hat₁, hs₂, hat₂, unremarkable_lock, hs₃,
    hat₃.handling, hm, hs₄⟩

end Transcription

end LanguageLlm.Desktop
