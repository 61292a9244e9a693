import LanguageLlm.Lib.Run

/-!
# The page bridge

`page-bridge.ts` runs in the world of the page and answers messages with what it reads of the
player; `bridge-client.ts` asks from the world of the extension. Both post to one window, which
scripts of the page and other windows post to as well. `pingBridge_run` says what may become of a
call of `pingBridge`, in every interleaving.
-/

namespace LanguageLlm.Captions

open Lib

/-! ## Messages -/

def CHANNEL : String := "language-llm"

/-- The fields of a message that the two sides read; what is no text counts as left out. -/
structure BridgeData (S : Type) where
  channel : Option String := some CHANNEL
  type : Option String
  requestId : Option String
  state : Option S

/-- A message event: whether its source is the window itself, and its data. -/
structure Posted (S : Type) where
  ownSource : Bool := true
  data : Option (BridgeData S)

/-! ## The two sides -/

/-- The listener of the bridge: what it posts, when `readPlayer` returns `player`, or throws. -/
def bridgeListener {S : Type} (player : Option S) (event : Posted S) : List (Posted S) :=
  if !event.ownSource then []
  else
    match event.data with
    | none => []
    | some data =>
      if data.channel ≠ some CHANNEL then []
      else if data.type = some "bridge.ping" ∨ data.type = some "bridge.getState" then
        let type := if data.type = some "bridge.ping" then "bridge.pong" else "bridge.state"
        player.toList.map fun state =>
          { data := some { type := some type, requestId := data.requestId, state := some state } }
      else if data.type = some "bridge.getTracks" then
        player.toList.map fun _ =>
          { data := some
              { type := some "bridge.tracks", requestId := data.requestId, state := none } }
      else []

/-- A call of `pingBridge`: its listener, its timer and the values that `resolve` was called with,
the latest first. -/
structure Ping (S : Type) where
  id : String
  deadline : Nat
  listening : Bool := true
  armed : Bool := true
  resolved : List (Option S) := []

/-- `onMsg` returns at once. -/
def Ping.ignores {S : Type} (p : Ping S) (event : Posted S) : Bool :=
  !event.ownSource ||
    event.data.all fun data =>
      data.channel ≠ some CHANNEL ||
        (data.type ≠ some "bridge.pong" && data.type ≠ some "bridge.state") ||
        data.requestId ≠ some p.id

/-- A message event, if the listener is not removed. -/
def Ping.onMsg {S : Type} (p : Ping S) (event : Posted S) : Ping S :=
  if !p.listening || p.ignores event then p
  else
    { p with
      armed := false
      listening := false
      resolved := (event.data.bind BridgeData.state) :: p.resolved }

/-- The callback of `setTimeout`. -/
def Ping.timeout {S : Type} (p : Ping S) : Ping S :=
  { p with armed := false, listening := false, resolved := none :: p.resolved }

/-! ## The window -/

structure Window (S : Type) where
  now : Nat
  /-- What `readPlayer` would return, if it does not throw. -/
  player : Option S
  /-- The bridges that are loaded. -/
  bridges : Nat
  /-- Messages that were posted and not dispatched, the oldest first. -/
  queue : List (Posted S)
  pings : List (Ping S)

inductive WindowEvent (S : Type) where
  | load
  | ping (id : String) (timeoutMs : Nat)
  /-- A script of the page or another window posts. -/
  | post (message : Posted S)
  | dispatch
  | time (now : Nat)
  | timer (k : Nat)
  | play (player : Option S)

def pingMessage {S : Type} (id : String) : Posted S :=
  { data := some { type := some "bridge.ping", requestId := some id, state := none } }

def Window.step {S : Type} (w : Window S) : WindowEvent S → Option (Window S)
  | .load => some { w with bridges := w.bridges + 1 }
  | .ping id timeoutMs =>
    some
      { w with
        pings := w.pings ++ [{ id, deadline := w.now + timeoutMs }]
        queue := w.queue ++ [pingMessage id] }
  | .post message => some { w with queue := w.queue ++ [message] }
  | .dispatch =>
    match w.queue with
    | [] => none
    | event :: queue =>
      let replies := (List.replicate w.bridges event).flatMap (bridgeListener w.player)
      some { w with queue := queue ++ replies, pings := w.pings.map fun p => p.onMsg event }
  | .time now => if w.now ≤ now then some { w with now } else none
  | .timer k =>
    match w.pings[k]? with
    | some p =>
      if p.armed ∧ p.deadline ≤ w.now then some { w with pings := w.pings.set k p.timeout }
      else none
    | none => none
  | .play player => some { w with player }

/-! ## Questions and answers -/

section Messages

variable {S : Type} {id : String} {r : Option S} {event reply : Posted S} {player : Option S}
  {p : Ping S}

/-- A question that the bridge answers with its state. -/
def Posted.Asks (id : String) (event : Posted S) : Prop :=
  event.ownSource = true ∧ ∃ data, event.data = some data ∧ data.channel = some CHANNEL ∧
    (data.type = some "bridge.ping" ∨ data.type = some "bridge.getState") ∧
      data.requestId = some id

/-- What `onMsg` takes for the answer to its question. -/
def Posted.Answers (id : String) (r : Option S) (event : Posted S) : Prop :=
  event.ownSource = true ∧ ∃ data, event.data = some data ∧ data.channel = some CHANNEL ∧
    (data.type = some "bridge.pong" ∨ data.type = some "bridge.state") ∧
      data.requestId = some id ∧ data.state = r

theorem asks_pingMessage : (pingMessage id : Posted S).Asks id :=
  ⟨rfl, _, rfl, rfl, Or.inl rfl, rfl⟩

theorem not_answers_pingMessage {id' : String} : ¬ (pingMessage id' : Posted S).Answers id r := by
  rintro ⟨-, data, hdata, -, htype, -⟩
  obtain rfl := Option.some.inj hdata
  simp at htype

/-- The bridge answers what it is asked, with what it reads. -/
theorem Posted.Asks.exists_reply (h : event.Asks id) (state : S) :
    ∃ reply ∈ bridgeListener (some state) event, reply.Answers id (some state) := by
  obtain ⟨hown, data, hdata, hchannel, htype, hid⟩ := h
  simp only [bridgeListener, hown, hdata, Bool.not_true, Bool.false_eq_true, if_false,
    if_neg (not_not.2 hchannel), if_pos htype, Option.toList_some, List.map_cons, List.map_nil,
    List.exists_mem_cons_iff]
  left
  refine ⟨rfl, _, rfl, rfl, ?_, hid, rfl⟩
  split
  · exact Or.inl rfl
  · exact Or.inr rfl

/-- It answers nothing else. -/
theorem asks_of_reply (hreply : reply ∈ bridgeListener player event) (h : reply.Answers id r) :
    event.Asks id ∧ ∃ state, player = some state ∧ r = some state := by
  obtain ⟨-, answer, hanswer, -, htype, hid, rfl⟩ := h
  unfold bridgeListener at hreply
  split at hreply
  · cases hreply
  · next hown =>
    split at hreply
    · cases hreply
    · next data hdata =>
      split at hreply
      · cases hreply
      · next hchannel =>
        split at hreply
        · next hasks =>
          obtain ⟨state, hstate, rfl⟩ := List.mem_map.1 hreply
          obtain rfl := Option.some.inj hanswer
          refine ⟨⟨?_, data, hdata, not_not.1 hchannel, hasks, hid⟩, state, ?_, rfl⟩
          · simpa using hown
          · exact Option.mem_toList.1 hstate
        · split at hreply
          · obtain ⟨state, -, rfl⟩ := List.mem_map.1 hreply
            obtain rfl := Option.some.inj hanswer
            simp at htype
          · cases hreply

theorem ignores_eq_false_iff :
    p.ignores event = false ↔ event.Answers p.id (event.data.bind BridgeData.state) := by
  obtain ⟨own, data⟩ := event
  rw [Ping.ignores, Posted.Answers, Bool.or_eq_false_iff]
  cases data with
  | none => simp
  | some data =>
    simp only [Option.all_some, Option.bind_some, Option.some.injEq, exists_eq_left', ne_eq,
      Bool.or_eq_false_iff, Bool.and_eq_false_iff, decide_eq_false_iff_not, not_not,
      Bool.not_eq_false', and_true, and_assoc]

theorem answers_unique {r' : Option S} (h : event.Answers id r) (h' : event.Answers id r') :
    r = r' := by
  obtain ⟨-, data, hdata, -, -, -, rfl⟩ := h
  obtain ⟨-, data', hdata', -, -, -, rfl⟩ := h'
  rw [hdata] at hdata'
  rw [Option.some.inj hdata']

/-- A listener takes an answer to its question, once, and nothing else. -/
theorem Ping.onMsg_cases (p : Ping S) (event : Posted S) :
    p.onMsg event = p ∧ (p.listening = false ∨ ∀ r, ¬ event.Answers p.id r) ∨
      ∃ r, event.Answers p.id r ∧ p.listening = true ∧
        p.onMsg event =
          { p with armed := false, listening := false, resolved := r :: p.resolved } := by
  rw [Ping.onMsg]
  cases hlistening : p.listening with
  | false => exact Or.inl ⟨rfl, Or.inl rfl⟩
  | true =>
    cases hignores : p.ignores event with
    | true =>
      refine Or.inl ⟨rfl, Or.inr fun r hr => ?_⟩
      have hdata : event.data.bind BridgeData.state = r := by
        obtain ⟨-, data, hdata, -, -, -, rfl⟩ := hr
        rw [hdata, Option.bind_some]
      rw [ignores_eq_false_iff.2 (hdata ▸ hr)] at hignores
      cases hignores
    | false => exact Or.inr ⟨_, ignores_eq_false_iff.1 hignores, rfl, rfl⟩

end Messages

/-! ## What becomes of a call -/

section Fates

variable {S : Type}

/-- A bridge was asked and read this. -/
def Read (id : String) (h : List (Fired (Window S) (WindowEvent S))) (r : Option S) : Prop :=
  ∃ g ∈ h, g.label = .dispatch ∧ (∃ event ∈ g.pre.queue.head?, event.Asks id) ∧
    0 < g.pre.bridges ∧ ∃ state, g.pre.player = some state ∧ r = some state

/-- Another script posted this as an answer. -/
def Forged (id : String) (h : List (Fired (Window S) (WindowEvent S))) (r : Option S) : Prop :=
  ∃ g ∈ h, ∃ message, g.label = .post message ∧ message.Answers id r

/-- Why `resolve` was called: the time was over, or an answer was dispatched. -/
inductive SettledBy (id : String) (k deadline : Nat) :
    List (Fired (Window S) (WindowEvent S)) → Option S → Prop
  | timeout {g : Fired (Window S) (WindowEvent S)} (later : List (Fired (Window S) (WindowEvent S)))
      (h : List (Fired (Window S) (WindowEvent S))) (hlabel : g.label = .timer k)
      (hnow : deadline ≤ g.pre.now) : SettledBy id k deadline (later ++ g :: h) none
  | answer {g : Fired (Window S) (WindowEvent S)} {r : Option S}
      (later : List (Fired (Window S) (WindowEvent S)))
      (h : List (Fired (Window S) (WindowEvent S))) (hlabel : g.label = .dispatch)
      (hevent : ∃ event ∈ g.pre.queue.head?, event.Answers id r)
      (hsource : Read id h r ∨ Forged id h r) : SettledBy id k deadline (later ++ g :: h) r

/-- The question or an answer to it is posted, or no bridge could read the player when a question
was dispatched. -/
def InFlight (id : String) (h : List (Fired (Window S) (WindowEvent S))) (w : Window S) : Prop :=
  (∃ event ∈ w.queue, event.Asks id ∨ ∃ r, event.Answers id r) ∨
    ∃ g ∈ h, g.label = .dispatch ∧ (∃ event ∈ g.pre.queue.head?, event.Asks id) ∧
      (g.pre.bridges = 0 ∨ g.pre.player = none)

/-- A call waits, with its listener and its timer, or is settled once and has neither. -/
inductive Fate (id : String) (k deadline : Nat) (h : List (Fired (Window S) (WindowEvent S)))
    (w : Window S) (p : Ping S) : Prop
  | waiting (hlistening : p.listening = true) (harmed : p.armed = true)
      (hresolved : p.resolved = []) (hflight : InFlight id h w)
  | settled (r : Option S) (hlistening : p.listening = false) (harmed : p.armed = false)
      (hresolved : p.resolved = [r]) (hby : SettledBy id k deadline h r)

structure PingInv (id : String) (k deadline : Nat) (h : List (Fired (Window S) (WindowEvent S)))
    (w : Window S) : Prop where
  fate : ∃ p, w.pings[k]? = some p ∧ p.id = id ∧ p.deadline = deadline ∧ Fate id k deadline h w p
  traced : ∀ event ∈ w.queue, ∀ r, event.Answers id r → Read id h r ∨ Forged id h r

variable {id : String} {k deadline : Nat} {h : List (Fired (Window S) (WindowEvent S))}
  {w w' : Window S} {r : Option S} {p : Ping S}

theorem traced_cons (hr : Read id h r ∨ Forged id h r) (f : Fired (Window S) (WindowEvent S)) :
    Read id (f :: h) r ∨ Forged id (f :: h) r := by
  rcases hr with ⟨g, hg, hread⟩ | ⟨g, hg, hforged⟩
  · exact Or.inl ⟨g, List.mem_cons_of_mem _ hg, hread⟩
  · exact Or.inr ⟨g, List.mem_cons_of_mem _ hg, hforged⟩

theorem SettledBy.cons (hby : SettledBy id k deadline h r)
    (f : Fired (Window S) (WindowEvent S)) : SettledBy id k deadline (f :: h) r := by
  cases hby with
  | timeout later h hlabel hnow => exact .timeout (f :: later) h hlabel hnow
  | answer later h hlabel hevent hsource => exact .answer (f :: later) h hlabel hevent hsource

theorem InFlight.cons (hf : InFlight id h w) (f : Fired (Window S) (WindowEvent S))
    (hqueue : w.queue ⊆ w'.queue) : InFlight id (f :: h) w' := by
  rcases hf with ⟨event, hevent, hof⟩ | ⟨g, hg, hnone⟩
  · exact Or.inl ⟨event, hqueue hevent, hof⟩
  · exact Or.inr ⟨g, List.mem_cons_of_mem _ hg, hnone⟩

/-- A step that posts at most and leaves the call alone. -/
theorem PingInv.quiet (hI : PingInv id k deadline h w) {f : Fired (Window S) (WindowEvent S)}
    (hping : ∀ p, w.pings[k]? = some p → w'.pings[k]? = some p) (posted : List (Posted S))
    (hqueue : w'.queue = w.queue ++ posted)
    (hposted : ∀ event ∈ posted, ∀ r, event.Answers id r → Forged id (f :: h) r) :
    PingInv id k deadline (f :: h) w' where
  fate := by
    obtain ⟨p, hp, hid, hdeadline, hfate⟩ := hI.fate
    refine ⟨p, hping p hp, hid, hdeadline, ?_⟩
    cases hfate with
    | waiting hlistening harmed hresolved hflight =>
      refine .waiting hlistening harmed hresolved (hflight.cons f ?_)
      rw [hqueue]
      exact List.subset_append_left _ _
    | settled r hlistening harmed hresolved hby =>
      exact .settled r hlistening harmed hresolved (hby.cons f)
  traced event hevent r hr := by
    rw [hqueue, List.mem_append] at hevent
    rcases hevent with hevent | hevent
    · exact traced_cons (hI.traced event hevent r hr) f
    · exact Or.inr (hposted event hevent r hr)

theorem PingInv.dispatch (hI : PingInv id k deadline h w) (hs : w.step .dispatch = some w') :
    PingInv id k deadline (⟨w, .dispatch, w'⟩ :: h) w' := by
  simp only [Window.step] at hs
  split at hs
  · cases hs
  next event queue hqueue =>
  obtain rfl := Option.some.inj hs
  obtain ⟨⟨p, hp, rfl, hdeadline, hfate⟩, htraced⟩ := hI
  have hhead : event ∈ w.queue.head? := by rw [hqueue]; rfl
  constructor
  · refine ⟨p.onMsg event, by rw [List.getElem?_map, hp, Option.map_some], ?_⟩
    rcases p.onMsg_cases event with ⟨hsame, hignored⟩ | ⟨r, hanswer, hlistening, htaken⟩
    · rw [hsame]
      refine ⟨rfl, hdeadline, ?_⟩
      cases hfate with
      | settled r hlistening harmed hresolved hby =>
        exact .settled r hlistening harmed hresolved (hby.cons _)
      | waiting hlistening harmed hresolved hflight =>
        refine .waiting hlistening harmed hresolved ?_
        rcases hflight with ⟨other, hother, hof⟩ | ⟨g, hg, hnone⟩
        · rw [hqueue] at hother
          rcases List.mem_cons.1 hother with rfl | hother
          · -- the head is the question: it would have been taken if it were an answer
            rcases hof with hasks | ⟨r, hanswer⟩
            · by_cases hbridges : w.bridges = 0
              · exact Or.inr ⟨_, List.mem_cons_self, rfl, ⟨other, hhead, hasks⟩, Or.inl hbridges⟩
              · cases hplayer : w.player with
                | none =>
                  exact Or.inr ⟨_, List.mem_cons_self, rfl, ⟨other, hhead, hasks⟩, Or.inr hplayer⟩
                | some state =>
                  obtain ⟨reply, hreply, hanswers⟩ := hasks.exists_reply state
                  refine Or.inl ⟨reply, ?_, Or.inr ⟨_, hanswers⟩⟩
                  refine List.mem_append_right _ (List.mem_flatMap.2 ⟨other, ?_, hreply⟩)
                  exact List.mem_replicate.2 ⟨hbridges, rfl⟩
            · rcases hignored with hclosed | hnone
              · rw [hclosed] at hlistening
                cases hlistening
              · exact absurd hanswer (hnone r)
          · exact Or.inl ⟨other, List.mem_append_left _ hother, hof⟩
        · exact Or.inr ⟨g, List.mem_cons_of_mem _ hg, hnone⟩
    · rw [htaken]
      refine ⟨rfl, hdeadline, ?_⟩
      cases hfate with
      | settled r' hclosed harmed hresolved hby =>
        rw [hclosed] at hlistening
        cases hlistening
      | waiting _ harmed hresolved hflight =>
        refine .settled r rfl rfl (by rw [hresolved]) ?_
        refine .answer [] h rfl ⟨event, hhead, hanswer⟩ ?_
        exact htraced event (hqueue ▸ List.mem_cons_self) r hanswer
  · intro other hother r hanswer
    rcases List.mem_append.1 hother with hother | hreply
    · exact traced_cons (htraced other (hqueue ▸ List.mem_cons_of_mem _ hother) r hanswer) _
    · obtain ⟨asked, hasked, hposted⟩ := List.mem_flatMap.1 hreply
      obtain ⟨hbridges, rfl⟩ := List.mem_replicate.1 hasked
      obtain ⟨hasks, state, hstate, rfl⟩ := asks_of_reply hposted hanswer
      exact Or.inl ⟨_, List.mem_cons_self, rfl, ⟨asked, hhead, hasks⟩,
        Nat.pos_of_ne_zero hbridges, state, hstate, rfl⟩

theorem PingInv.timer (hI : PingInv id k deadline h w) {j : Nat}
    (hs : w.step (.timer j) = some w') : PingInv id k deadline (⟨w, .timer j, w'⟩ :: h) w' := by
  simp only [Window.step] at hs
  split at hs
  · next p hp =>
    split at hs
    · next hdue =>
      obtain rfl := Option.some.inj hs
      by_cases hj : j = k
      · subst hj
        obtain ⟨⟨p', hp', rfl, rfl, hfate⟩, htraced⟩ := hI
        obtain rfl := Option.some.inj (hp'.symm.trans hp)
        have hlt : j < w.pings.length := (List.getElem?_eq_some_iff.1 hp).1
        refine ⟨⟨p'.timeout, List.getElem?_set_self hlt, rfl, rfl, ?_⟩, fun event hevent r hr =>
          traced_cons (htraced event hevent r hr) _⟩
        cases hfate with
        | waiting hlistening harmed hresolved hflight =>
          refine .settled none rfl rfl ?_ (.timeout [] h rfl hdue.2)
          rw [Ping.timeout, hresolved]
        | settled r hlistening harmed hresolved hby =>
          rw [harmed] at hdue
          exact absurd hdue.1 (by decide)
      · refine hI.quiet (fun p hp => ?_) [] (List.append_nil _).symm nofun
        rwa [List.getElem?_set_ne hj]
    · cases hs
  · cases hs

theorem pingInv_step (hI : PingInv id k deadline h w) {e : WindowEvent S}
    (hs : w.step e = some w') : PingInv id k deadline (⟨w, e, w'⟩ :: h) w' := by
  have hsame : ∀ p, w.pings[k]? = some p → w.pings[k]? = some p := fun _ hp => hp
  cases e with
  | load =>
    obtain rfl := Option.some.inj hs
    exact hI.quiet hsame [] (List.append_nil _).symm nofun
  | play player =>
    obtain rfl := Option.some.inj hs
    exact hI.quiet hsame [] (List.append_nil _).symm nofun
  | time now =>
    simp only [Window.step] at hs
    split at hs
    · obtain rfl := Option.some.inj hs
      exact hI.quiet hsame [] (List.append_nil _).symm nofun
    · cases hs
  | ping id' timeoutMs =>
    obtain rfl := Option.some.inj hs
    refine hI.quiet (fun p hp => ?_) [pingMessage id'] rfl fun event hevent r hr => ?_
    · exact (List.getElem?_append_left (List.getElem?_eq_some_iff.1 hp).1).trans hp
    · obtain rfl := List.mem_singleton.1 hevent
      exact absurd hr not_answers_pingMessage
  | post message =>
    obtain rfl := Option.some.inj hs
    refine hI.quiet hsame [message] rfl fun event hevent r hr => ?_
    obtain rfl := List.mem_singleton.1 hevent
    exact ⟨_, List.mem_cons_self, event, rfl, hr⟩
  | dispatch => exact hI.dispatch hs
  | timer j => exact hI.timer hs

/-- Whatever happens after a call of `pingBridge`, whose identifier no message carries that is an
answer: `resolve` is called once at most, and neither the timer nor the listener is left behind. It
is called with `null` when the time is over, and else with what a bridge read when it was asked
after the call, unless another script posts an answer with the identifier. While the call waits, its
question or an answer is posted, if a bridge could read the player when it was asked. -/
theorem pingBridge_run {w₀ w₁ : Window S} {timeoutMs : Nat}
    (hcall : w₀.step (.ping id timeoutMs) = some w₁)
    (hfresh : ∀ event ∈ w₀.queue, ∀ r, ¬ event.Answers id r) (hr : Run Window.step w₁ h w) :
    ∃ p, w.pings[w₀.pings.length]? = some p ∧
      Fate id w₀.pings.length (w₀.now + timeoutMs) h w p := by
  have hI : PingInv id w₀.pings.length (w₀.now + timeoutMs) h w := by
    refine hr.invHist (PingInv id w₀.pings.length (w₀.now + timeoutMs)) ?_
      fun h w e w' _ hI hs => pingInv_step hI hs
    obtain rfl := Option.some.inj hcall
    constructor
    · refine ⟨_, List.getElem?_concat_length, rfl, rfl, .waiting rfl rfl rfl (Or.inl ?_)⟩
      exact ⟨_, List.mem_append_right _ List.mem_cons_self, Or.inl asks_pingMessage⟩
    · intro event hevent r hanswer
      rcases List.mem_append.1 hevent with hevent | hevent
      · exact absurd hanswer (hfresh event hevent r)
      · obtain rfl := List.mem_singleton.1 hevent
        exact absurd hanswer not_answers_pingMessage
  obtain ⟨p, hp, -, -, hfate⟩ := hI.fate
  exact ⟨p, hp, hfate⟩

end Fates

/-- A window with one bridge. -/
def bridged : Window Nat :=
  { now := 0, player := some 5, bridges := 1, queue := [], pings := [] }

theorem pingBridge_run_bridged :
    ∃ w₁, bridged.step (.ping "br_1" 800) = some w₁ ∧
      ∃ h w, Run Window.step w₁ h w ∧ h.map Fired.label = [.dispatch, .dispatch] ∧
        ∃ p, w.pings[0]? = some p ∧ p.resolved = [some 5] ∧ Fate "br_1" 0 800 h w p := by
  refine ⟨_, rfl, ?_⟩
  obtain ⟨⟨h, w⟩, hexec⟩ :
      ∃ out, exec Window.step
        { bridged with
          pings := [{ id := "br_1", deadline := 800 }], queue := [pingMessage "br_1"] }
        [.dispatch, .dispatch] = some out :=
    ⟨_, rfl⟩
  have hr := exec_run hexec
  obtain ⟨p, hp, hfate⟩ :=
    pingBridge_run (rfl : bridged.step (.ping "br_1" 800) = some _) (by rintro _ ⟨⟩) hr
  refine ⟨h, w, hr, exec_labels hexec, p, hp, ?_, hfate⟩
  cases hexec
  obtain rfl := Option.some.inj hp
  rfl

end LanguageLlm.Captions
