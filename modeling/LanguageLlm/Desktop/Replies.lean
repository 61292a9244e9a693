import LanguageLlm.Desktop.Pairing

/-!
# Every request is answered

The companion answers the request of the extension, whatever else happens on the machine:
`reply_of_run` counts the turns of the task that handles it, and no other event takes a turn from
it or sends in its place.
-/

namespace LanguageLlm.Desktop

open Lib

/-- A message is sent within so many turns, whatever is read and generated on the way. -/
def Arm.SendsWithin : Nat → Arm → Prop
  | 0, _ => False
  | _ + 1, send _ _ => True
  | n + 1, now rest => ∀ t, (rest t).SendsWithin n
  | n + 1, purge _ rest => rest.SendsWithin n
  | n + 1, valid _ _ rest => ∀ ok, (rest ok).SendsWithin n
  | n + 1, issue _ _ rest => ∀ session, (rest session).SendsWithin n
  | n + 1, rotate rest => rest.SendsWithin n
  | _ + 1, next | _ + 1, leave | _ + 1, handle _ => False

/-- More than `m` messages were sent on the connection, or the next one will be within `n` turns. -/
def Connection.Owes (m n : Nat) (conn : Connection) : Prop :=
  m < conn.sent.length ∨ m ≤ conn.sent.length ∧
    ∃ value arm, conn.task = .handling value arm ∧ arm.SendsWithin n

/-- A turn of the task of a connection. -/
def ServerEvent.isTurn (c : Nat) : ServerEvent → Bool
  | .act d _ => d = c
  | _ => false

def PairEvent.isTurn (c : Nat) : PairEvent → Bool
  | .server e => e.isTurn c
  | _ => false

/-- The turns that the task of a connection had in a run. -/
def turns (c : Nat) (h : List (Fired Pair PairEvent)) : Nat :=
  h.countP fun f => f.label.isTurn c

theorem turns_cons (c : Nat) (f : Fired Pair PairEvent) (h : List (Fired Pair PairEvent)) :
    turns c (f :: h) = turns c h + if f.label.isTurn c then 1 else 0 :=
  List.countP_cons

/-! ## The companion's side -/

section Server

variable {env : External} {debug : Bool} {s s' : Server} {c m n : Nat} {conn : Connection}
  {value : Json} {a : Answers} {arm : Arm}

/-- All branches of a handshake end with a message. -/
theorem sendsWithin_handshake (debug : Bool) (allowedExtensionId : Option String) (value : Json) :
    (handshake debug allowedExtensionId value).SendsWithin 6 := by
  intro t
  dsimp only
  split
  · trivial
  split
  · trivial
  split
  · trivial
  split
  · trivial
  · exact fun _ => trivial

/-- A turn brings the message nearer. -/
theorem Server.act_owes (hs : s.act c conn value a arm = some s') (hle : m ≤ conn.sent.length)
    (harm : arm.SendsWithin (n + 1)) :
    ∃ conn', s'.connections = s.connections.set c conn' ∧ conn'.Owes m n := by
  cases arm with
  | send message rest =>
    obtain rfl := Option.some.inj hs
    refine ⟨_, rfl, Or.inl ?_⟩
    rw [List.length_append]
    exact Nat.lt_succ_of_le hle
  | now rest =>
    obtain rfl := Option.some.inj hs
    exact ⟨_, rfl, Or.inr ⟨hle, _, _, rfl, harm _⟩⟩
  | purge nowMs rest =>
    obtain rfl := Option.some.inj hs
    exact ⟨_, rfl, Or.inr ⟨hle, _, _, rfl, harm⟩⟩
  | valid token nowMs rest =>
    obtain rfl := Option.some.inj hs
    exact ⟨_, rfl, Or.inr ⟨hle, _, _, rfl, harm _⟩⟩
  | issue extensionId nowMs rest =>
    simp only [act] at hs
    split at hs
    · cases hs
    · obtain rfl := Option.some.inj hs
      exact ⟨_, rfl, Or.inr ⟨hle, _, _, rfl, harm _⟩⟩
  | rotate rest =>
    simp only [act] at hs
    split at hs
    · cases hs
    · obtain rfl := Option.some.inj hs
      exact ⟨_, rfl, Or.inr ⟨hle, _, _, rfl, harm⟩⟩
  | next | leave | handle => exact harm.elim

/-- Only the turns of its own task count for a connection. -/
theorem Server.step_owes {e : ServerEvent} (hT : s.Timely) (helapse : ∀ ms, e ≠ .elapse ms)
    (hs : s.step env debug e = some s') (hconn : s.connections[c]? = some conn)
    (h : conn.Owes m n) :
    ∃ conn', s'.connections[c]? = some conn' ∧
      conn'.Owes m (n - if e.isTurn c then 1 else 0) := by
  obtain ⟨-, -, -, hconns⟩ := Server.step_spec "" hT helapse hs
  obtain ⟨conn', hconn', hprefix, -⟩ := hconns c conn hconn
  rcases h with hlt | ⟨hle, value, arm, htask, harm⟩
  · exact ⟨conn', hconn', Or.inl (Nat.lt_of_lt_of_le hlt hprefix.length_le)⟩
  have hsame (heq : conn' = conn) (hturn : e.isTurn c = false) :
      conn'.Owes m (n - if e.isTurn c then 1 else 0) := by
    rw [hturn, heq]
    exact Or.inr ⟨hle, value, arm, htask, harm⟩
  have hset {d : Nat} {conn₁ : Connection} (hne : d ≠ c)
      (heq : s'.connections = s.connections.set d conn₁) : conn' = conn := by
    rw [heq, List.getElem?_set_ne hne] at hconn'
    exact Option.some.inj (hconn'.symm.trans hconn)
  rcases Server.step_cases hs with ⟨origin, t, rfl, rfl⟩ |
    ⟨d, frame, conn₁, rfl, hconn₁, hlistening, rfl⟩ |
    ⟨d, a, conn₁, value₁, arm₁, rfl, hconn₁, htask₁, hact⟩ | ⟨now, rfl, rfl | ⟨ms, rfl⟩⟩
  · refine ⟨conn', hconn', hsame ?_ rfl⟩
    have hlt := (List.getElem?_eq_some_iff.1 hconn).1
    rcases Server.upgrade_cases (s := s) debug origin t with heq | ⟨new, heq, -⟩
    · rw [heq] at hconn'
      exact Option.some.inj (hconn'.symm.trans hconn)
    · rw [heq] at hconn'
      exact Option.some.inj (hconn'.symm.trans ((List.getElem?_append_left hlt).trans hconn))
  · refine ⟨conn', hconn', hsame (hset ?_ rfl) rfl⟩
    rintro rfl
    obtain rfl := Option.some.inj (hconn₁.symm.trans hconn)
    rw [hlistening] at htask
    cases htask
  · by_cases hdc : d = c
    · subst hdc
      obtain rfl := Option.some.inj (hconn₁.symm.trans hconn)
      obtain ⟨rfl, rfl⟩ := Task.handling.inj (htask₁.symm.trans htask)
      cases n with
      | zero => exact harm.elim
      | succ n =>
        obtain ⟨conn₂, hset₂, howes⟩ := Server.act_owes hact hle harm
        refine ⟨conn₂, ?_, ?_⟩
        · rw [hset₂]
          exact List.getElem?_set_self (List.getElem?_eq_some_iff.1 hconn).1
        · rw [ServerEvent.isTurn, decide_eq_true rfl, if_pos rfl]
          exact howes
    · obtain ⟨-, -, conn₂, hset₂, -⟩ := Server.act_spec (hT d conn₁ value₁ arm₁ hconn₁ htask₁) hact
      exact ⟨conn', hconn', hsame (hset hdc hset₂) (decide_eq_false hdc)⟩
  · exact ⟨conn', hconn', hsame (Option.some.inj (hconn'.symm.trans hconn)) rfl⟩
  · exact absurd rfl (helapse ms)

end Server

/-! ## Both sides -/

namespace Pair

section Steps

variable {env : External} {debug : Bool} {extensionId : String} {s s' : Pair} {l : PairEvent}
  {k c m n : Nat}

/-- The companion moves by one of its own events at most, and a socket keeps its connection. -/
structure Moves (env : External) (debug : Bool) (s s' : Pair) (l : PairEvent) : Prop where
  server : (∃ e, s.server.step env debug e = some s'.server ∧ (∀ ms, e ≠ .elapse ms) ∧
      ∀ c, e.isTurn c = l.isTurn c) ∨
    s'.server.connections = s.server.connections ∧ ∀ c, l.isTurn c = false
  wires : ∀ (k : Nat) (w : Wire) (c : Nat), s.wires[k]? = some w → w.conn = some c →
    ∃ w', s'.wires[k]? = some w' ∧ w'.conn = some c

/-- The companion takes no part in the event. -/
theorem Moves.of_server_eq (hconns : s'.server.connections = s.server.connections)
    (hturn : ∀ c, l.isTurn c = false)
    (hwires : ∀ (k : Nat) (w : Wire) (c : Nat), s.wires[k]? = some w → w.conn = some c →
      ∃ w', s'.wires[k]? = some w' ∧ w'.conn = some c) : Moves env debug s s' l :=
  ⟨Or.inr ⟨hconns, hturn⟩, hwires⟩

theorem step_moves (hs : s.step env debug extensionId l = some s') : Moves env debug s s' l := by
  have hkeep (k : Nat) (w : Wire) (c : Nat) (hw : s.wires[k]? = some w) (hc : w.conn = some c) :
      ∃ w', s.wires[k]? = some w' ∧ w'.conn = some c := ⟨w, hw, hc⟩
  cases l with
  | link e =>
    simp only [Pair.step] at hs
    split at hs
    · obtain ⟨link, -, rfl⟩ := Option.map_eq_some_iff.1 hs
      exact .of_server_eq rfl (fun _ => rfl) hkeep
    · cases hs
  | bootstrapped res =>
    obtain ⟨link, -, rfl⟩ := Option.map_eq_some_iff.1 hs
    refine .of_server_eq rfl (fun _ => rfl) fun k w c hw hc => ⟨w, ?_, hc⟩
    exact (List.getElem?_append_left (List.getElem?_eq_some_iff.1 hw).1).trans hw
  | upgraded j =>
    obtain ⟨w, hw, hs⟩ := Option.bind_eq_some_iff.1 hs
    unfold Pair.upgrades at hs
    dsimp only at hs
    split at hs
    · next hnone =>
      obtain rfl := Option.some.inj hs
      exact ⟨Or.inl ⟨.upgrade (some ("chrome-extension://" ++ extensionId)) w.token, rfl, by simp,
        fun _ => rfl⟩, conn_set hw (by simp [hnone.1])⟩
    · cases hs
  | opened j nonce request =>
    obtain ⟨w, hw, hs⟩ := Option.bind_eq_some_iff.1 hs
    unfold Pair.opens at hs
    split at hs
    · obtain ⟨link, -, rfl⟩ := Option.map_eq_some_iff.1 hs
      exact .of_server_eq rfl (fun _ => rfl) (conn_set hw (by simp))
    · cases hs
  | message j =>
    obtain ⟨w, hw, hs⟩ := Option.bind_eq_some_iff.1 hs
    obtain ⟨message, -, hs⟩ := Option.bind_eq_some_iff.1 hs
    obtain ⟨link, -, rfl⟩ := Option.map_eq_some_iff.1 hs
    exact .of_server_eq rfl (fun _ => rfl) (conn_set hw (by simp))
  | send text =>
    have hs : s.sends env text = some s' := hs
    unfold Pair.sends at hs
    split at hs
    · split at hs
      · split at hs
        · next hw =>
          split at hs
          · obtain rfl := Option.some.inj hs
            exact .of_server_eq rfl (fun _ => rfl) (conn_set hw (by simp))
          · obtain rfl := Option.some.inj hs
            exact .of_server_eq rfl (fun _ => rfl) hkeep
        · cases hs
      · cases hs
    · cases hs
  | receive j =>
    obtain ⟨w, hw, hs⟩ := Option.bind_eq_some_iff.1 hs
    unfold Pair.receives at hs
    split at hs
    · next c text rest _ _ =>
      obtain ⟨server, hserver, rfl⟩ := Option.map_eq_some_iff.1 hs
      exact ⟨Or.inl ⟨.receive c (.text text), hserver, by simp, fun _ => rfl⟩,
        conn_set hw (by simp)⟩
    · cases hs
  | server e =>
    simp only [Pair.step] at hs
    split at hs
    · next hother =>
      obtain ⟨server, hserver, rfl⟩ := Option.map_eq_some_iff.1 hs
      refine ⟨Or.inl ⟨e, hserver, ?_, fun _ => rfl⟩, hkeep⟩
      rintro ms rfl
      cases hother
    · cases hs
  | pin | elapse =>
    obtain rfl := Option.some.inj hs
    exact .of_server_eq rfl (fun _ => rfl) hkeep

/-- A message that the companion owes on the connection of a socket. -/
def Awaits (k c m n : Nat) (s : Pair) : Prop :=
  (∃ w, s.wires[k]? = some w ∧ w.conn = some c) ∧
    ∃ conn, s.server.connections[c]? = some conn ∧ conn.Owes m n

theorem Awaits.step (h : s.Awaits k c m n) (hT : s.server.Timely)
    (hs : s.step env debug extensionId l = some s') :
    s'.Awaits k c m (n - if l.isTurn c then 1 else 0) := by
  obtain ⟨⟨w, hw, hc⟩, conn, hconn, howes⟩ := h
  have hmoves := step_moves hs
  refine ⟨hmoves.wires k w c hw hc, ?_⟩
  rcases hmoves.server with ⟨e, he, helapse, hturn⟩ | ⟨hconns, hturn⟩
  · rw [← hturn c]
    exact Server.step_owes hT helapse he hconn howes
  · rw [hturn c, hconns]
    exact ⟨conn, hconn, howes⟩

/-- In a run, the turns of the task are counted. -/
theorem Awaits.run {h : List (Fired Pair PairEvent)} (hawaits : s.Awaits k c m n)
    (hA : s.Agree env extensionId) (hid : extensionId ≠ "")
    (hr : Run (Pair.step env debug extensionId) s h s') :
    s'.Agree env extensionId ∧ s'.Awaits k c m (n - turns c h) := by
  induction hr with
  | nil => exact ⟨hA, hawaits⟩
  | cons hr hs ih =>
    refine ⟨ih.1.step hid hs, ?_⟩
    rw [turns_cons, ← Nat.sub_sub]
    exact ih.2.step ih.1.timely hs

/-- The first text that the companion receives on a socket of the extension is its request. -/
theorem Awaits.of_receive (hA : s.Agree env extensionId) {w : Wire} {conn : Connection}
    (hw : s.wires[k]? = some w) (hc : w.conn = some c)
    (hconn : s.server.connections[c]? = some conn) (hsent : conn.sent = [])
    (hs : s.step env debug extensionId (.receive k) = some s') : s'.Awaits k c 0 6 := by
  refine ⟨(step_moves hs).wires k w c hw hc, ?_⟩
  obtain ⟨w₁, hw₁, hs⟩ := Option.bind_eq_some_iff.1 hs
  obtain rfl := Option.some.inj (hw.symm.trans hw₁)
  unfold Pair.receives at hs
  split at hs
  · next c₁ text rest hc₁ hinbox =>
    obtain rfl := Option.some.inj (hc.symm.trans hc₁)
    obtain ⟨server, hserver, rfl⟩ := Option.map_eq_some_iff.1 hs
    obtain ⟨conn₁, hconn₁, hwired⟩ := hA.wired k w c hw hc
    obtain rfl := Option.some.inj (hconn.symm.trans hconn₁)
    rcases Server.step_cases hserver with ⟨_, _, heq, -⟩ |
      ⟨d, frame, conn₂, heq, hconn₂, hlistening, rfl⟩ | ⟨_, _, _, _, _, heq, -⟩ |
      ⟨_, -, heq | ⟨_, heq⟩⟩
    · cases heq
    · obtain ⟨rfl, rfl⟩ := ServerEvent.receive.inj heq
      obtain rfl := Option.some.inj (hconn.symm.trans hconn₂)
      refine ⟨_, List.getElem?_set_self (List.getElem?_eq_some_iff.1 hconn).1, ?_⟩
      cases hwired _ (Or.inl rfl) with
      | asked _ _ _ hfirst =>
        obtain ⟨request, nonce, requestedAtMs, hrequest, value, hvalue, htype, -⟩ :=
          hfirst.resolve_left (by rw [hinbox]; simp)
        obtain ⟨rfl, -⟩ := List.cons.inj (hinbox.symm.trans hrequest)
        unfold Connection.receive
        dsimp only
        rw [hvalue]
        refine Or.inr ⟨Nat.zero_le _, value, _, rfl, ?_⟩
        unfold dispatch
        dsimp only
        rw [htype]
        exact sendsWithin_handshake debug _ value
      | shaking _ _ _ htask | leaving htask | granted _ _ _ htask | ended htask =>
        rw [hlistening] at htask
        cases htask
      | joined _ hreply =>
        rw [hsent] at hreply
        cases hreply
    · cases heq
    · cases heq
    · cases heq
  · cases hs

end Steps

end Pair

end LanguageLlm.Desktop
