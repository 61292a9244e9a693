import Mathlib.Algebra.GroupWithZero.Nat
import Mathlib.Data.Fintype.Card
import Mathlib.Order.WellFounded
import LanguageLlm.Lib.Run

/-!
# Programs that hold mutexes

Threads acquire and release mutexes that are not reentrant. `acyclic_completes` says that no
interleaving leaves a thread waiting for ever when the order in which the programs nest the mutexes
has no cycle; `reentry_waits` is the converse for a program that acquires a mutex that it holds.
-/

namespace LanguageLlm.Lib

variable {μ : Type}

/-- What a thread does with mutexes; `branch` leaves open which way it goes. -/
inductive LockProgram (μ : Type) where
  | done
  | acquire (m : μ) (next : LockProgram μ)
  | release (m : μ) (next : LockProgram μ)
  | branch (left right : LockProgram μ)
  deriving DecidableEq

namespace LockProgram

/-- One program after the other. -/
def seq : LockProgram μ → LockProgram μ → LockProgram μ
  | done, q => q
  | acquire m next, q => acquire m (next.seq q)
  | release m next, q => release m (next.seq q)
  | branch left right, q => branch (left.seq q) (right.seq q)

@[simp]
theorem seq_done (p : LockProgram μ) : p.seq done = p := by
  induction p with
  | done => rfl
  | acquire m next ih => exact congrArg (acquire m) ih
  | release m next ih => exact congrArg (release m) ih
  | branch left right ihl ihr => rw [seq, ihl, ihr]

theorem seq_assoc (p q r : LockProgram μ) : (p.seq q).seq r = p.seq (q.seq r) := by
  induction p with
  | done => rfl
  | acquire m next ih => exact congrArg (acquire m) ih
  | release m next ih => exact congrArg (release m) ih
  | branch left right ihl ihr => rw [seq, seq, seq, ihl, ihr]

/-- A critical section with what happens in it. -/
def hold (m : μ) (body : LockProgram μ) : LockProgram μ := acquire m (body.seq (release m done))

variable [DecidableEq μ]

/-- The pairs of a mutex that is held and one that is acquired meanwhile. -/
def nestings (held : List μ) : LockProgram μ → List (μ × μ)
  | done => []
  | acquire m next => held.map (·, m) ++ nestings (m :: held) next
  | release m next => nestings (held.erase m) next
  | branch left right => nestings held left ++ nestings held right

/-- What is released is held, and nothing is held at the end. -/
def Balanced (held : List μ) : LockProgram μ → Prop
  | done => held = []
  | acquire m next => Balanced (m :: held) next
  | release m next => m ∈ held ∧ Balanced (held.erase m) next
  | branch left right => Balanced held left ∧ Balanced held right

instance decidableBalanced : ∀ (held : List μ) (p : LockProgram μ), Decidable (Balanced held p)
  | held, done => inferInstanceAs (Decidable (held = []))
  | held, acquire m next => decidableBalanced (m :: held) next
  | held, release m next =>
    have := decidableBalanced (held.erase m) next
    inferInstanceAs (Decidable (m ∈ held ∧ Balanced (held.erase m) next))
  | held, branch left right =>
    have := decidableBalanced held left
    have := decidableBalanced held right
    inferInstanceAs (Decidable (Balanced held left ∧ Balanced held right))

/-- A bound for the steps of a program. -/
def size : LockProgram μ → Nat
  | done => 0
  | acquire _ next | release _ next => next.size + 1
  | branch left right => left.size + right.size + 1

end LockProgram

/-! ## Threads -/

structure Thread (μ : Type) where
  rest : LockProgram μ
  held : List μ

/-- What a thread does next: the step of its program, with the side that it takes at a branch, or a
panic, which releases what it holds. -/
inductive ThreadStep where
  | go (left : Bool)
  | panic

variable [DecidableEq μ]

open LockProgram

/-- A thread takes a step; one that waits for a mutex has none. -/
def Thread.step (held : List μ) (t : Thread μ) (l : ThreadStep) : Option (Thread μ) :=
  match t.rest, l with
  | .done, _ => none
  | .acquire m next, .go _ => if m ∈ held then none else some ⟨next, m :: t.held⟩
  | .acquire m _, .panic => if m ∈ held then none else some ⟨.done, []⟩
  | .release m next, .go _ => some ⟨next, t.held.erase m⟩
  | .branch left right, .go b => some ⟨if b then left else right, t.held⟩
  | .release _ _, .panic | .branch _ _, .panic => some ⟨.done, []⟩

/-- The mutexes that the threads hold. -/
def heldBy (threads : List (Thread μ)) : List μ := threads.flatMap Thread.held

/-- One of the threads takes a step. -/
def lockStep (threads : List (Thread μ)) (l : Nat × ThreadStep) : Option (List (Thread μ)) :=
  match threads[l.1]? with
  | some t => (t.step (heldBy threads) l.2).map fun t' => threads.set l.1 t'
  | none => none

/-- The threads before their first step. -/
def startThreads (programs : List (LockProgram μ)) : List (Thread μ) :=
  programs.map fun p => ⟨p, []⟩

/-- A thread waits for a mutex, and goes on waiting for it whatever the threads do. -/
def WaitsForEver (threads : List (Thread μ)) (i : Nat) : Prop :=
  ∃ m next held, threads[i]? = some ⟨.acquire m next, held⟩ ∧
    ∀ h threads', Run lockStep threads h threads' → threads'[i]? = some ⟨.acquire m next, held⟩

section Steps

variable {threads threads' : List (Thread μ)} {i : Nat} {l : ThreadStep}

theorem lockStep_cases (hs : lockStep threads (i, l) = some threads') :
    ∃ t t', threads[i]? = some t ∧ t.step (heldBy threads) l = some t' ∧
      threads' = threads.set i t' := by
  simp only [lockStep] at hs
  split at hs
  · next t ht =>
    obtain ⟨t', ht', rfl⟩ := Option.map_eq_some_iff.1 hs
    exact ⟨t, t', ht, ht', rfl⟩
  · cases hs

theorem lockStep_of {t t' : Thread μ} (ht : threads[i]? = some t)
    (hs : t.step (heldBy threads) l = some t') :
    lockStep threads (i, l) = some (threads.set i t') := by
  simp [lockStep, ht, hs]

end Steps

/-! ## Programs that nest mutexes in an order -/

/-- A thread nests the mutexes as `R` says and releases them all. -/
structure Thread.Ordered (R : μ → μ → Prop) (t : Thread μ) : Prop where
  balanced : Balanced t.held t.rest
  nested : ∀ x ∈ nestings t.held t.rest, R x.1 x.2

section Order

variable {R : μ → μ → Prop} {threads : List (Thread μ)}

/-- A step keeps a thread in order, and leaves fewer steps. -/
theorem Thread.Ordered.step {held : List μ} {t t' : Thread μ} {l : ThreadStep} (ht : t.Ordered R)
    (hs : t.step held l = some t') : t'.Ordered R ∧ t'.rest.size < t.rest.size := by
  obtain ⟨rest, own⟩ := t
  obtain ⟨hbalanced, hnested⟩ := ht
  cases rest with
  | done => simp [Thread.step] at hs
  | acquire m next =>
    cases l with
    | go b =>
      simp only [Thread.step, Option.ite_none_left_eq_some, Option.some.injEq] at hs
      obtain ⟨_, rfl⟩ := hs
      exact ⟨⟨hbalanced, fun x hx => hnested x (List.mem_append_right _ hx)⟩, by simp [size]⟩
    | panic =>
      simp only [Thread.step, Option.ite_none_left_eq_some, Option.some.injEq] at hs
      obtain ⟨_, rfl⟩ := hs
      exact ⟨⟨rfl, by simp [nestings]⟩, by simp [size]⟩
  | release m next =>
    cases l with
    | go b =>
      obtain rfl := Option.some.inj hs
      exact ⟨⟨hbalanced.2, hnested⟩, by simp [size]⟩
    | panic =>
      obtain rfl := Option.some.inj hs
      exact ⟨⟨rfl, by simp [nestings]⟩, by simp [size]⟩
  | branch left right =>
    cases l with
    | go b =>
      obtain rfl := Option.some.inj hs
      cases b with
      | true =>
        exact ⟨⟨hbalanced.1, fun x hx => hnested x (List.mem_append_left _ hx)⟩, by
          simp only [size, if_true]; omega⟩
      | false =>
        exact ⟨⟨hbalanced.2, fun x hx => hnested x (List.mem_append_right _ hx)⟩, by
          simp only [size, Bool.false_eq_true, if_false]; omega⟩
    | panic =>
      obtain rfl := Option.some.inj hs
      exact ⟨⟨rfl, by simp [nestings]⟩, by simp [size]⟩

/-- A thread that is not done takes a step, or waits for a mutex that is held. -/
theorem Thread.step_or_waits (held : List μ) {t : Thread μ} (hnot : t.rest ≠ .done) :
    (∃ t', t.step held (.go true) = some t') ∨ ∃ m next, t.rest = .acquire m next ∧ m ∈ held := by
  obtain ⟨rest, own⟩ := t
  cases rest with
  | done => exact absurd rfl hnot
  | acquire m next =>
    by_cases hm : m ∈ held
    · exact Or.inr ⟨m, next, rfl, hm⟩
    · exact Or.inl ⟨⟨next, m :: own⟩, by simp [Thread.step, hm]⟩
  | release m next => exact Or.inl ⟨_, rfl⟩
  | branch left right => exact Or.inl ⟨_, rfl⟩

/-- One of the threads that wait for each other can take a step: the last of the chain. -/
theorem exists_step_of_waits (hR : WellFounded fun a b => R b a)
    (hordered : ∀ t ∈ threads, t.Ordered R) {m : μ} (hm : m ∈ heldBy threads) :
    ∃ t ∈ threads, ∃ t', t.step (heldBy threads) (.go true) = some t' := by
  induction m using hR.induction with
  | _ m ih =>
    obtain ⟨t, ht, hheld⟩ := List.mem_flatMap.1 hm
    have hnot : t.rest ≠ .done := by
      intro hdone
      have hbalanced := (hordered t ht).balanced
      rw [hdone] at hbalanced
      rw [show t.held = [] from hbalanced] at hheld
      cases hheld
    rcases t.step_or_waits (heldBy threads) hnot with hstep | ⟨m', next, hrest, hm'⟩
    · exact ⟨t, ht, hstep⟩
    · have hnested := (hordered t ht).nested (m, m') (by
        rw [hrest]
        exact List.mem_append_left _ (List.mem_map_of_mem hheld))
      exact ih m' hnested hm'

/-- Threads that nest their mutexes in an order without cycles are done, or one of them can take a
step. -/
theorem exists_step (hR : WellFounded fun a b => R b a) (hordered : ∀ t ∈ threads, t.Ordered R)
    {t : Thread μ} (ht : t ∈ threads) (hnot : t.rest ≠ .done) :
    ∃ l threads', lockStep threads l = some threads' := by
  obtain ⟨t₁, ht₁, t', hstep⟩ : ∃ t ∈ threads, ∃ t', t.step (heldBy threads) (.go true) =
    some t' := by
    rcases t.step_or_waits (heldBy threads) hnot with hstep | ⟨m, _, _, hm⟩
    · exact ⟨t, ht, hstep⟩
    · exact exists_step_of_waits hR hordered hm
  obtain ⟨i, hi⟩ := List.getElem?_of_mem ht₁
  exact ⟨(i, .go true), _, lockStep_of hi hstep⟩

theorem sum_map_set_lt {α : Type} (f : α → Nat) {l : List α} {i : Nat} {a a' : α}
    (ha : l[i]? = some a) (hlt : f a' < f a) : ((l.set i a').map f).sum < (l.map f).sum := by
  induction l generalizing i with
  | nil => cases ha
  | cons b l ih =>
    cases i with
    | zero =>
      obtain rfl := Option.some.inj ha
      simpa using hlt
    | succ i => simpa using ih ha

/-- A step keeps the threads in order and leaves fewer steps. -/
theorem lockStep_ordered {threads' : List (Thread μ)} {l : Nat × ThreadStep}
    (hordered : ∀ t ∈ threads, t.Ordered R) (hs : lockStep threads l = some threads') :
    (∀ t ∈ threads', t.Ordered R) ∧
      (threads'.map fun t => t.rest.size).sum < (threads.map fun t => t.rest.size).sum := by
  obtain ⟨t, t', ht, hstep, rfl⟩ := lockStep_cases hs
  have hmem : t ∈ threads := List.mem_of_getElem? ht
  obtain ⟨hordered', hsize⟩ := (hordered t hmem).step hstep
  constructor
  · intro u hu
    rcases List.mem_or_eq_of_mem_set hu with hu | rfl
    · exact hordered u hu
    · exact hordered'
  · exact sum_map_set_lt _ ht hsize

/-- Threads that nest their mutexes in an order without cycles can all complete. -/
theorem completes (hR : WellFounded fun a b => R b a) (hordered : ∀ t ∈ threads, t.Ordered R) :
    ∃ h threads', Run lockStep threads h threads' ∧ ∀ t ∈ threads', t.rest = .done := by
  induction hsize : (threads.map fun t => t.rest.size).sum using Nat.strong_induction_on
    generalizing threads with
  | _ n ih =>
    by_cases hdone : ∀ t ∈ threads, t.rest = .done
    · exact ⟨[], threads, .nil, hdone⟩
    · simp only [not_forall] at hdone
      obtain ⟨t, ht, hnot⟩ := hdone
      obtain ⟨l, threads₁, hs⟩ := exists_step hR hordered ht hnot
      obtain ⟨hordered₁, hlt⟩ := lockStep_ordered hordered hs
      obtain ⟨h, threads', hr, hdone'⟩ := ih _ (hsize ▸ hlt) hordered₁ rfl
      exact ⟨_, threads', (Run.nil.cons hs).append hr, hdone'⟩

/-- The threads stay in order. -/
theorem ordered_run {threads' : List (Thread μ)}
    {h : List (Fired (List (Thread μ)) (Nat × ThreadStep))}
    (hordered : ∀ t ∈ threads, t.Ordered R) (hr : Run lockStep threads h threads') :
    ∀ t ∈ threads', t.Ordered R :=
  Run.inv (fun threads => ∀ t ∈ threads, t.Ordered R) hordered
    (fun _ _ _ hordered hs => (lockStep_ordered hordered hs).1) hr

/-- No thread waits for ever. -/
theorem not_waitsForEver (hR : WellFounded fun a b => R b a) (hordered : ∀ t ∈ threads, t.Ordered R)
    (i : Nat) : ¬ WaitsForEver threads i := by
  rintro ⟨m, next, held, _, hwaits⟩
  obtain ⟨h, threads', hr, hdone⟩ := completes hR hordered
  have hlast := hdone _ (List.mem_of_getElem? (hwaits h threads' hr))
  cases hlast

/-- A relation on finitely many mutexes without cycles is well-founded. -/
theorem wellFounded_of_acyclic {μ : Type} [Finite μ] {R : μ → μ → Prop}
    (hacyclic : ∀ m, ¬ Relation.TransGen R m m) : WellFounded fun a b => R b a := by
  have htrans : IsTrans μ fun a b => Relation.TransGen R b a := ⟨fun _ _ _ hab hbc => hbc.trans hab⟩
  have hirrefl : Std.Irrefl fun a b => Relation.TransGen R b a := ⟨hacyclic⟩
  exact Subrelation.wf (fun hab => Relation.TransGen.single hab)
    (Finite.wellFounded_of_trans_of_irrefl fun a b => Relation.TransGen R b a)

/-- One of the programs acquires `b` while it holds `a`. -/
def Nests (programs : List (LockProgram μ)) (a b : μ) : Prop :=
  ∃ p ∈ programs, (a, b) ∈ nestings [] p

/-- When no chain of nested mutexes comes back to its first one, no interleaving leaves a thread
waiting for ever. -/
theorem acyclic_completes [Finite μ] {programs : List (LockProgram μ)}
    (hbalanced : ∀ p ∈ programs, Balanced [] p)
    (hacyclic : ∀ m, ¬ Relation.TransGen (Nests programs) m m)
    {h : List (Fired (List (Thread μ)) (Nat × ThreadStep))}
    (hr : Run lockStep (startThreads programs) h threads) (i : Nat) : ¬ WaitsForEver threads i := by
  refine not_waitsForEver (wellFounded_of_acyclic hacyclic) (ordered_run ?_ hr) i
  intro t ht
  obtain ⟨p, hp, rfl⟩ := List.mem_map.1 ht
  exact ⟨hbalanced p hp, fun x hx => ⟨p, hp, hx⟩⟩

end Order

/-! ## Programs that acquire a mutex that they hold -/

/-- A program acquires a mutex that it holds. -/
def Reenters (p : LockProgram μ) : Prop := ∃ m, (m, m) ∈ nestings [] p

instance (p : LockProgram μ) : Decidable (Reenters p) :=
  decidable_of_iff (∃ x ∈ nestings [] p, x.1 = x.2) (by
    constructor
    · rintro ⟨⟨m, m'⟩, hx, heq⟩
      obtain rfl : m = m' := heq
      exact ⟨m, hx⟩
    · rintro ⟨m, hx⟩
      exact ⟨_, hx, rfl⟩)

section Reentry

variable {threads : List (Thread μ)} {i : Nat}

/-- A thread that is about to acquire a mutex that it holds waits for ever. -/
theorem waitsForEver_of_held {m : μ} {next : LockProgram μ} {held : List μ}
    (ht : threads[i]? = some ⟨.acquire m next, held⟩) (hm : m ∈ held) : WaitsForEver threads i := by
  refine ⟨m, next, held, ht, fun h threads' hr => ?_⟩
  refine Run.inv (fun threads : List (Thread μ) => threads[i]? = some ⟨.acquire m next, held⟩)
    ht ?_ hr
  rintro threads ⟨j, l⟩ threads' ht hs
  obtain ⟨t, t', hj, hstep, rfl⟩ := lockStep_cases hs
  have hne : j ≠ i := by
    rintro rfl
    rw [ht, Option.some.injEq] at hj
    subst hj
    have hheld : m ∈ heldBy threads := List.mem_flatMap.2 ⟨_, List.mem_of_getElem? ht, hm⟩
    cases l <;> simp [Thread.step, hheld] at hstep
  rwa [List.getElem?_set_ne hne]

/-- A thread is the only one that may hold mutexes. -/
def Alone (threads : List (Thread μ)) (i : Nat) (t : Thread μ) : Prop :=
  threads[i]? = some t ∧ ∀ j t, j ≠ i → threads[j]? = some t → t.held = []

omit [DecidableEq μ] in
theorem Alone.free {t : Thread μ} (ha : Alone threads i t) {m : μ} (hm : m ∉ t.held) :
    m ∉ heldBy threads := by
  intro hheld
  obtain ⟨t', hmem, htm⟩ := List.mem_flatMap.1 hheld
  obtain ⟨j, hj⟩ := List.getElem?_of_mem hmem
  by_cases hji : j = i
  · rw [hji, ha.1, Option.some.injEq] at hj
    rw [← hj] at htm
    exact hm htm
  · rw [ha.2 j t' hji hj] at htm
    cases htm

/-- The way of a thread that is alone goes on after its step. -/
theorem Alone.reaches {t t' : Thread μ} {l : ThreadStep} (ha : Alone threads i t)
    (hs : t.step (heldBy threads) l = some t')
    (hnext : ∀ threads', Alone threads' i t' →
      ∃ h threads'', Run lockStep threads' h threads'' ∧ WaitsForEver threads'' i) :
    ∃ h threads'', Run lockStep threads h threads'' ∧ WaitsForEver threads'' i := by
  have hlt : i < threads.length := (List.getElem?_eq_some_iff.1 ha.1).1
  have ha' : Alone (threads.set i t') i t' := by
    refine ⟨List.getElem?_set_self hlt, fun j u hj hu => ?_⟩
    rw [List.getElem?_set_ne hj.symm] at hu
    exact ha.2 j u hj hu
  obtain ⟨h, threads'', hr, hwaits⟩ := hnext _ ha'
  exact ⟨_, threads'', (Run.nil.cons (lockStep_of ha.1 hs)).append hr, hwaits⟩

/-- While the others hold nothing, a thread reaches the place where its program acquires a mutex
that it holds. -/
theorem Alone.reaches_reentry {p : LockProgram μ} {held : List μ} (ha : Alone threads i ⟨p, held⟩)
    (hnested : ∃ m, (m, m) ∈ nestings held p) :
    ∃ h threads', Run lockStep threads h threads' ∧ WaitsForEver threads' i := by
  induction p generalizing threads held with
  | done => simp [nestings] at hnested
  | acquire m next ih =>
    by_cases hm : m ∈ held
    · exact ⟨[], threads, .nil, waitsForEver_of_held ha.1 hm⟩
    · obtain ⟨m', hm'⟩ := hnested
      have hnext : (m', m') ∈ nestings (m :: held) next := by
        rcases List.mem_append.1 hm' with hown | hnext
        · obtain ⟨k, hk, heq⟩ := List.mem_map.1 hown
          obtain ⟨rfl, rfl⟩ := Prod.mk.inj heq
          exact absurd hk hm
        · exact hnext
      have hstep : Thread.step (heldBy threads) ⟨.acquire m next, held⟩ (.go true) =
          some ⟨next, m :: held⟩ := by
        simp [Thread.step, ha.free hm]
      exact ha.reaches hstep fun _ ha' => ih ha' ⟨m', hnext⟩
  | release m next ih => exact ha.reaches (l := .go true) rfl fun _ ha' => ih ha' hnested
  | branch left right ihl ihr =>
    obtain ⟨m, hm⟩ := hnested
    rcases List.mem_append.1 hm with hl | hr
    · exact ha.reaches (l := .go true) rfl fun _ ha' => ihl ha' ⟨m, hl⟩
    · exact ha.reaches (l := .go false) rfl fun _ ha' => ihr ha' ⟨m, hr⟩

/-- A program that acquires a mutex that it holds waits for ever in some interleaving. -/
theorem reentry_waits {programs : List (LockProgram μ)} {p : LockProgram μ} (hp : p ∈ programs)
    (hre : Reenters p) : ∃ h threads i, Run lockStep (startThreads programs) h threads ∧
      WaitsForEver threads i := by
  obtain ⟨i, hi⟩ := List.getElem?_of_mem hp
  have ha : Alone (startThreads programs) i ⟨p, []⟩ := by
    refine ⟨by simp [startThreads, hi], fun j t _ ht => ?_⟩
    simp only [startThreads, List.getElem?_map, Option.map_eq_some_iff] at ht
    obtain ⟨_, _, rfl⟩ := ht
    rfl
  obtain ⟨h, threads, hr, hwaits⟩ := ha.reaches_reentry hre
  exact ⟨h, threads, i, hr, hwaits⟩

end Reentry

end LanguageLlm.Lib
