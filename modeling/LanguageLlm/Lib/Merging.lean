import Mathlib.Data.List.Chain
import Mathlib.Data.List.Forall2

/-!
# Merging neighbours

A list is read from the left; an element either joins the one that is held, which absorbs it, or is
held in its place. What is given out are groups of the list, each absorbed into its first element
(`exists_groups`), and no two neighbours among them join any more (`isChain_mergeRuns`), so that
merging them again changes nothing (`mergeRuns_of_isChain`).
-/

namespace LanguageLlm.Lib

variable {α β : Type} {joins : α → α → Bool} {absorb : α → α → α} {current : α} {l rest : List α}

/-- The merged list from the element that is held on. -/
def mergeFrom (joins : α → α → Bool) (absorb : α → α → α) (current : α) : List α → List α
  | [] => [current]
  | next :: rest =>
    if joins current next then mergeFrom joins absorb (absorb current next) rest
    else current :: mergeFrom joins absorb next rest

def mergeRuns (joins : α → α → Bool) (absorb : α → α → α) : List α → List α
  | [] => []
  | first :: rest => mergeFrom joins absorb first rest

/-- A group is absorbed into its first element. -/
def Absorbs (absorb : α → α → α) (group : List α) (out : α) : Prop :=
  ∃ first rest, group = first :: rest ∧ out = rest.foldl absorb first

theorem exists_groups_from (first : α) (held : List α) (h : current = held.foldl absorb first) :
    ∃ groups, groups.flatten = first :: held ++ rest ∧
      List.Forall₂ (Absorbs absorb) groups (mergeFrom joins absorb current rest) := by
  induction rest generalizing current first held with
  | nil =>
    refine ⟨[first :: held], by simp, ?_⟩
    exact List.Forall₂.cons ⟨first, held, rfl, h⟩ List.Forall₂.nil
  | cons next rest ih =>
    rw [mergeFrom]
    split_ifs
    · -- the group goes on
      have hnext : absorb current next = (held ++ [next]).foldl absorb first := by
        rw [List.foldl_append, ← h]
        rfl
      obtain ⟨groups, hflat, hall⟩ := ih first (held ++ [next]) hnext
      exact ⟨groups, by simpa using hflat, hall⟩
    · obtain ⟨groups, hflat, hall⟩ := ih next [] rfl
      refine ⟨(first :: held) :: groups, by simpa using hflat, ?_⟩
      exact List.Forall₂.cons ⟨first, held, rfl, h⟩ hall

/-- The list falls into groups, and each is absorbed into its first element. -/
theorem exists_groups (joins : α → α → Bool) (absorb : α → α → α) (l : List α) :
    ∃ groups, groups.flatten = l ∧
      List.Forall₂ (Absorbs absorb) groups (mergeRuns joins absorb l) := by
  cases l with
  | nil => exact ⟨[], rfl, List.Forall₂.nil⟩
  | cons first rest => exact exists_groups_from first [] rfl

/-- What an element keeps when it absorbs another one comes in the order of the list. -/
theorem map_mergeRuns_sublist (joins : α → α → Bool) (absorb : α → α → α) (key : α → β)
    (h : ∀ a b, key (absorb a b) = key a) (l : List α) :
    ((mergeRuns joins absorb l).map key).Sublist (l.map key) := by
  cases l with
  | nil => exact List.Sublist.refl _
  | cons first rest =>
    rw [mergeRuns]
    induction rest generalizing first with
    | nil => exact List.Sublist.refl _
    | cons next rest ih =>
      rw [mergeFrom]
      split_ifs
      · have hmerged := ih (absorb first next)
        rw [List.map_cons, h] at hmerged
        exact hmerged.trans ((List.sublist_cons_self _ _).cons_cons _)
      · exact (ih next).cons_cons _

/-- The first element given out is as the one that is held to those before it. -/
theorem exists_head_mergeFrom (h : ∀ a b c, joins a (absorb b c) = joins a b) (current : α)
    (rest : List α) :
    ∃ head tail, mergeFrom joins absorb current rest = head :: tail ∧
      ∀ a, joins a head = joins a current := by
  induction rest generalizing current with
  | nil => exact ⟨current, [], rfl, fun _ => rfl⟩
  | cons next rest ih =>
    rw [mergeFrom]
    split_ifs
    · obtain ⟨head, tail, hmerged, hhead⟩ := ih (absorb current next)
      exact ⟨head, tail, hmerged, fun a => (hhead a).trans (h a current next)⟩
    · exact ⟨current, _, rfl, fun _ => rfl⟩

theorem isChain_mergeFrom (h : ∀ a b c, joins a (absorb b c) = joins a b) (current : α)
    (rest : List α) :
    (mergeFrom joins absorb current rest).IsChain fun a b => joins a b = false := by
  induction rest generalizing current with
  | nil => exact List.isChain_singleton _
  | cons next rest ih =>
    rw [mergeFrom]
    split_ifs with hjoins
    · exact ih _
    · obtain ⟨head, tail, hmerged, hhead⟩ := exists_head_mergeFrom h next rest
      have hchain := ih next
      rw [hmerged] at hchain ⊢
      have hfirst : joins current head = false := by
        rw [hhead]
        exact Bool.eq_false_iff.2 hjoins
      exact List.isChain_cons_cons.2 ⟨hfirst, hchain⟩

/-- No two neighbours that are given out join. -/
theorem isChain_mergeRuns (h : ∀ a b c, joins a (absorb b c) = joins a b) :
    (mergeRuns joins absorb l).IsChain fun a b => joins a b = false := by
  cases l with
  | nil => exact List.isChain_nil
  | cons first rest => exact isChain_mergeFrom h first rest

/-- A list without neighbours that join stays as it is. -/
theorem mergeRuns_of_isChain (h : l.IsChain fun a b => joins a b = false) :
    mergeRuns joins absorb l = l := by
  cases l with
  | nil => rfl
  | cons first rest =>
    rw [mergeRuns]
    induction rest generalizing first with
    | nil => rfl
    | cons next rest ih =>
      obtain ⟨hfirst, hrest⟩ := List.isChain_cons_cons.1 h
      rw [mergeFrom, hfirst, if_neg (by decide), ih next hrest]

/-! ## Merging twice -/

section Twice

variable {joins' : α → α → Bool}

/-- Absorbing may be done in either order, an element joins as its first one does, and what joins
an element joins what has absorbed that element, then more eagerly. -/
structure Refines (joins joins' : α → α → Bool) (absorb : α → α → α) : Prop where
  assoc : ∀ a b c, absorb (absorb a b) c = absorb a (absorb b c)
  first : ∀ a b c, joins' a (absorb b c) = joins' a b
  eager : ∀ a b, joins a b = true → joins' a b = true
  behind : ∀ a b c, joins' b c = true → joins' (absorb a b) c = true

/-- The second pass over the list that the first one gives out, from an element on that is held in
both of them, with another one before it or without. -/
theorem Refines.mergeFrom_append (h : Refines joins joins' absorb) (next : α) (rest l : List α) :
    mergeRuns joins' absorb (mergeFrom joins absorb next rest ++ l) =
        mergeFrom joins' absorb next (rest ++ l) ∧
      ∀ held, mergeFrom joins' absorb held (mergeFrom joins absorb next rest ++ l) =
        mergeFrom joins' absorb held (next :: (rest ++ l)) := by
  induction rest generalizing next with
  | nil => exact ⟨rfl, fun _ => rfl⟩
  | cons third rest ih =>
    by_cases hjoins : joins next third = true
    · obtain ⟨hruns, hheld⟩ := ih (absorb next third)
      have hjoins' := h.eager next third hjoins
      rw [mergeFrom, if_pos hjoins, List.cons_append]
      constructor
      · rw [hruns, mergeFrom, if_pos hjoins']
      · intro held
        rw [hheld, mergeFrom, mergeFrom, h.first]
        by_cases hnext : joins' held next = true
        · rw [if_pos hnext, if_pos hnext, mergeFrom, if_pos (h.behind held next third hjoins'),
            h.assoc]
        · rw [if_neg hnext, if_neg hnext, mergeFrom, if_pos hjoins']
    · obtain ⟨hruns, hheld⟩ := ih third
      rw [mergeFrom, if_neg hjoins, List.cons_append]
      constructor
      · exact hheld next
      · intro held
        rw [mergeFrom, hheld, hheld, ← mergeFrom, List.cons_append]

theorem Refines.mergeFrom_mergeRuns (h : Refines joins joins' absorb) (held : α) (l m : List α) :
    mergeFrom joins' absorb held (l ++ mergeRuns joins absorb m) =
      mergeFrom joins' absorb held (l ++ m) := by
  induction l generalizing held with
  | nil =>
    cases m with
    | nil => rfl
    | cons first rest =>
      have hfirst := (h.mergeFrom_append first rest []).2 held
      rwa [List.append_nil, List.append_nil] at hfirst
  | cons x l ih => rw [List.cons_append, List.cons_append, mergeFrom, mergeFrom, ih, ih]

/-- A pass that joins less, over each of two parts before one that joins more, changes nothing. -/
theorem mergeRuns_append_mergeRuns (h : Refines joins joins' absorb) (l m : List α) :
    mergeRuns joins' absorb (mergeRuns joins absorb l ++ mergeRuns joins absorb m) =
      mergeRuns joins' absorb (l ++ m) := by
  cases l with
  | nil =>
    cases m with
    | nil => rfl
    | cons first rest =>
      have hfirst := (h.mergeFrom_append first rest []).1
      rwa [List.append_nil, List.append_nil] at hfirst
  | cons first rest =>
    rw [mergeRuns, (h.mergeFrom_append first rest _).1, h.mergeFrom_mergeRuns]
    rfl

end Twice

end LanguageLlm.Lib
