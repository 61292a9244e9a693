import Mathlib.Data.List.Nodup

/-!
# Insertion-ordered finite maps

A map with distinct keys that remembers the order in which its keys were first set: setting a
key that is present keeps its place, a new key goes to the end. `ofList` sets the pairs of a
list one after the other, so of two pairs with one key the later one counts.
-/

namespace LanguageLlm.Lib

/-- A finite map with its entries in the order in which their keys were first set. -/
structure OrderedMap (κ α : Type) where
  entries : List (κ × α)
  nodup : (entries.map Prod.fst).Nodup

namespace OrderedMap

variable {κ α β : Type}

@[ext] theorem ext {m n : OrderedMap κ α} (h : m.entries = n.entries) : m = n := by
  cases m; cases n; cases h; rfl

/-- The map without entries. -/
def empty : OrderedMap κ α := ⟨[], List.nodup_nil⟩

instance : Inhabited (OrderedMap κ α) := ⟨empty⟩

def keys (m : OrderedMap κ α) : List κ := m.entries.map Prod.fst

def values (m : OrderedMap κ α) : List α := m.entries.map Prod.snd

variable [DecidableEq κ]

/-- Replace the value of `k` in place. -/
def replaceIn (k : κ) (a : α) : List (κ × α) → List (κ × α)
  | [] => []
  | (k', a') :: l => if k' = k then (k', a) :: l else (k', a') :: replaceIn k a l

theorem replaceIn_keys (k : κ) (a : α) (l : List (κ × α)) :
    (replaceIn k a l).map Prod.fst = l.map Prod.fst := by
  induction l with
  | nil => rfl
  | cons p l ih =>
    obtain ⟨k', a'⟩ := p
    simp only [replaceIn]
    split
    · rfl
    · simp only [List.map_cons, ih]

/-- The value of a key. -/
def get? (m : OrderedMap κ α) (k : κ) : Option α := m.entries.lookup k

/-- Set a key: in place when it is present, at the end when it is new. -/
def set (m : OrderedMap κ α) (k : κ) (a : α) : OrderedMap κ α :=
  if h : k ∈ m.entries.map Prod.fst then
    ⟨replaceIn k a m.entries, by rw [replaceIn_keys]; exact m.nodup⟩
  else
    ⟨m.entries ++ [(k, a)], by
      rw [List.map_append, List.nodup_append]
      refine ⟨m.nodup, by simp, ?_⟩
      intro x hx y hy hxy
      simp only [List.map_cons, List.map_nil, List.mem_singleton] at hy
      subst hy
      subst hxy
      exact h hx⟩

/-- Remove a key. -/
def delete (m : OrderedMap κ α) (k : κ) : OrderedMap κ α :=
  ⟨m.entries.filter (fun p => p.1 ≠ k), by
    exact m.nodup.sublist (List.filter_sublist.map Prod.fst)⟩

/-- Keep the entries that satisfy `p`. -/
def filter (m : OrderedMap κ α) (p : κ → α → Bool) : OrderedMap κ α :=
  ⟨m.entries.filter (fun e => p e.1 e.2), m.nodup.sublist (List.filter_sublist.map Prod.fst)⟩

/-- Set the pairs of a list one after the other. -/
def setAll (m : OrderedMap κ α) (l : List (κ × α)) : OrderedMap κ α :=
  l.foldl (fun m p => m.set p.1 p.2) m

/-- The map of a list of pairs; a later pair replaces an earlier one with its key. -/
def ofList (l : List (κ × α)) : OrderedMap κ α := setAll empty l

/-! ## Lookup -/

@[simp] theorem get?_empty (k : κ) : (empty : OrderedMap κ α).get? k = none := rfl

theorem lookup_replaceIn_self {k : κ} {a : α} {l : List (κ × α)} (h : k ∈ l.map Prod.fst) :
    (replaceIn k a l).lookup k = some a := by
  induction l with
  | nil => cases h
  | cons p l ih =>
    obtain ⟨k', a'⟩ := p
    simp only [replaceIn]
    split
    · next hk => subst hk; simp
    · next hk =>
      have hne : (k == k') = false := by simpa using fun e => hk e.symm
      rw [List.lookup_cons, hne]
      refine ih ?_
      simp only [List.map_cons, List.mem_cons] at h
      exact h.resolve_left fun e => hk e.symm

theorem lookup_replaceIn_ne {k k' : κ} (a : α) (hne : k' ≠ k) (l : List (κ × α)) :
    (replaceIn k a l).lookup k' = l.lookup k' := by
  induction l with
  | nil => rfl
  | cons p l ih =>
    obtain ⟨q, b⟩ := p
    simp only [replaceIn]
    split
    · next hq =>
      subst hq
      simp only [List.lookup_cons]
      have : (k' == q) = false := by simpa using hne
      rw [this]
    · simp only [List.lookup_cons, ih]

theorem lookup_none_of_notMem {k : κ} {l : List (κ × α)} (h : k ∉ l.map Prod.fst) :
    l.lookup k = none := by
  rw [List.lookup_eq_none_iff]
  intro p hp
  simp only [bne_iff_ne, ne_eq]
  rintro rfl
  exact h (List.mem_map_of_mem hp)

@[simp] theorem get?_set_self (m : OrderedMap κ α) (k : κ) (a : α) :
    (m.set k a).get? k = some a := by
  unfold set get?
  split
  · next h => exact lookup_replaceIn_self h
  · next h =>
    rw [List.lookup_append, lookup_none_of_notMem h]
    exact List.lookup_cons_self

theorem get?_set_ne (m : OrderedMap κ α) {k k' : κ} (a : α) (hne : k' ≠ k) :
    (m.set k a).get? k' = m.get? k' := by
  unfold set get?
  split
  · exact lookup_replaceIn_ne a hne _
  · rw [List.lookup_append]
    have hk : (k' == k) = false := by simpa using hne
    rw [List.lookup_cons, hk, List.lookup_nil, Option.or_none]

theorem get?_set (m : OrderedMap κ α) (k k' : κ) (a : α) :
    (m.set k a).get? k' = if k' = k then some a else m.get? k' := by
  split
  · next h => subst h; exact get?_set_self m _ a
  · next h => exact get?_set_ne m a h

theorem lookup_filter_ne {k k' : κ} (hne : k' ≠ k) (l : List (κ × α)) :
    (l.filter (fun p => p.1 ≠ k)).lookup k' = l.lookup k' := by
  induction l with
  | nil => rfl
  | cons p l ih =>
    obtain ⟨q, b⟩ := p
    by_cases hq : q = k
    · subst hq
      have : (k' == q) = false := by simpa using hne
      simp only [ne_eq, not_true_eq_false, decide_false, Bool.false_eq_true, not_false_eq_true,
        List.filter_cons_of_neg, List.lookup_cons, this]
      exact ih
    · rw [List.filter_cons_of_pos (by simpa using hq), List.lookup_cons, List.lookup_cons, ih]

theorem get?_delete_ne (m : OrderedMap κ α) {k k' : κ} (hne : k' ≠ k) :
    (m.delete k).get? k' = m.get? k' :=
  lookup_filter_ne hne _

@[simp] theorem get?_delete_self (m : OrderedMap κ α) (k : κ) : (m.delete k).get? k = none := by
  unfold delete get?
  refine lookup_none_of_notMem ?_
  simp

theorem get?_delete (m : OrderedMap κ α) (k k' : κ) :
    (m.delete k).get? k' = if k' = k then none else m.get? k' := by
  split
  · next h => subst h; exact get?_delete_self m _
  · next h => exact get?_delete_ne m h

/-! ## Entries -/

theorem lookup_eq_some_of_mem {l : List (κ × α)} (hn : (l.map Prod.fst).Nodup) {k : κ} {a : α}
    (h : (k, a) ∈ l) : l.lookup k = some a := by
  induction l with
  | nil => cases h
  | cons p l ih =>
    obtain ⟨q, b⟩ := p
    simp only [List.map_cons, List.nodup_cons] at hn
    rcases List.mem_cons.1 h with he | hl
    · cases he; simp
    · have hne : k ≠ q := fun e => hn.1 (e ▸ List.mem_map_of_mem (f := Prod.fst) hl)
      have : (k == q) = false := by simpa using hne
      rw [List.lookup_cons, this]
      exact ih hn.2 hl

theorem get?_eq_some_iff (m : OrderedMap κ α) {k : κ} {a : α} :
    m.get? k = some a ↔ (k, a) ∈ m.entries := by
  constructor
  · intro h
    obtain ⟨l₁, l₂, hl, -⟩ := List.lookup_eq_some_iff.1 h
    rw [hl]
    simp
  · exact lookup_eq_some_of_mem m.nodup

theorem get?_filter (m : OrderedMap κ α) (p : κ → α → Bool) (k : κ) :
    (m.filter p).get? k = (m.get? k).filter (p k) := by
  apply Option.ext
  intro a
  rw [get?_eq_some_iff, Option.filter_eq_some_iff, get?_eq_some_iff]
  exact List.mem_filter

theorem mem_values_iff (m : OrderedMap κ α) {a : α} :
    a ∈ m.values ↔ ∃ k, m.get? k = some a := by
  simp only [values, List.mem_map, get?_eq_some_iff, Prod.exists, exists_eq_right]

theorem filter_eq_singleton {γ : Type} {p : γ → Bool} {x : γ} {l : List γ} (hn : l.Nodup)
    (hx : x ∈ l) (h : ∀ y ∈ l, p y = true ↔ y = x) : l.filter p = [x] := by
  induction l with
  | nil => cases hx
  | cons y l ih =>
    obtain ⟨hy, hn⟩ := List.nodup_cons.1 hn
    have hl : ∀ z ∈ l, p z = true ↔ z = x := fun z hz => h z (List.mem_cons_of_mem _ hz)
    rcases List.mem_cons.1 hx with rfl | hx
    · have hnil : l.filter p = [] := by
        rw [List.filter_eq_nil_iff]
        intro z hz hp
        exact hy ((hl z hz).1 hp ▸ hz)
      rw [List.filter_cons_of_pos ((h x List.mem_cons_self).2 rfl), hnil]
    · have hne : ¬ p y = true := by
        intro hp
        exact hy ((h y List.mem_cons_self).1 hp ▸ hx)
      rw [List.filter_cons_of_neg hne, ih hn hx hl]

/-- The only entry that is kept after a key was set, when none was kept before but of that key. -/
theorem filter_entries_set {m : OrderedMap κ α} {k : κ} {a : α} {p : κ × α → Bool}
    (hm : ∀ e ∈ m.entries, p e = true → e.1 = k) (hp : p (k, a) = true) :
    (m.set k a).entries.filter p = [(k, a)] := by
  have hmem : (k, a) ∈ (m.set k a).entries := (get?_eq_some_iff _).1 (get?_set_self ..)
  refine filter_eq_singleton (m.set k a).nodup.of_map hmem fun e he => ⟨fun hpe => ?_, ?_⟩
  · have hget := (get?_eq_some_iff _).2 he
    rw [get?_set] at hget
    split at hget
    · next hk => rw [Option.some.inj hget, ← hk]
    · next hk => exact absurd (hm e ((get?_eq_some_iff _).1 hget) hpe) hk
  · rintro rfl
    exact hp

/-! ## Keys and counts -/

theorem mem_keys_iff (m : OrderedMap κ α) {k : κ} : k ∈ m.keys ↔ ∃ a, m.get? k = some a := by
  rw [keys, List.mem_map]
  constructor
  · rintro ⟨e, he, rfl⟩
    exact ⟨e.2, (m.get?_eq_some_iff).2 he⟩
  · rintro ⟨a, ha⟩
    exact ⟨(k, a), m.get?_eq_some_iff.1 ha, rfl⟩

theorem notMem_keys_iff (m : OrderedMap κ α) {k : κ} : k ∉ m.keys ↔ m.get? k = none := by
  rw [mem_keys_iff]
  cases m.get? k <;> simp

/-- A new key comes last. -/
theorem entries_set_of_none {m : OrderedMap κ α} {k : κ} (h : m.get? k = none) (a : α) :
    (m.set k a).entries = m.entries ++ [(k, a)] := by
  have hk : k ∉ m.entries.map Prod.fst := m.notMem_keys_iff.2 h
  rw [set, dif_neg hk]

theorem entries_set_of_some {m : OrderedMap κ α} {k : κ} {a₀ : α} (h : m.get? k = some a₀) (a : α) :
    (m.set k a).entries = replaceIn k a m.entries := by
  have hk : k ∈ m.entries.map Prod.fst := m.mem_keys_iff.2 ⟨a₀, h⟩
  rw [set, dif_pos hk]

theorem replaceIn_self {k : κ} {a : α} {l : List (κ × α)} (h : l.lookup k = some a) :
    replaceIn k a l = l := by
  induction l with
  | nil => rfl
  | cons p l ih =>
    obtain ⟨k', a'⟩ := p
    rw [replaceIn]
    rw [List.lookup_cons] at h
    by_cases hk : k' = k
    · subst hk
      rw [beq_self_eq_true] at h
      rw [if_pos rfl, Option.some.inj h]
    · have hbeq : (k == k') = false := by simpa using Ne.symm hk
      rw [hbeq] at h
      rw [if_neg hk, ih h]

/-- Setting a key to the value that it has. -/
theorem set_eq_self {m : OrderedMap κ α} {k : κ} {a : α} (h : m.get? k = some a) :
    m.set k a = m := by
  apply ext
  rw [entries_set_of_some h, replaceIn_self h]

theorem countP_replaceIn {k : κ} {a a₀ : α} {l : List (κ × α)} (h : l.lookup k = some a₀)
    {p : κ × α → Bool} (hp : p (k, a) = p (k, a₀)) : (replaceIn k a l).countP p = l.countP p := by
  induction l with
  | nil => rfl
  | cons q l ih =>
    obtain ⟨k', a'⟩ := q
    rw [replaceIn]
    rw [List.lookup_cons] at h
    by_cases hk : k' = k
    · subst hk
      rw [beq_self_eq_true] at h
      rw [if_pos rfl, List.countP_cons, List.countP_cons, hp, Option.some.inj h]
    · have hbeq : (k == k') = false := by simpa using Ne.symm hk
      rw [hbeq] at h
      rw [if_neg hk, List.countP_cons, List.countP_cons, ih h]

/-! ## Setting a list of pairs -/

@[simp] theorem setAll_nil (m : OrderedMap κ α) : m.setAll [] = m := rfl

@[simp] theorem setAll_cons (m : OrderedMap κ α) (p : κ × α) (l : List (κ × α)) :
    m.setAll (p :: l) = (m.set p.1 p.2).setAll l := rfl

/-- What a map holds after setting a list comes from the list or was there before. -/
theorem get?_setAll {m : OrderedMap κ α} {l : List (κ × α)} {k : κ} {a : α}
    (h : (m.setAll l).get? k = some a) :
    (k, a) ∈ l ∨ (k ∉ l.map Prod.fst ∧ m.get? k = some a) := by
  induction l generalizing m with
  | nil => exact Or.inr ⟨by simp, h⟩
  | cons p l ih =>
    obtain ⟨q, b⟩ := p
    rcases ih h with hm | ⟨hm, hg⟩
    · exact Or.inl (List.mem_cons_of_mem _ hm)
    · rw [get?_set] at hg
      split at hg
      · next hk =>
        cases hg
        subst hk
        exact Or.inl List.mem_cons_self
      · next hk => exact Or.inr ⟨by simp [hk, hm], hg⟩

/-- What a map of a list holds is in the list. -/
theorem mem_of_get?_ofList {l : List (κ × α)} {k : κ} {a : α} (h : (ofList l).get? k = some a) :
    (k, a) ∈ l := by
  rcases get?_setAll h with hm | ⟨-, hm⟩
  · exact hm
  · simp at hm

/-- The last pair with a key decides. -/
theorem get?_setAll_eq (m : OrderedMap κ α) (l : List (κ × α)) (k : κ) :
    (m.setAll l).get? k = ((l.reverse.find? fun p => p.1 = k).map Prod.snd).or (m.get? k) := by
  induction l generalizing m with
  | nil => rfl
  | cons p l ih =>
    rw [setAll_cons, ih, get?_set, List.reverse_cons, List.find?_append, List.find?_singleton]
    cases l.reverse.find? fun p => decide (p.1 = k) with
    | some q => rfl
    | none =>
      by_cases hk : p.1 = k
      · simp [hk]
      · simp [hk, Ne.symm hk]

/-- A map made of the elements of a list: the last element with the key decides. -/
theorem get?_ofList_map {γ : Type} (l : List γ) (f : γ → κ) (g : γ → α) (k : κ) :
    (ofList (l.map fun x => (f x, g x))).get? k = (l.reverse.find? fun x => f x = k).map g := by
  rw [ofList, get?_setAll_eq, get?_empty, Option.or_none, ← List.map_reverse, List.find?_map,
    Option.map_map]
  rfl

/-- New keys go to the end, in their order. -/
theorem entries_setAll (m : OrderedMap κ α) {l : List (κ × α)} (hn : (l.map Prod.fst).Nodup)
    (hd : ∀ p ∈ l, p.1 ∉ m.entries.map Prod.fst) : (m.setAll l).entries = m.entries ++ l := by
  induction l generalizing m with
  | nil => simp
  | cons p l ih =>
    obtain ⟨k, a⟩ := p
    simp only [List.map_cons, List.nodup_cons] at hn
    have hset : (m.set k a).entries = m.entries ++ [(k, a)] := by
      unfold set
      rw [dif_neg (hd (k, a) List.mem_cons_self)]
    rw [setAll_cons, ih (m.set k a) hn.2, hset, List.append_assoc]
    · rfl
    · intro q hq
      rw [hset, List.map_append, List.mem_append]
      rintro (h | h)
      · exact hd q (List.mem_cons_of_mem _ hq) h
      · have hqk : q.1 = k := by simpa using h
        exact hn.1 (hqk ▸ List.mem_map_of_mem hq)

/-- The map of a list without repeated keys has the entries of the list. -/
theorem entries_ofList {l : List (κ × α)} (hn : (l.map Prod.fst).Nodup) :
    (ofList l).entries = l := by
  rw [ofList, entries_setAll empty hn (fun _ _ => List.not_mem_nil)]
  rfl

end OrderedMap

end LanguageLlm.Lib
