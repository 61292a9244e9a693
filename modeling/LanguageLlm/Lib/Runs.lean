import Mathlib.Data.List.DropRight
import Mathlib.Data.List.Infix

/-!
# Maximal runs and occurrences in a list

A maximal run of a class of elements cannot be extended on either side. `List.splitOnP` cuts a list
into the maximal runs between its separators (`mem_splitOnP_iff`), and elements of a class that
stand together lie in a maximal run of it (`MaxRun.exists_of_all`). `findFirst` finds the first
occurrence of a word. A scan that remembers where its run began finds the maximal runs of places one
after the other (`RunScan.finish`).
-/

namespace LanguageLlm.Lib

variable {α : Type}

/-! ## Maximal runs -/

/-- All elements of `run` are in the class, its neighbours are not. -/
structure MaxRun (p : α → Bool) (before run after : List α) : Prop where
  all : ∀ a ∈ run, p a = true
  left : ∀ a ∈ before.getLast?, p a = false
  right : ∀ a ∈ after.head?, p a = false

variable {p : α → Bool} {before run after : List α}

theorem head?_dropWhile_false {a : α} {l : List α} (ha : a ∈ (l.dropWhile p).head?) :
    p a = false := by
  have h := List.head?_dropWhile_not p l
  rw [Option.mem_def.1 ha] at h
  exact h

theorem getLast?_append_cons (b : List α) (a : α) (l : List α) :
    (b ++ a :: l).getLast? = (a :: l).getLast? := by
  rw [List.getLast?_append_of_ne_nil]
  exact List.cons_ne_nil a l

/-- Elements of a class that stand together lie in a maximal run. -/
theorem MaxRun.exists_of_all (hrun : ∀ a ∈ run, p a = true) (before after : List α) :
    ∃ b x y a, before = b ++ x ∧ after = y ++ a ∧ MaxRun p b (x ++ run ++ y) a := by
  refine ⟨before.rdropWhile p, before.rtakeWhile p, after.takeWhile p, after.dropWhile p,
    (List.rdropWhile_append_rtakeWhile ..).symm, List.takeWhile_append_dropWhile.symm, ?_, ?_, ?_⟩
  · intro a ha
    rw [List.mem_append, List.mem_append] at ha
    rcases ha with (ha | ha) | ha
    · exact List.mem_rtakeWhile_imp ha
    · exact hrun a ha
    · exact List.mem_takeWhile_imp ha
  · intro a ha
    rw [List.rdropWhile, List.getLast?_reverse] at ha
    exact head?_dropWhile_false ha
  · intro a ha
    exact head?_dropWhile_false ha

theorem mem_getLast?_append {a : α} {l l' : List α} (h : a ∈ (l ++ l').getLast?) :
    a ∈ l'.getLast? ∨ l' = [] ∧ a ∈ l.getLast? := by
  cases l' using List.reverseRecOn with
  | nil => exact Or.inr ⟨rfl, by simpa using h⟩
  | append_singleton l' b _ => exact Or.inl (by simpa [← List.append_assoc] using h)

theorem mem_head?_append {a : α} {l l' : List α} (h : a ∈ (l ++ l').head?) :
    a ∈ l.head? ∨ l = [] ∧ a ∈ l'.head? := by
  cases l with
  | nil => exact Or.inr ⟨rfl, h⟩
  | cons b l => exact Or.inl h

theorem getLast?_of_append {a : α} {l l' : List α} (h : a ∈ l'.getLast?) :
    a ∈ (l ++ l').getLast? := by
  rw [Option.mem_def, List.getLast?_append, Option.mem_def.1 h]
  rfl

theorem head?_of_append {a : α} {l l' : List α} (h : a ∈ l.head?) : a ∈ (l ++ l').head? := by
  rw [Option.mem_def, List.head?_append, Option.mem_def.1 h]
  rfl

theorem exists_getLast? {l : List α} (h : l ≠ []) : ∃ a ∈ l, a ∈ l.getLast? :=
  ⟨l.getLast h, List.getLast_mem h, List.getLast?_eq_some_getLast h⟩

theorem exists_head? {l : List α} (h : l ≠ []) : ∃ a ∈ l, a ∈ l.head? :=
  ⟨l.head h, List.head_mem h, List.head?_eq_some_head h⟩

/-! ## Splitting -/

theorem eq_nil_of_getLast? {l : List α} (hall : ∀ a ∈ l, p a = true)
    (hlast : ∀ a ∈ l.getLast?, p a = false) : l = [] := by
  by_contra hne
  obtain ⟨a, ha, hmem⟩ := exists_getLast? hne
  have hfalse := hlast a hmem
  rw [hall a ha] at hfalse
  cases hfalse

theorem eq_nil_of_head? {l : List α} (hall : ∀ a ∈ l, p a = true)
    (hhead : ∀ a ∈ l.head?, p a = false) : l = [] := by
  by_contra hne
  obtain ⟨a, ha, hmem⟩ := exists_head? hne
  have hfalse := hhead a hmem
  rw [hall a ha] at hfalse
  cases hfalse

/-- What stands before a separator does not touch the runs after it. -/
theorem maxRun_append_cons {acc t : List α} {s : α} (hs : p s = false) :
    MaxRun p (acc ++ s :: before) t after ↔ MaxRun p before t after := by
  have hleft : (∀ a ∈ (acc ++ s :: before).getLast?, p a = false) ↔
      ∀ a ∈ before.getLast?, p a = false := by
    rw [getLast?_append_cons, List.getLast?_cons]
    cases before.getLast? with
    | none => simp [hs]
    | some b => simp
  exact ⟨fun h => ⟨h.all, hleft.1 h.left, h.right⟩, fun h => ⟨h.all, hleft.2 h.left, h.right⟩⟩

/-- A run that begins among elements of the class before a separator is all of them. -/
theorem MaxRun.eq_of_append {acc l t : List α} {s : α} (h : MaxRun p [] t after)
    (hacc : ∀ a ∈ acc, p a = true) (hs : p s = false) (hl : acc ++ s :: l = t ++ after) :
    t = acc := by
  rcases List.append_eq_append_iff.1 hl with ⟨e, rfl, he⟩ | ⟨e, rfl, he⟩
  · cases e with
    | nil => simp
    | cons c e =>
      cases he
      rw [h.all s (by simp)] at hs
      cases hs
  · have hrest : e = [] := by
      refine eq_nil_of_head? (fun a ha => hacc a (by simp [ha])) fun a ha => h.right a ?_
      rw [he]
      exact head?_of_append ha
    rw [hrest, List.append_nil]

/-- A run of a list that begins with elements of the class and goes on after a separator. -/
theorem maxRun_append_cons_iff {acc l t : List α} {s : α} (hacc : ∀ a ∈ acc, p a = true)
    (hs : p s = false) :
    (∃ before after, acc ++ s :: l = before ++ (t ++ after) ∧ MaxRun p before t after) ↔
      t = acc ∨ ∃ before after, l = before ++ (t ++ after) ∧ MaxRun p before t after := by
  constructor
  · intro hrun
    obtain ⟨before, after, hl, hrun⟩ := hrun
    by_cases hsep : ∃ e, before = acc ++ s :: e
    · obtain ⟨e, rfl⟩ := hsep
      rw [List.append_assoc, List.cons_append] at hl
      have htail := List.append_cancel_left hl
      exact Or.inr ⟨e, after, (List.cons.inj htail).2, (maxRun_append_cons hs).1 hrun⟩
    · -- the run begins before the separator, so with the first element
      left
      have hbefore : before <+: acc := by
        rcases List.append_eq_append_iff.1 hl with ⟨e, rfl, he⟩ | ⟨e, rfl, -⟩
        · cases e with
          | nil => simp
          | cons c e =>
            cases he
            exact absurd ⟨e, rfl⟩ hsep
        · exact List.prefix_append _ _
      have hnil : before = [] :=
        eq_nil_of_getLast? (fun a ha => hacc a (hbefore.subset ha)) hrun.left
      subst hnil
      exact hrun.eq_of_append hacc hs hl
  · intro hrun
    rcases hrun with rfl | ⟨before, after, rfl, h⟩
    · exact ⟨[], s :: l, rfl, hacc, nofun, fun a ha => by cases ha; exact hs⟩
    · exact ⟨acc ++ s :: before, after, by simp, (maxRun_append_cons hs).2 h⟩

theorem mem_splitOnPPrepend_iff {s : α → Bool} {l acc t : List α}
    (hacc : ∀ a ∈ acc.reverse, (!s a) = true) :
    t ∈ List.splitOnPPrepend s l acc ↔
      ∃ before after, acc.reverse ++ l = before ++ (t ++ after) ∧
        MaxRun (fun a => !s a) before t after := by
  induction l generalizing acc with
  | nil =>
    rw [List.splitOnPPrepend_nil, List.mem_singleton, List.append_nil]
    constructor
    · rintro rfl
      exact ⟨[], [], by simp, hacc, nofun, nofun⟩
    · rintro ⟨before, after, hl, hall, hleft, hright⟩
      rw [hl] at hacc ⊢
      have hbefore : before = [] := by
        cases before using List.reverseRecOn with
        | nil => rfl
        | append_singleton before a _ =>
          have hfalse := hleft a (by simp)
          rw [hacc a (by simp)] at hfalse
          cases hfalse
      have hafter : after = [] := by
        cases after with
        | nil => rfl
        | cons a after =>
          have hfalse := hright a rfl
          rw [hacc a (by simp)] at hfalse
          cases hfalse
      rw [hbefore, hafter]
      simp
  | cons a l ih =>
    by_cases ha : s a = true
    · rw [List.splitOnPPrepend_cons_pos ha, maxRun_append_cons_iff hacc (by simp [ha]),
        List.mem_cons, ← List.splitOnPPrepend_nil_right, ih (by simp)]
      rfl
    · have hfalse : s a = false := by simpa using ha
      have hacc' : ∀ b ∈ (a :: acc).reverse, (!s b) = true := by
        intro b hb
        rw [List.reverse_cons, List.mem_append, List.mem_singleton] at hb
        rcases hb with hb | rfl
        · exact hacc b hb
        · rw [hfalse]
          rfl
      rw [List.splitOnPPrepend_cons_neg hfalse, ih hacc', List.reverse_cons, List.append_assoc]
      rfl

/-- The parts of a list between its separators are the maximal runs of the other elements. -/
theorem mem_splitOnP_iff {s : α → Bool} {l t : List α} :
    t ∈ l.splitOnP s ↔ ∃ before after, l = before ++ (t ++ after) ∧
      MaxRun (fun a => !s a) before t after := by
  rw [← List.splitOnPPrepend_nil_right, mem_splitOnPPrepend_iff (by simp)]
  rfl

/-! ## Words in a list -/

/-- A word without separators stands in a part between separators. -/
theorem exists_splitOnP_of_infix {s : α → Bool} {w l : List α} (hw : ∀ a ∈ w, s a = false)
    (h : w <:+: l) :
    ∃ part ∈ l.splitOnP s, w <:+: part := by
  obtain ⟨before, after, rfl⟩ := h
  have hall : ∀ a ∈ w, (!s a) = true := fun a ha => by
    rw [hw a ha]
    rfl
  obtain ⟨b, x, y, a, rfl, rfl, hrun⟩ := MaxRun.exists_of_all hall before after
  exact ⟨x ++ w ++ y, mem_splitOnP_iff.2 ⟨b, a, by simp, hrun⟩, x, y, rfl⟩

/-- A word without the element `x` stands on one side of it. -/
theorem infix_append_cons {w a b : List α} {x : α} (hx : x ∉ w) (h : w <:+: a ++ x :: b) :
    w <:+: a ∨ w <:+: b := by
  obtain ⟨s, t, hst⟩ := h
  rw [List.append_assoc] at hst
  rcases List.append_eq_append_iff.1 hst with ⟨e, rfl, he⟩ | ⟨e, rfl, he⟩
  · rcases List.append_eq_append_iff.1 he with ⟨f, rfl, -⟩ | ⟨f, rfl, hf⟩
    · exact Or.inl ⟨s, f, by simp⟩
    · cases f with
      | nil => exact Or.inl ⟨s, [], by simp⟩
      | cons c f =>
        cases hf
        exact absurd (by simp) hx
  · cases e with
    | nil =>
      cases w with
      | nil => exact Or.inl List.nil_infix
      | cons c w =>
        cases he
        exact absurd List.mem_cons_self hx
    | cons c e =>
      cases he
      exact Or.inr ⟨e, t, by simp⟩

theorem infix_append_cons_of_right {w b : List α} (a : List α) (x : α) (h : w <:+: b) :
    w <:+: a ++ x :: b :=
  h.trans ⟨a ++ [x], [], by simp⟩

/-- A word without separators in a list of parts, each followed by a separator, stands in a part. -/
theorem infix_flatMap_separated {w : List α} {x : α} (hw : w ≠ []) (hx : x ∉ w)
    {parts : List (List α)} :
    w <:+: parts.flatMap (fun part => part ++ [x]) ↔ ∃ part ∈ parts, w <:+: part := by
  induction parts with
  | nil => simp [hw]
  | cons part parts ih =>
    simp only [List.mem_cons, exists_eq_or_imp]
    rw [List.flatMap_cons, List.append_assoc, List.singleton_append, ← ih]
    constructor
    · exact infix_append_cons hx
    · rintro (h | h)
      · exact h.trans (List.infix_append' [] _ _)
      · exact infix_append_cons_of_right part x h

/-- The first occurrence of a word: what stands before it and after it. -/
def findFirst [DecidableEq α] (word : List α) : List α → Option (List α × List α)
  | [] => if word = [] then some ([], []) else none
  | c :: cs =>
    if word.isPrefixOf (c :: cs) then some ([], (c :: cs).drop word.length)
    else (findFirst word cs).map fun r => (c :: r.1, r.2)

theorem findFirst_append [DecidableEq α] (word rest : List α) :
    findFirst word (word ++ rest) = some ([], rest) := by
  cases hl : word ++ rest with
  | nil =>
    obtain ⟨rfl, rfl⟩ := List.append_eq_nil_iff.1 hl
    rfl
  | cons c cs =>
    rw [findFirst, if_pos, ← hl, List.drop_left]
    rw [List.isPrefixOf_iff_prefix]
    exact ⟨rest, hl⟩

theorem findFirst_cons [DecidableEq α] {word cs : List α} {c : α} (h : ¬ word <+: c :: cs) :
    findFirst word (c :: cs) = (findFirst word cs).map fun r => (c :: r.1, r.2) := by
  rw [findFirst, if_neg]
  rwa [List.isPrefixOf_iff_prefix]

theorem findFirst_cons_of_ne [DecidableEq α] {w c : α} (hne : w ≠ c) (word cs : List α) :
    findFirst (w :: word) (c :: cs) = (findFirst (w :: word) cs).map fun r => (c :: r.1, r.2) := by
  apply findFirst_cons
  intro h
  exact hne (List.cons_prefix_cons.1 h).1

theorem eq_of_findFirst [DecidableEq α] {word l before after : List α}
    (h : findFirst word l = some (before, after)) :
    l = before ++ (word ++ after) := by
  induction l generalizing before with
  | nil =>
    rw [findFirst] at h
    split at h
    · next hword =>
      cases h
      simp [hword]
    · cases h
  | cons c cs ih =>
    rw [findFirst] at h
    split at h
    · next hword =>
      cases h
      obtain ⟨rest, hrest⟩ := List.isPrefixOf_iff_prefix.1 hword
      rw [← hrest, List.drop_left, List.nil_append]
    · obtain ⟨⟨b, a⟩, hfind, hr⟩ := Option.map_eq_some_iff.1 h
      cases hr
      rw [ih hfind]
      rfl

/-! ## Runs of places -/

/-- The places from `start` up to `stop` are a maximal run among the places below `count`. -/
structure PlaceRun (p : Nat → Bool) (count start stop : Nat) : Prop where
  lt : start < stop
  le : stop ≤ count
  all : ∀ i, start ≤ i → i < stop → p i = true
  left : ∀ i, i + 1 = start → p i = false
  right : stop < count → p stop = false

namespace PlaceRun

variable {p : Nat → Bool} {count start start' stop : Nat}

/-- A run that has ended stays the same when the scan goes on. -/
theorem succ_iff (hlt : stop < count) :
    PlaceRun p (count + 1) start stop ↔ PlaceRun p count start stop := by
  constructor
  · intro h
    exact ⟨h.lt, by omega, h.all, h.left, fun _ => h.right (by omega)⟩
  · intro h
    exact ⟨h.lt, by omega, h.all, h.left, fun _ => h.right hlt⟩

/-- A run that goes up to the last place ends there when the next place is not in the class. -/
theorem ended (h : PlaceRun p count start count) (hend : p count = false) :
    PlaceRun p (count + 1) start count :=
  ⟨h.lt, by omega, h.all, h.left, fun _ => hend⟩

/-- Runs that end at one place begin at one place. -/
theorem start_unique (h : PlaceRun p count start stop) (h' : PlaceRun p count start' stop) :
    start = start' := by
  have hstop := h.lt
  have hstop' := h'.lt
  rcases Nat.lt_trichotomy start start' with hlt | heq | hlt
  · have htrue := h.all (start' - 1) (by omega) (by omega)
    rw [h'.left (start' - 1) (by omega)] at htrue
    cases htrue
  · exact heq
  · have htrue := h'.all (start - 1) (by omega) (by omega)
    rw [h.left (start - 1) (by omega)] at htrue
    cases htrue

end PlaceRun

/-- A scan of the places below `count`: it has found the runs that ended, and is in the one that
began at `current`. -/
structure RunScan (p : Nat → Bool) (count : Nat) (current : Option Nat)
    (found : List (Nat × Nat)) : Prop where
  mem : ∀ start stop, (start, stop) ∈ found ↔ stop < count ∧ PlaceRun p count start stop
  ordered : found.Pairwise fun r r' => r.2 < r'.1
  inRun : ∀ start, current = some start → PlaceRun p count start count
  between : current = none → ∀ i, i + 1 = count → p i = false
  covers : ∀ i, i < count → p i = true →
    (∃ r ∈ found, r.1 ≤ i ∧ i < r.2) ∨ ∃ start, current = some start ∧ start ≤ i

namespace RunScan

variable {p : Nat → Bool} {count start : Nat} {current : Option Nat} {found : List (Nat × Nat)}

theorem begin (p : Nat → Bool) : RunScan p 0 none [] where
  mem start stop := by
    constructor
    · nofun
    · intro h
      omega
  ordered := List.Pairwise.nil
  inRun := nofun
  between _ i hi := by omega
  covers i hi := by omega

/-- The runs that ended before a place of the class. -/
theorem mem_succ (h : RunScan p count current found) (hp : p count = true) (start stop : Nat) :
    (start, stop) ∈ found ↔ stop < count + 1 ∧ PlaceRun p (count + 1) start stop := by
  rw [h.mem]
  constructor
  · intro hrun
    exact ⟨by omega, (PlaceRun.succ_iff hrun.1).2 hrun.2⟩
  · intro hrun
    rcases Nat.lt_succ_iff_lt_or_eq.1 hrun.1 with hlt | rfl
    · exact ⟨hlt, (PlaceRun.succ_iff hlt).1 hrun.2⟩
    · rw [hrun.2.right (by omega)] at hp
      cases hp

/-- The runs that ended stand before the one that goes on. -/
theorem before_current (h : RunScan p count (some start) found) {r : Nat × Nat} (hr : r ∈ found) :
    r.2 < start := by
  obtain ⟨hlt, hrun⟩ := (h.mem r.1 r.2).1 hr
  -- the place after an ended run is not in the class
  by_contra hle
  have htrue := (h.inRun start rfl).all r.2 (by omega) hlt
  rw [hrun.right hlt] at htrue
  cases htrue

/-- A run begins. -/
theorem enter (h : RunScan p count none found) (hp : p count = true) :
    RunScan p (count + 1) (some count) found where
  mem := h.mem_succ hp
  ordered := h.ordered
  inRun start hstart := by
    cases hstart
    refine ⟨by omega, by omega, fun i hi hlt => ?_, h.between rfl, fun hlt => by omega⟩
    rwa [show i = count by omega]
  between := nofun
  covers i hi hpi := by
    rcases Nat.lt_succ_iff_lt_or_eq.1 hi with hlt | rfl
    · rcases h.covers i hlt hpi with hfound | ⟨start, hnone, -⟩
      · exact Or.inl hfound
      · cases hnone
    · exact Or.inr ⟨i, rfl, Nat.le_refl i⟩

/-- The run goes on. -/
theorem stay (h : RunScan p count (some start) found) (hp : p count = true) :
    RunScan p (count + 1) (some start) found where
  mem := h.mem_succ hp
  ordered := h.ordered
  inRun s hs := by
    have hrun := h.inRun s hs
    have hstop := hrun.lt
    refine ⟨by omega, by omega, fun i hi hlt => ?_, hrun.left, fun hlt => by omega⟩
    rcases Nat.lt_succ_iff_lt_or_eq.1 hlt with hlt | rfl
    · exact hrun.all i hi hlt
    · exact hp
  between := nofun
  covers i hi hpi := by
    rcases Nat.lt_succ_iff_lt_or_eq.1 hi with hlt | rfl
    · exact h.covers i hlt hpi
    · exact Or.inr ⟨start, rfl, Nat.le_of_lt (h.inRun start rfl).lt⟩

/-- The run ends. -/
theorem leave (h : RunScan p count (some start) found) (hp : p count = false) :
    RunScan p (count + 1) none (found ++ [(start, count)]) where
  mem s stop := by
    rw [List.mem_append, List.mem_singleton, Prod.mk.injEq, h.mem]
    constructor
    · rintro (hrun | ⟨rfl, rfl⟩)
      · exact ⟨by omega, (PlaceRun.succ_iff hrun.1).2 hrun.2⟩
      · exact ⟨by omega, (h.inRun s rfl).ended hp⟩
    · intro hrun
      rcases Nat.lt_succ_iff_lt_or_eq.1 hrun.1 with hlt | rfl
      · exact Or.inl ⟨hlt, (PlaceRun.succ_iff hlt).1 hrun.2⟩
      · exact Or.inr ⟨hrun.2.start_unique ((h.inRun start rfl).ended hp), rfl⟩
  ordered := by
    rw [List.pairwise_append]
    refine ⟨h.ordered, List.pairwise_singleton _ _, fun r hr r' hr' => ?_⟩
    obtain rfl := List.mem_singleton.1 hr'
    exact h.before_current hr
  inRun := nofun
  between _ i hi := by
    obtain rfl : i = count := by omega
    exact hp
  covers i hi hpi := by
    have hlt : i < count := by
      rcases Nat.lt_succ_iff_lt_or_eq.1 hi with hlt | rfl
      · exact hlt
      · rw [hp] at hpi
        cases hpi
    left
    rcases h.covers i hlt hpi with ⟨r, hr, hin⟩ | ⟨s, hs, hle⟩
    · exact ⟨r, List.mem_append_left _ hr, hin⟩
    · cases hs
      exact ⟨(start, count), by simp, hle, hlt⟩

/-- No run begins. -/
theorem pass (h : RunScan p count none found) (hp : p count = false) :
    RunScan p (count + 1) none found where
  mem start stop := by
    rw [h.mem]
    constructor
    · intro hrun
      exact ⟨by omega, (PlaceRun.succ_iff hrun.1).2 hrun.2⟩
    · intro hrun
      have hstop := hrun.2.lt
      rcases Nat.lt_succ_iff_lt_or_eq.1 hrun.1 with hlt | rfl
      · exact ⟨hlt, (PlaceRun.succ_iff hlt).1 hrun.2⟩
      · have htrue := hrun.2.all (stop - 1) (by omega) (by omega)
        rw [h.between rfl (stop - 1) (by omega)] at htrue
        cases htrue
  ordered := h.ordered
  inRun := nofun
  between _ i hi := by
    obtain rfl : i = count := by omega
    exact hp
  covers i hi hpi := by
    rcases Nat.lt_succ_iff_lt_or_eq.1 hi with hlt | rfl
    · exact h.covers i hlt hpi
    · rw [hp] at hpi
      cases hpi

/-- All runs, with the one that goes up to the last place. -/
def all (count : Nat) (current : Option Nat) (found : List (Nat × Nat)) : List (Nat × Nat) :=
  found ++ (current.map fun start => (start, count)).toList

/-- At the end of the scan the runs are the maximal runs of the class, in order, and they cover
it. -/
theorem finish (h : RunScan p count current found) :
    (∀ start stop, (start, stop) ∈ all count current found ↔ PlaceRun p count start stop) ∧
      ((all count current found).Pairwise fun r r' => r.2 < r'.1) ∧
      ∀ i, i < count → p i = true → ∃ r ∈ all count current found, r.1 ≤ i ∧ i < r.2 := by
  cases current with
  | none =>
    rw [show all count none found = found from List.append_nil found]
    refine ⟨fun start stop => ?_, h.ordered, fun i hi hpi => ?_⟩
    · rw [h.mem]
      refine ⟨fun hrun => hrun.2, fun hrun => ⟨?_, hrun⟩⟩
      have hlt := hrun.lt
      have hle := hrun.le
      by_contra hge
      obtain rfl : stop = count := by omega
      have htrue := hrun.all (stop - 1) (by omega) (by omega)
      rw [h.between rfl (stop - 1) (by omega)] at htrue
      cases htrue
    · rcases h.covers i hi hpi with hfound | ⟨start, hnone, -⟩
      · exact hfound
      · cases hnone
  | some start =>
    have hrun := h.inRun start rfl
    refine ⟨fun s stop => ?_, ?_, fun i hi hpi => ?_⟩
    · rw [all, List.mem_append, h.mem, Option.map_some, Option.toList_some, List.mem_singleton,
        Prod.mk.injEq]
      constructor
      · rintro (hmem | ⟨rfl, rfl⟩)
        · exact hmem.2
        · exact hrun
      · intro hs
        rcases Nat.lt_or_eq_of_le hs.le with hlt | rfl
        · exact Or.inl ⟨hlt, hs⟩
        · exact Or.inr ⟨hs.start_unique hrun, rfl⟩
    · rw [all, List.pairwise_append]
      refine ⟨h.ordered, by simp, fun r hr r' hr' => ?_⟩
      obtain rfl : r' = (start, count) := by simpa using hr'
      exact h.before_current hr
    · rcases h.covers i hi hpi with ⟨r, hr, hin⟩ | ⟨s, hs, hle⟩
      · exact ⟨r, List.mem_append_left _ hr, hin⟩
      · cases hs
        exact ⟨(start, count), by simp [all], hle, hi⟩

end RunScan

end LanguageLlm.Lib
