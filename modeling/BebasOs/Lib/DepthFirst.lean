/-
Depth-first search. The nodes of a tree have numbered slots, a slot may hold a child, and the search stops at the first
slot that passes a test: each is tested before the slots of its child, and these before the slots behind it. The
address of a slot is the list of slots that lead down to it, and first is what is least in the lexicographic order.
-/
import Mathlib.Data.List.Lex
import Mathlib.Order.Bounds.Basic
import Mathlib.Tactic

namespace DepthFirst

variable {ν : Type*} (child : ν → ℕ → Option ν) (stop : ν → ℕ → Prop)

/-- The node that slots lead down to. -/
def node : ν → List ℕ → Option ν
  | x, [] => some x
  | x, i :: l => (child x i).bind fun y => node y l

/-- The addresses below a node where a search may stop. -/
def stops (x : ν) : Set (List ℕ) := {l | ∃ m i y, l = m ++ [i] ∧ node child x m = some y ∧ stop y i}

/-- How a search from slot `i` on ends: at the first slot to stop at, of which `here` holds, or, if there is none,
behind the last slot, and then `done` holds. -/
def Ends (x : ν) (i : ℕ) (here : ν → ℕ → Prop) (done : Prop) : Prop :=
  (∃ m j y, IsLeast (stops child stop x ∩ Set.Ici [i]) (m ++ [j]) ∧ node child x m = some y ∧ here y j) ∨
    stops child stop x ∩ Set.Ici [i] = ∅ ∧ done

variable {child stop} {x y : ν} {i j : ℕ} {l m : List ℕ}

/-! ## The order of addresses -/

theorem singleton_le_cons : [i] ≤ j :: m ↔ i ≤ j := by
  rw [← not_lt, ← not_lt, List.cons_lt_cons_iff]
  simp

theorem cons_le_cons_iff : i :: l ≤ i :: m ↔ l ≤ m := by
  rw [← not_lt, ← not_lt, List.cons_lt_cons_iff]
  simp

theorem nil_notMem : [] ∉ stops child stop x := by
  rintro ⟨m, i, y, h, -⟩
  simp at h

/-- A stop is one at a slot of the node itself, or one below a child. -/
theorem cons_mem : i :: l ∈ stops child stop x ↔
    l = [] ∧ stop x i ∨ ∃ y, child x i = some y ∧ l ∈ stops child stop y := by
  constructor
  · rintro ⟨m, j, y, h, hy, hstop⟩
    cases m with
    | nil =>
      obtain ⟨rfl, rfl⟩ := List.cons.inj h
      cases hy
      exact .inl ⟨rfl, hstop⟩
    | cons k m =>
      obtain ⟨rfl, rfl⟩ := List.cons.inj h
      obtain ⟨z, hz, hy⟩ := Option.bind_eq_some_iff.1 hy
      exact .inr ⟨z, hz, m, j, y, rfl, hy, hstop⟩
  · rintro (⟨rfl, hstop⟩ | ⟨z, hz, m, j, y, rfl, hy, hstop⟩)
    · exact ⟨[], i, x, rfl, rfl, hstop⟩
    · exact ⟨i :: m, j, y, rfl, Option.bind_eq_some_iff.2 ⟨z, hz, hy⟩, hstop⟩

theorem stops_from_zero : stops child stop x ∩ Set.Ici [0] = stops child stop x := by
  refine Set.inter_eq_left.2 fun l hl => ?_
  cases l with
  | nil => exact absurd hl nil_notMem
  | cons j m => exact singleton_le_cons.2 (Nat.zero_le j)

/-- A stop from a slot on is at the slot, below its child, or from the next slot on. -/
theorem mem_from : l ∈ stops child stop x ∩ Set.Ici [i] ↔ l = [i] ∧ stop x i ∨
    (∃ y m, child x i = some y ∧ l = i :: m ∧ m ∈ stops child stop y) ∨ l ∈ stops child stop x ∩ Set.Ici [i + 1] := by
  cases l with
  | nil => simp [nil_notMem]
  | cons j m =>
    simp only [Set.mem_inter_iff, Set.mem_Ici, singleton_le_cons, List.cons.injEq]
    constructor
    · rintro ⟨hl, hij⟩
      rcases Nat.lt_or_eq_of_le hij with hlt | rfl
      · exact .inr (.inr ⟨hl, hlt⟩)
      · rcases cons_mem.1 hl with ⟨rfl, hstop⟩ | ⟨y, hy, hm⟩
        · exact .inl ⟨⟨rfl, rfl⟩, hstop⟩
        · exact .inr (.inl ⟨y, m, hy, ⟨rfl, rfl⟩, hm⟩)
    · rintro (⟨⟨rfl, rfl⟩, hstop⟩ | ⟨y, m, hy, ⟨rfl, rfl⟩, hm⟩ | ⟨hl, hij⟩)
      · exact ⟨cons_mem.2 (.inl ⟨rfl, hstop⟩), Nat.le_refl _⟩
      · exact ⟨cons_mem.2 (.inr ⟨y, hy, hm⟩), Nat.le_refl _⟩
      · exact ⟨hl, Nat.le_of_succ_le hij⟩

/-! ## How a search ends -/

namespace Ends

variable {here here' : ν → ℕ → Prop} {done done' : Prop}

/-- At a slot to stop at. -/
theorem found (hs : stop x i) (h : here x i) : Ends child stop x i here done :=
  .inl ⟨[], i, x, ⟨mem_from.2 (.inl ⟨rfl, hs⟩), fun _ hl => hl.2⟩, rfl, h⟩

/-- Where there is nothing at a slot or below it, the search goes on behind it. -/
theorem behind (hs : ¬ stop x i) (hc : ∀ y, child x i = some y → stops child stop y = ∅)
    (h : Ends child stop x (i + 1) here done) : Ends child stop x i here done := by
  have hfrom : stops child stop x ∩ Set.Ici [i] = stops child stop x ∩ Set.Ici [i + 1] := by
    ext l
    rw [mem_from]
    refine ⟨fun hl => ?_, fun hl => .inr (.inr hl)⟩
    rcases hl with ⟨-, hstop⟩ | ⟨y, m, hy, -, hm⟩ | hl
    · exact absurd hstop hs
    · rw [hc y hy] at hm
      exact absurd hm (Set.notMem_empty m)
    · exact hl
  unfold Ends
  rw [hfrom]
  exact h

/-- So it does at a slot without a child. -/
theorem skip (hs : ¬ stop x i) (hc : child x i = none) (h : Ends child stop x (i + 1) here done) :
    Ends child stop x i here done :=
  behind hs (fun y hy => by rw [hc] at hy; cases hy) h

/-- With a child it ends as the search in that does, or goes on behind the slot. -/
theorem enter (hs : ¬ stop x i) (hc : child x i = some y) (h : Ends child stop y 0 here' done')
    (hhere : ∀ z j, here' z j → here z j) (hdone : done' → Ends child stop x (i + 1) here done) :
    Ends child stop x i here done := by
  unfold Ends at h
  rw [stops_from_zero] at h
  rcases h with ⟨m, j, z, ⟨hm, hleast⟩, hz, hj⟩ | ⟨hempty, hd⟩
  · refine .inl ⟨i :: m, j, z, ⟨mem_from.2 (.inr (.inl ⟨y, _, hc, rfl, hm⟩)), fun l hl => ?_⟩,
      Option.bind_eq_some_iff.2 ⟨y, hc, hz⟩, hhere z j hj⟩
    rcases mem_from.1 hl with ⟨-, hstop⟩ | ⟨y', m', hy', rfl, hm'⟩ | ⟨-, hl⟩
    · exact absurd hstop hs
    · obtain rfl := Option.some.inj (hc.symm.trans hy')
      exact cons_le_cons_iff.2 (hleast hm')
    · refine le_trans (le_of_lt ?_) hl
      rw [List.cons_append, List.cons_lt_cons_iff]
      exact .inl (Nat.lt_succ_self i)
  · refine behind hs (fun z hz => ?_) (hdone hd)
    obtain rfl := Option.some.inj (hc.symm.trans hz)
    exact hempty

/-- Where neither is left, the search comes to its end. -/
theorem last (h : ∀ j, i ≤ j → ¬ stop x j ∧ child x j = none) (hd : done) : Ends child stop x i here done := by
  refine .inr ⟨Set.eq_empty_of_forall_notMem fun l hl => ?_, hd⟩
  cases l with
  | nil => exact nil_notMem hl.1
  | cons j m =>
    obtain ⟨hstop, hchild⟩ := h j (singleton_le_cons.1 hl.2)
    rcases cons_mem.1 hl.1 with ⟨-, hs⟩ | ⟨y, hy, -⟩
    · exact hstop hs
    · rw [hchild] at hy
      cases hy

/-- From the first slot on, it ends at the first slot to stop at. -/
theorem cases (h : Ends child stop x 0 here done) :
    (∃ m j y, IsLeast (stops child stop x) (m ++ [j]) ∧ node child x m = some y ∧ stop y j ∧ here y j) ∨
      stops child stop x = ∅ ∧ done := by
  unfold Ends at h
  rw [stops_from_zero] at h
  rcases h with ⟨m, j, y, hleast, hy, hj⟩ | h
  · obtain ⟨m', j', y', heq, hy', hstop⟩ := hleast.1
    obtain ⟨rfl, rfl⟩ := List.append_singleton_inj.1 heq
    obtain rfl := Option.some.inj (hy.symm.trans hy')
    exact .inl ⟨m, j, y, hleast, hy, hstop, hj⟩
  · exact .inr h

/-- What `here` and `done` decide is told by the first slot to stop at, or by there being none. -/
theorem iff {p q : Prop} {good : ν → ℕ → Prop} (h : Ends child stop x 0 here done)
    (hhere : ∀ m y j, node child x m = some y → stop y j → here y j → (p ↔ good y j)) (hdone : done → (p ↔ q)) :
    p ↔ (∃ m j y, IsLeast (stops child stop x) (m ++ [j]) ∧ node child x m = some y ∧ good y j) ∨
      stops child stop x = ∅ ∧ q := by
  rcases h.cases with ⟨m, j, y, hleast, hy, hstop, hj⟩ | ⟨hempty, hd⟩
  · rw [hhere m y j hy hstop hj]
    constructor
    · exact fun hgood => .inl ⟨m, j, y, hleast, hy, hgood⟩
    · rintro (⟨m', j', y', hleast', hy', hgood⟩ | ⟨hempty, -⟩)
      · obtain ⟨rfl, rfl⟩ := List.append_singleton_inj.1 (hleast.unique hleast')
        obtain rfl := Option.some.inj (hy.symm.trans hy')
        exact hgood
      · exact absurd hempty (Set.nonempty_iff_ne_empty.1 hleast.nonempty)
  · rw [hdone hd]
    constructor
    · exact fun hq => .inr ⟨hempty, hq⟩
    · rintro (⟨m, j, y, hleast, -⟩ | ⟨-, hq⟩)
      · exact absurd hempty (Set.nonempty_iff_ne_empty.1 hleast.nonempty)
      · exact hq

end Ends

end DepthFirst
