/-
Singly linked chains in a successor map: the cells met from a first one on until a cell with no
successor. A chain is determined by its first cell, meets no cell twice, and only depends on the
successors of its own cells.
-/
import Mathlib.Data.List.Nodup
import Mathlib.Tactic

namespace Links

variable {α : Type} {next next' : α → Option α}

/-- `Chain next a l`: following `next` from `a` meets exactly the cells `l`, and ends. -/
inductive Chain (next : α → Option α) : α → List α → Prop
  | last {a : α} (h : next a = none) : Chain next a [a]
  | link {a b : α} {l : List α} (h : next a = some b) (t : Chain next b l) : Chain next a (a :: l)

/-- The first `n` cells met from `a` on, fewer when the chain ends. -/
def follow (next : α → Option α) : ℕ → α → List α
  | 0, _ => []
  | n + 1, a => a :: (next a).elim [] (follow next n)

namespace Chain

theorem head_mem {a : α} {l : List α} (h : Chain next a l) : a ∈ l := by
  cases h <;> exact List.mem_cons_self

theorem length_pos {a : α} {l : List α} (h : Chain next a l) : 0 < l.length :=
  List.length_pos_of_mem h.head_mem

theorem unique {a : α} {l m : List α} (h : Chain next a l) (h' : Chain next a m) : l = m := by
  induction h generalizing m with
  | last h =>
    cases h' with
    | last => rfl
    | link h1 => rw [h] at h1; cases h1
  | link h _ ih =>
    cases h' with
    | last h1 => rw [h] at h1; cases h1
    | link h1 t1 => rw [h] at h1; cases h1; rw [ih t1]

/-- A chain only depends on the successors of its own cells. -/
theorem congr {a : α} {l : List α} (h : Chain next a l) (hn : ∀ c ∈ l, next' c = next c) :
    Chain next' a l := by
  induction h with
  | last h => exact .last (by rw [hn _ List.mem_cons_self]; exact h)
  | link h _ ih =>
    exact .link (by rw [hn _ List.mem_cons_self]; exact h) (ih fun c hc => hn c (List.mem_cons_of_mem _ hc))

/-- From any cell of a chain on, the rest is a chain. -/
theorem suffix {a c : α} {l : List α} (h : Chain next a l) (hc : c ∈ l) :
    ∃ l₁ l₂, l = l₁ ++ l₂ ∧ Chain next c l₂ := by
  induction h with
  | last h => rw [List.mem_singleton] at hc; subst hc; exact ⟨[], _, rfl, .last h⟩
  | link h t ih =>
    rcases List.mem_cons.1 hc with rfl | hc
    · exact ⟨[], _, rfl, .link h t⟩
    · obtain ⟨l₁, l₂, rfl, h2⟩ := ih hc
      exact ⟨_ :: l₁, l₂, rfl, h2⟩

/-- No cell is met twice: its chain would be longer than itself. -/
theorem nodup {a : α} {l : List α} (h : Chain next a l) : l.Nodup := by
  induction h with
  | last => exact List.nodup_singleton _
  | link h t ih =>
    refine List.nodup_cons.2 ⟨fun hc => ?_, ih⟩
    obtain ⟨l₁, l₂, rfl, h2⟩ := t.suffix hc
    have := congrArg List.length (h2.unique (.link h t))
    simp at this
    omega

/-- The successor of a cell of a chain is the cell after it. -/
theorem next_getElem {a : α} {l : List α} (h : Chain next a l) :
    ∀ {i : ℕ} (hi : i < l.length), next l[i] = l[i + 1]? := by
  induction h with
  | last h =>
    intro i hi
    obtain rfl : i = 0 := by simpa using hi
    exact h
  | @link a b l h t ih =>
    rintro (_ | i) hi
    · cases t <;> exact h
    · exact ih (by simpa using hi)

theorem follow_eq {a : α} {l : List α} (h : Chain next a l) {n : ℕ} (hn : l.length ≤ n) :
    follow next n a = l := by
  induction h generalizing n with
  | last h =>
    obtain ⟨m, rfl⟩ : ∃ m, n = m + 1 := ⟨n - 1, by simp at hn; omega⟩
    simp [follow, h]
  | link h _ ih =>
    obtain ⟨m, rfl⟩ : ∃ m, n = m + 1 := ⟨n - 1, by simp at hn; omega⟩
    simp only [follow, h, Option.elim_some]
    rw [ih (by simpa using hn)]

end Chain

end Links
