/-
Trees of named files and folders, as functions from paths. A path is the list of the names on it with the last one
first, so that what is left behind its head is the path of the folder above.
-/
import Mathlib.Data.Set.Card
import Mathlib.Tactic

namespace FileTree

variable {ν β γ : Type}

/-- What is found at a path. -/
inductive Node (β : Type) where
  | folder
  | file (content : β)
deriving DecidableEq

def Node.map (f : β → γ) : Node β → Node γ
  | .folder => .folder
  | .file b => .file (f b)

/-- The root is a folder, and what has a path lies in one. -/
@[ext]
structure Tree (ν β : Type) where
  node : List ν → Option (Node β)
  root : node [] = some .folder
  above : ∀ n p x, node (n :: p) = some x → node p = some .folder

namespace Tree

/-- The root alone. -/
def empty [DecidableEq ν] : Tree ν β where
  node p := if p = [] then some .folder else none
  root := if_pos rfl
  above n p x h := absurd h (by simp)

theorem node_empty [DecidableEq ν] (n : ν) (p : List ν) : (empty : Tree ν β).node (n :: p) = none := by
  show (if n :: p = [] then some .folder else none) = none
  rw [if_neg (List.cons_ne_nil n p)]

/-- The names in a folder. -/
def children (t : Tree ν β) (p : List ν) : Set ν := {n | t.node (n :: p) ≠ none}

variable {t : Tree ν β} {p q : List ν} {n m : ν} {x : Node β}

theorem mem_children : n ∈ t.children p ↔ t.node (n :: p) ≠ none := Iff.rfl

theorem notMem_children : n ∉ t.children p ↔ t.node (n :: p) = none := not_not

/-- Only folders have something in them. -/
theorem node_of_mem_children (h : n ∈ t.children p) : t.node p = some .folder := by
  obtain ⟨x, hx⟩ := Option.ne_none_iff_exists'.1 h
  exact t.above n p x hx

/-- The folders that a path goes through. -/
theorem node_drop (h : t.node p = some .folder) (i : ℕ) : t.node (p.drop i) = some .folder := by
  induction i generalizing p with
  | zero => exact h
  | succ i ih =>
    match p with
    | [] => exact h
    | n :: p => exact ih (t.above n p _ h)

variable [DecidableEq ν]

open Classical in
/-- The tree with something put under a name in a folder, if the name is free there. -/
noncomputable def insert (t : Tree ν β) (p : List ν) (n : ν) (x : Node β) : Tree ν β :=
  if h : t.node p = some .folder ∧ t.node (n :: p) = none then
    { node := Function.update t.node (n :: p) (some x)
      root := by rw [Function.update_of_ne (List.cons_ne_nil n p).symm, t.root]
      above := by
        intro m q y hy
        have hq : t.node q = some .folder := by
          by_cases hc : m :: q = n :: p
          · rw [(List.cons.inj hc).2]
            exact h.1
          · rw [Function.update_of_ne hc] at hy
            exact t.above m q y hy
        rwa [Function.update_of_ne]
        rintro rfl
        rw [h.2] at hq
        cases hq }
  else t

open Classical in
/-- The tree without what is under a name in a folder, if nothing is in it. -/
noncomputable def erase (t : Tree ν β) (p : List ν) (n : ν) : Tree ν β :=
  if h : ∀ m, t.node (m :: n :: p) = none then
    { node := Function.update t.node (n :: p) none
      root := by rw [Function.update_of_ne (List.cons_ne_nil n p).symm, t.root]
      above := by
        intro m q y hy
        by_cases hc : m :: q = n :: p
        · rw [hc, Function.update_self] at hy
          cases hy
        · rw [Function.update_of_ne hc] at hy
          rw [Function.update_of_ne]
          · exact t.above m q y hy
          · rintro rfl
            rw [h m] at hy
            cases hy }
  else t

theorem node_insert (h : t.node p = some .folder) (hn : t.node (n :: p) = none) :
    (t.insert p n x).node = Function.update t.node (n :: p) (some x) := by
  unfold insert
  rw [dif_pos ⟨h, hn⟩]

theorem node_erase (h : t.children (n :: p) = ∅) : (t.erase p n).node = Function.update t.node (n :: p) none := by
  unfold erase
  rw [dif_pos fun m => notMem_children.1 (h ▸ Set.notMem_empty m)]

/-- Nothing that is there is changed by something new. -/
theorem node_insert_of_some {y : Node β} (h : t.node q = some y) : (t.insert p n x).node q = some y := by
  by_cases hfree : t.node p = some .folder ∧ t.node (n :: p) = none
  · rwa [node_insert hfree.1 hfree.2, Function.update_of_ne]
    rintro rfl
    rw [hfree.2] at h
    cases h
  · unfold insert
    rwa [dif_neg hfree]

theorem node_erase_of_ne (h : q ≠ n :: p) : (t.erase p n).node q = t.node q := by
  unfold erase
  split
  · exact Function.update_of_ne h _ _
  · rfl

theorem children_insert_subset : (t.insert p n x).children q ⊆ Set.insert n (t.children q) := by
  intro m hm
  by_cases hfree : t.node p = some .folder ∧ t.node (n :: p) = none
  · by_cases hc : m :: q = n :: p
    · exact .inl (List.cons.inj hc).1
    · rw [mem_children, node_insert hfree.1 hfree.2, Function.update_of_ne hc] at hm
      exact .inr hm
  · unfold insert at hm
    rw [dif_neg hfree] at hm
    exact .inr hm

theorem children_erase_subset : (t.erase p n).children q ⊆ t.children q := by
  intro m hm hnone
  refine hm ?_
  by_cases hc : m :: q = n :: p
  · unfold erase
    split
    · show Function.update t.node (n :: p) none (m :: q) = none
      rw [hc, Function.update_self]
    · exact hnone
  · rwa [node_erase_of_ne hc]

/-- Nothing is in what is new. -/
theorem children_insert_self (h : t.node p = some .folder) (hn : t.node (n :: p) = none) :
    (t.insert p n x).children (n :: p) = ∅ := by
  refine Set.eq_empty_iff_forall_notMem.2 fun m => notMem_children.2 ?_
  rw [node_insert h hn, Function.update_of_ne fun hc => List.cons_ne_self _ _ (List.cons.inj hc).2]
  by_contra hm
  have := node_of_mem_children (mem_children.2 hm)
  rw [hn] at this
  cases this

/-- What was put in can be taken out again. -/
theorem erase_insert (h : t.node p = some .folder) (hn : t.node (n :: p) = none) : (t.insert p n x).erase p n = t := by
  apply Tree.ext
  rw [node_erase (children_insert_self h hn), node_insert h hn, Function.update_idem, ← hn, Function.update_eq_self]

end Tree

end FileTree
