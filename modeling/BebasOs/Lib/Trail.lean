/-
A stack in an array, with the index of its top: a trail when every entry is the parent of the one above it.
A push keeps a trail if and only if what it puts on has the top for its parent, and from the top of a
trail the parents lead down to its first entry.
-/
import BebasOs.Lib.Bytes
import Mathlib.Logic.Function.Iterate

namespace Bytes

variable {α : Type} [Inhabited α] {n i : ℕ} {t : Vector α n} {a : α} {parent : α → α}

/-- Up to entry `i`, every entry is the parent of the next. -/
def Trail (parent : α → α) (t : Vector α n) (i : ℕ) : Prop := ∀ k < i, parent (cell t (k + 1)) = cell t k

namespace Trail

theorem zero (parent : α → α) (t : Vector α n) : Trail parent t 0 := fun _ h => absurd h (Nat.not_lt_zero _)

theorem pop (h : Trail parent t (i + 1)) : Trail parent t i := fun k hk => h k (by omega)

theorem top (h : Trail parent t (i + 1)) : parent (cell t (i + 1)) = cell t i := h i (Nat.lt_succ_self i)

theorem push (h : Trail parent t i) (hi : i + 1 < n) (ha : parent a = cell t i) :
    Trail parent (store t (i + 1) a) (i + 1) := by
  intro k hk
  rw [cell_store_ne _ _ (show i + 1 ≠ k by omega)]
  rcases Nat.lt_or_ge k i with hlt | hge
  · rw [cell_store_ne _ _ (by omega)]
    exact h k hlt
  · obtain rfl : k = i := by omega
    rw [cell_store_self _ _ hi]
    exact ha

/-- The parents of the top are the entries below it. -/
theorem climb (h : Trail parent t i) : parent^[i] (cell t i) = cell t 0 := by
  induction i with
  | zero => rfl
  | succ i ih => rw [Function.iterate_succ_apply, h.top, ih h.pop]

end Trail

end Bytes
