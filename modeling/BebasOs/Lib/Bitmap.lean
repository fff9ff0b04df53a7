/-
Bitmaps: how many bits are clear, and how a set or cleared bit changes the number.
-/
import BebasOs.Lib.Bytes
import BebasOs.Lib.Search
import Mathlib.Data.Finset.Card

namespace Bitmap

open Bytes Search

variable {n i : ℕ} {v : Vector Bool n}

/-- The number of clear bits. -/
def clear (v : Vector Bool n) : ℕ := ((Finset.range n).filter fun i => cell v i = false).card

/-- The first clear bit. -/
def firstClear (v : Vector Bool n) : Option ℕ := first (fun i => !cell v i) 0 n

theorem firstClear_eq_some (h : firstClear v = some i) : i < n ∧ cell v i = false := by
  obtain ⟨-, h1, h2, -⟩ := first_eq_some.1 h
  exact ⟨h1, by simpa using h2⟩

theorem firstClear_eq_none : firstClear v = none ↔ clear v = 0 := by
  unfold firstClear clear
  rw [first_eq_none, Finset.card_eq_zero, Finset.filter_eq_empty_iff]
  simp

theorem clear_le (v : Vector Bool n) : clear v ≤ n := by
  have := Finset.card_filter_le (Finset.range n) fun i => cell v i = false
  rwa [Finset.card_range] at this

/-- Setting a clear bit leaves one less. -/
theorem clear_set (hi : i < n) (hc : cell v i = false) : clear (store v i true) + 1 = clear v := by
  have hmem : i ∈ (Finset.range n).filter fun k => cell v k = false := by simp [hi, hc]
  have herase : ((Finset.range n).filter fun k => cell (store v i true) k = false) =
      ((Finset.range n).filter fun k => cell v k = false).erase i := by
    ext k
    simp only [Finset.mem_filter, Finset.mem_erase, cell_store _ _ _ hi]
    split
    · simp [*]
    · simp [*]
  unfold clear
  rw [herase]
  exact Finset.card_erase_add_one hmem

/-- Clearing a set bit leaves one more. -/
theorem clear_unset (hi : i < n) (hc : cell v i = true) : clear (store v i false) = clear v + 1 := by
  have hback : store (store v i false) i true = v := by
    refine cell_ext fun k _ => ?_
    rw [cell_store _ _ _ hi]
    split
    · rename_i hk
      rw [hk, hc]
    · exact cell_store_ne _ _ (Ne.symm ‹_›)
  have := clear_set (v := store v i false) hi (cell_store_self _ _ hi)
  rw [hback] at this
  exact this.symm

end Bitmap
