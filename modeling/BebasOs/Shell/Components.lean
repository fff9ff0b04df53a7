/-
The components of a path in the buffer of a line, as the inner loop of `cd` finds them: where one ends, and the name
that is looked up for it.
-/
import BebasOs.Shell.ChangeDirectory

namespace BebasOs.Shell

open Bytes Search Fat32

variable {b : Vector UInt8 256} {p : UInt8} {name : Vector UInt8 8} {k : ℕ}

/-! ## Lines -/

theorem Line.buffer_last (line : Line) : cell line.buffer 255 = 0 := cell_strtok (cell_strtok line.last)

theorem Line.climbs_iff (line : Line) : line.climbs = true ↔ cell line.buffer 3 = 46 ∧ cell line.buffer 4 = 46 := by
  unfold Line.climbs
  rw [beq_iff_eq, memcmp_eq_zero]
  simp

/-! ## Components -/

/-- A component ends at a splitter or at the null byte of the string, unless it is cut off after 8 bytes. -/
theorem currentLen_spec (b : Vector UInt8 256) (p : UInt8) :
    (∀ i < currentLen b p, cell b (p.toNat + i) ≠ splitter ∧ cell b (p.toNat + i) ≠ 0) ∧ currentLen b p ≤ 8 ∧
      (currentLen b p < 8 → cell b (p.toNat + currentLen b p) = splitter ∨ cell b (p.toNat + currentLen b p) = 0) := by
  have hgoes (i : ℕ) : (cell b (p.toNat + i) == splitter || strlen b (p.toNat + i) == 0) = false ↔
      cell b (p.toNat + i) ≠ splitter ∧ cell b (p.toNat + i) ≠ 0 := by
    rw [Bool.or_eq_false_iff, beq_eq_false_iff_ne, beq_eq_false_iff_ne, ne_eq, ne_eq, strlen_eq_zero]
  unfold currentLen
  rcases h : first (fun l => cell b (p.toNat + l) == splitter || strlen b (p.toNat + l) == 0) 0 8 with _ | l
  · exact ⟨fun i hi => (hgoes i).1 (first_eq_none.1 h i (Nat.zero_le i) hi), Nat.le_refl 8,
      fun h => absurd h (Nat.lt_irrefl 8)⟩
  · obtain ⟨-, h8, hstop, hgo⟩ := first_eq_some.1 h
    rw [Option.getD_some]
    refine ⟨fun i hi => (hgoes i).1 (hgo i (Nat.zero_le i) hi), h8.le, fun _ => ?_⟩
    rwa [Bool.or_eq_true, beq_iff_eq, beq_iff_eq, strlen_eq_zero] at hstop

theorem ends_eq_false (b : Vector UInt8 256) (p : UInt8) : ends b p = false ↔ cell b p.toNat ≠ 0 ∧
    (currentLen b p = 8 → cell b (p.toNat + 8) = splitter) := by
  unfold ends
  rw [Bool.or_eq_false_iff, Bool.and_eq_false_iff, beq_eq_false_iff_ne, beq_eq_false_iff_ne, bne_eq_false_iff_eq, ne_eq,
    strlen_eq_zero, imp_iff_not_or]

/-- A component that is looked up ends in the line. -/
theorem add_currentLen_le (hlast : cell b 255 = 0) (he : ends b p = false) : p.toNat + currentLen b p ≤ 255 := by
  obtain ⟨h0, -⟩ := (ends_eq_false b p).1 he
  obtain ⟨hgo, -, -⟩ := currentLen_spec b p
  have hp := p.toNat_lt
  by_contra hlt
  have := (hgo (255 - p.toNat) (by omega)).2
  rw [Nat.add_sub_cancel' (by omega)] at this
  exact this hlast

/-- A component up to a splitter or the end of the string. -/
theorem currentLen_eq (hk : k ≤ 8) (hgo : ∀ i < k, cell b (p.toNat + i) ≠ splitter ∧ cell b (p.toNat + i) ≠ 0)
    (hstop : k < 8 → cell b (p.toNat + k) = splitter ∨ cell b (p.toNat + k) = 0) : currentLen b p = k := by
  obtain ⟨hgo', hle, hstop'⟩ := currentLen_spec b p
  rcases Nat.lt_trichotomy (currentLen b p) k with h | h | h
  · have := hgo _ h
    exact absurd (hstop' (by omega)) (by rw [not_or]; exact this)
  · exact h
  · have := hgo' _ h
    exact absurd (hstop (by omega)) (by rw [not_or]; exact this)

/-- The name for a component: its bytes, then null bytes. -/
theorem folderName_eq (hk : ∀ i < k, cell name i = cell b (p.toNat + i)) (h0 : ∀ i < 8, k ≤ i → cell name i = 0) :
    folderName b p k = name := by
  refine cell_ext fun i hi => ?_
  unfold folderName
  rw [cell_of_lt _ hi, Vector.getElem_ofFn]
  simp only
  split
  · next h => rw [hk i h]
  · next h => rw [h0 i hi (by omega)]

end BebasOs.Shell
