/-
Texts in tables: a list held from an index on, a list copied there, and a range reversed in place. A list falls into
pieces at a separator, and what matters of a text turned round piece by piece is that the pieces are in the opposite
order.
-/
import Mathlib.Data.List.GetD
import BebasOs.Lib.Bytes

namespace Bytes

variable {α : Type} [Inhabited α] {n : ℕ} {b b' : Vector α n} {p : ℕ} {l m : List α}

/-! ## Held texts -/

/-- A table holds a list from an index on. -/
def HoldsAt (b : Vector α n) (p : ℕ) (l : List α) : Prop := ∀ i (h : i < l.length), cell b (p + i) = l[i]

theorem HoldsAt.congr (h : HoldsAt b p l) (hc : ∀ i, p ≤ i → i < p + l.length → cell b' i = cell b i) :
    HoldsAt b' p l := by
  intro i hi
  rw [hc _ (by omega) (by omega)]
  exact h i hi

theorem holdsAt_append : HoldsAt b p (l ++ m) ↔ HoldsAt b p l ∧ HoldsAt b (p + l.length) m := by
  constructor
  · intro h
    refine ⟨fun i hi => ?_, fun i hi => ?_⟩
    · rw [h i (by rw [List.length_append]; omega), List.getElem_append_left hi]
    · rw [Nat.add_assoc, h (l.length + i) (by rw [List.length_append]; omega),
        List.getElem_append_right (Nat.le_add_right _ _)]
      simp
  · rintro ⟨hl, hm⟩ i hi
    rw [List.length_append] at hi
    by_cases hlt : i < l.length
    · rw [List.getElem_append_left hlt]
      exact hl i hlt
    · rw [List.getElem_append_right (by omega), ← hm (i - l.length) (by omega)]
      congr 1
      omega

theorem holdsAt_nil : HoldsAt b p ([] : List α) := fun _ hi => absurd hi (Nat.not_lt_zero _)

theorem holdsAt_cons {x : α} : HoldsAt b p (x :: l) ↔ cell b p = x ∧ HoldsAt b (p + 1) l := by
  constructor
  · intro h
    refine ⟨h 0 (Nat.succ_pos _), fun i hi => ?_⟩
    rw [Nat.add_assoc, Nat.add_comm 1 i]
    exact h (i + 1) (Nat.succ_lt_succ hi)
  · rintro ⟨hx, hl⟩ i hi
    rcases i with _ | i
    · exact hx
    · rw [List.getElem_cons_succ, ← hl i (Nat.lt_of_succ_lt_succ hi), Nat.add_assoc, Nat.add_comm 1 i]

theorem HoldsAt.take (h : HoldsAt b 0 l) (hl : l.length ≤ n) : b.toList.take l.length = l := by
  refine List.ext_getElem (by rw [List.length_take, Vector.length_toList, Nat.min_eq_left hl]) fun i h1 h2 => ?_
  rw [List.getElem_take, Vector.getElem_toList, ← cell_of_lt b (by omega), ← h i h2, Nat.zero_add]

/-! ## Copies -/

/-- A list copied into a table from an index on. -/
def writeAt (b : Vector α n) (p : ℕ) (l : List α) : Vector α n :=
  Vector.ofFn fun j => if p ≤ j.1 then l.getD (j.1 - p) (cell b j.1) else cell b j.1

theorem cell_writeAt (b : Vector α n) (p : ℕ) (l : List α) (i : ℕ) (hp : p + l.length ≤ n) :
    cell (writeAt b p l) i = if p ≤ i then l.getD (i - p) (cell b i) else cell b i := by
  by_cases hi : i < n
  · exact cell_ofFn hi
  · have hdefault (c : Vector α n) : cell c i = default := dif_neg hi
    rw [hdefault, hdefault, List.getD_eq_default _ _ (by omega), ite_self]

theorem cell_writeAt_other (hp : p + l.length ≤ n) {i : ℕ} (hi : i < p ∨ p + l.length ≤ i) :
    cell (writeAt b p l) i = cell b i := by
  rw [cell_writeAt _ _ _ _ hp]
  split
  · exact List.getD_eq_default _ _ (by omega)
  · rfl

theorem holdsAt_writeAt (b : Vector α n) (hp : p + l.length ≤ n) : HoldsAt (writeAt b p l) p l := by
  intro i hi
  rw [cell_writeAt _ _ _ _ hp, if_pos (Nat.le_add_right _ _), Nat.add_sub_cancel_left, List.getD_eq_getElem _ _ hi]

/-- Two copies, one behind the other, are one. -/
theorem writeAt_writeAt (b : Vector α n) (hp : p + (l ++ m).length ≤ n) :
    writeAt (writeAt b p l) (p + l.length) m = writeAt b p (l ++ m) := by
  have hlen : (l ++ m).length = l.length + m.length := List.length_append
  refine cell_ext fun i hi => ?_
  rw [cell_writeAt _ _ _ _ (by omega), cell_writeAt _ _ _ _ (by omega), cell_writeAt _ _ _ _ hp]
  rcases Nat.lt_or_ge i p with h | h
  · rw [if_neg (by omega), if_neg (by omega), if_neg (by omega)]
  rcases Nat.lt_or_ge i (p + l.length) with h' | h'
  · rw [if_neg (by omega), if_pos h, if_pos h, List.getD_append _ _ _ _ (by omega)]
  · rw [if_pos h', if_pos h, if_pos h, List.getD_append_right _ _ _ _ (by omega),
      List.getD_eq_default l _ (by omega), Nat.sub_sub]

/-- A copy to the front and one more entry behind it. -/
theorem cell_store_writeAt (b : Vector α n) (h : l.length < n) (a : α) (i : ℕ) :
    cell (store (writeAt b 0 l) l.length a) i = (l ++ [a]).getD i (cell b i) := by
  rw [cell_store _ _ _ h, cell_writeAt _ _ _ _ (by omega), if_pos (Nat.zero_le i), Nat.sub_zero]
  rcases Nat.lt_trichotomy i l.length with hi | rfl | hi
  · rw [if_neg (by omega), List.getD_append _ _ _ _ hi]
  · rw [if_pos rfl, List.getD_append_right _ _ _ _ (Nat.le_refl _), Nat.sub_self]
    rfl
  · rw [if_neg (by omega), List.getD_eq_default _ _ (by omega), List.getD_eq_default _ _ (by simp; omega)]

/-! ## Reversal -/

/-- The loop that swaps the ends of a range until they meet; `stop` is behind the range. -/
def reverse (b : Vector α n) (start stop : ℕ) : Vector α n :=
  if start + 1 < stop then
    reverse (store (store b start (cell b (stop - 1))) (stop - 1) (cell b start)) (start + 1) (stop - 1)
  else b
termination_by stop - start

/-- The range has its cells the other way round, and the others are as they were. -/
theorem cell_reverse (b : Vector α n) (start stop : ℕ) (h : stop ≤ n) (i : ℕ) :
    cell (reverse b start stop) i = if start ≤ i ∧ i < stop then cell b (start + stop - 1 - i) else cell b i := by
  fun_induction reverse b start stop with
  | case1 b start stop hlt ih =>
    rw [ih (by omega)]
    simp only [cell_store _ _ _ (show stop - 1 < n by omega), cell_store _ _ _ (show start < n by omega)]
    grind
  | case2 b start stop hlt =>
    split
    · congr 1
      omega
    · rfl

theorem cell_reverse_other {start stop : ℕ} (h : stop ≤ n) {i : ℕ} (hi : i < start ∨ stop ≤ i) :
    cell (reverse b start stop) i = cell b i := by
  rw [cell_reverse _ _ _ h, if_neg (by omega)]

/-- A text reversed in place is held the other way round. -/
theorem HoldsAt.reverse (h : HoldsAt b p l) (hp : p + l.length ≤ n) :
    HoldsAt (Bytes.reverse b p (p + l.length)) p l.reverse := by
  intro i hi
  rw [List.length_reverse] at hi
  rw [cell_reverse _ _ _ hp, if_pos (by omega), List.getElem_reverse, ← h (l.length - 1 - i) (by omega)]
  congr 1
  omega

/-! ## Pieces -/

section

variable {α : Type}

theorem intercalate_append {s : List α} {ls ms : List (List α)} (hl : ls ≠ []) (hm : ms ≠ []) :
    s.intercalate (ls ++ ms) = s.intercalate ls ++ s ++ s.intercalate ms := by
  induction ls with
  | nil => exact absurd rfl hl
  | cons k ls ih =>
    rw [List.cons_append, List.intercalate_cons_of_ne_nil (by simp [hm])]
    by_cases h : ls = []
    · subst h
      rw [List.nil_append, List.intercalate_singleton]
    · rw [ih h, List.intercalate_cons_of_ne_nil h]
      simp only [List.append_assoc]

variable [BEq α] [LawfulBEq α] {a : α} {l : List α}

/-- A list is cut in one way at a separator, if it is told how many come behind. -/
theorem append_cons_inj_of_count {l' m m' : List α} (h : l ++ a :: m = l' ++ a :: m') (hc : m.count a = m'.count a) :
    l = l' ∧ m = m' := by
  have hcut {w v v' : List α} (h : a :: v = w ++ a :: v') (hc : v.count a = v'.count a) : w = [] ∧ v = v' := by
    cases w with
    | nil => exact ⟨rfl, (List.cons.inj h).2⟩
    | cons b w =>
      have hv : v = w ++ a :: v' := (List.cons.inj h).2
      rw [hv, List.count_append, List.count_cons_self] at hc
      omega
  rcases List.append_eq_append_iff.1 h with ⟨w, rfl, hw⟩ | ⟨w, rfl, hw⟩
  · obtain ⟨rfl, rfl⟩ := hcut hw hc
    exact ⟨(List.append_nil l).symm, rfl⟩
  · obtain ⟨rfl, rfl⟩ := hcut hw hc.symm
    exact ⟨List.append_nil l', rfl⟩

/-- A list is one piece, or a piece in front of a separator and the rest. -/
theorem pieces_induction {motive : List α → Prop} (whole : ∀ l, a ∉ l → motive l)
    (cut : ∀ l m, a ∉ l → motive m → motive (l ++ a :: m)) (l : List α) : motive l := by
  by_cases h : a ∈ l
  · obtain ⟨k, m, hl, hk⟩ := List.eq_append_cons_of_mem h
    rw [hl]
    exact cut k m hk (pieces_induction whole cut m)
  · exact whole l h
termination_by l.length
decreasing_by
  rw [hl, List.length_append, List.length_cons]
  omega

/-- The pieces of a list in the opposite order. -/
def swapped (a : α) (l : List α) : List α := [a].intercalate (l.splitOn a).reverse

theorem swapped_of_notMem (h : a ∉ l) : swapped a l = l := by
  unfold swapped
  rw [List.splitOn_eq_singleton h, List.reverse_singleton, List.intercalate_singleton]

/-- What is in front of a separator comes behind it. -/
theorem swapped_append_cons (l m : List α) : swapped a (l ++ a :: m) = swapped a m ++ a :: swapped a l := by
  unfold swapped
  rw [List.splitOn_append_cons_self, List.reverse_append, intercalate_append (by simp) (by simp), List.append_assoc]
  rfl

theorem swapped_swapped (l : List α) : swapped a (swapped a l) = l := by
  induction l using pieces_induction (a := a) with
  | whole l h => rw [swapped_of_notMem h, swapped_of_notMem h]
  | cut l m h ih =>
    rw [swapped_append_cons, swapped_append_cons, ih, swapped_of_notMem h, swapped_of_notMem h]

theorem swapped_perm (l : List α) : (swapped a l).Perm l := by
  induction l using pieces_induction (a := a) with
  | whole l h => rw [swapped_of_notMem h]
  | cut l m h ih =>
    rw [swapped_append_cons, swapped_of_notMem h]
    have hmoved : (a :: l ++ swapped a m).Perm (l ++ a :: swapped a m) := List.perm_middle.symm
    exact List.perm_append_comm.trans (hmoved.trans ((ih.cons a).append_left l))

end

end Bytes
