/-
Text on a page: items typed one after the other into rows of a fixed width, with items that end
their row, and the window on the last rows.
-/
import Mathlib.Data.List.GetD
import Mathlib.Tactic

namespace Page

variable {α : Type} {width : ℕ} {ends : α → Bool}

/-- The rows of a text typed after the items of `row`. A row ends with its `width`-th item or with an item
that ends rows, and the last row is the one to type on. -/
def layout (width : ℕ) (ends : α → Bool) : (row text : List α) → List (List α)
  | row, [] => [row]
  | row, a :: text =>
    if ends a ∨ row.length + 1 = width then (row ++ [a]) :: layout width ends [] text
    else layout width ends (row ++ [a]) text

/-- What one more item does to the row being typed. -/
def typed (width : ℕ) (ends : α → Bool) (row : List α) (a : α) : List (List α) :=
  if ends a ∨ row.length + 1 = width then [row ++ [a], []] else [row ++ [a]]

/-- One more item at the end of the text touches only the last row, which always has room for it. -/
theorem layout_snoc (a : α) (hw : 0 < width) : ∀ (text row : List α), row.length < width →
    ∃ done cur, layout width ends row text = done ++ [cur] ∧ cur.length < width ∧
      layout width ends row (text ++ [a]) = done ++ typed width ends cur a
  | [], row, hr => by
    refine ⟨[], row, rfl, hr, ?_⟩
    simp only [List.nil_append, layout, typed]
  | b :: text, row, hr => by
    simp only [List.cons_append, layout]
    split
    · obtain ⟨done, cur, h₁, h₂, h₃⟩ := layout_snoc a hw text [] hw
      exact ⟨(row ++ [b]) :: done, cur, by rw [h₁]; rfl, h₂, by rw [h₃]; rfl⟩
    · next hb =>
      have hlt : (row ++ [b]).length < width := by
        rw [List.length_append, List.length_singleton]
        omega
      exact layout_snoc a hw text (row ++ [b]) hlt

/-! ## The items of the rows -/

/-- The item of a row and column of the page; unused places hold `fill`. -/
def entry (fill : α) (rows : List (List α)) (i j : ℕ) : α := (rows.getD i []).getD j fill

theorem entry_type (fill : α) (done : List (List α)) (cur : List α) (a : α) (i j : ℕ) :
    entry fill (done ++ [cur ++ [a]]) i j =
      if i = done.length ∧ j = cur.length then a else entry fill (done ++ [cur]) i j := by
  rcases Nat.lt_trichotomy i done.length with h | rfl | h
  · rw [if_neg (by omega)]
    unfold entry
    rw [List.getD_append _ _ _ _ h, List.getD_append _ _ _ _ h]
  · have hrow (r : List α) : (done ++ [r]).getD done.length [] = r := by simp
    unfold entry
    rw [hrow, hrow]
    rcases Nat.lt_trichotomy j cur.length with hj | rfl | hj
    · rw [if_neg (by omega), List.getD_append _ _ _ _ hj]
    · simp
    · rw [if_neg (by omega), List.getD_eq_default _ _ (by simp; omega), List.getD_eq_default _ _ (by omega)]
  · rw [if_neg (by omega)]
    have hrow (r : List α) : (done ++ [r]).getD i [] = [] := List.getD_eq_default _ _ (by simp; omega)
    unfold entry
    rw [hrow, hrow]

/-- A new row has no items. -/
theorem entry_newRow (fill : α) (rows : List (List α)) (i j : ℕ) :
    entry fill (rows ++ [[]]) i j = entry fill rows i j := by
  unfold entry
  rcases Nat.lt_trichotomy i rows.length with h | rfl | h
  · rw [List.getD_append _ _ _ _ h]
  · simp
  · have hlen : (rows ++ [[]]).length ≤ i := by rw [List.length_append, List.length_singleton]; omega
    rw [List.getD_eq_default _ _ hlen, List.getD_eq_default _ _ (Nat.le_of_lt h)]

theorem entry_ge (fill : α) {rows : List (List α)} {i : ℕ} (h : rows.length ≤ i) (j : ℕ) :
    entry fill rows i j = fill := by
  unfold entry
  rw [List.getD_eq_default _ _ h]
  rfl

/-! ## The window -/

/-- The first row of the page that a window of `n` rows shows: the last `n` rows, or all of them. -/
def top (n : ℕ) (rows : List (List α)) : ℕ := rows.length - n

/-- The row of the window where the page ends. -/
def bottom (n : ℕ) (rows : List (List α)) : ℕ := rows.length - 1 - top n rows

end Page
