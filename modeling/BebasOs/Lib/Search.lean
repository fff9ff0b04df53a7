/-
Bounded linear search: the first index of a range that passes a test, as a counting loop with a
`break` finds it, and the list of all of them in increasing order.
-/
import Mathlib.Data.List.Range
import Mathlib.Tactic

namespace Search

variable {p q : ℕ → Bool} {lo hi i : ℕ}

/-- The first index from `lo` on and below `hi` that passes `p`. -/
def first (p : ℕ → Bool) (lo hi : ℕ) : Option ℕ := (List.range' lo (hi - lo)).find? p

/-- The indices from `lo` on and below `hi` that pass `p`, in increasing order. -/
def hits (p : ℕ → Bool) (lo hi : ℕ) : List ℕ := (List.range' lo (hi - lo)).filter p

theorem first_eq_some :
    first p lo hi = some i ↔ lo ≤ i ∧ i < hi ∧ p i = true ∧ ∀ j, lo ≤ j → j < i → p j = false := by
  unfold first
  rw [List.find?_range'_eq_some, List.mem_range'_1]
  simp only [Bool.not_eq_true']
  constructor
  · rintro ⟨h1, ⟨h2, h3⟩, h4⟩; exact ⟨h2, by omega, h1, h4⟩
  · rintro ⟨h2, h3, h1, h4⟩; exact ⟨h1, ⟨h2, by omega⟩, h4⟩

theorem first_eq_none : first p lo hi = none ↔ ∀ i, lo ≤ i → i < hi → p i = false := by
  unfold first
  rw [List.find?_range'_eq_none]
  simp only [Bool.not_eq_true']
  constructor
  · intro h i h1 h2; exact h i h1 (by omega)
  · intro h i h1 h2; exact h i h1 (by omega)

theorem first_congr (h : ∀ i, lo ≤ i → i < hi → p i = q i) : first p lo hi = first q lo hi := by
  rcases hq : first q lo hi with _ | i
  · rw [first_eq_none] at hq ⊢
    intro i h1 h2; rw [h i h1 h2]; exact hq i h1 h2
  · rw [first_eq_some] at hq ⊢
    obtain ⟨h1, h2, h3, h4⟩ := hq
    refine ⟨h1, h2, by rw [h i h1 h2]; exact h3, fun j hj1 hj2 => ?_⟩
    rw [h j hj1 (by omega)]; exact h4 j hj1 hj2

/-- A search that may start later when nothing before passes. -/
theorem first_skip {mid : ℕ} (h1 : lo ≤ mid) (h2 : ∀ j, lo ≤ j → j < mid → p j = false) :
    first p lo hi = first p mid hi := by
  rcases hq : first p mid hi with _ | i
  · rw [first_eq_none] at hq ⊢
    intro i h3 h4
    rcases Nat.lt_or_ge i mid with h5 | h5
    · exact h2 i h3 h5
    · exact hq i h5 h4
  · rw [first_eq_some] at hq ⊢
    obtain ⟨h3, h4, h5, h6⟩ := hq
    refine ⟨by omega, h4, h5, fun j hj1 hj2 => ?_⟩
    rcases Nat.lt_or_ge j mid with h7 | h7
    · exact h2 j hj1 h7
    · exact h6 j h7 hj2

theorem first_append (mid : ℕ) (h1 : lo ≤ mid) (h2 : mid ≤ hi) :
    first p lo hi = (first p lo mid).or (first p mid hi) := by
  have hr : List.range' lo (hi - lo) = List.range' lo (mid - lo) ++ List.range' mid (hi - mid) := by
    rw [show hi - lo = (mid - lo) + (hi - mid) by omega, ← List.range'_append_1, Nat.add_sub_cancel' h1]
  unfold first
  rw [hr, List.find?_append]

theorem first_one (h : p i = true) : first p i (i + 1) = some i :=
  first_eq_some.2 ⟨le_rfl, Nat.lt_succ_self i, h, fun _ hj hji => absurd hji (Nat.not_lt.2 hj)⟩

/-- A search in a range that lies further up. -/
theorem first_shift (a : ℕ) : first p (a + lo) (a + hi) = (first (fun k => p (a + k)) lo hi).map (a + ·) := by
  rcases hk : first (fun k => p (a + k)) lo hi with _ | k
  · rw [first_eq_none] at hk
    rw [Option.map_none, first_eq_none]
    intro i h1 h2
    have := hk (i - a) (by omega) (by omega)
    rwa [Nat.add_sub_cancel' (by omega)] at this
  · rw [first_eq_some] at hk
    obtain ⟨h1, h2, h3, h4⟩ := hk
    rw [Option.map_some, first_eq_some]
    refine ⟨by omega, by omega, h3, fun j hj1 hj2 => ?_⟩
    have := h4 (j - a) (by omega) (by omega)
    rwa [Nat.add_sub_cancel' (by omega)] at this

theorem mem_hits : i ∈ hits p lo hi ↔ lo ≤ i ∧ i < hi ∧ p i = true := by
  unfold hits
  rw [List.mem_filter, List.mem_range'_1]
  constructor
  · rintro ⟨⟨h1, h2⟩, h3⟩; exact ⟨h1, by omega, h3⟩
  · rintro ⟨h1, h2, h3⟩; exact ⟨⟨h1, by omega⟩, h3⟩

theorem hits_nodup : (hits p lo hi).Nodup := (List.nodup_range' (s := lo) (n := hi - lo)).filter p

theorem hits_congr (h : ∀ i, lo ≤ i → i < hi → p i = q i) : hits p lo hi = hits q lo hi := by
  refine List.filter_congr fun i hi => ?_
  rw [List.mem_range'_1] at hi
  exact h i hi.1 (by omega)

theorem hits_of_first_none (h : first p lo hi = none) : hits p lo hi = [] := by
  rw [first_eq_none] at h
  refine List.filter_eq_nil_iff.2 fun i hi => ?_
  rw [List.mem_range'_1] at hi
  simp [h i hi.1 (by omega)]

/-- The hits of a range are its first hit and the hits after it. -/
theorem hits_of_first_some (h : first p lo hi = some i) : hits p lo hi = i :: hits p (i + 1) hi := by
  obtain ⟨h1, h2, h3, h4⟩ := first_eq_some.1 h
  have hr : List.range' lo (hi - lo) = List.range' lo (i - lo) ++ i :: List.range' (i + 1) (hi - (i + 1)) := by
    have h5 : hi - lo = (i - lo) + ((hi - (i + 1)) + 1) := by omega
    rw [h5, ← List.range'_append_1, List.range'_succ, show lo + (i - lo) = i by omega]
  unfold hits
  rw [hr, List.filter_append, List.filter_cons_of_pos h3]
  have : (List.range' lo (i - lo)).filter p = [] := by
    refine List.filter_eq_nil_iff.2 fun j hj => ?_
    rw [List.mem_range'_1] at hj
    simp [h4 j hj.1 (by omega)]
  rw [this, List.nil_append]

end Search
