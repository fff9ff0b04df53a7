/-
Round robin on a ring of `n` places, some of which are marked: the search for the next marked place, and
the places that a run of such searches comes to. In any stretch of a run that is as long as there are marked
places, every one of them comes once.
-/
import Mathlib.Data.List.Rotate
import Mathlib.Tactic

namespace Ring

variable {p : ℕ → Bool} {n m i j x : ℕ} {w : List ℕ}

/-- The places of the ring in the order in which they are looked at from `i` on: `i` itself comes last. -/
def round (n i : ℕ) : List ℕ := (List.range n).rotate (i + 1)

/-- The next marked place after `i`. -/
def next (p : ℕ → Bool) (n i : ℕ) : Option ℕ := (round n i).find? p

/-- The marked places in the order of a round. -/
def marked (p : ℕ → Bool) (n i : ℕ) : List ℕ := (round n i).filter p

/-- The places of `m` searches, each from the place that the one before found. -/
def picks (p : ℕ → Bool) (n : ℕ) : (m : ℕ) → (i : ℕ) → List ℕ
  | 0, _ => []
  | m + 1, i => match next p n i with
    | none => []
    | some j => j :: picks p n m j

/-! ## Rounds -/

theorem round_eq_map (n i : ℕ) : round n i = (List.range n).map fun d => (i + 1 + d) % n := by
  unfold round
  refine List.ext_getElem (by simp) fun d h1 h2 => ?_
  rw [List.getElem_map, List.getElem_range, List.getElem_rotate, List.getElem_range, List.length_range]
  congr 1
  omega

/-- A round from the `d`-th place of a round is the round itself, rotated. -/
theorem round_add (n i d : ℕ) : round n ((i + d) % n) = (round n i).rotate d := by
  have hmod : ((i + d) % n + 1) % n = (i + 1 + d) % n := by
    rw [Nat.mod_add_mod]
    congr 1
    omega
  have hrot (k : ℕ) : (List.range n).rotate (k % n) = (List.range n).rotate k := by
    have h := List.rotate_mod (List.range n) k
    rwa [List.length_range] at h
  unfold round
  rw [List.rotate_rotate, ← hrot, hmod, hrot]

theorem mem_marked : x ∈ marked p n i ↔ x < n ∧ p x = true := by simp [marked, round]

theorem nodup_marked : (marked p n i).Nodup := by
  have h : (round n i).Nodup := List.nodup_rotate.2 List.nodup_range
  exact h.filter _

/-- How many places are marked does not depend on where a round starts. -/
theorem length_marked (p : ℕ → Bool) (n i j : ℕ) : (marked p n i).length = (marked p n j).length := by
  refine List.Perm.length_eq ?_
  rw [List.perm_ext_iff_of_nodup nodup_marked nodup_marked]
  intro x
  rw [mem_marked, mem_marked]

/-! ## Searches -/

/-- A search finds the first of the marked places, which comes last from then on. -/
theorem marked_of_next (h : next p n i = some j) :
    ∃ rest, marked p n i = j :: rest ∧ marked p n j = rest ++ [j] := by
  obtain ⟨hp, before, after, hround, hbefore⟩ := List.find?_eq_some_iff_append.1 h
  have hnone : before.filter p = [] := by
    refine List.filter_eq_nil_iff.2 fun x hx => ?_
    simpa using hbefore x hx
  -- the place is the one at the distance of the places before it
  have hlen : before.length < (round n i).length := by
    rw [hround, List.length_append, List.length_cons]
    omega
  have hj : j = (i + (before.length + 1)) % n := by
    have hget : (round n i)[before.length] = j := by simp [hround]
    have hmap : (round n i)[before.length] = (i + 1 + before.length) % n := by simp [round_eq_map]
    rw [← hget, hmap]
    congr 1
    omega
  have hrotate : round n j = after ++ (before ++ [j]) := by
    have hsplit : round n i = (before ++ [j]) ++ after := by rw [hround]; simp
    have hstart : round n j = round n ((i + (before.length + 1)) % n) := congrArg (round n) hj
    have hback := List.rotate_append_length_eq (before ++ [j]) after
    rw [List.length_append, List.length_singleton, ← hsplit, ← round_add, ← hstart] at hback
    exact hback
  refine ⟨after.filter p, ?_, ?_⟩
  · unfold marked
    rw [hround, List.filter_append, hnone, List.filter_cons_of_pos hp, List.nil_append]
  · unfold marked
    rw [hrotate, List.filter_append, List.filter_append, hnone, List.filter_cons_of_pos hp, List.filter_nil,
      List.nil_append]

theorem next_eq_none : next p n i = none ↔ marked p n i = [] := by
  unfold next marked
  rw [List.find?_eq_none, List.filter_eq_nil_iff]

theorem picks_succ (h : next p n i = some j) (m : ℕ) : picks p n (m + 1) i = j :: picks p n m j := by
  rw [picks, h]

/-- A run that comes to a place goes on from there. -/
theorem picks_eq_cons (h : picks p n m i = x :: w) : next p n i = some x ∧ ∃ k, picks p n k x = w := by
  rcases m with _ | m
  · cases h
  · rcases hn : next p n i with _ | j
    · rw [picks, hn] at h
      cases h
    · rw [picks_succ hn] at h
      obtain ⟨rfl, hrest⟩ := List.cons.inj h
      exact ⟨rfl, m, hrest⟩

/-- A run of searches goes through the marked places in the order of the round. -/
theorem picks_eq_take (h : m ≤ (marked p n i).length) : picks p n m i = (marked p n i).take m := by
  induction m generalizing i with
  | zero => simp [picks]
  | succ m ih =>
    rcases hn : next p n i with _ | j
    · rw [next_eq_none.1 hn] at h
      cases h
    · obtain ⟨rest, h1, h2⟩ := marked_of_next hn
      have hm : m ≤ rest.length := by
        rw [h1, List.length_cons] at h
        omega
      have hrest : m ≤ (marked p n j).length := by
        rw [h2, List.length_append]
        omega
      rw [picks_succ hn, ih hrest, h1, h2, List.take_succ_cons, List.take_append_of_le_length hm]

/-! ## Stretches of a run -/

/-- The beginning of a run is a shorter run. -/
theorem picks_of_prefix {t : List ℕ} (h : picks p n m i = w ++ t) : picks p n w.length i = w := by
  induction w generalizing m i with
  | nil => rfl
  | cons x w ih =>
    obtain ⟨hx, k, hk⟩ := picks_eq_cons h
    rw [List.length_cons, picks_succ hx, ih hk]

/-- A stretch of a run is a run from another place. -/
theorem picks_of_infix (h : w <:+: picks p n m i) : ∃ i', picks p n w.length i' = w := by
  obtain ⟨s, t, h⟩ := h
  induction s generalizing m i with
  | nil => exact ⟨i, picks_of_prefix h.symm⟩
  | cons x s ih =>
    obtain ⟨-, k, hk⟩ := picks_eq_cons h.symm
    exact ih hk.symm

/-- A stretch of a run, as long as there are marked places, comes to each of them once and to no other place. -/
theorem count_of_infix (h : w <:+: picks p n m i) (hw : w.length = (marked p n i).length) (x : ℕ) :
    w.count x = if x < n ∧ p x = true then 1 else 0 := by
  obtain ⟨i', hi'⟩ := picks_of_infix h
  have hlen : w.length = (marked p n i').length := hw.trans (length_marked p n i i')
  rw [picks_eq_take (Nat.le_of_eq hlen), hlen, List.take_length] at hi'
  rw [← hi', nodup_marked.count]
  simp only [mem_marked]

end Ring
