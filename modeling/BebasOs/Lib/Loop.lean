/-
Loops that may fail: a counted loop and a loop with a test, as programs in `Option`, and the rules
that reason about them through an invariant. A loop that goes on by a function of finitely many states ends
within as many rounds, or never.
-/
import Mathlib.Computability.StateTransition
import Mathlib.Tactic

namespace Loop

variable {σ : Type}

/-! ## Counted loops -/

/-- `for (i = 0; i < n; i++)`; the loop fails when a round does. -/
def counted : (n : ℕ) → (body : ℕ → σ → Option σ) → σ → Option σ
  | 0, _, s => some s
  | n + 1, body, s => (counted n body s).bind (body n)

/-- What holds before the first round and is kept by every round holds after the loop. -/
theorem counted_rule (body : ℕ → σ → Option σ) (I : ℕ → σ → Prop) {s : σ} (h₀ : I 0 s) :
    ∀ n, (∀ i < n, ∀ s, I i s → ∃ s', body i s = some s' ∧ I (i + 1) s') → ∃ s', counted n body s = some s' ∧ I n s'
  | 0, _ => ⟨s, rfl, h₀⟩
  | n + 1, h => by
    obtain ⟨t, ht, hI⟩ := counted_rule body I h₀ n fun i hi => h i (Nat.lt_succ_of_lt hi)
    obtain ⟨s', hs', hI'⟩ := h n (Nat.lt_succ_self n) t hI
    refine ⟨s', ?_, hI'⟩
    unfold counted
    rw [ht]
    exact hs'

/-- What holds before the first round and is kept by every round that ends holds after a loop that ends. -/
theorem counted_ends {body : ℕ → σ → Option σ} (I : ℕ → σ → Prop) {s : σ} (h₀ : I 0 s) :
    ∀ n s', (∀ i < n, ∀ t t', I i t → body i t = some t' → I (i + 1) t') → counted n body s = some s' → I n s'
  | 0, s', _, hs => by
    cases hs
    exact h₀
  | n + 1, s', h, hs => by
    obtain ⟨t, ht, hbody⟩ := Option.bind_eq_some_iff.1 hs
    exact h n (Nat.lt_succ_self n) t s' (counted_ends I h₀ n t (fun i hi => h i (Nat.lt_succ_of_lt hi)) ht) hbody

/-! ## Loops with a test -/

/-- `while (test) body`, for at most `fuel` tests. -/
def guarded : (fuel : ℕ) → (test : σ → Option Bool) → (body : σ → Option σ) → σ → Option σ
  | 0, _, _, _ => none
  | fuel + 1, test, body, s =>
    match test s with
    | none => none
    | some false => some s
    | some true => (body s).bind (guarded fuel test body)

/-- A loop whose rounds keep an invariant and lower a measure ends, and the invariant holds where the
test fails. -/
theorem guarded_rule {test : σ → Option Bool} {body : σ → Option σ} (I : σ → Prop) (μ : σ → ℕ)
    (h : ∀ s, I s → test s = some false ∨ test s = some true ∧ ∃ s', body s = some s' ∧ I s' ∧ μ s' < μ s) :
    ∀ fuel s, I s → μ s < fuel → ∃ s', guarded fuel test body s = some s' ∧ I s' ∧ test s' = some false
  | 0, _, _, hlt => absurd hlt (Nat.not_lt_zero _)
  | fuel + 1, s, hI, hlt => by
    unfold guarded
    rcases h s hI with ht | ⟨ht, s', hs', hI', hμ⟩
    · rw [ht]
      exact ⟨s, rfl, hI, ht⟩
    · rw [ht, hs']
      exact guarded_rule I μ h fuel s' hI' (by omega)

/-- Where a loop ends, its test fails, and what its rounds keep still holds. -/
theorem guarded_ends {test : σ → Option Bool} {body : σ → Option σ} (I : σ → Prop)
    (h : ∀ t t', I t → body t = some t' → I t') : ∀ fuel s s', I s → guarded fuel test body s = some s' →
      I s' ∧ test s' = some false
  | 0, _, _, _, hs => by cases hs
  | fuel + 1, s, s', hI, hs => by
    unfold guarded at hs
    split at hs
    · cases hs
    · rename_i ht
      cases hs
      exact ⟨hI, ht⟩
    · obtain ⟨t, ht, hrest⟩ := Option.bind_eq_some_iff.1 hs
      exact guarded_ends I h fuel t s' (h s t hI ht) hrest

/-! ## Loops on finitely many states -/

section

open StateTransition Relation

variable {f : σ → Option σ} {x y : σ} {m n : ℕ}

/-- The state after a number of rounds. -/
def rounds (f : σ → Option σ) : ℕ → σ → Option σ
  | 0, s => some s
  | n + 1, s => (f s).bind (rounds f n)

theorem rounds_add (f : σ → Option σ) (m n : ℕ) (s : σ) : rounds f (m + n) s = (rounds f m s).bind (rounds f n) := by
  induction m generalizing s with
  | zero => rw [Nat.zero_add]; rfl
  | succ m ih =>
    rw [Nat.succ_add, rounds, rounds, Option.bind_assoc]
    exact Option.bind_congr fun t _ => ih t

theorem exists_rounds (h : Reaches f x y) : ∃ n, rounds f n x = some y := by
  induction h using ReflTransGen.head_induction_on with
  | refl => exact ⟨0, rfl⟩
  | head hstep _ ih =>
    obtain ⟨n, hn⟩ := ih
    refine ⟨n + 1, ?_⟩
    rw [rounds, hstep]
    exact hn

/-- A loop that ends does not come to a state twice. -/
theorem rounds_ne (hn : rounds f n x = some y) (hy : f y = none) {i j : ℕ} (hij : i < j) (hj : j ≤ n) :
    rounds f i x ≠ rounds f j x := by
  intro he
  have hagain : rounds f (i + (n - j)) x = some y := by
    rw [rounds_add, he, ← rounds_add, Nat.add_sub_cancel' hj, hn]
  obtain ⟨k, hk⟩ := Nat.exists_eq_add_of_lt hij
  have hlater : rounds f (i + (n - j) + (k + 1)) x = none := by
    rw [rounds_add, hagain, Option.bind_some, rounds, hy]
    rfl
  rw [show i + (n - j) + (k + 1) = n by omega, hn] at hlater
  cases hlater

/-- It ends in less rounds than there are states. -/
theorem rounds_lt {N : ℕ} {code : σ → ℕ} (hcode : Function.Injective code) (hlt : ∀ s, code s < N)
    (hn : rounds f n x = some y) (hy : f y = none) : n < N := by
  have hsome {i : ℕ} (hi : i ≤ n) : ∃ s, rounds f i x = some s := by
    rw [← Nat.add_sub_cancel' hi, rounds_add] at hn
    obtain ⟨s, hs, -⟩ := Option.bind_eq_some_iff.1 hn
    exact ⟨s, hs⟩
  have hinj : Set.InjOn (fun i => (rounds f i x).elim 0 code) (Finset.range (n + 1)) := by
    intro i hi j hj he
    rw [Finset.coe_range, Set.mem_Iio] at hi hj
    obtain ⟨s, hs⟩ := hsome (i := i) (by omega)
    obtain ⟨t, ht⟩ := hsome (i := j) (by omega)
    simp only [hs, ht, Option.elim_some] at he
    have heq : rounds f i x = rounds f j x := by rw [hs, ht, hcode he]
    rcases Nat.lt_trichotomy i j with h | h | h
    · exact absurd heq (rounds_ne hn hy h (by omega))
    · exact h
    · exact absurd heq.symm (rounds_ne hn hy h (by omega))
  have hcard := Finset.card_le_card_of_injOn (s := Finset.range (n + 1)) (t := Finset.range N) _ (fun i hi => by
    obtain ⟨s, hs⟩ := hsome (i := i) (by have := Finset.mem_range.1 hi; omega)
    simp only [hs, Option.elim_some]
    exact Finset.mem_coe.2 (Finset.mem_range.2 (hlt s))) hinj
  rw [Finset.card_range, Finset.card_range] at hcard
  exact hcard

end

end Loop
