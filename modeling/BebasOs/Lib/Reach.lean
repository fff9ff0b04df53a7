/-
What a relation reaches from a root: which nodes are reached only depends on the edges out of
reached nodes, adding or removing a leaf adds or removes that node alone, cutting a node off loses
only what is below it, and where every reached node has one predecessor, none is its own ancestor and
climbing predecessors visits exactly the ancestors.
-/
import Mathlib.Logic.Relation
import Mathlib.Logic.Function.Iterate
import Mathlib.Tactic

namespace Reach

open Relation

variable {α : Type} {r s : α → α → Prop} {x : α}

theorem mono_on (h : ∀ a, ReflTransGen r x a → ∀ b, r a b → s a b) {a : α} (ha : ReflTransGen r x a) :
    ReflTransGen s x a := by
  induction ha with
  | refl => exact .refl
  | tail hb hbc ih => exact ih.tail (h _ hb _ hbc)

theorem congr_on (h : ∀ a, ReflTransGen r x a → ∀ b, r a b ↔ s a b) {a : α} :
    ReflTransGen r x a ↔ ReflTransGen s x a := by
  refine ⟨mono_on fun a ha b => (h a ha b).1, fun hs => ?_⟩
  induction hs with
  | refl => exact .refl
  | tail _ hbc ih => exact ih.tail ((h _ ih _).2 hbc)

/-! ## Leaves -/

theorem insert_leaf {p n : α} (hp : ReflTransGen r x p)
    (hs : ∀ a, ReflTransGen r x a → ∀ b, s a b ↔ r a b ∨ a = p ∧ b = n) (hn : ∀ b, ¬ s n b) {a : α} :
    ReflTransGen s x a ↔ ReflTransGen r x a ∨ a = n := by
  have old {a : α} (ha : ReflTransGen r x a) : ReflTransGen s x a :=
    mono_on (fun a ha b hab => (hs a ha b).2 (.inl hab)) ha
  constructor
  · intro h
    induction h with
    | refl => exact .inl .refl
    | tail _ hbc ih =>
      rcases ih with ih | rfl
      · rcases (hs _ ih _).1 hbc with h | ⟨-, h⟩
        · exact .inl (ih.tail h)
        · exact .inr h
      · exact absurd hbc (hn _)
  · rintro (h | rfl)
    · exact old h
    · exact (old hp).tail ((hs p hp _).2 (.inr ⟨rfl, rfl⟩))

theorem delete_leaf {n : α} (hx : x ≠ n) (hn : ReflTransGen r x n → ∀ b, ¬ r n b)
    (hs : ∀ a, ReflTransGen r x a → a ≠ n → ∀ b, s a b ↔ r a b ∧ b ≠ n) {a : α} :
    ReflTransGen s x a ↔ ReflTransGen r x a ∧ a ≠ n := by
  constructor
  · intro h
    induction h with
    | refl => exact ⟨.refl, hx⟩
    | tail _ hbc ih =>
      obtain ⟨h1, h2⟩ := (hs _ ih.1 ih.2 _).1 hbc
      exact ⟨ih.1.tail h1, h2⟩
  · rintro ⟨h, hne⟩
    induction h with
    | refl => exact .refl
    | @tail b c hb hbc ih =>
      have hbn : b ≠ n := by rintro rfl; exact hn hb c hbc
      exact (ih hbn).tail ((hs b hb hbn c).2 ⟨hbc, hne⟩)

/-! ## Cutting -/

/-- What is not below `c` stays reached when edges into `c` alone are lost. -/
theorem cut_mono {c : α} (h : ∀ a, ReflTransGen r x a → ∀ b, b ≠ c → r a b → s a b) {b : α}
    (hb : ReflTransGen r x b) (hcb : ¬ ReflTransGen r c b) : ReflTransGen s x b := by
  induction hb with
  | refl => exact .refl
  | tail ha hab ih =>
    refine (ih fun hca => hcb (hca.tail hab)).tail (h _ ha _ ?_ hab)
    rintro rfl
    exact hcb .refl

/-! ## Climbing -/

/-- No reached node is its own ancestor. -/
theorem acyclic {up : α → α} (hup : ∀ a b, ReflTransGen r x a → r a b → up b = a)
    (hx : ∀ a, ReflTransGen r x a → ¬ r a x) {b : α} (hb : ReflTransGen r x b) : ¬ TransGen r b b := by
  induction hb with
  | refl =>
    intro hcycle
    obtain ⟨a, ha, hax⟩ := TransGen.tail'_iff.1 hcycle
    exact hx a ha hax
  | @tail b c hb hbc ih =>
    intro hcycle
    obtain ⟨d, hcd, hdc⟩ := TransGen.tail'_iff.1 hcycle
    -- a cycle through `c` comes in from `b`, so there is one through `b`
    obtain rfl : d = b := (hup d c ((hb.tail hbc).trans hcd) hdc).symm.trans (hup b c hb hbc)
    exact ih (TransGen.head' hbc hcd)

/-- Climbing with `up`, which undoes every reached edge, gets from a reached node back to the
root through exactly the nodes between them. -/
theorem climb {up : α → α} (hup : ∀ a b, ReflTransGen r x a → r a b → up b = a)
    (hx : ∀ a, ReflTransGen r x a → ¬ r a x) {b : α} (hb : ReflTransGen r x b) :
    ∃ n, up^[n] b = x ∧ ∀ a, (∃ k ≤ n, up^[k] b = a) ↔ ReflTransGen r x a ∧ ReflTransGen r a b := by
  induction hb with
  | refl =>
    refine ⟨0, rfl, fun a => ⟨?_, ?_⟩⟩
    · rintro ⟨k, hk, rfl⟩
      obtain rfl : k = 0 := by omega
      exact ⟨.refl, .refl⟩
    · rintro ⟨h1, h2⟩
      refine ⟨0, Nat.le_refl _, ?_⟩
      rcases ReflTransGen.cases_tail h2 with h | ⟨c, h3, h4⟩
      · exact h
      · exact absurd h4 (hx c (h1.trans h3))
  | @tail b c hb hbc ih =>
    obtain ⟨n, hn, hanc⟩ := ih
    have hc : up c = b := hup b c hb hbc
    refine ⟨n + 1, by rw [Function.iterate_succ_apply, hc]; exact hn, fun a => ⟨?_, ?_⟩⟩
    · rintro ⟨k, hk, rfl⟩
      cases k with
      | zero => exact ⟨hb.tail hbc, .refl⟩
      | succ k =>
        rw [Function.iterate_succ_apply, hc]
        obtain ⟨h1, h2⟩ := (hanc _).1 ⟨k, by omega, rfl⟩
        exact ⟨h1, h2.tail hbc⟩
    · rintro ⟨h1, h2⟩
      rcases ReflTransGen.cases_tail h2 with rfl | ⟨d, h3, h4⟩
      · exact ⟨0, Nat.zero_le _, rfl⟩
      · -- the last node before `c` can only be `b`
        obtain rfl : d = b := (hup d c (h1.trans h3) h4).symm.trans hc
        obtain ⟨k, hk, rfl⟩ := (hanc a).2 ⟨h1, h3⟩
        exact ⟨k + 1, by omega, by rw [Function.iterate_succ_apply, hc]⟩

end Reach
