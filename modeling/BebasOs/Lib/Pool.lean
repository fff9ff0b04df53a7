/-
Pools of resources: slots that hold at most one resource each, and the resources marked as taken. A
pool changes when a slot takes a resource that was not marked, when it gives its resource back, or
when some slots are cleared. Two slots never come to hold one resource; a marked resource comes to
be held by no slot exactly when a slot is overwritten or cleared that held one.
-/
import Mathlib.Data.Set.Basic
import Mathlib.Tactic

variable {σ φ : Type}

/-- What each slot holds, and which resources are marked. -/
structure Pool (σ φ : Type) where
  held : σ → Option φ
  marked : Set φ

namespace Pool

variable {p p' : Pool σ φ} {x : σ} {f r : φ} {S U U' : Set σ}

/-! ## Changes -/

/-- Slot `x` takes the resource `f`. -/
structure Take (p p' : Pool σ φ) (x : σ) (f : φ) : Prop where
  fresh : f ∉ p.marked
  self : p'.held x = some f
  others : ∀ y ≠ x, p'.held y = p.held y
  marked : ∀ g, g ∈ p'.marked ↔ g = f ∨ g ∈ p.marked

/-- Slot `x` gives the resource `f` back. -/
structure Give (p p' : Pool σ φ) (x : σ) (f : φ) : Prop where
  holds : p.held x = some f
  self : p'.held x = none
  others : ∀ y ≠ x, p'.held y = p.held y
  marked : ∀ g, g ∈ p'.marked ↔ g ≠ f ∧ g ∈ p.marked

/-- The slots of `S` are cleared; no mark changes. -/
structure Drop (p p' : Pool σ φ) (S : Set σ) : Prop where
  cleared : ∀ y ∈ S, p'.held y = none
  others : ∀ y ∉ S, p'.held y = p.held y
  marked : p'.marked = p.marked

/-! ## Safety -/

/-- Every resource held is marked, is not the reserved `r`, which is marked too, and is held once. -/
structure Safe (r : φ) (p : Pool σ φ) : Prop where
  reserved : r ∈ p.marked
  marked : ∀ x f, p.held x = some f → f ∈ p.marked ∧ f ≠ r
  sole : ∀ x y f, p.held x = some f → p.held y = some f → x = y

theorem Take.safe (hp : p.Safe r) (h : p.Take p' x f) : p'.Safe r := by
  have hfr : f ≠ r := fun hf => h.fresh (by rw [hf]; exact hp.reserved)
  -- what another slot holds is marked already, so it is not `f`
  have old {y g} (hy : y ≠ x) (hg : p'.held y = some g) : p.held y = some g ∧ g ≠ f := by
    rw [h.others y hy] at hg
    refine ⟨hg, ?_⟩
    rintro rfl
    exact h.fresh (hp.marked y g hg).1
  refine ⟨(h.marked r).2 (.inr hp.reserved), fun y g hg => ?_, fun y z g hy hz => ?_⟩
  · by_cases hyx : y = x
    · subst hyx
      rw [h.self] at hg
      cases hg
      exact ⟨(h.marked f).2 (.inl rfl), hfr⟩
    · obtain ⟨h1, -⟩ := old hyx hg
      exact ⟨(h.marked g).2 (.inr (hp.marked y g h1).1), (hp.marked y g h1).2⟩
  · by_cases hyx : y = x <;> by_cases hzx : z = x
    · rw [hyx, hzx]
    · subst hyx
      rw [h.self] at hy
      cases hy
      exact absurd rfl (old hzx hz).2
    · subst hzx
      rw [h.self] at hz
      cases hz
      exact absurd rfl (old hyx hy).2
    · exact hp.sole y z g (old hyx hy).1 (old hzx hz).1

theorem Give.safe (hp : p.Safe r) (h : p.Give p' x f) : p'.Safe r := by
  have old {y g} (hg : p'.held y = some g) : y ≠ x ∧ p.held y = some g := by
    have hyx : y ≠ x := by
      rintro rfl
      rw [h.self] at hg
      cases hg
    rw [h.others y hyx] at hg
    exact ⟨hyx, hg⟩
  refine ⟨(h.marked r).2 ⟨(hp.marked x f h.holds).2.symm, hp.reserved⟩, fun y g hg => ?_, fun y z g hy hz => ?_⟩
  · obtain ⟨hyx, hg⟩ := old hg
    refine ⟨(h.marked g).2 ⟨?_, (hp.marked y g hg).1⟩, (hp.marked y g hg).2⟩
    rintro rfl
    exact hyx (hp.sole y x g hg h.holds)
  · exact hp.sole y z g (old hy).2 (old hz).2

theorem Drop.safe (hp : p.Safe r) (h : p.Drop p' S) : p'.Safe r := by
  have old {y g} (hg : p'.held y = some g) : p.held y = some g := by
    by_cases hy : y ∈ S
    · rw [h.cleared y hy] at hg
      cases hg
    · rwa [h.others y hy] at hg
  refine ⟨by rw [h.marked]; exact hp.reserved, fun y g hg => ?_, fun y z g hy hz => hp.sole y z g (old hy) (old hz)⟩
  rw [h.marked]
  exact hp.marked y g (old hg)

/-! ## Leaks -/

/-- Every marked resource but the reserved one is held by a slot of `U`. -/
def Covered (r : φ) (U : Set σ) (p : Pool σ φ) : Prop := ∀ f ∈ p.marked, f ≠ r → ∃ x ∈ U, p.held x = some f

/-- The slots outside of `U` then hold nothing. -/
theorem Covered.empty (hp : p.Safe r) (h : p.Covered r U) (hx : x ∉ U) : p.held x = none := by
  rcases hf : p.held x with _ | f
  · rfl
  · obtain ⟨h1, h2⟩ := hp.marked x f hf
    obtain ⟨y, hy, hy'⟩ := h f h1 h2
    rw [hp.sole x y f hf hy'] at hx
    exact absurd hy hx

/-- A resource taken stays in reach exactly when the slot is one of `U` and held nothing. -/
theorem Take.covered_iff (hp : p.Safe r) (hc : p.Covered r U) (h : p.Take p' x f) :
    p'.Covered r U ↔ x ∈ U ∧ p.held x = none := by
  have hp' := h.safe hp
  constructor
  · intro hc'
    obtain ⟨y, hy, hyf⟩ := hc' f ((h.marked f).2 (.inl rfl)) (hp'.marked x f h.self).2
    obtain rfl := hp'.sole y x f hyf h.self
    refine ⟨hy, ?_⟩
    -- what the slot held before is marked still, and no other slot holds it
    rcases hg : p.held y with _ | g
    · rfl
    · obtain ⟨h1, h2⟩ := hp.marked y g hg
      obtain ⟨z, hz, hzg⟩ := hc' g ((h.marked g).2 (.inr h1)) h2
      have hzy : z ≠ y := by
        rintro rfl
        rw [h.self] at hzg
        cases hzg
        exact h.fresh h1
      rw [h.others z hzy] at hzg
      exact absurd (hp.sole z y g hzg hg) hzy
  · rintro ⟨hxU, hx⟩ g hg hgr
    rcases (h.marked g).1 hg with rfl | hg
    · exact ⟨x, hxU, h.self⟩
    · obtain ⟨y, hy, hyg⟩ := hc g hg hgr
      have hyx : y ≠ x := by
        rintro rfl
        rw [hx] at hyg
        cases hyg
      exact ⟨y, hy, by rw [h.others y hyx]; exact hyg⟩

theorem Give.covered (hc : p.Covered r U) (h : p.Give p' x f) : p'.Covered r U := by
  intro g hg hgr
  obtain ⟨h1, h2⟩ := (h.marked g).1 hg
  obtain ⟨y, hy, hyg⟩ := hc g h2 hgr
  have hyx : y ≠ x := by
    rintro rfl
    rw [h.holds] at hyg
    cases hyg
    exact h1 rfl
  exact ⟨y, hy, by rw [h.others y hyx]; exact hyg⟩

/-- Clearing slots keeps everything in reach exactly when they held nothing; whether they belong to `U`
does not matter. -/
theorem Drop.covered_iff (hp : p.Safe r) (hc : p.Covered r U) (h : p.Drop p' S) (hU : ∀ x ∉ S, x ∈ U → x ∈ U') :
    p'.Covered r U' ↔ ∀ x ∈ S, p.held x = none := by
  constructor
  · intro hc' x hx
    -- what a cleared slot held is marked still, so that another slot would have to hold it
    rcases hg : p.held x with _ | g
    · rfl
    · obtain ⟨h1, h2⟩ := hp.marked x g hg
      obtain ⟨y, -, hyg⟩ := hc' g (by rw [h.marked]; exact h1) h2
      have hyS : y ∉ S := fun hyS => by
        rw [h.cleared y hyS] at hyg
        cases hyg
      rw [h.others y hyS] at hyg
      rw [hp.sole y x g hyg hg] at hyS
      exact absurd hx hyS
  · intro hS g hg hgr
    rw [h.marked] at hg
    obtain ⟨y, hy, hyg⟩ := hc g hg hgr
    have hyS : y ∉ S := fun hyS => by
      rw [hS y hyS] at hyg
      cases hyg
    exact ⟨y, hU y hyS hy, by rw [h.others y hyS]; exact hyg⟩

end Pool
