/-
Refinement between two machines that take inputs one after the other and answer each of them. The machine below may
have no answer, the one above, its specification, always has one. Where each step agrees, so does every run.
-/
import Mathlib.Tactic

namespace Refinement

variable {σ τ ι ω ψ : Type}

/-- The answers to a list of inputs, and the state after them. -/
def run (step : σ → ι → Option (ω × σ)) : σ → List ι → Option (List ω × σ)
  | s, [] => some ([], s)
  | s, i :: is => (step s i).bind fun x => (run step x.2 is).map fun y => (x.1 :: y.1, y.2)

/-- The same for a specification. -/
def trace (spec : τ → ι → ψ × τ) : τ → List ι → List ψ × τ
  | t, [] => ([], t)
  | t, i :: is => ((spec t i).1 :: (trace spec (spec t i).2 is).1, (trace spec (spec t i).2 is).2)

/-- Each input is allowed where it is taken. -/
def Allowed (spec : τ → ι → ψ × τ) (P : τ → ι → Prop) : τ → List ι → Prop
  | _, [] => True
  | t, i :: is => P t i ∧ Allowed spec P (spec t i).2 is

theorem allowed_of_forall {spec : τ → ι → ψ × τ} {P : ι → Prop} {is : List ι} (h : ∀ i ∈ is, P i) :
    ∀ t, Allowed spec (fun _ => P) t is := by
  induction is with
  | nil => exact fun _ => trivial
  | cons i is ih =>
    exact fun t => ⟨h i List.mem_cons_self, ih (fun j hj => h j (List.mem_cons_of_mem _ hj)) _⟩

/-- In related states an allowed input has an answer that matches the specified one, and the states after it are
related again. -/
def Refines (step : σ → ι → Option (ω × σ)) (spec : τ → ι → ψ × τ) (P : τ → ι → Prop) (R : σ → τ → Prop)
    (M : ω → ψ → Prop) : Prop :=
  ∀ s t i, R s t → P t i → ∃ o s', step s i = some (o, s') ∧ M o (spec t i).1 ∧ R s' (spec t i).2

variable {step : σ → ι → Option (ω × σ)} {spec : τ → ι → ψ × τ} {P : τ → ι → Prop} {R : σ → τ → Prop}
  {M : ω → ψ → Prop}

/-- Every run has an answer to each input, all of them match, and the last states are related. -/
theorem Refines.run (h : Refines step spec P R M) {is : List ι} : ∀ {s : σ} {t : τ}, R s t → Allowed spec P t is →
    ∃ os s', run step s is = some (os, s') ∧ List.Forall₂ M os (trace spec t is).1 ∧ R s' (trace spec t is).2 := by
  induction is with
  | nil => exact fun {s _} hR _ => ⟨[], s, rfl, .nil, hR⟩
  | cons i is ih =>
    intro s t hR hP
    obtain ⟨o, s₁, hstep, hM, hR₁⟩ := h s t i hR hP.1
    obtain ⟨os, s', hrun, hMs, hR'⟩ := ih hR₁ hP.2
    refine ⟨o :: os, s', ?_, .cons hM hMs, hR'⟩
    rw [Refinement.run, hstep, Option.bind_some, hrun]
    rfl

/-- What every allowed step of the specification keeps on the inputs of a run, the run keeps. -/
theorem trace_invariant {I : τ → Prop} {is : List ι} (hI : ∀ t, ∀ i ∈ is, I t → P t i → I (spec t i).2) :
    ∀ {t : τ}, I t → Allowed spec P t is → I (trace spec t is).2 := by
  induction is with
  | nil => exact fun ht _ => ht
  | cons i is ih =>
    intro t ht hP
    exact ih (fun t i hi => hI t i (List.mem_cons_of_mem _ hi)) (hI t i List.mem_cons_self ht hP.1) hP.2

end Refinement
