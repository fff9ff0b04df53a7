/-
Views of a memory: an address of a view stands for a cell of the memory, or for none. What is stored through one view
is not seen through another that has none of its cells.
-/
import Mathlib.Data.Set.Function
import Mathlib.Tactic

/-- The cell that each address stands for. -/
abbrev View (α β : Type) := α → Option β

namespace View

variable {α β γ ι : Type} {t u : View α β} {m m' : β → γ} {a : α} {b : β} {x : γ} {l : List (α × γ)}

/-- The cells of a view. -/
def cells (t : View α β) : Set β := { b | ∃ a, t a = some b }

theorem mem_cells (h : t a = some b) : b ∈ t.cells := ⟨a, h⟩

/-- What is at an address. -/
def load (t : View α β) (m : β → γ) (a : α) : Option γ := (t a).map m

theorem load_congr (h : ∀ b ∈ t.cells, m' b = m b) : t.load m' = t.load m := by
  funext a
  unfold load
  cases ha : t a with
  | none => rfl
  | some b => exact congrArg some (h b (mem_cells ha))

variable [DecidableEq β]

def store (t : View α β) (m : β → γ) (a : α) (x : γ) : Option (β → γ) := (t a).map fun b => Function.update m b x

/-- A list of stores, one after the other. -/
def storeAll (t : View α β) : (β → γ) → List (α × γ) → Option (β → γ)
  | m, [] => some m
  | m, p :: l => (t.store m p.1 p.2).bind fun m => storeAll t m l

theorem store_eq (h : t a = some b) (m : β → γ) (x : γ) : t.store m a x = some (Function.update m b x) := by
  unfold store
  rw [h, Option.map_some]

/-- A store changes one cell of the view. -/
theorem store_outside (h : t.store m a x = some m') (hb : t a ≠ some b) : m' b = m b := by
  unfold store at h
  rw [Option.map_eq_some_iff] at h
  obtain ⟨c, hc, rfl⟩ := h
  refine Function.update_of_ne ?_ _ _
  rintro rfl
  exact hb hc

theorem storeAll_outside (hb : ∀ p ∈ l, t p.1 ≠ some b) : ∀ {m m' : β → γ}, t.storeAll m l = some m' → m' b = m b := by
  induction l with
  | nil =>
    rintro m m' h
    cases h
    rfl
  | cons p l ih =>
    intro m m' h
    obtain ⟨m₁, h₁, h₂⟩ := Option.bind_eq_some_iff.1 h
    rw [ih (fun q hq => hb q (List.mem_cons_of_mem p hq)) h₂, store_outside h₁ (hb p List.mem_cons_self)]

/-! ## Stores at known places -/

variable [DecidableEq ι] {f f' : ι → γ} {s : Set ι} {ps : List (ι × γ)}

/-- Values put at places, one after the other. -/
def put (f : ι → γ) (ps : List (ι × γ)) : ι → γ := ps.foldl (fun f p => Function.update f p.1 p.2) f

theorem put_cons (f : ι → γ) (p : ι × γ) (ps : List (ι × γ)) :
    put f (p :: ps) = put (Function.update f p.1 p.2) ps := rfl

theorem put_append (f : ι → γ) (ps qs : List (ι × γ)) : put f (ps ++ qs) = put (put f ps) qs := List.foldl_append

theorem put_congr (h : ∀ i ∈ s, f i = f' i) : ∀ i ∈ s, put f ps i = put f' ps i := by
  induction ps generalizing f f' with
  | nil => exact h
  | cons p ps ih =>
    refine ih fun i hi => ?_
    show Function.update f p.1 p.2 i = Function.update f' p.1 p.2 i
    by_cases hp : i = p.1
    · subst hp
      rw [Function.update_self, Function.update_self]
    · rw [Function.update_of_ne hp, Function.update_of_ne hp, h i hi]

/-- A range of values, in order. -/
theorem put_range (f : ℕ → γ) (o : ℕ) (v : ℕ → γ) (n a : ℕ) :
    put f ((List.range n).map fun b => (o + b, v b)) a = if o ≤ a ∧ a < o + n then v (a - o) else f a := by
  induction n with
  | zero =>
    rw [if_neg (by omega)]
    rfl
  | succ n ih =>
    rw [List.range_succ, List.map_append, put_append]
    show Function.update (put f ((List.range n).map fun b => (o + b, v b))) (o + n) (v n) a = _
    by_cases ha : a = o + n
    · subst ha
      rw [Function.update_self, if_pos (by omega), Nat.add_sub_cancel_left]
    · rw [Function.update_of_ne ha, ih]
      by_cases hlt : o ≤ a ∧ a < o + n
      · rw [if_pos hlt, if_pos (by omega)]
      · rw [if_neg hlt, if_neg (by omega)]

/-- Stores at places that the view tells apart leave there what is put there. -/
theorem storeAll_places {e : ι → α} {g : ι → β} (he : ∀ i ∈ s, t (e i) = some (g i)) (hg : Set.InjOn g s)
    (hs : ∀ p ∈ ps, p.1 ∈ s) : ∀ m : β → γ,
      ∃ m', t.storeAll m (ps.map fun p => (e p.1, p.2)) = some m' ∧ ∀ i ∈ s, m' (g i) = put (m ∘ g) ps i := by
  induction ps with
  | nil => exact fun m => ⟨m, rfl, fun _ _ => rfl⟩
  | cons p ps ih =>
    intro m
    have hp := hs p List.mem_cons_self
    obtain ⟨m', h, hm⟩ := ih (fun q hq => hs q (List.mem_cons_of_mem p hq)) (Function.update m (g p.1) p.2)
    refine ⟨m', ?_, fun i hi => ?_⟩
    · rw [List.map_cons, storeAll, store_eq (he _ hp), Option.bind_some, h]
    · rw [hm i hi, put_cons]
      refine put_congr (fun j hj => ?_) i hi
      by_cases hjp : j = p.1
      · subst hjp
        rw [Function.comp_apply, Function.update_self, Function.update_self]
      · rw [Function.comp_apply, Function.update_of_ne (fun hc => hjp (hg hj hp hc)), Function.update_of_ne hjp]
        rfl

end View
