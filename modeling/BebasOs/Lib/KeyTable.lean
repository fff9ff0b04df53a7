/-
Tables of slots: which slots are occupied, the key of every slot, and a counter kept beside them. A
table is consistent when the counter is right and no two occupied slots share a key. For each change
of a table it is said exactly when it keeps the table consistent.
-/
import Mathlib.Data.Finset.Card
import Mathlib.Tactic

variable {ι κ : Type} [DecidableEq ι]

structure KeyTable (ι κ : Type) where
  occupied : Finset ι
  key : ι → κ
  count : ℤ

namespace KeyTable

variable {t t' : KeyTable ι κ} {i : ι} {c : κ}

/-- The counter counts the occupied slots, and their keys are distinct. -/
structure Consistent (t : KeyTable ι κ) : Prop where
  count : t.count = t.occupied.card
  keys : Set.InjOn t.key t.occupied

/-! ## Changes -/

/-- Slot `i` gets the key `c`; nothing else changes. -/
structure Rekey (t t' : KeyTable ι κ) (i : ι) (c : κ) : Prop where
  occupied : t'.occupied = t.occupied
  key : t'.key = Function.update t.key i c
  count : t'.count = t.count

/-- Slot `i` gets the key `c`, is marked as occupied and counted. -/
structure Enter (t t' : KeyTable ι κ) (i : ι) (c : κ) : Prop where
  occupied : t'.occupied = insert i t.occupied
  key : t'.key = Function.update t.key i c
  count : t'.count = t.count + 1

/-- Slot `i` gets the key `c`, is no longer marked as occupied and not counted any more. -/
structure Leave (t t' : KeyTable ι κ) (i : ι) (c : κ) : Prop where
  occupied : t'.occupied = t.occupied.erase i
  key : t'.key = Function.update t.key i c
  count : t'.count = t.count - 1

/-- No occupied slot but `i` has the key `c`. -/
def FreshFor (t : KeyTable ι κ) (i : ι) (c : κ) : Prop := ∀ j ∈ t.occupied, j ≠ i → t.key j ≠ c

/-! ## When they are consistent -/

theorem injOn_update_iff {s : Finset ι} {f : ι → κ} (hi : i ∈ s) (hf : Set.InjOn f (s.erase i)) :
    Set.InjOn (Function.update f i c) s ↔ ∀ j ∈ s, j ≠ i → f j ≠ c := by
  constructor
  · intro h j hj hji hc
    refine hji (h hj hi ?_)
    rw [Function.update_of_ne hji, Function.update_self, hc]
  · intro h a ha b hb hab
    by_cases hai : a = i <;> by_cases hbi : b = i
    · rw [hai, hbi]
    · subst hai
      rw [Function.update_self, Function.update_of_ne hbi] at hab
      exact absurd hab.symm (h b hb hbi)
    · subst hbi
      rw [Function.update_self, Function.update_of_ne hai] at hab
      exact absurd hab (h a ha hai)
    · rw [Function.update_of_ne hai, Function.update_of_ne hbi] at hab
      exact hf (Finset.mem_erase.2 ⟨hai, ha⟩) (Finset.mem_erase.2 ⟨hbi, hb⟩) hab

theorem injOn_update_of_notMem {s : Finset ι} {f : ι → κ} (hi : i ∉ s) :
    Set.InjOn (Function.update f i c) s ↔ Set.InjOn f s := by
  refine Set.EqOn.injOn_iff fun j hj => ?_
  have hji : j ≠ i := by
    rintro rfl
    exact hi hj
  exact Function.update_of_ne hji _ _

theorem Rekey.consistent_iff (ht : t.Consistent) (h : t.Rekey t' i c) :
    t'.Consistent ↔ (i ∈ t.occupied → t.FreshFor i c) := by
  have hcount : t'.count = t'.occupied.card := by rw [h.count, h.occupied, ht.count]
  have hkeys : t'.Consistent ↔ Set.InjOn (Function.update t.key i c) t.occupied := by
    rw [← h.key, ← h.occupied]
    exact ⟨fun h => h.keys, fun h => ⟨hcount, h⟩⟩
  rw [hkeys]
  by_cases hi : i ∈ t.occupied
  · have herase : Set.InjOn t.key (t.occupied.erase i) := ht.keys.mono fun j hj => Finset.mem_of_mem_erase hj
    rw [injOn_update_iff hi herase]
    exact ⟨fun h _ => h, fun h => h hi⟩
  · rw [injOn_update_of_notMem hi]
    exact ⟨fun _ hi' => absurd hi' hi, fun _ => ht.keys⟩

theorem Enter.consistent_iff (ht : t.Consistent) (h : t.Enter t' i c) :
    t'.Consistent ↔ i ∉ t.occupied ∧ t.FreshFor i c := by
  by_cases hi : i ∈ t.occupied
  · -- the slot is counted a second time
    refine ⟨fun h' => ?_, fun h' => absurd hi h'.1⟩
    have hcount := h'.count
    rw [h.count, h.occupied, Finset.insert_eq_of_mem hi, ht.count] at hcount
    omega
  · have hcount : t'.count = t'.occupied.card := by
      rw [h.count, h.occupied, Finset.card_insert_of_notMem hi, ht.count]
      rfl
    -- the count is right in any case, and the keys are the old ones but for that of `i`
    have hkeys : t'.Consistent ↔ Set.InjOn (Function.update t.key i c) (insert i t.occupied : Finset ι) := by
      rw [← h.key, ← h.occupied]
      exact ⟨fun h => h.keys, fun h => ⟨hcount, h⟩⟩
    have herase : Set.InjOn t.key ((insert i t.occupied).erase i) := by
      rw [Finset.erase_insert hi]
      exact ht.keys
    rw [hkeys, injOn_update_iff (Finset.mem_insert_self i _) herase]
    constructor
    · intro h
      exact ⟨hi, fun j hj => h j (Finset.mem_insert_of_mem hj)⟩
    · rintro ⟨-, h⟩ j hj hji
      exact h j (Finset.mem_of_mem_insert_of_ne hj hji) hji

theorem Leave.consistent_iff (ht : t.Consistent) (h : t.Leave t' i c) : t'.Consistent ↔ i ∈ t.occupied := by
  constructor
  · intro h'
    by_contra hi
    have hcount := h'.count
    rw [h.count, h.occupied, Finset.erase_eq_of_notMem hi, ht.count] at hcount
    omega
  · intro hi
    refine ⟨?_, ?_⟩
    · have hcard := Finset.card_erase_add_one hi
      rw [h.count, h.occupied, ht.count]
      omega
    · rw [h.key, h.occupied, injOn_update_of_notMem (Finset.notMem_erase i _)]
      exact ht.keys.mono fun j hj => Finset.mem_of_mem_erase hj

end KeyTable
