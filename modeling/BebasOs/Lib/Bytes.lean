/-
Packed memory: values laid out in a fixed number of bytes, every byte pattern being a value, and
the fixed-size tables of such values that programs index by plain numbers.
-/
import Mathlib.Logic.Equiv.Prod
import Mathlib.Tactic

namespace Bytes

variable {α β γ : Type} {m n k : ℕ}

/-! ## Layouts -/

/-- A type laid out in exactly `k` bytes: packing and unpacking are inverse to each other. -/
abbrev Packed (α : Type) (k : ℕ) := α ≃ Vector UInt8 k

/-- Two adjacent regions are one region. -/
def split (m n : ℕ) (α : Type) : (Vector α m × Vector α n) ≃ Vector α (m + n) where
  toFun p := p.1 ++ p.2
  invFun v := (Vector.ofFn fun i : Fin m => v[i.1], Vector.ofFn fun i : Fin n => v[m + i.1])
  left_inv := by
    rintro ⟨a, b⟩
    refine Prod.ext (Vector.ext fun i hi => ?_) (Vector.ext fun i hi => ?_) <;> simp
  right_inv v := by
    refine Vector.ext fun i hi => ?_
    rw [Vector.getElem_append]
    split
    · simp
    · simp [show m + (i - m) = i by omega]

/-- Two fields, one after the other. -/
def seq (a : Packed α m) (b : Packed β n) : Packed (α × β) (m + n) :=
  (Equiv.prodCongr a b).trans (split m n UInt8)

theorem seq_symm (a : Packed α m) (b : Packed β n) (v : Vector UInt8 (m + n)) :
    (seq a b).symm v = (a.symm (Vector.ofFn fun i : Fin m => v[i.1]),
      b.symm (Vector.ofFn fun i : Fin n => v[m + i.1])) := rfl

/-- A field that is its own bytes. -/
def raw (k : ℕ) : Packed (Vector UInt8 k) k := Equiv.refl _

def u8 : Packed UInt8 1 where
  toFun b := #v[b]
  invFun v := v[0]
  left_inv _ := rfl
  right_inv v := Vector.ext fun i hi => by obtain rfl : i = 0 := by omega
                                           rfl

theorem u8_symm (v : Vector UInt8 1) : u8.symm v = v[0] := rfl

/-- Sixteen bits, least significant byte first. -/
def u16 : Packed UInt16 2 where
  toFun x := #v[UInt8.ofNat x.toNat, UInt8.ofNat (x.toNat / 256)]
  invFun v := UInt16.ofNat (v[0].toNat + 256 * v[1].toNat)
  left_inv x := by
    have := x.toNat_lt
    apply UInt16.toNat_inj.1
    simp
    omega
  right_inv v := by
    have h0 := v[0].toNat_lt
    have h1 := v[1].toNat_lt
    refine Vector.ext fun i hi => UInt8.toNat_inj.1 ?_
    interval_cases i
    · simp
    · simp; omega

/-- Thirty-two bits, least significant byte first. -/
def u32 : Packed UInt32 4 where
  toFun x := #v[UInt8.ofNat x.toNat, UInt8.ofNat (x.toNat / 256), UInt8.ofNat (x.toNat / 65536),
    UInt8.ofNat (x.toNat / 16777216)]
  invFun v := UInt32.ofNat (v[0].toNat + 256 * v[1].toNat + 65536 * v[2].toNat + 16777216 * v[3].toNat)
  left_inv x := by
    have := x.toNat_lt
    apply UInt32.toNat_inj.1
    simp
    omega
  right_inv v := by
    have h0 := v[0].toNat_lt
    have h1 := v[1].toNat_lt
    have h2 := v[2].toNat_lt
    have h3 := v[3].toNat_lt
    refine Vector.ext fun i hi => UInt8.toNat_inj.1 ?_
    interval_cases i <;> simp <;> omega

theorem cell_offset_lt {i j : ℕ} (hi : i < n) (hj : j < k) : i * k + j < n * k := by
  calc i * k + j < i * k + k := by omega
    _ = (i + 1) * k := by ring
    _ ≤ n * k := Nat.mul_le_mul_right k hi

/-- An array: `n` values of one layout, back to back. -/
def array (a : Packed α k) (n : ℕ) : Packed (Vector α n) (n * k) where
  toFun t := Vector.ofFn fun b : Fin (n * k) =>
    have hk : 0 < k := Nat.pos_of_ne_zero fun h => by subst h; exact absurd b.2 (by simp)
    have hd : b.1 / k < n := (Nat.div_lt_iff_lt_mul hk).2 b.2
    have hm : b.1 % k < k := Nat.mod_lt _ hk
    (a t[b.1 / k])[b.1 % k]
  invFun v := Vector.ofFn fun i : Fin n => a.symm (Vector.ofFn fun j : Fin k =>
    have hj : i.1 * k + j.1 < n * k := cell_offset_lt i.2 j.2
    v[i.1 * k + j.1])
  left_inv t := by
    refine Vector.ext fun i hi => ?_
    simp only [Vector.getElem_ofFn]
    rw [Equiv.symm_apply_eq]
    refine Vector.ext fun j hj => ?_
    have h1 : (i * k + j) / k = i := by
      rw [Nat.mul_comm, Nat.mul_add_div (by omega), Nat.div_eq_of_lt hj, Nat.add_zero]
    have h2 : (i * k + j) % k = j := by rw [Nat.mul_comm, Nat.mul_add_mod, Nat.mod_eq_of_lt hj]
    simp only [Vector.getElem_ofFn, h1, h2]
  right_inv v := by
    refine Vector.ext fun b hb => ?_
    simp only [Vector.getElem_ofFn, Equiv.apply_symm_apply]
    congr 1
    rw [Nat.mul_comm]; exact Nat.div_add_mod b k

theorem array_symm_getElem (a : Packed α k) (v : Vector UInt8 (n * k)) {i : ℕ} (hi : i < n) :
    ((array a n).symm v)[i] = a.symm (Vector.ofFn fun j : Fin k =>
      have hj : i * k + j.1 < n * k := cell_offset_lt hi j.2
      v[i * k + j.1]) := by
  show (Vector.ofFn _)[i] = _
  rw [Vector.getElem_ofFn]

/-! ## Tables -/

/-- A table with one entry replaced; a store past the end has no effect. -/
def store (t : Vector α n) (i : ℕ) (a : α) : Vector α n := t.setIfInBounds i a

theorem store_ge (t : Vector α n) {i : ℕ} (a : α) (h : n ≤ i) : store t i a = t :=
  Vector.ext fun j hj => Vector.getElem_setIfInBounds_ne hj (by omega)

variable [Inhabited α]

/-- The entry of a table at any index; past the end there is only the default. -/
def cell (t : Vector α n) (i : ℕ) : α := if h : i < n then t[i] else default

theorem cell_of_lt (t : Vector α n) {i : ℕ} (h : i < n) : cell t i = t[i] := dif_pos h

@[simp] theorem cell_store_self (t : Vector α n) {i : ℕ} (a : α) (h : i < n) : cell (store t i a) i = a := by
  rw [cell_of_lt _ h]; exact Vector.getElem_setIfInBounds_self h

@[simp] theorem cell_store_ne (t : Vector α n) {i j : ℕ} (a : α) (h : i ≠ j) :
    cell (store t i a) j = cell t j := by
  unfold cell store
  split
  · exact Vector.getElem_setIfInBounds_ne _ h
  · rfl

theorem cell_store (t : Vector α n) {i : ℕ} (j : ℕ) (a : α) (h : i < n) :
    cell (store t i a) j = if j = i then a else cell t j := by
  split
  · subst_vars; exact cell_store_self t a h
  · exact cell_store_ne t a (Ne.symm ‹_›)

theorem cell_ext {s t : Vector α n} (h : ∀ i < n, cell s i = cell t i) : s = t := by
  refine Vector.ext fun i hi => ?_
  have := h i hi
  rwa [cell_of_lt _ hi, cell_of_lt _ hi] at this

/-- The second of two stores to one place is the one that counts. -/
theorem store_store (t : Vector α n) (i : ℕ) (a b : α) : store (store t i a) i b = store t i b := by
  rcases Nat.lt_or_ge i n with h | h
  · refine cell_ext fun j _ => ?_
    rw [cell_store _ _ _ h, cell_store _ _ _ h, cell_store _ _ _ h]
    split <;> rfl
  · rw [store_ge t _ h]

/-- Storing what is already there changes nothing. -/
theorem store_cell_self (t : Vector α n) (i : ℕ) : store t i (cell t i) = t := by
  rcases Nat.lt_or_ge i n with h | h
  · refine cell_ext fun j _ => ?_
    rw [cell_store _ _ _ h]
    split
    · subst_vars; rfl
    · rfl
  · exact store_ge t _ h

/-- A list written over the front of a table. -/
def overwrite (l : List α) (t : Vector α n) : Vector α n := Vector.ofFn fun j => l.getD j.1 (cell t j.1)

theorem cell_overwrite {j : ℕ} (l : List α) (t : Vector α n) (hj : j < n) :
    cell (overwrite l t) j = l.getD j (cell t j) := by
  unfold overwrite
  rw [cell_of_lt _ hj, Vector.getElem_ofFn]

theorem cell_append (s : Vector α m) (t : Vector α n) (i : ℕ) :
    cell (s ++ t) i = if i < m then cell s i else cell t (i - m) := by
  unfold cell
  split
  · rw [Vector.getElem_append]
    split
    · rfl
    · rw [dif_pos (by omega)]
  · rw [if_neg (by omega), dif_neg (by omega)]

theorem cell_ofFn {f : Fin n → α} {i : ℕ} (hi : i < n) : cell (Vector.ofFn f) i = f ⟨i, hi⟩ := by
  rw [cell_of_lt _ hi, Vector.getElem_ofFn]

theorem cell_replicate {n : ℕ} (i : ℕ) : cell (Vector.replicate n (0 : UInt8)) i = 0 := by
  unfold cell
  split
  · exact Vector.getElem_replicate _
  · rfl

/-! ## Slices -/

/-- The `k` entries from an offset on. -/
def slice (v : Vector α n) (o k : ℕ) : Vector α k := Vector.ofFn fun i => cell v (o + i.1)

theorem cell_slice (v : Vector α n) (o : ℕ) {i : ℕ} (hi : i < k) : cell (slice v o k) i = cell v (o + i) := cell_ofFn hi

theorem seq_symm_snd (a : Packed β m) (b : Packed γ n) (v : Vector UInt8 (m + n)) :
    ((seq a b).symm v).2 = b.symm (slice v m n) := by
  rw [seq_symm]
  refine congrArg b.symm (cell_ext fun i hi => ?_)
  rw [cell_ofFn hi, cell_slice _ _ hi, cell_of_lt _ (by omega)]

/-! ## Blocks -/

/-- A sequence cut into blocks of `n` and put together again. -/
theorem flatMap_blocks {β : Type*} (g : ℕ → β) (n : ℕ) : ∀ k,
    ((List.range k).flatMap fun i => (List.range n).map fun b => g (i * n + b)) = (List.range (k * n)).map g
  | 0 => by simp
  | k + 1 => by
    rw [List.range_succ, List.flatMap_append, flatMap_blocks g n k, Nat.succ_mul, List.range_add, List.map_append,
      List.map_map]
    simp

end Bytes
