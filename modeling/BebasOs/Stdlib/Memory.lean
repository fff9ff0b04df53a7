/-
`string.c`: the two functions that copy bytes within a memory. `memmove` copies whatever the two places are; `memcpy`,
which always goes upwards, repeats what lies between the places when the second begins inside the first.
-/
import Mathlib.Tactic

namespace BebasOs

/-! ## The functions -/

/-- The loop that copies upwards, from byte `i` on with `n` to go. -/
def copyUp (dest src : ℕ) : (n i : ℕ) → (ℕ → UInt8) → ℕ → UInt8
  | 0, _, m => m
  | n + 1, i, m => copyUp dest src n (i + 1) (Function.update m (dest + i) (m (src + i)))

/-- The loop of `memmove` that copies downwards, with `i` bytes to go. -/
def copyDown (dest src : ℕ) : (i : ℕ) → (ℕ → UInt8) → ℕ → UInt8
  | 0, m => m
  | i + 1, m => copyDown dest src i (Function.update m (dest + i) (m (src + i)))

def memcpy (m : ℕ → UInt8) (dest src n : ℕ) : ℕ → UInt8 := copyUp dest src n 0 m

def memmove (m : ℕ → UInt8) (dest src n : ℕ) : ℕ → UInt8 :=
  if dest < src then copyUp dest src n 0 m else copyDown dest src n m

/-- What a copy is for. -/
def copied (m : ℕ → UInt8) (dest src n : ℕ) : ℕ → UInt8 :=
  fun a => if dest ≤ a ∧ a < dest + n then m (src + (a - dest)) else m a

variable {m : ℕ → UInt8} {dest src n i : ℕ}

/-! ## Upwards -/

/-- A loop upwards whose bytes are not those it has written yet. -/
theorem copyUp_eq (h : ∀ j, i ≤ j → j < i + n → ∀ k, i ≤ k → k < j → dest + k ≠ src + j) : copyUp dest src n i m =
    fun a => if dest + i ≤ a ∧ a < dest + i + n then m (src + (a - dest)) else m a := by
  induction n generalizing i m with
  | zero =>
    funext a
    exact (if_neg (by omega)).symm
  | succ n ih =>
    rw [copyUp, ih fun j hj hjn k hk hkj => h j (by omega) (by omega) k (by omega) hkj]
    funext a
    by_cases ha : a = dest + i
    · rw [ha, if_neg (by omega), if_pos (by omega), Function.update_self]
      congr 1
      omega
    · rw [Function.update_of_ne ha]
      by_cases hin : dest + (i + 1) ≤ a ∧ a < dest + (i + 1) + n
      · have hne := h (a - dest) (by omega) (by omega) i le_rfl (by omega)
        rw [if_pos hin, if_pos (by omega), Function.update_of_ne hne.symm]
      · rw [if_neg hin, if_neg (by omega)]

/-- Where the second place begins inside the first, what lies between the two is repeated. -/
theorem copyUp_repeats {k : ℕ} (hk : 0 < k) (hd : dest = src + k) {m₀ : ℕ → UInt8}
    (h : ∀ a, m a = if dest ≤ a ∧ a < dest + i then m₀ (src + (a - dest) % k) else m₀ a) (a : ℕ) :
    copyUp dest src n i m a = if dest ≤ a ∧ a < dest + (i + n) then m₀ (src + (a - dest) % k) else m₀ a := by
  induction n generalizing i m with
  | zero => exact h a
  | succ n ih =>
    rw [copyUp, ih (i := i + 1), show i + 1 + n = i + (n + 1) by omega]
    intro a
    by_cases ha : a = dest + i
    · rw [ha, Function.update_self, h, if_pos (show dest ≤ dest + i ∧ dest + i < dest + (i + 1) by omega),
        Nat.add_sub_cancel_left]
      -- the byte is one of the first `k`, or the copy of the one `k` before it
      by_cases hi : i < k
      · rw [if_neg (by omega), Nat.mod_eq_of_lt hi]
      · rw [if_pos (by omega), show src + i - dest = i - k by omega, ← Nat.mod_eq_sub_mod (by omega)]
    · rw [Function.update_of_ne ha, h]
      by_cases hin : dest ≤ a ∧ a < dest + i
      · rw [if_pos hin, if_pos (by omega)]
      · rw [if_neg hin, if_neg (by omega)]

theorem memcpy_repeats (hsd : src < dest) (a : ℕ) : memcpy m dest src n a =
    if dest ≤ a ∧ a < dest + n then m (src + (a - dest) % (dest - src)) else m a := by
  have h := copyUp_repeats (n := n) (i := 0) (m := m) (Nat.sub_pos_of_lt hsd) (Nat.add_sub_cancel' hsd.le).symm
    (fun b => (if_neg (by omega)).symm) a
  rwa [Nat.zero_add] at h

theorem memcpy_of_le (h : dest ≤ src) : memcpy m dest src n = copied m dest src n :=
  copyUp_eq fun j _ _ k _ hkj => by omega

/-- `memcpy` copies, whatever the memory holds, exactly when the second place does not begin inside the first. -/
theorem memcpy_eq_iff : (∀ m, memcpy m dest src n = copied m dest src n) ↔ ¬(src < dest ∧ dest < src + n) := by
  constructor
  · rintro h ⟨hsd, hdn⟩
    -- a memory in which every byte below `dest` differs from the one at `dest`
    have hat := congrFun (h fun a => if a < dest then 0 else 1) (dest + (dest - src))
    have hin : dest ≤ dest + (dest - src) ∧ dest + (dest - src) < dest + n := by omega
    rw [memcpy_repeats hsd, if_pos hin, Nat.add_sub_cancel_left, Nat.mod_self, Nat.add_zero, if_pos hsd] at hat
    unfold copied at hat
    rw [if_pos hin, Nat.add_sub_cancel_left] at hat
    exact absurd (hat.trans (if_neg (by omega))) (by decide)
  · intro h m
    by_cases hle : dest ≤ src
    · exact memcpy_of_le hle
    · funext a
      rw [memcpy_repeats (by omega)]
      unfold copied
      split_ifs with ha
      · rw [Nat.mod_eq_of_lt (by omega)]
      · rfl

/-! ## Downwards -/

theorem copyDown_eq (h : src ≤ dest) : copyDown dest src n m = copied m dest src n := by
  induction n generalizing m with
  | zero =>
    funext a
    exact (if_neg (by omega)).symm
  | succ n ih =>
    rw [copyDown, ih]
    funext a
    unfold copied
    by_cases ha : a = dest + n
    · rw [ha, if_neg (by omega), if_pos (by omega), Function.update_self, Nat.add_sub_cancel_left]
    · rw [Function.update_of_ne ha]
      by_cases hin : dest ≤ a ∧ a < dest + n
      · rw [if_pos hin, if_pos (by omega), Function.update_of_ne (by omega)]
      · rw [if_neg hin, if_neg (by omega)]

/-- `memmove` copies whatever the memory holds and wherever the two places are; `memcpy` does so exactly when the second
place does not begin inside the first, and else repeats the bytes before it. -/
theorem memmove_memcpy (dest src n : ℕ) : (∀ m, memmove m dest src n = copied m dest src n) ∧
    ((∀ m, memcpy m dest src n = copied m dest src n) ↔ ¬(src < dest ∧ dest < src + n)) ∧
    ∀ m, src < dest → ∀ i < n, memcpy m dest src n (dest + i) = m (src + i % (dest - src)) := by
  refine ⟨fun m => ?_, memcpy_eq_iff, fun m hsd i hi => ?_⟩
  · unfold memmove
    split_ifs with h
    · exact memcpy_of_le h.le
    · exact copyDown_eq (Nat.le_of_not_lt h)
  · rw [memcpy_repeats hsd, if_pos (by omega), Nat.add_sub_cancel_left]

end BebasOs
