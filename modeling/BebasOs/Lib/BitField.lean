/-
Bit-fields: values of given widths laid out in a number one after the other, from the lowest bit on, each cut off to its
width, and the fields of a number read back.
-/
import Mathlib.Tactic

namespace BitField

/-- The fields, as pairs of a width and a value. -/
def pack : List (ℕ × ℕ) → ℕ
  | [] => 0
  | (w, v) :: fs => v % 2 ^ w + 2 ^ w * pack fs

/-- The field of `len` bits from bit `lo` on. -/
def bits (x lo len : ℕ) : ℕ := x / 2 ^ lo % 2 ^ len

variable {w v lo x : ℕ} {fs : List (ℕ × ℕ)}

theorem bits_pack_head (w v : ℕ) (fs : List (ℕ × ℕ)) : bits (pack ((w, v) :: fs)) 0 w = v % 2 ^ w := by
  unfold bits
  rw [pack, Nat.pow_zero, Nat.div_one, Nat.add_mul_mod_self_left, Nat.mod_mod]

/-- A field behind the first one. -/
theorem bits_pack_tail (h : w ≤ lo) (v len : ℕ) (fs : List (ℕ × ℕ)) :
    bits (pack ((w, v) :: fs)) lo len = bits (pack fs) (lo - w) len := by
  have hpos : 0 < 2 ^ w := Nat.two_pow_pos w
  have hdiv : pack ((w, v) :: fs) / 2 ^ w = pack fs := by
    rw [pack, Nat.add_mul_div_left _ _ hpos, Nat.div_eq_of_lt (Nat.mod_lt v hpos), Nat.zero_add]
  unfold bits
  rw [← hdiv, Nat.div_div_eq_div_mul, ← Nat.pow_add, Nat.add_sub_cancel' h]

/-- Two fields side by side are one. -/
theorem bits_add (x lo a b : ℕ) : bits x lo (a + b) = bits x lo a + 2 ^ a * bits x (lo + a) b := by
  unfold bits
  rw [Nat.pow_add 2 a b, Nat.mod_mul, Nat.div_div_eq_div_mul, ← Nat.pow_add]

end BitField
