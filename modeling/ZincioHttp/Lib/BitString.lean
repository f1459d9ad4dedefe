import Mathlib.Data.Nat.Bitwise
import Mathlib.Data.List.Basic
import Mathlib.Tactic.Ring

/-! Fixed-width bit strings, most significant bit first. Appending bit strings
is a shift and an addition of the numbers they spell, so an accumulator that
packs codes into a machine word can be compared with the concatenation of the
codes. -/

namespace ZincioHttp.Lib

/-- The low `w` bits of `x`, most significant first. -/
def bitsOf : ℕ → ℕ → List Bool
  | 0, _ => []
  | w + 1, x => x.testBit w :: bitsOf w x

@[simp] theorem length_bitsOf (w x : ℕ) : (bitsOf w x).length = w := by
  induction w with
  | zero => rfl
  | succ w ih => simp [bitsOf, ih]

theorem bitsOf_congr {w x y : ℕ} (h : ∀ i < w, x.testBit i = y.testBit i) :
    bitsOf w x = bitsOf w y := by
  induction w with
  | zero => rfl
  | succ w ih => rw [bitsOf, bitsOf, h w (by omega), ih fun i hi => h i (by omega)]

theorem bitsOf_mod (w x : ℕ) : bitsOf w (x % 2 ^ w) = bitsOf w x := by
  apply bitsOf_congr
  intro i hi
  simp [hi]

/-- Concatenation shifts the left part by the width of the right part. -/
theorem bitsOf_append (w v x : ℕ) {y : ℕ} (h : y < 2 ^ v) :
    bitsOf (w + v) (x * 2 ^ v + y) = bitsOf w x ++ bitsOf v y := by
  have hbit : ∀ i, (x * 2 ^ v + y).testBit i =
      if i < v then y.testBit i else x.testBit (i - v) := by
    intro i
    rw [mul_comm]
    exact Nat.testBit_two_pow_mul_add x h i
  induction w with
  | zero =>
    rw [zero_add]
    apply bitsOf_congr
    intro i hi
    rw [hbit, if_pos hi]
  | succ w ih =>
    rw [show w + 1 + v = (w + v) + 1 by ring, bitsOf, ih, hbit]
    simp [bitsOf]

theorem bitsOf_split (w v x : ℕ) :
    bitsOf (w + v) x = bitsOf w (x / 2 ^ v) ++ bitsOf v (x % 2 ^ v) := by
  rw [← bitsOf_append w v _ (Nat.mod_lt _ (Nat.two_pow_pos v)), Nat.div_add_mod']

theorem bitsOf_ones (w : ℕ) : bitsOf w (2 ^ w - 1) = List.replicate w true := by
  have : ∀ v, v ≤ w → bitsOf v (2 ^ w - 1) = List.replicate v true := by
    intro v
    induction v with
    | zero => intro _; rfl
    | succ v ih =>
      intro hv
      rw [bitsOf, ih (by omega), List.replicate_succ]
      simp
      omega
  exact this w le_rfl

end ZincioHttp.Lib
