import Mathlib.Data.Nat.Digits.Defs
import Mathlib.Tactic.Ring

/-! Numbers written with their most significant digit first, and reading them
with an overflow check after each digit. -/

namespace ZincioHttp.Lib

def numeral (base : ℕ) (digits : List ℕ) : ℕ := digits.foldl (fun n d => n * base + d) 0

/-- Reads digits one by one and gives up once the value reaches `limit`. -/
def readNumeral (base limit : ℕ) (digits : List ℕ) : Option ℕ :=
  digits.foldlM (fun n d => if n * base + d < limit then some (n * base + d) else none) 0

theorem foldl_le_of_base_pos {base : ℕ} (hb : 0 < base) (n : ℕ) (digits : List ℕ) :
    n ≤ digits.foldl (fun n d => n * base + d) n := by
  induction digits generalizing n with
  | nil => exact le_rfl
  | cons d digits ih =>
    calc n ≤ n * base + d := le_add_right (Nat.le_mul_of_pos_right n hb)
      _ ≤ _ := ih _

theorem readNumeral_eq {base : ℕ} (hb : 0 < base) {limit : ℕ} (hl : 0 < limit)
    (digits : List ℕ) : readNumeral base limit digits =
      if numeral base digits < limit then some (numeral base digits) else none := by
  have hgen : ∀ n < limit, digits.foldlM
      (fun n d => if n * base + d < limit then some (n * base + d) else none) n =
      if digits.foldl (fun n d => n * base + d) n < limit
        then some (digits.foldl (fun n d => n * base + d) n) else none := by
    induction digits with
    | nil =>
      intro n hn
      simp [hn]
    | cons d digits ih =>
      intro n _
      rw [List.foldlM_cons, List.foldl_cons]
      by_cases hd : n * base + d < limit
      · rw [if_pos hd]
        exact ih _ hd
      · have := foldl_le_of_base_pos hb (n * base + d) digits
        rw [if_neg hd, if_neg (by omega)]
        rfl
  exact hgen 0 hl

theorem numeral_append (base : ℕ) (digits : List ℕ) (d : ℕ) :
    numeral base (digits ++ [d]) = numeral base digits * base + d := by
  simp [numeral]

theorem numeral_of_zeros (base : ℕ) {digits : List ℕ} (h : ∀ d ∈ digits, d = 0) :
    numeral base digits = 0 := by
  rw [List.eq_replicate_of_mem h]
  induction digits.length with
  | zero => rfl
  | succ n ih => rw [List.replicate_succ', numeral_append, ih, Nat.zero_mul]

end ZincioHttp.Lib
