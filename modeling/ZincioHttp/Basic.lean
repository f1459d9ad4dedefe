import Mathlib.Data.Nat.Bitwise
import Mathlib.Data.Fintype.Basic
import Mathlib.Tactic.Ring
import Mathlib.Tactic.Linarith

/-! Octet strings and the bit tests that the wire formats of this crate share.
A `Bytes` or `&[u8]` of the source is the list of its octets; a cursor into a
buffer is the list of the octets that remain. Every bit test on one octet is
stated here once as arithmetic on its value. -/

namespace ZincioHttp

abbrev Octets := List UInt8

instance : LawfulBEq Octets := inferInstance

/-- The octets of a byte-string literal. -/
def octets (s : String) : Octets := s.toByteArray.data.toList

/-- `usize::MAX` on the 64-bit targets the crate is built for. -/
def usizeMax : ℕ := 2 ^ 64 - 1

instance decidableForallUInt8 {p : UInt8 → Prop} [DecidablePred p] : Decidable (∀ b, p b) :=
  decidable_of_iff (∀ n : Fin 256, p (UInt8.ofNat n)) <| by
    constructor
    · intro h b
      simpa using h ⟨b.toNat, b.toNat_lt⟩
    · intro h n
      exact h _

section Except
variable {ε ε' α β : Type}

theorem bind_eq_ok {x : Except ε α} {f : α → Except ε β} {b : β} :
    (x >>= f) = .ok b ↔ ∃ a, x = .ok a ∧ f a = .ok b := by
  cases x <;> simp [bind, Except.bind]

theorem mapError_eq_ok {f : ε → ε'} {x : Except ε α} {a : α} :
    x.mapError f = .ok a ↔ x = .ok a := by
  cases x <;> simp [Except.mapError]

theorem exists_ok_of_map {x : Except ε α} {f : α → β} {b : β} (h : (x.map f).toOption = some b) :
    ∃ a, x = .ok a ∧ f a = b := by
  cases x with
  | error e => cases h
  | ok a => exact ⟨a, rfl, Option.some.inj h⟩

theorem exists_ok_and {x : Except ε α} {P : α → Prop} (f : α → β) (b : β)
    (h : (x.map f).toOption = some b) (hp : ∀ a, x = .ok a → f a = b → P a) :
    ∃ a, x = .ok a ∧ P a := by
  obtain ⟨a, ha, hf⟩ := exists_ok_of_map h
  exact ⟨a, ha, hp a ha hf⟩

theorem exists_ok_of_decide {x : Except ε α} {P : α → Prop} [DecidablePred P]
    (h : (x.map fun a => decide (P a)).toOption = some true) : ∃ a, x = .ok a ∧ P a :=
  exists_ok_and _ _ h fun _ _ => of_decide_eq_true

@[simp] theorem ok_bind (a : α) (f : α → Except ε β) : (Except.ok a >>= f) = f a := rfl

@[simp] theorem mapError_ok (f : ε → ε') (a : α) : (Except.ok a).mapError f = .ok a := rfl

end Except

theorem toNat_ofNat_of_lt {n : ℕ} (h : n < 256) : (UInt8.ofNat n).toNat = n := by
  exact Nat.mod_eq_of_lt h

theorem and_high_eq_zero_iff : ∀ b : UInt8, b &&& 0x80 = 0 ↔ b.toNat < 128 := by decide +kernel

theorem toNat_and_low : ∀ b : UInt8, (b &&& 0x7f).toNat = b.toNat % 128 := by decide +kernel

theorem and_mask_eq_mod (x n : ℕ) : x &&& (2 ^ n - 1) = x % 2 ^ n :=
  Nat.and_two_pow_sub_one_eq_mod x n

/-- Clearing the low bits and setting them to `y` is an addition. -/
theorem shift_or_eq_add {y n : ℕ} (x : ℕ) (h : y < 2 ^ n) :
    x >>> n <<< n ||| y = x / 2 ^ n * 2 ^ n + y := by
  rw [Nat.shiftRight_eq_div_pow, Nat.shiftLeft_eq, mul_comm, Nat.two_pow_add_eq_or_of_lt h]

end ZincioHttp
