import ZincioHttp.Basic
import ZincioHttp.Lib.Numeral

/-! Tests and conversions on the text of a field value, as the standard library
and the `http` crate make them. -/

namespace ZincioHttp

open Option

/-- Drops what satisfies `p` from both ends. -/
def trimBoth {α : Type} (p : α → Bool) (l : List α) : List α :=
  ((l.dropWhile p).reverse.dropWhile p).reverse

def isAsciiDigit (b : UInt8) : Bool := decide (0x30 ≤ b ∧ b ≤ 0x39)

def isAsciiUppercase (b : UInt8) : Bool := decide (0x41 ≤ b ∧ b ≤ 0x5a)

def isOws (b : UInt8) : Bool := decide (b = 0x20 ∨ b = 0x09)

/-- `eq_ignore_ascii_case` with a lowercase text. -/
def eqIgnoreAsciiCase (value lower : Octets) : Bool :=
  decide (value.map (fun b => if isAsciiUppercase b then b + 0x20 else b) = lower)

/-- `to_str` accepts visible ASCII and tabs. -/
def isVisible (b : UInt8) : Bool := decide ((0x20 ≤ b ∧ b < 0x7f) ∨ b = 0x09)

/-- The value of a decimal digit, as `char::to_digit(10)` gives it. -/
def decDigit (b : UInt8) : Option ℕ :=
  if 0x30 ≤ b ∧ b ≤ 0x39 then some (b.toNat - 0x30) else none

/-- The value of a hexadecimal digit, as `char::to_digit(16)` gives it. -/
def hexDigit (b : UInt8) : Option ℕ :=
  if 0x30 ≤ b ∧ b ≤ 0x39 then some (b.toNat - 0x30)
  else if 0x61 ≤ b ∧ b ≤ 0x66 then some (b.toNat - 0x57)
  else if 0x41 ≤ b ∧ b ≤ 0x46 then some (b.toNat - 0x37)
  else none

/-- A leading plus sign is skipped by `from_str_radix`. -/
def skipPlus : Octets → Octets
  | 0x2b :: rest => rest
  | text => text

/-- `u64::from_str_radix`, and `usize::from_str_radix` on 64-bit targets. -/
def fromStrRadix (digit : UInt8 → Option ℕ) (base : ℕ) (text : Octets) : Option ℕ :=
  match skipPlus text with
  | [] => none
  | digits => (digits.mapM digit).bind (Lib.readNumeral base (2 ^ 64))

/-- `str::parse::<u64>`. -/
def parseU64 (text : Octets) : Option ℕ := fromStrRadix decDigit 10 text

def digitsValue (digit : UInt8 → Option ℕ) (base : ℕ) (digits : Octets) : ℕ :=
  Lib.numeral base (digits.filterMap digit)

theorem mapM_eq_some_iff {α β : Type} {f : α → Option β} {l : List α} {r : List β} :
    l.mapM f = some r ↔ (∀ a ∈ l, (f a).isSome) ∧ r = l.filterMap f := by
  induction l generalizing r with
  | nil =>
    exact ⟨fun h => ⟨by simp, (some.inj h).symm⟩, fun h => congrArg some h.2.symm⟩
  | cons a l ih =>
    rw [List.mapM_cons]
    cases hf : f a with
    | none => simp [hf]
    | some b =>
      cases hl : l.mapM f with
      | none =>
        have hno : ¬∀ a ∈ l, (f a).isSome := fun h => by
          simpa [hl] using ih.2 ⟨h, rfl⟩
        constructor
        · intro h
          simp at h
        · rintro ⟨h, -⟩
          exact absurd (fun a ha => h a (List.mem_cons_of_mem _ ha)) hno
      | some r' =>
        obtain ⟨hall, rfl⟩ := ih.1 hl
        simp only [bind_eq_bind, bind_some, List.filterMap_cons, hf,
          List.forall_mem_cons, isSome_some, true_and]
        constructor
        · intro h
          exact ⟨hall, (some.inj h).symm⟩
        · rintro ⟨-, rfl⟩
          rfl

/-- A number is read from one or more digits, after a sign or not, whose value
fits. -/
theorem fromStrRadix_eq_some_iff {digit : UInt8 → Option ℕ} {base : ℕ} (hb : 0 < base)
    {text : Octets} {n : ℕ} : fromStrRadix digit base text = some n ↔
      skipPlus text ≠ [] ∧ (∀ b ∈ skipPlus text, (digit b).isSome) ∧
        digitsValue digit base (skipPlus text) = n ∧ n < 2 ^ 64 := by
  rw [fromStrRadix]
  generalize skipPlus text = digits
  cases digits with
  | nil => simp
  | cons d digits =>
    simp only [ne_eq, List.cons_ne_nil, not_false_eq_true, true_and, bind_eq_some_iff,
      mapM_eq_some_iff, Lib.readNumeral_eq hb (show 0 < 2 ^ 64 by decide)]
    constructor
    · rintro ⟨_, ⟨hall, rfl⟩, hval⟩
      split_ifs at hval with hlt
      · cases hval
        exact ⟨hall, rfl, hlt⟩
    · rintro ⟨hall, rfl, hlt⟩
      exact ⟨_, ⟨hall, rfl⟩, if_pos hlt⟩

end ZincioHttp
