import ZincioHttp.Hpack.Huffman

/-! HPACK string literals: a length with a seven-bit prefix whose octet also
carries the Huffman flag, and then the octets, raw or Huffman-coded. -/

namespace ZincioHttp.H2.Hpack.StringLiteral

open ZincioHttp.Hpack List

/-- The Huffman length in octets when the bit sequence is shorter than the raw
literal. -/
def huffmanEncodedLenIfShorter (value : Octets) : Option ℕ :=
  let bitLen := Huffman.encodedLen value
  if bitLen < min (value.length * 8) usizeMax then some ((bitLen + 7) / 8) else none

def encode (value : Octets) (huffmanLen : Option ℕ) : Octets :=
  match huffmanLen with
  | some len => Integer.encode len 7 0x80 ++ Huffman.encode value
  | none => Integer.encode value.length 7 0 ++ value

/-- Reads one literal; returns whether it was Huffman-coded, its octets and what
is left of the buffer. -/
def decode (buf : Octets) (maxLength : ℕ) : Except HpackError (Bool × Octets × Octets) :=
  match buf with
  | [] => .error .invalidString
  | first :: buf => do
    let (len, buf) ← Integer.decode buf 7 first
    if len > maxLength then throw .invalidString
    if buf.length < len then throw .invalidString
    let slice := buf.take len
    let rest := buf.drop len
    if first &&& 0x80 ≠ 0 then
      let value ← Huffman.decode slice
      if value.length > maxLength then throw .invalidString
      return (true, value, rest)
    else
      return (false, slice, rest)

variable {value : Octets}

theorem decode_rest_le {buf rest : Octets} {maxLength : ℕ} {huffman : Bool}
    (h : decode buf maxLength = .ok (huffman, value, rest)) : rest.length ≤ buf.length := by
  cases buf with
  | nil => simp [decode] at h
  | cons first buf =>
    cases hi : Integer.decode buf 7 first with
    | error e => simp [decode, hi, bind, Except.bind] at h
    | ok r =>
      obtain ⟨len, tail⟩ := r
      have hle := Integer.decode_rest_le hi
      -- every successful branch leaves `tail.drop len`
      have hrest : rest = tail.drop len := by
        simp only [decode, hi, bind, Except.bind, throw, throwThe, MonadExceptOf.throw, pure,
          Except.pure] at h
        split_ifs at h
        · cases hv : Huffman.decode (tail.take len) with
          | error e => simp [hv] at h
          | ok v =>
            simp only [hv] at h
            split_ifs at h
            simp only [Except.ok.injEq, Prod.mk.injEq] at h
            exact h.2.2.symm
        · simp only [Except.ok.injEq, Prod.mk.injEq] at h
          exact h.2.2.symm
      rw [hrest, length_drop, length_cons]
      omega

theorem huffmanEncodedLenIfShorter_spec {len : ℕ}
    (h : huffmanEncodedLenIfShorter value = some len) :
    len = (Huffman.encode value).length ∧ len ≤ value.length := by
  simp only [huffmanEncodedLenIfShorter] at h
  split_ifs at h with hlt
  obtain rfl := Option.some.inj h
  exact ⟨(Huffman.length_encode value).symm, by omega⟩

/-- The Huffman flag survives in the octet that starts the length. -/
theorem flag_of_div : ∀ b : UInt8, (b.toNat / 128 = 1 → b &&& 0x80 ≠ 0) ∧
    (b.toNat / 128 = 0 → b &&& 0x80 = 0) := by
  decide +kernel

/-- A literal within the limit decodes to the string it encodes, in either
form. -/
theorem decode_encode {huffmanLen : Option ℕ} {maxLength : ℕ} (rest : Octets)
    (hlen : ∀ len, huffmanLen = some len → huffmanEncodedLenIfShorter value = some len)
    (hmax : value.length ≤ maxLength) (hv : value.length < 2 ^ 62) :
    ∃ huffman, decode (encode value huffmanLen ++ rest) maxLength = .ok (huffman, value, rest) := by
  cases huffmanLen with
  | some len =>
    obtain ⟨hl, hle⟩ := huffmanEncodedLenIfShorter_spec (hlen len rfl)
    obtain ⟨first, tail, henc, hfirst, hdec⟩ := Integer.decode_encode len 7 0x80
      (Huffman.encode value ++ rest) (by omega)
    have hflag : first &&& 0x80 ≠ 0 := (flag_of_div first).1 hfirst
    refine ⟨true, ?_⟩
    rw [encode, henc, append_assoc, cons_append, decode]
    simp only [hdec, bind, Except.bind]
    rw [if_neg (by omega), if_neg (by simp; omega), if_pos hflag,
      take_append_of_le_length (by omega), take_of_length_le (by omega),
      drop_append_of_le_length (by omega), drop_of_length_le (by omega),
      Huffman.decode_encode]
    simp [hmax, pure, Except.pure]
  | none =>
    obtain ⟨first, tail, henc, hfirst, hdec⟩ := Integer.decode_encode value.length
      7 0 (value ++ rest) hv
    have hflag : first &&& 0x80 = 0 := (flag_of_div first).2 hfirst
    refine ⟨false, ?_⟩
    rw [encode, henc, append_assoc, cons_append, decode]
    simp only [hdec, bind, Except.bind]
    rw [if_neg (by omega), if_neg (by simp), if_neg (by simp [hflag])]
    simp [pure, Except.pure]

end ZincioHttp.H2.Hpack.StringLiteral
