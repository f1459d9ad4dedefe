import ZincioHttp.Hpack.Huffman

/-! QPACK string literals. The length has a prefix of a given width whose highest
bit is the Huffman flag; the octet it starts in also carries the bits of the
instruction or field line around the string. -/

namespace ZincioHttp.H3.Qpack

open ZincioHttp.Hpack List Huffman Integer

/-- Whether `push_string` writes the Huffman form, and the length it announces. -/
def stringForm (huffman : Bool) (value : Octets) : Bool × ℕ :=
  if huffman then
    let huffmanBits := Huffman.encodedLen value
    if huffmanBits < value.length * 8 then (true, (huffmanBits + 7) / 8) else (false, value.length)
  else (false, value.length)

/-- `header | huffman << (prefix - 1)`. -/
def flagged (header : UInt8) (prefixBits : ℕ) (coded : Bool) : UInt8 :=
  UInt8.ofNat (header.toNat ||| coded.toNat <<< (prefixBits - 1))

def pushString (huffman : Bool) (value : Octets) (prefixBits : ℕ) (header : UInt8) : Octets :=
  let (coded, len) := stringForm huffman value
  Integer.encode len (prefixBits - 1) (flagged header prefixBits coded) ++
    (if coded then Huffman.encode value else value)

/-- Reads a string whose first octet `header` has been read. -/
def readString (buf : Octets) (prefixBits : ℕ) (header : UInt8) :
    Except HpackError (Octets × Octets) :=
  let huffman := header.toNat &&& (1 <<< (prefixBits - 1)) ≠ 0
  match Integer.decode buf (prefixBits - 1) header with
  | .error e => .error e
  | .ok (len, buf) =>
    if buf.length < len then .error .invalidString
    else if huffman then
      match Huffman.decode (buf.take len) with
      | .error e => .error e
      | .ok value => .ok (value, buf.drop len)
    else .ok (buf.take len, buf.drop len)

def readValueString (buf : Octets) : Except HpackError (Octets × Octets) :=
  match buf with
  | [] => .error .invalidString
  | header :: buf => readString buf 8 header

/-- The octets of the string at the start of `buf`, once all of it is there. -/
def stringLen (buf : Octets) (prefixBits : ℕ) : Option ℕ :=
  match Integer.encodedLen buf (prefixBits - 1), buf with
  | some intLen, first :: rest =>
    match Integer.decode rest (prefixBits - 1) first with
    | .error _ => none
    | .ok (content, _) => if buf.length < intLen + content then none else some (intLen + content)
  | _, _ => none

/-! ### Round trip -/

theorem stringForm_spec (huffman : Bool) (value : Octets) :
    (stringForm huffman value).2 ≤ value.length ∧ (stringForm huffman value).2 =
        (if (stringForm huffman value).1 then encode value else value).length := by
  unfold stringForm
  by_cases h1 : huffman = true
  · by_cases h2 : Huffman.encodedLen value < value.length * 8
    · simp only [h1, h2, if_true, length_encode, and_true]
      omega
    · simp [h2]
  · simp [h1]

variable {header : UInt8} {prefixBits : ℕ} {value : Octets}

theorem flagged_toNat (coded : Bool) (hp : 1 ≤ prefixBits ∧ prefixBits ≤ 8)
    (hlow : header.toNat % 2 ^ prefixBits = 0) :
    (flagged header prefixBits coded).toNat =
      header.toNat + coded.toNat * 2 ^ (prefixBits - 1) := by
  obtain ⟨q, hq⟩ := Nat.dvd_of_mod_eq_zero hlow
  have hflag : coded.toNat * 2 ^ (prefixBits - 1) < 2 ^ prefixBits := by
    have hpow : 2 ^ prefixBits = 2 * 2 ^ (prefixBits - 1) := by
      rw [← pow_succ', Nat.sub_add_cancel hp.1]
    cases coded <;> simp; omega
  have hor : header.toNat ||| coded.toNat <<< (prefixBits - 1) =
      header.toNat + coded.toNat * 2 ^ (prefixBits - 1) := by
    rw [Nat.shiftLeft_eq, hq, Nat.two_pow_add_eq_or_of_lt hflag]
  rw [flagged, hor]
  apply toNat_ofNat_of_lt
  -- the header has room below its lowest bit for the flag
  have hlt := header.toNat_lt
  obtain ⟨k, hk⟩ : (2 : ℕ) ^ prefixBits ∣ 256 := (pow_dvd_pow 2 hp.2).trans (by norm_num)
  have hqk : q < k := by
    by_contra hge
    have := Nat.mul_le_mul_left (2 ^ prefixBits) (show k ≤ q by omega)
    omega
  calc header.toNat + coded.toNat * 2 ^ (prefixBits - 1)
      < 2 ^ prefixBits * q + 2 ^ prefixBits := by omega
    _ = 2 ^ prefixBits * (q + 1) := by ring
    _ ≤ 2 ^ prefixBits * k := Nat.mul_le_mul_left _ hqk
    _ = 256 := hk.symm

/-- The flag and the bits above the prefix, as read back from the first octet. -/
theorem flag_read {first : UInt8} {coded : Bool} (hp : 1 ≤ prefixBits ∧ prefixBits ≤ 8)
    (hlow : header.toNat % 2 ^ prefixBits = 0)
    (h : first.toNat / 2 ^ (prefixBits - 1) =
      (flagged header prefixBits coded).toNat / 2 ^ (prefixBits - 1)) :
    (first.toNat &&& (1 <<< (prefixBits - 1)) ≠ 0 ↔ coded = true) ∧
      first.toNat / 2 ^ prefixBits = header.toNat / 2 ^ prefixBits := by
  obtain ⟨q, hq⟩ := Nat.dvd_of_mod_eq_zero hlow
  have hpow : 2 ^ prefixBits = 2 ^ (prefixBits - 1) * 2 := by
    rw [← pow_succ, Nat.sub_add_cancel hp.1]
  have hpos := Nat.two_pow_pos (prefixBits - 1)
  have hdiv : first.toNat / 2 ^ (prefixBits - 1) = 2 * q + coded.toNat := by
    rw [h, flagged_toNat coded hp hlow, hq, hpow, mul_assoc, mul_comm coded.toNat,
      Nat.mul_add_div hpos, Nat.mul_div_cancel_left _ hpos]
  have hbit : coded.toNat ≤ 1 := Bool.toNat_le coded
  constructor
  · rw [Nat.shiftLeft_eq, one_mul, Nat.and_two_pow, Nat.testBit_eq_decide_div_mod_eq, hdiv]
    cases coded <;> simp
  · rw [hpow, ← Nat.div_div_eq_div_mul, hdiv, ← hpow, hq,
      Nat.mul_div_cancel_left _ (Nat.two_pow_pos prefixBits)]
    omega

/-- A pushed string is read back, and leaves the bits above its prefix alone. -/
theorem readString_pushString (huffman : Bool) (value : Octets) (prefixBits : ℕ) (header : UInt8)
    (rest : Octets) (hlow : header.toNat % 2 ^ prefixBits = 0) (hv : value.length < 2 ^ 62)
    (hp : 2 ≤ prefixBits ∧ prefixBits ≤ 8 := by omega) :
    ∃ first tail, pushString huffman value prefixBits header = first :: tail ∧
      first.toNat / 2 ^ prefixBits = header.toNat / 2 ^ prefixBits ∧
      readString (tail ++ rest) prefixBits first = .ok (value, rest) := by
  obtain ⟨hle, hlen⟩ := stringForm_spec huffman value
  rcases hform : stringForm huffman value with ⟨coded, len⟩
  rw [hform] at hle hlen
  simp only at hle hlen
  obtain ⟨first, tail, henc, hfirst, hdec⟩ := decode_encode len (prefixBits - 1)
    (flagged header prefixBits coded) ((if coded then encode value else value) ++ rest) (by omega)
  obtain ⟨hflag, hhigh⟩ := flag_read (by omega) hlow hfirst
  refine ⟨first, tail ++ (if coded then encode value else value), ?_, hhigh, ?_⟩
  · simp [pushString, hform, henc]
  · rw [append_assoc, readString, hdec]
    simp only
    rw [if_neg (by rw [length_append]; omega)]
    cases coded with
    | true =>
      simp only [if_true] at hlen hflag ⊢
      rw [if_pos (hflag.2 trivial), take_left' hlen.symm, drop_left' hlen.symm,
        Huffman.decode_encode]
    | false =>
      simp only [Bool.false_eq_true, if_false] at hlen hflag ⊢
      rw [if_neg (by simpa using hflag), take_left' hlen.symm, drop_left' hlen.symm]

theorem readValueString_pushString (huffman : Bool) (rest : Octets) (hv : value.length < 2 ^ 62) :
    readValueString (pushString huffman value 8 0 ++ rest) = .ok (value, rest) := by
  obtain ⟨first, tail, hpush, -, hread⟩ :=
    readString_pushString huffman value 8 0 rest (by decide) hv
  rw [hpush, cons_append, readValueString, hread]

/-! ### Length -/

theorem length_pushString_le (huffman : Bool) (prefixBits : ℕ) (header : UInt8)
    (hv : value.length < 2 ^ 62) :
    (pushString huffman value prefixBits header).length ≤ value.length + 10 := by
  obtain ⟨hle, hlen⟩ := stringForm_spec huffman value
  have hint := length_encode_le (prefixBits - 1)
    (flagged header prefixBits (stringForm huffman value).1)
    (show (stringForm huffman value).2 < 2 ^ 62 by omega)
  simp only [pushString, length_append]
  omega

/-- The length of a string is told exactly once all of it is there. -/
theorem stringLen_pushString {huffman : Bool} {buf rest : Octets} (hv : value.length < 2 ^ 62)
    (hbuf : buf <+: pushString huffman value prefixBits header ++ rest)
    (hp : 2 ≤ prefixBits ∧ prefixBits ≤ 8 := by omega) :
    stringLen buf prefixBits =
      if (pushString huffman value prefixBits header).length ≤ buf.length
      then some (pushString huffman value prefixBits header).length else none := by
  obtain ⟨hle, hlen⟩ := stringForm_spec huffman value
  rcases hform : stringForm huffman value with ⟨coded, len⟩
  rw [hform] at hle hlen
  have hpush : pushString huffman value prefixBits header =
      encode len (prefixBits - 1) (flagged header prefixBits coded) ++
        (if coded then encode value else value) := by
    simp [pushString, hform]
  have hpushlen : (pushString huffman value prefixBits header).length =
      (encode len (prefixBits - 1) (flagged header prefixBits coded)).length + len := by
    rw [hpush, length_append, ← hlen]
  rw [hpush, append_assoc] at hbuf
  have hint := encodedLen_encode hbuf
  unfold stringLen
  rw [hpushlen]
  by_cases hcomplete : (encode len (prefixBits - 1)
      (flagged header prefixBits coded)).length ≤ buf.length
  · obtain ⟨tail, rfl⟩ := prefix_of_prefix_length_le (prefix_append _ _) hbuf hcomplete
    obtain ⟨first, cont, henc, -, hdec⟩ := decode_encode len (prefixBits - 1)
      (flagged header prefixBits coded) tail (by omega)
    rw [hint, if_pos hcomplete, henc, cons_append]
    simp only [hdec]
    split_ifs <;> first | rfl | omega
  · rw [hint, if_neg hcomplete, if_neg (by omega)]

end ZincioHttp.H3.Qpack
