import ZincioHttp.Basic

/-! The prefixed integer representation shared by HPACK and QPACK. A value is
held in the low `prefixBits` bits of an octet that also carries the bits of the
representation, and spills into continuation octets of seven bits each. Values
of 62 bits and below round-trip; the decoder rejects everything longer. -/

namespace ZincioHttp.Hpack

open List UInt8

/-- Errors of the shared primitives and of the HPACK decoder. -/
inductive HpackError where
  | invalidInteger
  | invalidString
  | invalidHuffman
  | invalidIndex
  | invalidMaxSize
  | headerListTooLarge
  | invalidRepresentation
  deriving DecidableEq, Repr

namespace Integer

/-- `header & !mask | value` as one octet. -/
def firstOctet (value prefixBits : ℕ) (header : UInt8) : UInt8 :=
  ofNat (header.toNat >>> prefixBits <<< prefixBits ||| value)

/-- The continuation octets, least significant group first. -/
def continuation (v : ℕ) : Octets :=
  if 128 ≤ v then ofNat ((v &&& 0x7f) ||| 0x80) :: continuation (v >>> 7)
  else [ofNat v]
termination_by v
decreasing_by rw [Nat.shiftRight_eq_div_pow]; omega

def encode (value prefixBits : ℕ) (header : UInt8) : Octets :=
  let mask := 2 ^ prefixBits - 1
  if value < mask then [firstOctet value prefixBits header]
  else firstOctet mask prefixBits header :: continuation (value - mask)

/-- The loop over the continuation octets of `decode`. -/
def decodeLoop (value shift : ℕ) : Octets → Except HpackError (ℕ × Octets)
  | [] => .error .invalidInteger
  | b :: rest =>
    if 56 < shift then .error .invalidInteger
    else
      let value := value + (b &&& 0x7f).toNat <<< shift
      if 2 ^ 64 ≤ value then .error .invalidInteger
      else if b &&& 0x80 = 0 then
        if 2 ^ 62 ≤ value then .error .invalidInteger else .ok (value, rest)
      else decodeLoop value (shift + 7) rest

/-- Decodes after the first octet `header`; returns the value and what is left
of the buffer. -/
def decode (buf : Octets) (prefixBits : ℕ) (header : UInt8) : Except HpackError (ℕ × Octets) :=
  let mask := 2 ^ prefixBits - 1
  let value := header.toNat &&& mask
  if value < mask then .ok (value, buf) else decodeLoop value 0 buf

/-- The position after the first octet without a continuation bit. -/
def encodedLenLoop (len : ℕ) : Octets → Option ℕ
  | [] => none
  | b :: rest => if b &&& 0x80 = 0 then some (len + 1) else encodedLenLoop (len + 1) rest

/-- The octets a prefixed integer at the start of `buf` occupies, when it is
complete. -/
def encodedLen (buf : Octets) (prefixBits : ℕ) : Option ℕ :=
  match buf with
  | [] => none
  | first :: rest =>
    let mask := 2 ^ prefixBits - 1
    if first.toNat &&& mask < mask then some 1 else encodedLenLoop 1 rest

/-! ### Arithmetic of the octets -/

variable {value prefixBits : ℕ} {buf : Octets}

theorem firstOctet_toNat (header : UInt8) (hv : value < 2 ^ prefixBits) (hp : prefixBits ≤ 8) :
    (firstOctet value prefixBits header).toNat =
      header.toNat / 2 ^ prefixBits * 2 ^ prefixBits + value := by
  unfold firstOctet
  rw [shift_or_eq_add _ hv, toNat_ofNat_of_lt]
  have hb := header.toNat_lt
  have hd : (2 : ℕ) ^ prefixBits ∣ 256 := (pow_dvd_pow 2 hp).trans (by norm_num)
  obtain ⟨k, hk⟩ := hd
  have hq : header.toNat / 2 ^ prefixBits < k := by
    rw [Nat.div_lt_iff_lt_mul (by positivity)]
    rw [mul_comm, ← hk]
    simpa using hb
  calc header.toNat / 2 ^ prefixBits * 2 ^ prefixBits + value
      < header.toNat / 2 ^ prefixBits * 2 ^ prefixBits + 2 ^ prefixBits := by omega
    _ = (header.toNat / 2 ^ prefixBits + 1) * 2 ^ prefixBits := by ring
    _ ≤ k * 2 ^ prefixBits := Nat.mul_le_mul_right _ hq
    _ = 256 := by rw [hk, mul_comm]

theorem continuation_of_lt {v : ℕ} (h : v < 128) : continuation v = [ofNat v] := by
  rw [continuation, if_neg (by omega)]

theorem continuation_of_ge {v : ℕ} (h : 128 ≤ v) :
    continuation v = ofNat (v % 128 + 128) :: continuation (v / 128) := by
  rw [continuation, if_pos h]
  have h1 : (v &&& 0x7f) ||| 0x80 = v % 128 + 128 := by
    have e : v &&& 0x7f = v % 2 ^ 7 := and_mask_eq_mod v 7
    have h2 : v % 2 ^ 7 < 2 ^ 7 := Nat.mod_lt v (by norm_num)
    rw [e, Nat.lor_comm, show 0x80 = 2 ^ 7 * 1 by norm_num, ← Nat.two_pow_add_eq_or_of_lt h2]
    omega
  rw [h1, Nat.shiftRight_eq_div_pow]

/-! ### Consumption -/

/-- The loop returns at most 62 bits and stops where `encodedLenLoop` does. -/
theorem decodeLoop_ok {shift v : ℕ} {rest : Octets}
    (h : decodeLoop value shift buf = .ok (v, rest)) :
    v < 2 ^ 62 ∧ ∃ used, buf = used ++ rest ∧
      ∀ len, encodedLenLoop len buf = some (len + used.length) := by
  induction buf generalizing value shift with
  | nil => simp [decodeLoop] at h
  | cons b buf ih =>
    simp only [decodeLoop] at h
    split_ifs at h with _ _ hlast hlarge
    · cases h
      exact ⟨not_le.1 hlarge, [b], rfl, fun len => by simp [encodedLenLoop, hlast]⟩
    · obtain ⟨hv, used, rfl, hlen⟩ := ih h
      refine ⟨hv, b :: used, rfl, fun len => ?_⟩
      rw [encodedLenLoop, if_neg hlast, hlen, length_cons, Nat.add_right_comm, Nat.add_assoc]

variable {rest : Octets} {v : ℕ} {header : UInt8}

theorem decode_ok (h : decode buf prefixBits header = .ok (v, rest)) :
    v < 2 ^ 62 ∧ ∃ used, buf = used ++ rest ∧
      encodedLen (header :: buf) prefixBits = some (1 + used.length) := by
  simp only [decode] at h
  rw [encodedLen]
  split_ifs at h with hs
  · cases h
    have hheader := header.toNat_lt
    have hle := Nat.and_le_left (n := header.toNat) (m := 2 ^ prefixBits - 1)
    exact ⟨by omega, [], rfl, if_pos hs⟩
  · obtain ⟨hv, used, hbuf, hlen⟩ := decodeLoop_ok h
    exact ⟨hv, used, hbuf, (if_neg hs).trans (hlen 1)⟩

theorem decode_rest_le (h : decode buf prefixBits header = .ok (v, rest)) :
    rest.length ≤ buf.length := by
  obtain ⟨-, used, rfl, -⟩ := decode_ok h
  simp

/-! ### Round trip -/

/-- The loop reads `continuation v` back at the weight `2 ^ (7 * k)`. -/
theorem decodeLoop_continuation (v : ℕ) : ∀ (acc k : ℕ) (rest : Octets), k ≤ 8 →
    acc + v * 2 ^ (7 * k) < 2 ^ 62 →
    decodeLoop acc (7 * k) (continuation v ++ rest) = .ok (acc + v * 2 ^ (7 * k), rest) := by
  induction v using Nat.strong_induction_on with
  | _ v ih =>
    intro acc k rest hk hv
    by_cases hc : 128 ≤ v
    · have hb : (ofNat (v % 128 + 128)).toNat = v % 128 + 128 := toNat_ofNat_of_lt (by omega)
      have hlow : (ofNat (v % 128 + 128) &&& 0x7f).toNat = v % 128 := by
        rw [toNat_and_low]
        omega
      have hsplit : v * 2 ^ (7 * k) = v % 128 * 2 ^ (7 * k) + v / 128 * 2 ^ (7 * (k + 1)) := by
        have : v = v % 128 + 128 * (v / 128) := by omega
        conv_lhs => rw [this]
        ring
      -- a further octet of weight at least `2 ^ (7 * (k + 1))` is still to come
      have hk8 : k + 1 ≤ 8 := by
        by_contra hlt
        have e : k = 8 := by omega
        subst e
        omega
      rw [continuation_of_ge hc, cons_append, decodeLoop, if_neg (by omega)]
      simp only [hlow]
      rw [if_neg (by omega), if_neg (by rw [and_high_eq_zero_iff, hb]; omega)]
      rw [show 7 * k + 7 = 7 * (k + 1) by ring, ih (v / 128) (by omega) _ _ _ hk8 (by omega)]
      congr 2
      omega
    · have hb : (ofNat v).toNat = v := toNat_ofNat_of_lt (by omega)
      have hlow : (ofNat v &&& 0x7f).toNat = v := by
        rw [toNat_and_low]
        omega
      rw [continuation_of_lt (by omega), singleton_append, decodeLoop, if_neg (by omega)]
      simp only [hlow, Nat.shiftLeft_eq]
      rw [if_neg (by omega), if_pos (by rw [and_high_eq_zero_iff, hb]; omega), if_neg (by omega)]

/-- An encoding is one octet with the value in its prefix, or an octet with a full prefix
and what exceeds it. The bits of the header above the prefix survive. -/
theorem encode_shape (value : ℕ) (header : UInt8) (hp : 1 ≤ prefixBits ∧ prefixBits ≤ 8) :
    ∃ first tail, encode value prefixBits header = first :: tail ∧
      first.toNat / 2 ^ prefixBits = header.toNat / 2 ^ prefixBits ∧
      (value < 2 ^ prefixBits - 1 ∧ first.toNat % 2 ^ prefixBits = value ∧ tail = [] ∨
        2 ^ prefixBits - 1 ≤ value ∧ first.toNat % 2 ^ prefixBits = 2 ^ prefixBits - 1 ∧
          tail = continuation (value - (2 ^ prefixBits - 1))) := by
  have hpow : 2 ≤ 2 ^ prefixBits := by
    calc 2 = 2 ^ 1 := by norm_num
      _ ≤ 2 ^ prefixBits := Nat.pow_le_pow_right (by norm_num) hp.1
  have hfirst : ∀ x, x < 2 ^ prefixBits →
      (firstOctet x prefixBits header).toNat / 2 ^ prefixBits = header.toNat / 2 ^ prefixBits ∧
      (firstOctet x prefixBits header).toNat % 2 ^ prefixBits = x := by
    intro x hx
    rw [firstOctet_toNat header hx hp.2]
    refine ⟨?_, ?_⟩
    · rw [mul_comm, Nat.mul_add_div (by omega), Nat.div_eq_of_lt hx, add_zero]
    · rw [Nat.add_comm, Nat.add_mul_mod_self_right, Nat.mod_eq_of_lt hx]
  by_cases hs : value < 2 ^ prefixBits - 1
  · obtain ⟨hdiv, hmod⟩ := hfirst value (by omega)
    exact ⟨_, [], by simp [encode, hs], hdiv, .inl ⟨hs, hmod, rfl⟩⟩
  · obtain ⟨hdiv, hmod⟩ := hfirst (2 ^ prefixBits - 1) (by omega)
    exact ⟨_, _, by simp [encode, hs], hdiv, .inr ⟨not_lt.1 hs, hmod, rfl⟩⟩

/-- Decoding an encoding returns the value and leaves the octets that follow. -/
theorem decode_encode (value prefixBits : ℕ) (header : UInt8) (rest : Octets)
    (hv : value < 2 ^ 62) (hp : 1 ≤ prefixBits ∧ prefixBits ≤ 8 := by omega) :
    ∃ first tail, encode value prefixBits header = first :: tail ∧
      first.toNat / 2 ^ prefixBits = header.toNat / 2 ^ prefixBits ∧
      decode (tail ++ rest) prefixBits first = .ok (value, rest) := by
  obtain ⟨first, tail, henc, hdiv, ⟨hs, hmod, rfl⟩ | ⟨hs, hmod, rfl⟩⟩ :=
    encode_shape value header hp
  · refine ⟨first, [], henc, hdiv, ?_⟩
    simp [decode, hmod, hs]
  refine ⟨first, _, henc, hdiv, ?_⟩
  simp only [decode, and_mask_eq_mod, hmod, lt_irrefl, if_false]
  have := decodeLoop_continuation (value - (2 ^ prefixBits - 1)) (2 ^ prefixBits - 1) 0 rest
    (by omega) (by omega)
  rw [this]
  congr 2
  omega

/-- Whatever the loop reads out of `continuation v` is its value. -/
theorem eq_of_decodeLoop_continuation (v : ℕ) : ∀ {acc k x : ℕ} {rest left : Octets},
    decodeLoop acc (7 * k) (continuation v ++ rest) = .ok (x, left) →
      x = acc + v * 2 ^ (7 * k) := by
  induction v using Nat.strong_induction_on with
  | _ v ih =>
    intro acc k x rest left h
    by_cases hc : 128 ≤ v
    · have hb : (ofNat (v % 128 + 128)).toNat = v % 128 + 128 := toNat_ofNat_of_lt (by omega)
      rw [continuation_of_ge hc, cons_append, decodeLoop] at h
      simp only [toNat_and_low, hb, Nat.shiftLeft_eq, and_high_eq_zero_iff] at h
      split_ifs at h
      · omega
      · rw [show 7 * k + 7 = 7 * (k + 1) by ring] at h
        have hx := ih (v / 128) (by omega) h
        have hv : (v % 128 + 128) % 128 + 128 * (v / 128) = v := by omega
        rw [hx, show 7 * (k + 1) = 7 * k + 7 by ring, pow_add]
        calc acc + (v % 128 + 128) % 128 * 2 ^ (7 * k) + v / 128 * (2 ^ (7 * k) * 2 ^ 7)
            = acc + ((v % 128 + 128) % 128 + 128 * (v / 128)) * 2 ^ (7 * k) := by ring
          _ = acc + v * 2 ^ (7 * k) := by rw [hv]
    · have hb : (ofNat v).toNat = v := toNat_ofNat_of_lt (by omega)
      rw [continuation_of_lt (by omega), singleton_append, decodeLoop] at h
      simp only [toNat_and_low, hb, Nat.shiftLeft_eq, and_high_eq_zero_iff,
        Nat.mod_eq_of_lt (show v < 128 by omega)] at h
      split_ifs at h
      · cases h
        rfl
      · omega

/-- An encoding of any value starts with the bits of the header, and whatever is
decoded from it is the value. -/
theorem encode_cases (value prefixBits : ℕ) (header : UInt8)
    (hp : 1 ≤ prefixBits ∧ prefixBits ≤ 8 := by omega) :
    ∃ first tail, encode value prefixBits header = first :: tail ∧
      first.toNat / 2 ^ prefixBits = header.toNat / 2 ^ prefixBits ∧
      ∀ {rest left : Octets} {v : ℕ},
        decode (tail ++ rest) prefixBits first = .ok (v, left) → v = value := by
  obtain ⟨first, tail, henc, hdiv, ⟨hs, hmod, rfl⟩ | ⟨hs, hmod, rfl⟩⟩ :=
    encode_shape value header hp
  · refine ⟨first, [], henc, hdiv, ?_⟩
    intro rest left v h
    simp only [decode, and_mask_eq_mod, hmod, hs] at h
    cases h
    rfl
  · refine ⟨first, _, henc, hdiv, ?_⟩
    intro rest left v h
    simp only [decode, and_mask_eq_mod, hmod, lt_irrefl] at h
    have hv := @eq_of_decodeLoop_continuation _ _ 0 _ _ _ h
    omega

/-! ### Length -/

theorem length_continuation_le (k : ℕ) : ∀ {v : ℕ}, v < 2 ^ (7 * (k + 1)) →
    (continuation v).length ≤ k + 1 := by
  induction k with
  | zero =>
    intro v hv
    rw [continuation_of_lt (by simpa using hv)]
    rfl
  | succ k ih =>
    intro v hv
    by_cases hc : 128 ≤ v
    · have hdiv : v / 128 < 2 ^ (7 * (k + 1)) := by
        rw [show 7 * (k + 1 + 1) = 7 * (k + 1) + 7 by ring, pow_add] at hv
        exact Nat.div_lt_of_lt_mul (by rw [mul_comm]; exact hv)
      have := ih hdiv
      rw [continuation_of_ge hc, length_cons]
      omega
    · rw [continuation_of_lt (by omega)]
      simp

theorem length_encode_le (prefixBits : ℕ) (header : UInt8) (hv : value < 2 ^ 62) :
    (encode value prefixBits header).length ≤ 10 := by
  unfold encode
  simp only
  split_ifs
  · simp
  · have := length_continuation_le 8 (v := value - (2 ^ prefixBits - 1)) (by omega)
    rw [length_cons]
    omega

theorem encode_ne_nil (value prefixBits : ℕ) (header : UInt8) :
    encode value prefixBits header ≠ [] := by
  unfold encode
  simp only
  split_ifs <;> simp

theorem encodedLenLoop_continuation (v : ℕ) : ∀ (len : ℕ) (buf rest : Octets),
    buf <+: continuation v ++ rest →
    encodedLenLoop len buf =
      if (continuation v).length ≤ buf.length then some (len + (continuation v).length)
      else none := by
  induction v using Nat.strong_induction_on with
  | _ v ih =>
    intro len buf rest hbuf
    by_cases hc : 128 ≤ v
    · rw [continuation_of_ge hc] at hbuf ⊢
      cases buf with
      | nil => simp [encodedLenLoop]
      | cons b buf =>
        rw [cons_append, cons_prefix_cons] at hbuf
        obtain ⟨rfl, hbuf⟩ := hbuf
        have hb : ¬ofNat (v % 128 + 128) &&& 0x80 = 0 := by
          rw [and_high_eq_zero_iff, toNat_ofNat_of_lt (by omega)]
          omega
        rw [encodedLenLoop, ih (v / 128) (by omega) _ _ _ hbuf]
        simp only [length_cons, Nat.add_le_add_iff_right]
        split_ifs
        · congr 1
          omega
        · rfl
    · rw [continuation_of_lt (by omega)] at hbuf ⊢
      cases buf with
      | nil => simp [encodedLenLoop]
      | cons b buf =>
        rw [cons_append, cons_prefix_cons] at hbuf
        obtain ⟨rfl, -⟩ := hbuf
        have hb : ofNat v &&& 0x80 = 0 := by
          rw [and_high_eq_zero_iff, toNat_ofNat_of_lt (by omega)]
          omega
        simp [encodedLenLoop, hb]

/-- The length of an integer is told exactly once all of it is there. -/
theorem encodedLen_encode (hbuf : buf <+: encode value prefixBits header ++ rest)
    (hp : 1 ≤ prefixBits ∧ prefixBits ≤ 8 := by omega) :
    encodedLen buf prefixBits =
      if (encode value prefixBits header).length ≤ buf.length
      then some (encode value prefixBits header).length else none := by
  cases buf with
  | nil =>
    have := List.length_pos_iff.2 (encode_ne_nil value prefixBits header)
    rw [encodedLen, if_neg (by simp only [length_nil]; omega)]
  | cons b buf =>
    obtain ⟨first, tail, henc, -, hshape⟩ := encode_shape value header hp
    rw [henc, cons_append, cons_prefix_cons] at hbuf
    obtain ⟨rfl, hbuf⟩ := hbuf
    rcases hshape with ⟨hs, hmod, rfl⟩ | ⟨-, hmod, rfl⟩
    · simp [encodedLen, henc, hmod, hs]
    · rw [henc, encodedLen]
      simp only [and_mask_eq_mod, hmod, lt_irrefl, if_false]
      rw [encodedLenLoop_continuation _ _ _ _ hbuf]
      simp [Nat.add_comm 1]

/-- Prefixed integers are exact. An encoding of at most 62 bits is read back to its last
octet and keeps the bits of the header above the prefix; nothing longer is ever returned;
and `encodedLen` counts the octets that `decode` consumes. -/
theorem integers_exact :
    (∀ prefixBits, 1 ≤ prefixBits → prefixBits ≤ 8 → ∀ header value rest, value < 2 ^ 62 →
      ∃ first tail, encode value prefixBits header = first :: tail ∧
        decode (tail ++ rest) prefixBits first = .ok (value, rest) ∧
        first.toNat / 2 ^ prefixBits = header.toNat / 2 ^ prefixBits) ∧
    ∀ prefixBits header buf v rest, decode buf prefixBits header = .ok (v, rest) →
      v < 2 ^ 62 ∧ ∃ used, buf = used ++ rest ∧
        encodedLen (header :: buf) prefixBits = some (1 + used.length) := by
  refine ⟨fun prefixBits h1 h8 header value rest hv => ?_, fun _ _ _ _ _ h => decode_ok h⟩
  obtain ⟨first, tail, henc, hdiv, hdec⟩ := decode_encode value prefixBits header rest hv
  exact ⟨first, tail, henc, hdec, hdiv⟩

end Integer

end ZincioHttp.Hpack
