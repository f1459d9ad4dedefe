import ZincioHttp.Hpack.HuffmanTable
import ZincioHttp.Hpack.Integer
import ZincioHttp.Lib.BitString
import ZincioHttp.Lib.PrefixTree
import Mathlib.Data.Fintype.Basic
import Mathlib.Tactic.IntervalCases

/-! Huffman coding of HPACK strings. The encoder packs codes into a 64-bit
accumulator that it drains 32 bits at a time; the decoder looks a whole octet up
in an automaton built from the one that reads nibbles. Both are compared with
the prefix tree of the codes: what the encoder writes is the concatenation of
the codes padded with ones, and the decoder accepts exactly such bit strings. -/

namespace ZincioHttp.Hpack.Huffman

open Lib List PrefixTree

/-! ### The encoder -/

/-- `CODES[b]`. -/
def codeOf (symbol : ℕ) : ℕ × ℕ := (codes.getD (symbol / 16) []).getD (symbol % 16) (0, 0)

/-- `u32::to_be_bytes`. -/
def toBeBytes (x : ℕ) : Octets :=
  [UInt8.ofNat (x / 2 ^ 24), UInt8.ofNat (x / 2 ^ 16), UInt8.ofNat (x / 2 ^ 8), UInt8.ofNat x]

/-- The last `nbits` bits, padded with ones to a whole octet. -/
def flushBits (bits nbits : ℕ) : Octets :=
  if nbits > 0 then
    let byteLen := (nbits + 7) / 8
    let padded := (bits <<< (32 - nbits)) % 2 ^ 64 ||| (1 <<< (32 - nbits) - 1)
    (toBeBytes (padded % 2 ^ 32)).take byteLen
  else []

def encodeLoop : Octets → ℕ → ℕ → Octets
  | [], bits, nbits => flushBits bits nbits
  | b :: src, bits, nbits =>
    let (len, code) := codeOf b.toNat
    let bits := (bits <<< len) % 2 ^ 64 ||| code
    let nbits := nbits + len
    if nbits ≥ 32 then
      let nbits := nbits - 32
      toBeBytes ((bits >>> nbits) % 2 ^ 32) ++ encodeLoop src (bits &&& (1 <<< nbits - 1)) nbits
    else encodeLoop src bits nbits

/-- `encode_with_len`; its length argument is only used by a debug assertion. -/
def encode (src : Octets) : Octets := encodeLoop src 0 0

/-- Number of bits `encode` needs. -/
def encodedLen (src : Octets) : ℕ := (src.map fun b => (codeOf b.toNat).1).sum

/-! ### The decoder -/

/-- `HUFF_DFA[(state << 4) + nibble]`: next state, flags, symbol. -/
def huffDfaAt (state nibble : ℕ) : ℕ × ℕ × ℕ :=
  let entry := (huffDfa.getD (state / 16) []).getD (state % 16) 0 >>> (20 * (15 - nibble)) % 2 ^ 20
  (entry / 2 ^ 12, entry / 2 ^ 8 % 2 ^ 4, entry % 2 ^ 8)

/-- An entry of `HUFF_DFA8`, as `build_huff_dfa8` computes it: next state, flags
and the symbols of both nibbles. -/
def huffDfa8 (state byte : ℕ) : ℕ × ℕ × ℕ × ℕ :=
  let high := huffDfaAt state (byte >>> 4)
  let low := huffDfaAt high.1 (byte &&& 0x0f)
  let flags := 0
  let flags := if (high.2.1 ||| low.2.1) &&& 0x04 ≠ 0 then flags ||| 0x04 else flags
  let flags := if high.2.1 &&& 0x02 ≠ 0 then flags ||| 0x02 else flags
  let flags := if low.2.1 &&& 0x02 ≠ 0 then flags ||| 0x01 else flags
  let flags := if low.2.1 &&& 0x01 ≠ 0 then flags ||| 0x08 else flags
  (low.1, flags, high.2.2, low.2.2)

def decodeLoop : Octets → ℕ → Bool → Octets → Except HpackError Octets
  | [], _, accepted, dst => if accepted then .ok dst else .error .invalidHuffman
  | byte :: src, state, _, dst =>
    let (next, flags, highSym, lowSym) := huffDfa8 state byte.toNat
    if flags &&& 0x04 ≠ 0 then .error .invalidHuffman
    else
      let dst := if flags &&& 0x02 ≠ 0 then dst ++ [UInt8.ofNat highSym] else dst
      let dst := if flags &&& 0x01 ≠ 0 then dst ++ [UInt8.ofNat lowSym] else dst
      decodeLoop src next (flags &&& 0x08 ≠ 0) dst

def decode (src : Octets) : Except HpackError Octets := decodeLoop src 0 true []

/-! ### Bits of codes and octets -/

def eos : ℕ := 256

def codeBits (symbol : ℕ) : List Bool := bitsOf (codeOf symbol).1 (codeOf symbol).2

def octetBits (b : UInt8) : List Bool := bitsOf 8 b.toNat

/-- The prefix tree of `codes`, its inner nodes labelled by the states of `huffDfa` that
stand for them. It is not in the source: it is what both tables are compared with. -/
def codeTree : PrefixTree ℕ ℕ :=
  .ofCodes 30 0 ((range 257).map fun symbol => (codeBits symbol, symbol))

/-- Where the input may end: a path of at most seven ones. -/
def mayEnd (path : List Bool) : Bool := path.all id && decide (path.length ≤ 7)

/-- The tree's root is an inner node, in the automaton's start state. -/
theorem codeTree_root : ∃ zero one, codeTree = .node 0 zero one := ⟨_, _, rfl⟩

theorem codeOf_spec : ∀ b : UInt8, 5 ≤ (codeOf b.toNat).1 ∧ (codeOf b.toNat).1 ≤ 30 ∧
      (codeOf b.toNat).2 < 2 ^ (codeOf b.toNat).1 := by
  decide +kernel

theorem descend_codeBits : ∀ b : UInt8,
    codeTree.descend (codeBits b.toNat) = some (.leaf b.toNat) := by
  decide +kernel

/-- Every leaf of the tree stands at the end of its code. -/
theorem eq_codeBits_of_descend {p : List Bool} {a : ℕ}
    (h : codeTree.descend p = some (.leaf a)) : p = codeBits a :=
  eq_code_of_checkLeaves (p := []) (by decide +kernel) h

theorem descend_eos : codeTree.descend (replicate 30 true) = some (.leaf eos) := by
  decide +kernel

/-- Fewer than thirty ones are the beginning of a code, not a code. -/
theorem scan_ones {k : ℕ} (hk : k < 30) : (codeTree.scan codeTree [] (replicate k true)).out = [] ∧
      (codeTree.scan codeTree [] (replicate k true)).path = replicate k true := by
  have hq : replicate (30 - k) true ≠ [] := by
    rw [Ne, replicate_eq_nil_iff]
    omega
  refine scan_proper (a := eos) hq _ [] ?_
  rw [replicate_append_replicate, Nat.add_sub_cancel' hk.le]
  exact descend_eos

theorem codeOf_of_gt {a : ℕ} (h : eos < a) : codeOf a = (0, 0) := by
  unfold eos at h
  rw [codeOf]
  rcases Nat.lt_or_ge (a / 16) 17 with h17 | h17
  · rw [show a / 16 = 16 by omega]
    obtain ⟨i, hi⟩ : ∃ i, a % 16 = i + 1 := ⟨a % 16 - 1, by omega⟩
    rw [hi]
    rfl
  · rw [getD_eq_default _ _ (show codes.length ≤ a / 16 from h17)]
    rfl

theorem le_eos_of_descend {p : List Bool} {a : ℕ}
    (h : codeTree.descend p = some (.leaf a)) : a ≤ eos := by
  by_contra hgt
  have hp : p = [] := by
    rw [eq_codeBits_of_descend h, codeBits, codeOf_of_gt (by omega), bitsOf]
  obtain ⟨z, o, hroot⟩ := codeTree_root
  simp [hp, hroot] at h

theorem length_codeBits (b : UInt8) : (codeBits b.toNat).length = (codeOf b.toNat).1 := by
  simp [codeBits]

theorem mayEnd_iff (path : List Bool) : mayEnd path = true ↔ ∃ k ≤ 7, path = replicate k true := by
  constructor
  · intro h
    rw [mayEnd, Bool.and_eq_true, all_eq_true, decide_eq_true_iff] at h
    exact ⟨_, h.2, eq_replicate_of_mem h.1⟩
  · rintro ⟨k, hk, rfl⟩
    simp [mayEnd, hk]

theorem octetBits_eq (b : UInt8) :
    octetBits b = bitsOf 4 (b.toNat / 16) ++ bitsOf 4 (b.toNat % 16) :=
  bitsOf_split 4 4 b.toNat

theorem flatMap_octetBits_toBeBytes (x : ℕ) : (toBeBytes x).flatMap octetBits = bitsOf 32 x := by
  have h8 : ∀ y, octetBits (UInt8.ofNat y) = bitsOf 8 y := by
    intro y
    rw [← bitsOf_mod 8 y]
    rfl
  have h1 := bitsOf_split 24 8 x
  have h2 := bitsOf_split 16 8 (x / 2 ^ 8)
  have h3 := bitsOf_split 8 8 (x / 2 ^ 8 / 2 ^ 8)
  simp only [bitsOf_mod] at h1 h2 h3
  rw [Nat.div_div_eq_div_mul, Nat.div_div_eq_div_mul] at h3
  rw [Nat.div_div_eq_div_mul] at h2
  rw [show (32 : ℕ) = 24 + 8 from rfl, h1, show (24 : ℕ) = 16 + 8 from rfl, h2,
    show (16 : ℕ) = 8 + 8 from rfl, h3]
  simp [toBeBytes, h8]

theorem length_flatMap_octetBits (src : Octets) :
    (src.flatMap octetBits).length = 8 * src.length := by
  induction src with
  | nil => rfl
  | cons b src ih => simp [octetBits]; omega

theorem take_flatMap_octetBits (src : Octets) (n : ℕ) :
    (src.take n).flatMap octetBits = (src.flatMap octetBits).take (8 * n) := by
  induction src generalizing n with
  | nil => simp
  | cons b src ih =>
    cases n with
    | zero => simp
    | succ n =>
      rw [take_succ_cons, flatMap_cons, flatMap_cons, ih, take_append,
        take_of_length_le (l := octetBits b) (by simp [octetBits])]
      simp [octetBits, show 8 * (n + 1) - 8 = 8 * n by omega]

/-! ### What the encoder writes -/

theorem flushBits_spec {bits nbits : ℕ} (hn : nbits < 32) (hb : bits < 2 ^ nbits) :
    ∃ k ≤ 7, (flushBits bits nbits).flatMap octetBits = bitsOf nbits bits ++ replicate k true := by
  by_cases h0 : nbits > 0
  · refine ⟨8 * ((nbits + 7) / 8) - nbits, by omega, ?_⟩
    have hlt : bits * 2 ^ (32 - nbits) + (2 ^ (32 - nbits) - 1) < 2 ^ 32 := by
      have hp := Nat.two_pow_pos (32 - nbits)
      calc bits * 2 ^ (32 - nbits) + (2 ^ (32 - nbits) - 1)
          < (bits + 1) * 2 ^ (32 - nbits) := by rw [Nat.add_mul]; omega
        _ ≤ 2 ^ nbits * 2 ^ (32 - nbits) := Nat.mul_le_mul_right _ hb
        _ = 2 ^ 32 := by rw [← pow_add, Nat.add_sub_cancel' hn.le]
    have hpad : (bits <<< (32 - nbits)) % 2 ^ 64 ||| (1 <<< (32 - nbits) - 1) =
        bits * 2 ^ (32 - nbits) + (2 ^ (32 - nbits) - 1) := by
      rw [Nat.shiftLeft_eq, Nat.mod_eq_of_lt (by omega), Nat.shiftLeft_eq, one_mul, mul_comm bits,
        Nat.two_pow_add_eq_or_of_lt (Nat.sub_one_lt (Nat.two_pow_pos _).ne')]
    simp only [flushBits, if_pos h0, hpad]
    rw [Nat.mod_eq_of_lt hlt, take_flatMap_octetBits, flatMap_octetBits_toBeBytes]
    have hsplit := bitsOf_append nbits (32 - nbits) bits
      (Nat.sub_one_lt (Nat.two_pow_pos (32 - nbits)).ne')
    rw [Nat.add_sub_cancel' hn.le] at hsplit
    rw [hsplit, bitsOf_ones, take_append, length_bitsOf,
      take_of_length_le (by simp; omega), take_replicate]
    congr 2
    omega
  · have : nbits = 0 := by omega
    subst this
    exact ⟨0, by omega, by simp [flushBits, bitsOf]⟩

/-- One round of the loop appends a code to the accumulator. -/
theorem accumulate_eq {bits nbits len code : ℕ} (hn : nbits < 32) (hb : bits < 2 ^ nbits)
    (hl : len ≤ 30) (hc : code < 2 ^ len) :
    (bits <<< len) % 2 ^ 64 ||| code = bits * 2 ^ len + code ∧
      bits * 2 ^ len + code < 2 ^ (nbits + len) := by
  have hlt : bits * 2 ^ len + code < 2 ^ (nbits + len) := by
    calc bits * 2 ^ len + code < (bits + 1) * 2 ^ len := by rw [Nat.add_mul]; omega
      _ ≤ 2 ^ nbits * 2 ^ len := Nat.mul_le_mul_right _ hb
      _ = 2 ^ (nbits + len) := (pow_add 2 nbits len).symm
  have h64 : bits * 2 ^ len < 2 ^ 64 := by
    have := Nat.pow_le_pow_right (n := 2) (by omega) (show nbits + len ≤ 64 by omega)
    omega
  refine ⟨?_, hlt⟩
  rw [Nat.shiftLeft_eq, Nat.mod_eq_of_lt h64, mul_comm bits, Nat.two_pow_add_eq_or_of_lt hc]

theorem encodeLoop_spec (src : Octets) : ∀ (bits nbits : ℕ), nbits < 32 → bits < 2 ^ nbits →
    ∃ k ≤ 7, (encodeLoop src bits nbits).flatMap octetBits =
      bitsOf nbits bits ++ src.flatMap (fun b => codeBits b.toNat) ++ replicate k true := by
  induction src with
  | nil =>
    intro bits nbits hn hb
    simpa [encodeLoop] using flushBits_spec hn hb
  | cons b src ih =>
    intro bits nbits hn hb
    obtain ⟨h5, h30, hc⟩ := codeOf_spec b
    obtain ⟨hacc, hlt⟩ := accumulate_eq hn hb h30 hc
    have happ := bitsOf_append nbits (codeOf b.toNat).1 bits hc
    simp only [encodeLoop, hacc]
    split_ifs
    · -- 32 bits leave the accumulator, the rest stays
      set rem := nbits + (codeOf b.toNat).1 - 32 with hrem
      have hsum : nbits + (codeOf b.toNat).1 = 32 + rem := by omega
      rw [hsum] at hlt happ
      rw [bitsOf_split] at happ
      have hmask := Nat.and_two_pow_sub_one_eq_mod
        (bits * 2 ^ (codeOf b.toNat).1 + (codeOf b.toNat).2) rem
      rw [Nat.shiftRight_eq_div_pow, Nat.shiftLeft_eq, one_mul, hmask]
      obtain ⟨k, hk, heq⟩ := ih _ rem (by omega) (Nat.mod_lt _ (Nat.two_pow_pos rem))
      refine ⟨k, hk, ?_⟩
      rw [flatMap_append, flatMap_octetBits_toBeBytes, bitsOf_mod, heq,
        ← append_assoc, ← append_assoc, happ]
      simp [codeBits]
    · obtain ⟨k, hk, heq⟩ := ih _ _ (by omega) hlt
      refine ⟨k, hk, ?_⟩
      rw [heq, happ]
      simp [codeBits]

/-- The encoder writes the codes of its input and at most seven ones. -/
theorem encode_spec (src : Octets) : ∃ k ≤ 7, (encode src).flatMap octetBits =
    src.flatMap (fun b => codeBits b.toNat) ++ replicate k true := by
  simpa [encode, bitsOf] using encodeLoop_spec src 0 0 (by omega) (by simp)

theorem length_flatMap_codeBits (src : Octets) :
    (src.flatMap fun b => codeBits b.toNat).length = encodedLen src := by
  induction src with
  | nil => rfl
  | cons b src ih => simp [encodedLen, length_codeBits]

theorem length_encode (src : Octets) : (encode src).length = (encodedLen src + 7) / 8 := by
  obtain ⟨k, hk, h⟩ := encode_spec src
  have := congrArg length h
  rw [length_flatMap_octetBits, length_append, length_flatMap_codeBits, length_replicate] at this
  omega

/-! ### What the decoder accepts -/

/-- One lookup in the nibble automaton, as a transition. -/
def nibbleStep : PrefixTree.Transition ℕ ℕ (Fin 16) := fun state n =>
  let (next, flags, symbol) := huffDfaAt state n
  if flags &&& 0x04 ≠ 0 then none
  else some (if flags &&& 0x02 ≠ 0 then [symbol] else [], next, decide (flags &&& 0x01 ≠ 0))

/-- The nibble automaton is the code tree read four bits at a time. -/
theorem nibbleStep_simulates :
    Simulates codeTree (· == eos) mayEnd (fun n : Fin 16 => bitsOf 4 n) nibbleStep :=
  simulates_of_checkTable (finRange 16) mem_finRange
    (by decide +kernel)

/-- An octet as the two nibbles the automaton reads. -/
def nibbles (b : UInt8) : Fin 16 × Fin 16 :=
  (⟨b.toNat / 16, by have := b.toNat_lt; omega⟩, ⟨b.toNat % 16, by omega⟩)

/-- An entry of the octet automaton is two steps of the nibble automaton. -/
theorem pair_nibbles (state : ℕ) (b : UInt8) : nibbleStep.pair state (nibbles b) =
      let (next, flags, high, low) := huffDfa8 state b.toNat
      if flags &&& 0x04 ≠ 0 then none
      else some ((if flags &&& 0x02 ≠ 0 then [high] else []) ++
        (if flags &&& 0x01 ≠ 0 then [low] else []), next, decide (flags &&& 0x08 ≠ 0)) := by
  have hhigh : b.toNat >>> 4 = b.toNat / 16 := Nat.shiftRight_eq_div_pow _ 4
  have hlow : b.toNat &&& 0x0f = b.toNat % 16 := Nat.and_two_pow_sub_one_eq_mod _ 4
  rcases hx : huffDfaAt state (b.toNat / 16) with ⟨n₁, f₁, s₁⟩
  rcases hy : huffDfaAt n₁ (b.toNat % 16) with ⟨n₂, f₂, s₂⟩
  have hor : (f₁ ||| f₂) &&& 0x04 = 0 ↔ f₁ &&& 0x04 = 0 ∧ f₂ &&& 0x04 = 0 := by
    rw [Nat.and_or_distrib_right, Nat.or_eq_zero_iff]
  by_cases h1 : f₁ &&& 0x04 = 0 <;> by_cases h2 : f₂ &&& 0x04 = 0 <;>
  by_cases h3 : f₁ &&& 0x02 = 0 <;> by_cases h4 : f₂ &&& 0x02 = 0 <;>
  rcases Nat.mod_two_eq_zero_or_one f₂ with h5 | h5 <;>
  simp [huffDfa8, hhigh, hlow, nibbles, Transition.pair, nibbleStep, hx, hy, hor,
    h1, h2, h3, h4, h5]

theorem decodeLoop_eq_run (src : Octets) : ∀ (state : ℕ) (accepted : Bool) (dst : Octets),
    decodeLoop src state accepted dst =
      match nibbleStep.pair.run state accepted (src.map nibbles) with
      | some (out, true) => .ok (dst ++ out.map UInt8.ofNat)
      | _ => .error .invalidHuffman := by
  induction src with
  | nil => intro state accepted dst; cases accepted <;> simp [decodeLoop, Transition.run]
  | cons b src ih =>
    intro state accepted dst
    simp only [decodeLoop, map_cons, Transition.run, pair_nibbles]
    obtain ⟨next, flags, high, low⟩ := huffDfa8 state b.toNat
    by_cases h4 : flags &&& 0x04 = 0
    · simp only [h4, ne_eq, not_true_eq_false, if_false, ih]
      cases hr : nibbleStep.pair.run next (decide (flags &&& 0x08 ≠ 0)) (src.map nibbles) with
      | none => simp
      | some r =>
        obtain ⟨out, ended⟩ := r
        cases ended <;> split_ifs <;> simp
    · simp [h4]

/-- The decoder reads its input as the code tree does: it rejects EOS and any
end other than after at most seven ones. -/
theorem decode_eq_scan (src : Octets) : decode src =
      let r := codeTree.scan codeTree [] (src.flatMap octetBits)
      if r.out.any (· == eos) then .error .invalidHuffman
      else if mayEnd r.path then .ok (r.out.map UInt8.ofNat)
      else .error .invalidHuffman := by
  obtain ⟨z, o, hroot⟩ := codeTree_root
  have hbits : (src.map nibbles).flatMap
      (fun b : Fin 16 × Fin 16 => bitsOf 4 b.1 ++ bitsOf 4 b.2) = src.flatMap octetBits := by
    rw [flatMap_map]
    exact flatMap_congr fun b _ => (octetBits_eq b).symm
  have hrun := (nibbleStep_simulates.pair hroot).run hroot (src.map nibbles)
    (by rw [descend_nil, hroot])
  simp only [hbits, ← hroot, show mayEnd [] = true from rfl] at hrun
  rw [decode, decodeLoop_eq_run, hrun]
  simp only
  split_ifs with heos hend
  · rfl
  · rw [hend]; rfl
  · rw [Bool.not_eq_true] at hend
    rw [hend]

/-- The codes of a string are read as that string. -/
theorem scan_codeBits (dst : Octets) (rest : List Bool) :
    codeTree.scan codeTree [] (dst.flatMap (fun b => codeBits b.toNat) ++ rest) =
      ⟨dst.map UInt8.toNat ++ (codeTree.scan codeTree [] rest).out,
        (codeTree.scan codeTree [] rest).here, (codeTree.scan codeTree [] rest).path⟩ := by
  rw [← scan_codes codeTree codeBits, flatMap_map]
  · rintro a ha hnil
    obtain ⟨b, -, rfl⟩ := mem_map.1 ha
    have := length_codeBits b
    rw [hnil, length_nil] at this
    have := (codeOf_spec b).1
    omega
  · rintro a ha
    obtain ⟨b, -, rfl⟩ := mem_map.1 ha
    exact descend_codeBits b

theorem decode_eq_ok_of_codes {src dst : Octets} {k : ℕ} (hk : k ≤ 7)
    (h : src.flatMap octetBits = dst.flatMap (fun b => codeBits b.toNat) ++ replicate k true) :
    decode src = .ok dst := by
  have hscan := scan_codeBits dst (replicate k true)
  rw [← h, (scan_ones (by omega)).1, (scan_ones (by omega)).2, append_nil] at hscan
  have hno : (dst.map UInt8.toNat).any (· == eos) = false := by
    rw [any_eq_false]
    intro a ha
    obtain ⟨b, -, rfl⟩ := mem_map.1 ha
    have := b.toNat_lt
    simp [eos]
    omega
  have hid : UInt8.ofNat ∘ UInt8.toNat = id := funext fun b => UInt8.ofNat_toNat
  simp only [decode_eq_scan, hscan, hno, (mayEnd_iff _).2 ⟨k, hk, rfl⟩]
  simp [hid]

theorem codes_of_decode_eq_ok {src dst : Octets} (h : decode src = .ok dst) :
    ∃ k ≤ 7, src.flatMap octetBits =
      dst.flatMap (fun b => codeBits b.toNat) ++ replicate k true := by
  obtain ⟨z, o, hroot⟩ := codeTree_root
  obtain ⟨-, hmem, hsplit⟩ := scan_spec hroot (src.flatMap octetBits)
    (descend_nil codeTree) (by simp [hroot])
  replace hsplit := hsplit codeBits fun _ _ => eq_codeBits_of_descend
  rw [decode_eq_scan] at h
  simp only at h
  split_ifs at h with hno hend
  obtain ⟨k, hk, hpath⟩ := (mayEnd_iff _).1 hend
  refine ⟨k, hk, ?_⟩
  rw [nil_append] at hsplit
  rw [hsplit, ← Except.ok.inj h, flatMap_map]
  congr 1
  refine flatMap_congr fun a ha => ?_
  -- a symbol of the tree other than EOS is an octet
  obtain ⟨p, hp⟩ := hmem a ha
  have hle := le_eos_of_descend hp
  have hne : a ≠ eos := by
    rintro rfl
    exact hno (any_eq_true.2 ⟨eos, ha, by simp⟩)
  unfold eos at hle hne
  rw [toNat_ofNat_of_lt (by omega)]

/-- The decoder accepts exactly the codes of a string followed by at most seven
ones, and returns that string. -/
theorem decode_eq_ok_iff (src dst : Octets) : decode src = .ok dst ↔ ∃ k ≤ 7,
      src.flatMap octetBits = dst.flatMap (fun b => codeBits b.toNat) ++ replicate k true :=
  ⟨codes_of_decode_eq_ok, fun ⟨_, hk, h⟩ => decode_eq_ok_of_codes hk h⟩

theorem decode_encode (src : Octets) : decode (encode src) = .ok src :=
  (decode_eq_ok_iff _ _).2 (encode_spec src)

example : decode [0xf1, 0xe3, 0xc2, 0xe5, 0xf2, 0x3a, 0x6b, 0xa0, 0xab, 0x90, 0xf4, 0xff] =
    .ok (octets "www.example.com") := by decide +kernel

/-- After the codes of a string the decoder rejects what holds EOS or does not end as it
may. -/
theorem decode_rejects {src dst : Octets} {rest : List Bool}
    (h : src.flatMap octetBits = dst.flatMap (fun b => codeBits b.toNat) ++ rest)
    (hrest : eos ∈ (codeTree.scan codeTree [] rest).out ∨
      ¬∃ k ≤ 7, (codeTree.scan codeTree [] rest).path = replicate k true) :
    decode src = .error .invalidHuffman := by
  rw [decode_eq_scan, h, scan_codeBits]
  simp only
  rcases hrest with heos | hend
  · rw [if_pos (any_eq_true.2 ⟨eos, mem_append_right _ heos, by simp⟩)]
  · rw [← mayEnd_iff] at hend
    split_ifs <;> rfl

/-- The decoder accepts exactly the encodings: the codes of a string and fewer than eight
ones. The encoder writes such an encoding of the length announced. EOS, too long padding,
and padding with a zero, which is the beginning of a code, are rejected. -/
theorem decode_accepts (s t : Octets) : (decode s = .ok t ↔ ∃ k < 8,
      s.flatMap octetBits = t.flatMap (fun b => codeBits b.toNat) ++ replicate k true) ∧
    (∃ k < 8, (encode t).flatMap octetBits =
      t.flatMap (fun b => codeBits b.toNat) ++ replicate k true) ∧
    (encode t).length = (encodedLen t + 7) / 8 ∧ decode (encode t) = .ok t ∧
    (∀ rest, s.flatMap octetBits = t.flatMap (fun b => codeBits b.toNat) ++ (codeBits eos ++ rest) →
      decode s = .error .invalidHuffman) ∧
    (∀ k ≥ 8, s.flatMap octetBits = t.flatMap (fun b => codeBits b.toNat) ++ replicate k true →
      decode s = .error .invalidHuffman) ∧
    ∀ (b : UInt8) (p q : List Bool), codeBits b.toNat = p ++ q → q ≠ [] → false ∈ p →
      s.flatMap octetBits = t.flatMap (fun b => codeBits b.toNat) ++ p →
      decode s = .error .invalidHuffman := by
  have hle : ∀ k, k < 8 ↔ k ≤ 7 := fun k => Nat.lt_succ_iff
  have heos : codeBits eos = replicate 30 true := by decide +kernel
  have hread : ∀ rest, eos ∈ (codeTree.scan codeTree [] (codeBits eos ++ rest)).out := by
    intro rest
    exact mem_cons_self
  simp only [hle]
  refine ⟨decode_eq_ok_iff s t, encode_spec t, length_encode t, decode_encode t,
    fun rest h => decode_rejects h (.inl (hread rest)), fun k hk h => ?_,
    fun b p q hb hq hp h => ?_⟩
  · by_cases hlong : k < 30
    · refine decode_rejects h (.inr ?_)
      rw [(scan_ones hlong).2]
      rintro ⟨k', hk', heq⟩
      have := congrArg length heq
      rw [length_replicate, length_replicate] at this
      omega
    · refine decode_rejects h (.inl ?_)
      have hones := hread (replicate (k - 30) true)
      rwa [heos, replicate_append_replicate, Nat.add_sub_cancel' (by omega)] at hones
  · refine decode_rejects h (.inr ?_)
    rw [(PrefixTree.scan_proper hq p [] (hb ▸ descend_codeBits b)).2]
    rintro ⟨k, -, rfl⟩
    simp at hp

end ZincioHttp.Hpack.Huffman
