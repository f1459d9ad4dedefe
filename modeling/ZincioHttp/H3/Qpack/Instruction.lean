import ZincioHttp.H3.Qpack.Line

/-! The instructions that travel on the two QPACK streams. The encoder sends
capacities and insertions, the decoder acknowledgments and increments. Each is
measured exactly once it is complete and is then handled as what it stands for,
so both streams may be cut anywhere. -/

namespace ZincioHttp.H3.Qpack

open Lib ZincioHttp.Hpack List Integer

/-! ### The encoder stream -/

inductive Instruction where
  | setCapacity (capacity : ℕ)
  | insert (f : Field)

namespace Instruction

def code (huffman : Bool) : Instruction → Octets
  | setCapacity capacity => Integer.encode capacity 5 0x20
  | insert f => pushString huffman f.name 6 0x40 ++ pushString huffman f.value 8 0

/-- What the integers of the instruction can carry. -/
def Fits : Instruction → Prop
  | setCapacity capacity => capacity < 2 ^ 62
  | insert f => f.name.length < 2 ^ 62 ∧ f.value.length < 2 ^ 62

theorem bits_of_div : ∀ b : UInt8,
    (b.toNat / 2 ^ 5 = 1 → ¬(b &&& 0xc0 = 0x80 ∨ b &&& 0xc0 = 0xc0) ∧ ¬b &&& 0xc0 = 0x40 ∧
      b &&& 0x20 ≠ 0) ∧
    (b.toNat / 2 ^ 6 = 1 → ¬(b &&& 0xc0 = 0x80 ∨ b &&& 0xc0 = 0xc0) ∧ b &&& 0xc0 = 0x40) := by
  decide +kernel

/-- An instruction is measured exactly, once it is complete. -/
theorem framed (huffman : Bool) {i : Instruction} (h : i.Fits) :
    Framed encoderInstructionLen (code huffman) i := by
  cases i with
  | setCapacity capacity =>
    have hc : capacity < 2 ^ 62 := h
    obtain ⟨first, tail, henc, hfirst, -⟩ := decode_encode capacity 5 0x20 [] hc
    obtain ⟨h80, h40, -⟩ := (bits_of_div first).1 hfirst
    refine .of_first henc rfl fun buf rest hbuf => ?_
    rw [encoderInstructionLen, if_neg h80, if_neg h40, encodedLen_encode hbuf]
    rfl
  | insert f =>
    obtain ⟨hn, hv⟩ : f.name.length < 2 ^ 62 ∧ f.value.length < 2 ^ 62 := h
    obtain ⟨first, tail, hpush, hfirst, -⟩ :=
      readString_pushString huffman f.name 6 0x40 [] (by decide) hn
    obtain ⟨h80, h40⟩ := (bits_of_div first).2 hfirst
    refine .of_first (show code huffman (.insert f) = first :: _ by rw [code, hpush, cons_append])
      rfl fun buf rest hbuf => ?_
    rw [code, append_assoc] at hbuf
    have hname := stringLen_pushString hn hbuf
    rw [encoderInstructionLen, if_neg h80, if_pos h40, hname]
    by_cases hcomplete : (pushString huffman f.name 6 0x40).length ≤ (first :: buf).length
    · -- the name is complete, and what follows starts the value
      obtain ⟨after, hafter⟩ :=
        prefix_of_prefix_length_le (prefix_append _ _) hbuf hcomplete
      rw [← hafter] at hbuf ⊢
      have hvalue := stringLen_pushString hv
        ((prefix_append_right_inj _).1 hbuf)
      simp only [length_append, Nat.le_add_right, if_true, drop_left', hvalue, code,
        Nat.add_le_add_iff_left]
      split_ifs <;> rfl
    · rw [if_neg hcomplete, if_neg (by rw [code, length_append]; omega)]

theorem parse_setCapacity (d : Decoder) (huffman : Bool) {capacity : ℕ} (h : capacity < 2 ^ 62) :
    d.parseEncoderInstruction (code huffman (setCapacity capacity)) =
      if capacity > d.maxCapacity then .error .encoderStream
      else if d.dynamic.evictForCapacity capacity > d.knownReceived then .error .encoderStream
      else .ok { d with dynamic := d.dynamic.setCapacity capacity } := by
  obtain ⟨first, tail, henc, hfirst, hdec⟩ := decode_encode capacity 5 0x20 [] h
  obtain ⟨h80, h40, h20⟩ := (bits_of_div first).1 hfirst
  rw [append_nil] at hdec
  rw [code, henc, Decoder.parseEncoderInstruction, if_neg h80, if_neg h40, if_pos h20]
  simp [Decoder.encStreamErr, hdec]

theorem parse_insert (d : Decoder) (huffman : Bool) {f : Field} (h : (insert f).Fits) :
    d.parseEncoderInstruction (code huffman (insert f)) = d.insertEntry f := by
  obtain ⟨hn, hv⟩ : f.name.length < 2 ^ 62 ∧ f.value.length < 2 ^ 62 := h
  obtain ⟨first, tail, hpush, hfirst, hread⟩ := readString_pushString huffman f.name 6 0x40
    (pushString huffman f.value 8 0) (by decide) hn
  obtain ⟨h80, h40⟩ := (bits_of_div first).2 hfirst
  have hvalue := readValueString_pushString huffman [] hv
  rw [append_nil] at hvalue
  rw [code, hpush, cons_append, Decoder.parseEncoderInstruction, if_neg h80, if_pos h40]
  simp [Decoder.encStreamErr, hread, hvalue]

/-- An insertion takes fewer octets than it costs in the table. -/
theorem length_code_insert_le (huffman : Bool) {f : Field} (h : (insert f).Fits) :
    (code huffman (insert f)).length ≤ f.size := by
  have hn := length_pushString_le huffman 6 0x40 h.1
  have hv := length_pushString_le huffman 8 0 h.2
  rw [code, length_append, Field.size]
  omega

end Instruction

/-! ### The decoder stream -/

inductive Feedback where
  | sectionAck (stream : ℕ)
  | increment (n : ℕ)
  deriving DecidableEq

namespace Feedback

def code : Feedback → Octets
  | sectionAck stream => Integer.encode stream 7 0x80
  | increment n => Integer.encode n 6 0x00

def Fits : Feedback → Prop
  | sectionAck stream => stream < 2 ^ 62
  | increment n => n < 2 ^ 62

/-- By how much it increments what the encoder knows to be received. -/
def amount : Feedback → ℕ
  | sectionAck _ => 0
  | increment n => n

theorem bits_of_div : ∀ b : UInt8, (b.toNat / 2 ^ 7 = 1 → b &&& 0x80 ≠ 0) ∧
    (b.toNat / 2 ^ 6 = 0 → b &&& 0x80 = 0 ∧ b &&& 0x40 = 0) := by
  decide +kernel

theorem framed (i : Feedback) : Framed Encoder.decoderInstructionLen code i := by
  cases i with
  | sectionAck stream =>
    obtain ⟨first, tail, henc, hfirst, -⟩ := encode_cases stream 7 0x80
    have h80 := (bits_of_div first).1 hfirst
    refine .of_first henc rfl fun buf rest hbuf => ?_
    rw [Encoder.decoderInstructionLen, if_pos h80, encodedLen_encode hbuf]
    rfl
  | increment n =>
    obtain ⟨first, tail, henc, hfirst, -⟩ := encode_cases n 6 0x00
    obtain ⟨h80, -⟩ := (bits_of_div first).2 hfirst
    refine .of_first henc rfl fun buf rest hbuf => ?_
    rw [Encoder.decoderInstructionLen, if_neg (by simp [h80]), encodedLen_encode hbuf]
    rfl

theorem length_code_le {i : Feedback} (h : i.Fits) : i.code.length ≤ 10 := by
  cases i with
  | sectionAck stream => exact length_encode_le 7 0x80 h
  | increment n => exact length_encode_le 6 0x00 h

theorem handle_sectionAck (e : Encoder) {stream : ℕ} (h : stream < 2 ^ 62) :
    e.handleInstruction (code (sectionAck stream)) = .ok (e.acknowledgeSection stream) := by
  obtain ⟨first, tail, henc, hfirst, hdec⟩ := decode_encode stream 7 0x80 [] h
  rw [append_nil] at hdec
  rw [code, henc, Encoder.handleInstruction, if_pos ((bits_of_div first).1 hfirst), hdec]

theorem handle_increment (e : Encoder) {n : ℕ} (h : n < 2 ^ 62) (hpos : 0 < n)
    (hle : e.knownReceived + n ≤ e.dynamic.inserted) :
    e.handleInstruction (code (increment n)) =
      .ok { e with knownReceived := e.knownReceived + n } := by
  obtain ⟨first, tail, henc, hfirst, hdec⟩ := decode_encode n 6 0x00 [] h
  obtain ⟨h80, h40⟩ := (bits_of_div first).2 hfirst
  rw [append_nil] at hdec
  rw [code, henc, Encoder.handleInstruction, if_neg (by simp [h80]), if_neg (by simp [h40]), hdec]
  simp only
  rw [if_neg (by omega)]

end Feedback

end ZincioHttp.H3.Qpack
