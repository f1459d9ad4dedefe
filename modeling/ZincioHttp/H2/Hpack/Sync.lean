import ZincioHttp.H2.Hpack.Decode
import ZincioHttp.H2.Hpack.Encode

/-! An HPACK encoder and the decoder at the other end of its connection. Every
representation the encoder writes is read back as the field it stands for and
moves both tables alike, so the two tables hold the same entries after any
sequence of blocks and size updates. -/

namespace ZincioHttp.H2.Hpack

open Lib ZincioHttp.Hpack

/-- The peers agree on the dynamic entries, and sizes stay within what integers
of 62 bits can carry. The decoder admits tables up to `limit`. -/
structure Sync (limit : ℕ) (e : Encoder) (d : Decoder) : Prop where
  validEnc : e.table.Valid
  validDec : d.table.Valid
  entries_eq : d.table.entries = e.table.entries
  maxSize_eq : d.table.maxSize = e.table.maxSize
  maxSize_le : e.table.maxSize ≤ limit
  limit_lt : limit < 2 ^ 62
  cap_eq : d.maxTableSize = limit
  dec_queue : d.queuedSizeUpdate = none
  no_list_limit : d.maxHeaderListSize = usizeMax
  enc_queue : ∀ size, e.queuedSizeUpdate = some size → size ≤ limit

namespace Sync

variable {limit listSize : ℕ} {e : Encoder} {d : Decoder}

section
variable (s : Sync limit e d)
include s

theorem size_eq : d.table.size = e.table.size := by
  rw [s.validDec.size_eq, s.validEnc.size_eq, s.entries_eq]

theorem get_eq (index : ℕ) : d.table.get index = e.table.get index := by
  simp [Table.get, s.entries_eq]

/-- An index of the table is far below the integers' bound. -/
theorem index_lt {index : ℕ} (h : index ≤ staticLen + e.table.entries.length) : index < 2 ^ 62 := by
  have := e.table.length_entries_le s.validEnc
  have := s.maxSize_le
  have := s.limit_lt
  unfold staticLen at h
  omega

theorem decode_encodeString {value : Octets} (rest : Octets) (h : value.length < 2 ^ 62) :
    ∃ huffman, StringLiteral.decode (e.encodeString value ++ rest) d.maxHeaderListSize =
      .ok (huffman, value, rest) := by
  apply StringLiteral.decode_encode
  · intro len hlen
    split_ifs at hlen
    exact hlen
  · rw [s.no_list_limit, usizeMax]
    omega
  · exact h

/-- A literal's name and value are read back, whatever prefix carries them. -/
theorem readLiteral_encode (name value rest : Octets) (prefixBits : ℕ) (header : UInt8)
    (hlow : Integer.decode (e.encodeString name ++ e.encodeString value ++ rest) prefixBits header =
      .ok (0, e.encodeString name ++ e.encodeString value ++ rest))
    (hn : name.length < 2 ^ 62) (hv : value.length < 2 ^ 62)
    (hp : 1 ≤ prefixBits ∧ prefixBits ≤ 8 := by omega) :
    ∃ first tail, e.encodeName name prefixBits header ++ e.encodeString value = first :: tail ∧
      first.toNat / 2 ^ prefixBits = header.toNat / 2 ^ prefixBits ∧
      d.readLiteral prefixBits first (tail ++ rest) = .ok (name, value, rest) := by
  obtain ⟨hf, hvalue⟩ := s.decode_encodeString rest hv
  cases hfind : e.table.findName name with
  | some index =>
    obtain ⟨⟨v, hget⟩, hpos, hle⟩ := Table.get_of_findName s.validEnc.toLinked hfind
    obtain ⟨first, tail, henc, hfirst, hdec⟩ := Integer.decode_encode index prefixBits
      header (e.encodeString value ++ rest) (s.index_lt hle)
    refine ⟨first, tail ++ e.encodeString value, ?_, hfirst, ?_⟩
    · simp [Encoder.encodeName, hfind, henc]
    · simp [Decoder.readLiteral, hdec, Decoder.readName, s.get_eq, hget,
        hvalue, show index ≠ 0 by omega]
  | none =>
    obtain ⟨hf', hname⟩ := s.decode_encodeString (e.encodeString value ++ rest) hn
    refine ⟨header, e.encodeString name ++ e.encodeString value, ?_, rfl, ?_⟩
    · simp [Encoder.encodeName, hfind]
    · rw [Decoder.readLiteral, hlow]
      simp [Decoder.readName, hname, hvalue]

end

/-! ### First octets -/

theorem load_indexed : ∀ b : UInt8, b.toNat / 2 ^ 7 = 1 → Representation.load b = .ok .indexed := by
  decide +kernel

theorem load_literalWithIndexing : ∀ b : UInt8, b.toNat / 2 ^ 6 = 1 →
    Representation.load b = .ok .literalWithIndexing := by
  decide +kernel

theorem load_literalNeverIndexed : ∀ b : UInt8, b.toNat / 2 ^ 4 = 1 →
    Representation.load b = .ok .literalNeverIndexed := by
  decide +kernel

theorem load_sizeUpdate : ∀ b : UInt8, b.toNat / 2 ^ 5 = 1 →
    Representation.load b = .ok .sizeUpdate := by
  decide +kernel

/-! ### One field, one block -/

section
variable (s : Sync limit e d)
include s

theorem charge_eq {name value : Octets} (h : listSize + (name.length + value.length) < 2 ^ 62) :
    d.charge listSize name value = .ok (listSize + (name.length + value.length)) := by
  rw [Decoder.charge, if_neg]
  rw [s.no_list_limit, usizeMax]
  omega

/-- Both tables move alike when a field is added to both. -/
theorem add (header : Header) :
    Sync limit { e with table := e.table.add header } { d with table := d.table.add header } := by
  obtain ⟨hve, hee, hme, -⟩ := Table.add_spec s.validEnc header
  obtain ⟨hvd, hed, hmd, -⟩ := Table.add_spec s.validDec header
  exact { s with
    validEnc := hve
    validDec := hvd
    entries_eq := by rw [hee, hed, s.entries_eq, s.maxSize_eq]
    maxSize_eq := by rw [hme, hmd, s.maxSize_eq]
    maxSize_le := by rw [hme]; exact s.maxSize_le }

theorem setMaxSize {size : ℕ} (h : size ≤ limit) :
    Sync limit { e with queuedSizeUpdate := none, table := e.table.setMaxSize size }
      { d with table := d.table.setMaxSize size } := by
  obtain ⟨hve, hee, hme, -⟩ := Table.setMaxSize_spec s.validEnc size
  obtain ⟨hvd, hed, hmd, -⟩ := Table.setMaxSize_spec s.validDec size
  exact { s with
    validEnc := hve
    validDec := hvd
    entries_eq := by rw [hee, hed, s.entries_eq]
    maxSize_eq := by rw [hme, hmd]
    maxSize_le := by rw [hme]; exact h
    enc_queue := by simp }

/-- The decoder reads the representation of a field back as that field and
stays in step. -/
theorem read_encodeHeader (header : Header) (canResize : Bool) (rest : Octets)
    (h : listSize + (header.name.length + header.value.length) < 2 ^ 62) :
    ∃ byte tail r, (e.encodeHeader header).2 = byte :: tail ∧
      d.read canResize listSize byte (tail ++ rest) = .ok r ∧
      r.header = some header ∧ r.rest = rest ∧
      r.listSize = listSize + (header.name.length + header.value.length) ∧
      Sync limit (e.encodeHeader header).1 { d with table := r.table } := by
  rw [Encoder.encodeHeader]
  split_ifs
  · obtain ⟨first, tail, henc, hfirst, hread⟩ := s.readLiteral_encode header.name
      header.value rest 4 0x10 rfl (by omega) (by omega)
    refine ⟨first, tail, ⟨d.table, some header, _, rest⟩, henc, ?_, rfl, rfl, rfl, s⟩
    simp [Decoder.read, load_literalNeverIndexed first hfirst, hread, s.charge_eq h]
  · cases hfind : e.table.find header.name header.value with
    | some index =>
      obtain ⟨hget, hpos, hle⟩ := Table.get_of_find s.validEnc.toLinked hfind
      obtain ⟨first, tail, henc, hfirst, hdec⟩ := Integer.decode_encode index 7 0x80
        rest (s.index_lt hle)
      refine ⟨first, tail, ⟨d.table, some header, _, rest⟩, henc, ?_, rfl, rfl, rfl, s⟩
      simp [Decoder.read, load_indexed first hfirst, hdec, s.get_eq, hget, s.charge_eq h]
    | none =>
      obtain ⟨first, tail, henc, hfirst, hread⟩ := s.readLiteral_encode header.name
        header.value rest 6 0x40 rfl (by omega) (by omega)
      refine ⟨first, tail, ⟨d.table.add header, some header, _, rest⟩, henc, ?_, rfl, rfl, rfl,
        s.add header⟩
      simp [Decoder.read, load_literalWithIndexing first hfirst, hread, s.charge_eq h]

end

theorem decodeLoop_encodeHeaders (headers : List Header) :
    ∀ {e : Encoder} {d : Decoder} (canResize : Bool) (listSize : ℕ) (acc : List Header),
      Sync limit e d → listSize + total Header.octetCount headers < 2 ^ 62 →
      ∃ d', d.decodeLoop canResize listSize acc (e.encodeHeaders headers).2 =
          (d', listSize + total Header.octetCount headers, .ok (acc ++ headers)) ∧
        Sync limit (e.encodeHeaders headers).1 d' := by
  induction headers with
  | nil =>
    intro e d canResize listSize acc s _
    exact ⟨d, by simp [Encoder.encodeHeaders, Decoder.decodeLoop], s⟩
  | cons header headers ih =>
    intro e d canResize listSize acc s h
    rw [total_cons, Header.octetCount] at h
    obtain ⟨byte, tail, r, henc, hread, hheader, hrest, hsize, hsync⟩ := s.read_encodeHeader header
      canResize ((e.encodeHeader header).1.encodeHeaders headers).2
      (show listSize + (header.name.length + header.value.length) < 2 ^ 62 by omega)
    obtain ⟨d', hloop, hsync'⟩ := ih (canResize && r.header.isNone)
      r.listSize (acc ++ [header]) hsync (by omega)
    refine ⟨d', ?_, hsync'⟩
    simp only [Encoder.encodeHeaders, henc, List.cons_append]
    rw [Decoder.decodeLoop_of_read acc hread, hrest, hheader]
    rw [hheader] at hloop
    simp only [Option.toList_some]
    rw [hloop, total_cons, Header.octetCount, List.append_assoc]
    congr 2
    omega

/-- A whole block, with the size update queued before it. -/
theorem decode_encode (s : Sync limit e d) (headers : List Header)
    (h : listSize + total Header.octetCount headers < 2 ^ 62) :
    ∃ d', d.decode (e.encode headers).2 listSize =
        (d', listSize + total Header.octetCount headers, .ok headers) ∧
      Sync limit (e.encode headers).1 d' := by
  rw [Decoder.decode, s.dec_queue, Encoder.encode]
  cases hq : e.queuedSizeUpdate with
  | none => exact decodeLoop_encodeHeaders headers true listSize [] s h
  | some size =>
    have hle := s.enc_queue size hq
    have hlimit := s.limit_lt
    obtain ⟨d', hloop, hsync⟩ := decodeLoop_encodeHeaders headers true listSize []
      (s.setMaxSize hle) h
    obtain ⟨first, tail, henc, hfirst, hdec⟩ := Integer.decode_encode size 5 0x20
      (Encoder.encodeHeaders { e with queuedSizeUpdate := none, table := e.table.setMaxSize size }
        headers).2 (show size < 2 ^ 62 by omega)
    have hread : d.read true listSize first (tail ++ (Encoder.encodeHeaders
        { e with queuedSizeUpdate := none, table := e.table.setMaxSize size } headers).2) =
        .ok ⟨d.table.setMaxSize size, none, listSize, (Encoder.encodeHeaders
          { e with queuedSizeUpdate := none, table := e.table.setMaxSize size } headers).2⟩ := by
      simp [Decoder.read, load_sizeUpdate first hfirst, hdec, s.cap_eq, hle]
    refine ⟨d', ?_, hsync⟩
    simp only [henc, List.cons_append]
    rw [Decoder.decodeLoop_of_read [] hread]
    simpa using hloop

theorem new (h : limit < 2 ^ 62) : Sync limit (Encoder.new limit) (Decoder.new limit) where
  validEnc := Table.valid_withMaxSize limit
  validDec := Table.valid_withMaxSizeNoMaps limit
  entries_eq := rfl
  maxSize_eq := rfl
  maxSize_le := le_rfl
  limit_lt := h
  cap_eq := rfl
  dec_queue := rfl
  no_list_limit := rfl
  enc_queue := by simp [Encoder.new]

theorem queueSizeUpdate (s : Sync limit e d) {size : ℕ} (h : size ≤ limit) :
    Sync limit (e.queueSizeUpdate size) d :=
  { s with
    enc_queue := by
      intro size' hq
      simp only [Encoder.queueSizeUpdate, queueMax, Option.some.injEq] at hq
      cases hold : e.queuedSizeUpdate with
      | none => simp only [hold] at hq; omega
      | some current =>
        have := s.enc_queue current hold
        simp only [hold] at hq
        omega }

end Sync

/-! ### Runs -/

structure Peers where
  enc : Encoder
  dec : Decoder

/-- What may happen to them. A block is decoded with some running list size. -/
inductive Action where
  | queueSizeUpdate (size : ℕ)
  | setUseHuffman (useHuffman : Bool)
  | block (headers : List Header) (listSize : ℕ)

namespace Action

/-- Queued sizes are at most `limit`; lengths and sizes are below `2 ^ 62`. -/
def Fits (limit : ℕ) : Action → Prop
  | queueSizeUpdate size => size ≤ limit
  | setUseHuffman _ => True
  | block headers listSize => listSize + total Header.octetCount headers < 2 ^ 62

instance (limit : ℕ) : DecidablePred (Fits limit)
  | queueSizeUpdate size => inferInstanceAs (Decidable (size ≤ limit))
  | setUseHuffman _ => inferInstanceAs (Decidable True)
  | block headers listSize =>
    inferInstanceAs (Decidable (listSize + total Header.octetCount headers < 2 ^ 62))

def encoded : Action → Option (List Header)
  | block headers _ => some headers
  | _ => none

end Action

namespace Peers

def new (limit : ℕ) : Peers := ⟨Encoder.new limit, Decoder.new limit⟩

/-- One action, and what the decoder returned if it was a block. -/
def step (p : Peers) : Action → Peers × Option (Except HpackError (List Header))
  | .queueSizeUpdate size => ({ p with enc := p.enc.queueSizeUpdate size }, none)
  | .setUseHuffman useHuffman => ({ p with enc := p.enc.setUseHuffman useHuffman }, none)
  | .block headers listSize =>
    let (enc, wire) := p.enc.encode headers
    let (dec, _, result) := p.dec.decode wire listSize
    (⟨enc, dec⟩, some result)

/-- A run, and what the decoder returned for each block. -/
def run : Peers → List Action → Peers × List (Except HpackError (List Header))
  | p, [] => (p, [])
  | p, a :: actions =>
    let (p, out) := p.step a
    let (p, outs) := p.run actions
    (p, out.toList ++ outs)

theorem step_sync {limit : ℕ} {p : Peers} (s : Sync limit p.enc p.dec) {a : Action}
    (h : a.Fits limit) :
    Sync limit (p.step a).1.enc (p.step a).1.dec ∧ (p.step a).2 = a.encoded.map .ok := by
  cases a with
  | queueSizeUpdate size => exact ⟨s.queueSizeUpdate h, rfl⟩
  | setUseHuffman useHuffman => exact ⟨{ s with }, rfl⟩
  | block headers listSize =>
    obtain ⟨d', hdec, hsync⟩ := s.decode_encode headers h
    simp only [step, hdec]
    exact ⟨hsync, rfl⟩

theorem run_sync {limit : ℕ} (actions : List Action) : ∀ {p : Peers},
    Sync limit p.enc p.dec → (∀ a ∈ actions, a.Fits limit) →
    Sync limit (p.run actions).1.enc (p.run actions).1.dec ∧
      (p.run actions).2 = (actions.filterMap Action.encoded).map .ok := by
  induction actions with
  | nil => intro p s _; exact ⟨s, rfl⟩
  | cons a actions ih =>
    intro p s h
    obtain ⟨hs, hout⟩ := step_sync s (h a (by simp))
    obtain ⟨hrun, houts⟩ := ih hs fun b hb => h b (by simp [hb])
    refine ⟨hrun, ?_⟩
    simp only [run, hout, houts]
    cases henc : a.encoded <;> simp [henc]

/-- Whatever the peers have done so far, every block has decoded without error
to the list it was encoded from, in order, and the tables agree on their
entries, size and maximum size. -/
theorem run_in_step {limit : ℕ} (hlimit : limit < 2 ^ 62) (actions : List Action)
    (h : ∀ a ∈ actions, a.Fits limit) :
    let p := (new limit).run actions
    p.2 = (actions.filterMap Action.encoded).map .ok ∧
      p.1.enc.table.entries = p.1.dec.table.entries ∧
      p.1.enc.table.size = p.1.dec.table.size ∧
      p.1.enc.table.maxSize = p.1.dec.table.maxSize := by
  obtain ⟨s, houts⟩ := run_sync actions (p := new limit) (Sync.new hlimit) h
  exact ⟨houts, s.entries_eq.symm, s.size_eq.symm, s.maxSize_eq.symm⟩

/-- Two blocks around a size update that evicts, and a sensitive field. -/
theorem run_in_step_blocks :
    let x : Header := ⟨octets "x-id", octets "1"⟩
    let c : Header := ⟨octets "cookie", octets "a=b"⟩
    let actions : List Action := [.block [x, c] 0, .queueSizeUpdate 0, .setUseHuffman false,
      .block [x] 0]
    let p := (new 4096).run actions
    p.2 = [.ok [x, c], .ok [x]] ∧ p.1.enc.table.entries = p.1.dec.table.entries ∧
      p.1.enc.table.size = p.1.dec.table.size ∧
      p.1.enc.table.maxSize = p.1.dec.table.maxSize :=
  run_in_step (by decide) _ (by decide)

end Peers

end ZincioHttp.H2.Hpack
