import ZincioHttp.H3.Qpack.StringLiteral
import ZincioHttp.H3.Qpack.Table
import ZincioHttp.Lib.Framing

/-! The QPACK encoder. It owns the dynamic table, writes a field section against
a fixed Base and, as it goes, the instructions that bring the decoder's table to
the same contents. An entry is inserted only when what it evicts lies below
everything the section refers to, everything unacknowledged and everything that
outstanding sections refer to. -/

namespace ZincioHttp.H3.Qpack

open Lib ZincioHttp.Hpack

inductive QpackError where
  | decompressionFailed
  | encoderStream
  | decoderStream
  deriving DecidableEq, Repr

/-- `u64::MAX`, the minimum of no references. -/
def u64Max : ℕ := 2 ^ 64 - 1

/-- `NEVER_INDEXED`. -/
def neverIndexed : List Octets :=
  [octets "authorization", octets "proxy-authorization", octets "cookie"]

structure Encoder where
  dynamic : DynamicTable
  maxCapacity : ℕ
  huffman : Bool
  knownReceived : ℕ
  /-- Stream and smallest reference of each unacknowledged section. -/
  pendingRefs : List (ℕ × ℕ)
  cachedMinPending : ℕ
  decoderStreamPending : Octets

/-- What a section has accumulated while it is encoded. -/
structure Section where
  dynamic : DynamicTable
  encoderStream : Octets
  block : Octets
  minRelRef : Option ℕ
  ric : ℕ

namespace Section

/-- Appends a field line without dynamic references. -/
def push (s : Section) (line : Octets) : Section := { s with block := s.block ++ line }

/-- Appends a field line that refers to the dynamic entry `abs`. -/
def pushRef (s : Section) (abs : ℕ) (line : Octets) : Section :=
  { s with
    ric := max s.ric (abs + 1)
    minRelRef := some (match s.minRelRef with
      | none => abs
      | some m => min m abs)
    block := s.block ++ line }

end Section

/-- `encode_indexed`: a relative index below the Base, a post-Base one above. -/
def encodeIndexed (abs base : ℕ) : Octets :=
  if abs ≥ base then Integer.encode (abs - base) 4 0x10
  else Integer.encode (base - abs - 1) 6 0x80

namespace Encoder

def new (maxCapacity : ℕ) (huffman : Bool) : Encoder :=
  ⟨DynamicTable.new 0, maxCapacity, huffman, 0, [], u64Max, []⟩

def evictableFloor (e : Encoder) : ℕ := min e.knownReceived e.cachedMinPending

/-- The minimum over the outstanding sections. -/
def minPending (refs : List (ℕ × ℕ)) : ℕ := refs.foldr (fun r m => min r.2 m) u64Max

def encodeLiteralWithNameRef (e : Encoder) (abs base : ℕ) (value : Octets) : Octets :=
  Integer.encode (base - abs - 1) 4 0x40 ++ pushString e.huffman value 8 0

def encodeLiteralPostBaseNameRef (e : Encoder) (abs base : ℕ) (value : Octets) : Octets :=
  Integer.encode (abs - base) 3 0x00 ++ pushString e.huffman value 8 0

def encodeLiteralWithStaticNameRef (e : Encoder) (index : ℕ) (value : Octets) : Octets :=
  Integer.encode index 4 (0x40 ||| 0x10) ++ pushString e.huffman value 8 0

/-- `sensitive << 4`, the bit that marks a line as never indexed. -/
def sensitiveBit (sensitive : Bool) : UInt8 := if sensitive then 0x10 else 0

def encodeLiteral (e : Encoder) (name value : Octets) (sensitive : Bool) : Octets :=
  (match StaticTable.findName name with
    | some index => Integer.encode index 4 (0x40 ||| 0x10 ||| sensitiveBit sensitive)
    | none => pushString e.huffman name 4 (0x20 ||| sensitiveBit sensitive)) ++
  pushString e.huffman value 8 0

/-- Inserts a field and refers to it with a post-Base index; the capacity is set
right before the first insertion. -/
def insertField (e : Encoder) (base : ℕ) (s : Section) (f : Field) : Section :=
  let s := if s.dynamic.capacity ≠ e.maxCapacity then
      { s with
        encoderStream := s.encoderStream ++ Integer.encode e.maxCapacity 5 0x20
        dynamic := s.dynamic.setCapacity e.maxCapacity }
    else s
  let abs := s.dynamic.inserted
  let s := { s with
    encoderStream := s.encoderStream ++ pushString e.huffman f.name 6 0x40 ++
      pushString e.huffman f.value 8 0
    dynamic := (s.dynamic.insert f).getD s.dynamic }
  s.pushRef abs (encodeIndexed abs base)

/-- Whether an insertion evicts only entries that nothing needs any more. -/
def safeToInsert (e : Encoder) (s : Section) (f : Field) : Bool :=
  let boundary := min (s.minRelRef.getD u64Max) e.evictableFloor
  decide (s.dynamic.inserted - s.dynamic.len + s.dynamic.wouldEvict f.size ≤ boundary)

/-- One round of the loop over the fields of a section. -/
def encodeField (e : Encoder) (base : ℕ) (s : Section) (f : Field) : Section :=
  let usable := decide (e.maxCapacity ≥ 32)
  if f.name ∈ neverIndexed then s.push (e.encodeLiteral f.name f.value true)
  else
    let dynamicMatch := if usable then s.dynamic.findFullOrName f.name f.value else (none, none)
    match dynamicMatch.1 with
    | some abs => s.pushRef abs (encodeIndexed abs base)
    | none =>
      let staticMatch := StaticTable.findFullOrName f.name f.value
      match staticMatch.1 with
      | some index => s.push (Integer.encode index 6 (0x80 ||| 0x40))
      | none =>
        match dynamicMatch.2 with
        | some abs =>
          s.pushRef abs (if abs ≥ base then e.encodeLiteralPostBaseNameRef abs base f.value
            else e.encodeLiteralWithNameRef abs base f.value)
        | none =>
          match staticMatch.2 with
          | some index => s.push (e.encodeLiteralWithStaticNameRef index f.value)
          | none =>
            if usable && decide (f.size ≤ e.maxCapacity) && e.safeToInsert s f then
              e.insertField base s f
            else s.push (e.encodeLiteral f.name f.value false)

/-- The Required Insert Count modulo twice the largest number of entries. -/
def wrapRic (maxEntries ric : ℕ) : ℕ :=
  if ric = 0 ∨ maxEntries = 0 then 0 else ric % (2 * maxEntries) + 1

/-- The Required Insert Count, wrapped, and the Base as a signed difference. -/
def encodePrefix (e : Encoder) (ric base : ℕ) : Octets :=
  Integer.encode (wrapRic (e.maxCapacity / 32) ric) 8 0 ++
    (if base ≥ ric then Integer.encode (base - ric) 7 0 else Integer.encode (ric - base - 1) 7 0x80)

structure EncodedSection where
  block : Octets
  encoderStream : Octets

def encodeSectionWithBase (e : Encoder) (stream : ℕ) (headers : List Field) (base : ℕ) :
    Encoder × EncodedSection :=
  let s := headers.foldl (e.encodeField base) ⟨e.dynamic, [], [], none, 0⟩
  let e := { e with dynamic := s.dynamic }
  let e := if s.ric > 0 then
      let minRef := s.minRelRef.getD 0
      { e with
        pendingRefs := e.pendingRefs ++ [(stream, minRef)]
        cachedMinPending := if minRef < e.cachedMinPending then minRef else e.cachedMinPending }
    else e
  (e, ⟨e.encodePrefix s.ric base ++ s.block, s.encoderStream⟩)

def encodeSection (e : Encoder) (stream : ℕ) (headers : List Field) : Encoder × EncodedSection :=
  e.encodeSectionWithBase stream headers e.dynamic.inserted

def encodeSectionWithAckBase (e : Encoder) (stream : ℕ) (headers : List Field) :
    Encoder × EncodedSection :=
  e.encodeSectionWithBase stream headers e.knownReceived

/-! ### The decoder stream -/

/-- Length of the decoder-stream instruction at the start of `buf`. -/
def decoderInstructionLen (buf : Octets) : Option ℕ :=
  match buf with
  | [] => none
  | header :: _ => Integer.encodedLen buf (if header &&& 0x80 ≠ 0 then 7 else 6)

/-- Frees the references of the oldest outstanding section of a stream. -/
def acknowledgeSection (e : Encoder) (stream : ℕ) : Encoder :=
  match e.pendingRefs.findIdx? fun r => decide (r.1 = stream) with
  | none => e
  | some pos =>
    let removedMin := (e.pendingRefs.getD pos (0, 0)).2
    let refs := e.pendingRefs.eraseIdx pos
    { e with
      pendingRefs := refs
      cachedMinPending := if removedMin = e.cachedMinPending then minPending refs
        else e.cachedMinPending }

/-- Frees every reference of a stream. -/
def cancelStream (e : Encoder) (stream : ℕ) : Encoder :=
  let refs := e.pendingRefs.filter fun r => decide (r.1 ≠ stream)
  { e with
    pendingRefs := refs
    cachedMinPending := if refs.length ≠ e.pendingRefs.length then minPending refs
      else e.cachedMinPending }

def handleInstruction (e : Encoder) (instr : Octets) : Except QpackError Encoder :=
  match instr with
  | [] => .ok e
  | header :: rest =>
    if header &&& 0x80 ≠ 0 then
      match Integer.decode rest 7 header with
      | .error _ => .error .decoderStream
      | .ok (stream, _) => .ok (e.acknowledgeSection stream)
    else if header &&& 0x40 ≠ 0 then
      match Integer.decode rest 6 header with
      | .error _ => .error .decoderStream
      | .ok (stream, _) => .ok (e.cancelStream stream)
    else
      match Integer.decode rest 6 header with
      | .error _ => .error .decoderStream
      | .ok (increment, _) =>
        if increment = 0 ∨ min (e.knownReceived + increment) u64Max > e.dynamic.inserted then
          .error .decoderStream
        else .ok { e with knownReceived := e.knownReceived + increment }

/-- `MAX_DECODER_STREAM_INSTRUCTION`. -/
def maxDecoderStreamInstruction : ℕ := 10

def feedDecoderStream (e : Encoder) (buf : Octets) : Except QpackError Encoder :=
  let data := e.decoderStreamPending ++ buf
  match drain decoderInstructionLen handleInstruction data.length e data with
  | .error err => .error err
  | .ok (e, rest) =>
    if rest.length > maxDecoderStreamInstruction then .error .decoderStream
    else .ok { e with decoderStreamPending := rest }

end Encoder

end ZincioHttp.H3.Qpack
