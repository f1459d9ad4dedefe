import ZincioHttp.H2.Hpack.StringLiteral
import ZincioHttp.H2.Hpack.Table

/-! The HPACK encoder. A block is an optional size update followed by one
representation for each field: a never-indexed literal for the sensitive names,
the index of an exact match, or a literal that is added to the table. -/

namespace ZincioHttp.H2.Hpack

open List

open ZincioHttp.Hpack (Integer.encode)

structure Encoder where
  table : Table
  queuedSizeUpdate : Option ℕ
  useHuffman : Bool

/-- `NEVER_INDEXED`. -/
def neverIndexed : List Octets :=
  [octets "authorization", octets "proxy-authorization", octets "cookie"]

namespace Encoder

def new (maxTableSize : ℕ) : Encoder := ⟨Table.withMaxSize maxTableSize, none, true⟩

def queueSizeUpdate (e : Encoder) (size : ℕ) : Encoder :=
  { e with queuedSizeUpdate := queueMax e.queuedSizeUpdate size }

def setUseHuffman (e : Encoder) (useHuffman : Bool) : Encoder := { e with useHuffman := useHuffman }

def encodeString (e : Encoder) (value : Octets) : Octets :=
  StringLiteral.encode value
    (if e.useHuffman then StringLiteral.huffmanEncodedLenIfShorter value else none)

/-- A literal's name: an index when the table has the name, else the string. -/
def encodeName (e : Encoder) (name : Octets) (prefixBits : ℕ) (header : UInt8) : Octets :=
  match e.table.findName name with
  | some index => Integer.encode index prefixBits header
  | none => header :: e.encodeString name

/-- One round of the loop over the fields. -/
def encodeHeader (e : Encoder) (header : Header) : Encoder × Octets :=
  if header.name ∈ neverIndexed then
    (e, e.encodeName header.name 4 0x10 ++ e.encodeString header.value)
  else
    match e.table.find header.name header.value with
    | some index => (e, Integer.encode index 7 0x80)
    | none =>
      ({ e with table := e.table.add header },
        e.encodeName header.name 6 0x40 ++ e.encodeString header.value)

def encodeHeaders (e : Encoder) : List Header → Encoder × Octets
  | [] => (e, [])
  | header :: headers =>
    let (e, out) := e.encodeHeader header
    let (e, rest) := e.encodeHeaders headers
    (e, out ++ rest)

def encode (e : Encoder) (headers : List Header) : Encoder × Octets :=
  match e.queuedSizeUpdate with
  | some size =>
    let e := { e with queuedSizeUpdate := none, table := e.table.setMaxSize size }
    let (e, out) := e.encodeHeaders headers
    (e, Integer.encode size 5 0x20 ++ out)
  | none => e.encodeHeaders headers

theorem encodeName_ne_nil (e : Encoder) (name : Octets) (prefixBits : ℕ) (header : UInt8) :
    e.encodeName name prefixBits header ≠ [] := by
  rw [encodeName]
  cases e.table.findName name with
  | none => exact cons_ne_nil _ _
  | some index => exact Hpack.Integer.encode_ne_nil index prefixBits header

theorem encodeHeader_ne_nil (e : Encoder) (header : Header) : (e.encodeHeader header).2 ≠ [] := by
  rw [encodeHeader]
  split_ifs
  · exact append_ne_nil_of_left_ne_nil (e.encodeName_ne_nil _ _ _) _
  · cases e.table.find header.name header.value with
    | some index => exact Hpack.Integer.encode_ne_nil index 7 0x80
    | none => exact append_ne_nil_of_left_ne_nil (e.encodeName_ne_nil _ _ _) _

theorem length_le_encodeHeaders (headers : List Header) : ∀ e : Encoder,
    headers.length ≤ (e.encodeHeaders headers).2.length := by
  induction headers with
  | nil => exact fun _ => Nat.zero_le _
  | cons header headers ih =>
    intro e
    have hfirst := List.length_pos_iff.2 (e.encodeHeader_ne_nil header)
    have hrest := ih (e.encodeHeader header).1
    rw [encodeHeaders]
    simp only [length_append, length_cons]
    omega

theorem length_le_encode (e : Encoder) (headers : List Header) :
    headers.length ≤ (e.encode headers).2.length := by
  rw [encode]
  cases e.queuedSizeUpdate with
  | none => exact length_le_encodeHeaders headers e
  | some size =>
    simp only [length_append]
    exact (length_le_encodeHeaders headers _).trans (Nat.le_add_left _ _)

end Encoder

end ZincioHttp.H2.Hpack
