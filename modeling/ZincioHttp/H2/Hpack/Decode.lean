import ZincioHttp.H2.Hpack.StringLiteral
import ZincioHttp.H2.Hpack.Table

/-! The HPACK decoder. It reads one representation after another from a complete
block and updates its table as it goes, so a block that fails half-way has
changed the table by the representations before the failing one. -/

namespace ZincioHttp.H2.Hpack

open StringLiteral

open ZincioHttp.Hpack (HpackError Integer.decode)

inductive Representation where
  | indexed
  | literalWithIndexing
  | literalWithoutIndexing
  | literalNeverIndexed
  | sizeUpdate
  deriving DecidableEq, Repr

def Representation.load (byte : UInt8) : Except HpackError Representation :=
  if byte &&& 0x80 = 0x80 then .ok .indexed
  else if byte &&& 0x40 = 0x40 then .ok .literalWithIndexing
  else if byte &&& 0xf0 = 0 then .ok .literalWithoutIndexing
  else if byte &&& 0xf0 = 0x10 then .ok .literalNeverIndexed
  else if byte &&& 0xe0 = 0x20 then .ok .sizeUpdate
  else .error .invalidRepresentation

structure Decoder where
  table : Table
  maxTableSize : ℕ
  queuedSizeUpdate : Option ℕ
  maxHeaderListSize : ℕ

namespace Decoder

def new (maxTableSize : ℕ) : Decoder :=
  ⟨Table.withMaxSizeNoMaps maxTableSize, maxTableSize, none, usizeMax⟩

def setMaxHeaderListSize (d : Decoder) (size : ℕ) : Decoder := { d with maxHeaderListSize := size }

/-- What one representation leaves: the table, the field if there is one, the
running list size and the rest of the block. -/
structure Read where
  table : Table
  header : Option Header
  listSize : ℕ
  rest : Octets

/-- Adds a field to the running list size and checks the limit. The error
carries the running size, which the caller keeps. -/
def charge (d : Decoder) (listSize : ℕ) (name value : Octets) : Except (HpackError × ℕ) ℕ :=
  let listSize := listSize + (name.length + value.length)
  if listSize > d.maxHeaderListSize then .error (.headerListTooLarge, listSize) else .ok listSize

/-- A literal's name: the string that follows for index 0, else the entry's. -/
def readName (d : Decoder) (index : ℕ) (rest : Octets) : Except HpackError (Octets × Octets) :=
  if index = 0 then
    match StringLiteral.decode rest d.maxHeaderListSize with
    | .error e => .error e
    | .ok (_, name, rest) => .ok (name, rest)
  else
    match d.table.get index with
    | none => .error .invalidIndex
    | some entry => .ok (entry.name, rest)

/-- The name and value of a literal whose index has the given prefix. -/
def readLiteral (d : Decoder) (prefixBits : ℕ) (byte : UInt8) (rest : Octets) :
    Except HpackError (Octets × Octets × Octets) :=
  match Integer.decode rest prefixBits byte with
  | .error e => .error e
  | .ok (index, rest) =>
    match d.readName index rest with
    | .error e => .error e
    | .ok (name, rest) =>
      match StringLiteral.decode rest d.maxHeaderListSize with
      | .error e => .error e
      | .ok (_, value, rest) => .ok (name, value, rest)

/-- One round of the decoding loop, after the octet `byte`. No error leaves a
changed table. -/
def read (d : Decoder) (canResize : Bool) (listSize : ℕ) (byte : UInt8) (rest : Octets) :
    Except (HpackError × ℕ) Read :=
  let keep {α : Type} (r : Except HpackError α) : Except (HpackError × ℕ) α :=
    r.mapError (·, listSize)
  keep (Representation.load byte) >>= fun rep =>
    match rep with
    | .indexed =>
      keep (Integer.decode rest 7 byte) >>= fun (index, rest) =>
      match d.table.get index with
      | none => .error (.invalidIndex, listSize)
      | some entry =>
        d.charge listSize entry.name entry.value >>= fun listSize =>
        .ok ⟨d.table, some entry, listSize, rest⟩
    | .literalWithIndexing =>
      keep (d.readLiteral 6 byte rest) >>= fun (name, value, rest) =>
      d.charge listSize name value >>= fun listSize =>
      .ok ⟨d.table.add ⟨name, value⟩, some ⟨name, value⟩, listSize, rest⟩
    | .literalWithoutIndexing | .literalNeverIndexed =>
      keep (d.readLiteral 4 byte rest) >>= fun (name, value, rest) =>
      d.charge listSize name value >>= fun listSize =>
      .ok ⟨d.table, some ⟨name, value⟩, listSize, rest⟩
    | .sizeUpdate =>
      if !canResize then .error (.invalidMaxSize, listSize)
      else
        keep (Integer.decode rest 5 byte) >>= fun (size, rest) =>
        if size > d.maxTableSize then .error (.invalidMaxSize, listSize)
        else .ok ⟨d.table.setMaxSize size, none, listSize, rest⟩

variable {d : Decoder} {rest : Octets}

theorem readName_rest_le {index : ℕ} {buf name : Octets}
    (h : d.readName index buf = .ok (name, rest)) : rest.length ≤ buf.length := by
  rw [readName] at h
  split_ifs at h
  · cases hs : decode buf d.maxHeaderListSize with
    | error e => simp [hs] at h
    | ok r =>
      simp only [hs, Except.ok.injEq, Prod.mk.injEq] at h
      exact h.2 ▸ decode_rest_le hs
  · cases hg : d.table.get index with
    | none => simp [hg] at h
    | some entry =>
      simp only [hg, Except.ok.injEq, Prod.mk.injEq] at h
      exact h.2 ▸ le_rfl

theorem readLiteral_rest_le {prefixBits : ℕ} {byte : UInt8} {buf name value : Octets}
    (h : d.readLiteral prefixBits byte buf = .ok (name, value, rest)) :
    rest.length ≤ buf.length := by
  rw [readLiteral] at h
  cases hi : Integer.decode buf prefixBits byte with
  | error e => simp [hi] at h
  | ok r =>
    obtain ⟨index, buf₁⟩ := r
    simp only [hi] at h
    cases hn : d.readName index buf₁ with
    | error e => simp [hn] at h
    | ok r =>
      obtain ⟨name', buf₂⟩ := r
      simp only [hn] at h
      cases hs : decode buf₂ d.maxHeaderListSize with
      | error e => simp [hs] at h
      | ok r =>
        simp only [hs] at h
        obtain ⟨-, -, rfl⟩ := h
        have h₁ := Hpack.Integer.decode_rest_le hi
        have h₂ := readName_rest_le hn
        have h₃ := decode_rest_le hs
        omega

/-- Reading a representation never lengthens the block. -/
theorem read_rest_le {canResize : Bool} {listSize : ℕ} {byte : UInt8} {r : Read}
    (h : d.read canResize listSize byte rest = .ok r) : r.rest.length ≤ rest.length := by
  simp only [read, bind_eq_ok] at h
  obtain ⟨rep, -, h⟩ := h
  cases rep with
  | indexed =>
    obtain ⟨⟨index, tail⟩, hi, h⟩ := bind_eq_ok.1 h
    cases hg : d.table.get index with
    | none => simp [hg] at h
    | some entry =>
      simp only [hg] at h
      obtain ⟨listSize', -, h⟩ := bind_eq_ok.1 h
      cases h
      exact Hpack.Integer.decode_rest_le (mapError_eq_ok.1 hi)
  | literalWithIndexing | literalWithoutIndexing | literalNeverIndexed =>
    obtain ⟨⟨name, value, tail⟩, hl, h⟩ := bind_eq_ok.1 h
    obtain ⟨listSize', -, h⟩ := bind_eq_ok.1 h
    cases h
    exact readLiteral_rest_le (mapError_eq_ok.1 hl)
  | sizeUpdate =>
    split_ifs at h
    obtain ⟨⟨size, tail⟩, hi, h⟩ := bind_eq_ok.1 h
    split_ifs at h
    cases h
    exact Hpack.Integer.decode_rest_le (mapError_eq_ok.1 hi)

/-- The decoding loop: the final table and running list size, and the fields or
the error. A size update is admitted only while no field has been read. -/
def decodeLoop (d : Decoder) (canResize : Bool) (listSize : ℕ) (headers : List Header) :
    Octets → Decoder × ℕ × Except HpackError (List Header)
  | [] => (d, listSize, .ok headers)
  | byte :: rest =>
    match _h : d.read canResize listSize byte rest with
    | .error (e, listSize) => (d, listSize, .error e)
    | .ok r =>
      decodeLoop { d with table := r.table } (canResize && r.header.isNone) r.listSize
        (headers ++ r.header.toList) r.rest
termination_by buf => buf.length
decreasing_by
  have := read_rest_le ‹_›
  rw [List.length_cons]
  omega

theorem decodeLoop_of_read {canResize : Bool} {listSize : ℕ} {byte : UInt8} {r : Read}
    (headers : List Header) (h : d.read canResize listSize byte rest = .ok r) :
    d.decodeLoop canResize listSize headers (byte :: rest) =
      decodeLoop { d with table := r.table } (canResize && r.header.isNone) r.listSize
        (headers ++ r.header.toList) r.rest := by
  rw [decodeLoop]
  split
  · simp_all
  · next r' h' =>
    obtain rfl : r = r' := Except.ok.inj (h.symm.trans h')
    rfl

/-- Decodes a block with the given running list size. -/
def decode (d : Decoder) (buf : Octets) (listSize : ℕ) :
    Decoder × ℕ × Except HpackError (List Header) :=
  match d.queuedSizeUpdate with
  | some size =>
    decodeLoop { d with queuedSizeUpdate := none, maxTableSize := size } true listSize [] buf
  | none => decodeLoop d true listSize [] buf

end Decoder

end ZincioHttp.H2.Hpack
