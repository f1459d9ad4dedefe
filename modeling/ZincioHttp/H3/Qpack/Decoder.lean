import ZincioHttp.H3.Qpack.Encoder
import ZincioHttp.Lib.Tally

/-! The QPACK decoder. It mirrors the encoder's table from the encoder stream,
decodes sections against it and queues a section whose Required Insert Count has
not been reached. Everything it has to tell the encoder is appended to its
decoder stream. -/

namespace ZincioHttp.H3.Qpack

open Lib ZincioHttp.Hpack

structure BlockedSection where
  stream : ℕ
  buf : Octets
  ric : ℕ
  since : ℕ
  deriving DecidableEq, Repr

structure UnblockedSection where
  stream : ℕ
  headers : List Field
  deriving DecidableEq, Repr

/-- `FIELD_OVERHEAD`. -/
def fieldOverhead : ℕ := 32

/-- `MAX_FIELDS_PER_SECTION`. -/
def maxFieldsPerSection : ℕ := 8192

structure Decoder where
  dynamic : DynamicTable
  maxCapacity : ℕ
  knownReceived : ℕ
  blocked : List BlockedSection
  /-- Number of blocked sections of each blocked stream. -/
  blockedByStream : List (ℕ × ℕ)
  sectionSizeByStream : ℕ → Option ℕ
  maxBlockedStreams : ℕ
  maxFieldSectionSize : ℕ
  decoderStream : Octets
  encoderStreamPending : Octets

/-- Length of the encoder-stream instruction at the start of `buf`. -/
def encoderInstructionLen (buf : Octets) : Option ℕ :=
  match buf with
  | [] => none
  | header :: _ =>
    if header &&& 0xc0 = 0x80 ∨ header &&& 0xc0 = 0xc0 then
      match Integer.encodedLen buf 6 with
      | none => none
      | some indexLen => (stringLen (buf.drop indexLen) 8).map (indexLen + ·)
    else if header &&& 0xc0 = 0x40 then
      match stringLen buf 6 with
      | none => none
      | some nameLen => (stringLen (buf.drop nameLen) 8).map (nameLen + ·)
    else Integer.encodedLen buf 5

namespace Decoder

def new (maxCapacity maxBlockedStreams : ℕ) : Decoder :=
  ⟨DynamicTable.withoutMaps 0, maxCapacity, 0, [], [], fun _ => none, maxBlockedStreams, usizeMax,
    [], []⟩

def setMaxFieldSectionSize (d : Decoder) (size : ℕ) : Decoder :=
  { d with maxFieldSectionSize := size }

/-! ### Encoder-stream instructions -/

/-- Inserts an entry unless that would evict unacknowledged ones. -/
def insertEntry (d : Decoder) (f : Field) : Except QpackError Decoder :=
  if d.dynamic.wouldEvict f.size > d.knownReceived then .error .encoderStream
  else
    match d.dynamic.insert f with
    | none => .error .encoderStream
    | some t => .ok { d with dynamic := t }

def encStreamErr {α : Type} (r : Except HpackError α) : Except QpackError α :=
  r.mapError fun _ => .encoderStream

def decFailed {α : Type} (r : Except HpackError α) : Except QpackError α :=
  r.mapError fun _ => .decompressionFailed

/-- Turns a missing entry into an error. -/
def orFail {α : Type} (err : QpackError) : Option α → Except QpackError α
  | none => .error err
  | some a => .ok a

def parseEncoderInstruction (d : Decoder) (instr : Octets) : Except QpackError Decoder :=
  match instr with
  | [] => .ok d
  | header :: rest =>
    if header &&& 0xc0 = 0x80 ∨ header &&& 0xc0 = 0xc0 then do
      let (index, rest) ← encStreamErr (Integer.decode rest 6 header)
      let (value, _) ← encStreamErr (readValueString rest)
      let entry ← orFail .encoderStream
        (if header &&& 0x40 ≠ 0 then StaticTable.get index else d.dynamic.entryAt index)
      d.insertEntry ⟨entry.name, value⟩
    else if header &&& 0xc0 = 0x40 then do
      let (name, rest) ← encStreamErr (readString rest 6 header)
      let (value, _) ← encStreamErr (readValueString rest)
      d.insertEntry ⟨name, value⟩
    else if header &&& 0x20 ≠ 0 then do
      let (capacity, _) ← encStreamErr (Integer.decode rest 5 header)
      if capacity > d.maxCapacity then .error .encoderStream
      else if d.dynamic.evictForCapacity capacity > d.knownReceived then .error .encoderStream
      else .ok { d with dynamic := d.dynamic.setCapacity capacity }
    else do
      let (index, _) ← encStreamErr (Integer.decode rest 5 header)
      let entry ← orFail .encoderStream (d.dynamic.entryAt index)
      d.insertEntry entry

/-! ### Field sections -/

/-- The Required Insert Count near the decoder's insert count that wraps to
`encRic`. -/
def unwrapRic (maxEntries inserted encRic : ℕ) : Except QpackError ℕ :=
  if encRic = 0 ∨ maxEntries = 0 then .ok 0
  else
    let fullRange := 2 * maxEntries
    if encRic > fullRange then .error .decompressionFailed
    else
      let maxValue := inserted + maxEntries
      let maxWrapped := maxValue / fullRange * fullRange
      let ric := maxWrapped + encRic - 1
      if ric > maxValue then
        if ric ≤ fullRange then .error .decompressionFailed
        else if ric - fullRange = 0 then .error .decompressionFailed
        else .ok (ric - fullRange)
      else if ric = 0 then .error .decompressionFailed
      else .ok ric

/-- The Required Insert Count, the Base and the rest of the section. -/
def readPrefix (d : Decoder) (buf : Octets) : Except QpackError (ℕ × ℕ × Octets) :=
  match buf with
  | [] => .error .decompressionFailed
  | header :: buf => do
    let (encRic, buf) ← decFailed (Integer.decode buf 8 header)
    let ric ← unwrapRic (d.maxCapacity / 32) d.dynamic.inserted encRic
    match buf with
    | [] => .error .decompressionFailed
    | header :: buf =>
      let (delta, buf) ← decFailed (Integer.decode buf 7 header)
      if header &&& 0x80 ≠ 0 then
        if ric < delta + 1 then .error .decompressionFailed else .ok (ric, ric - (delta + 1), buf)
      else if ric + delta > u64Max then .error .decompressionFailed
      else .ok (ric, ric + delta, buf)

/-- One field line after its first octet: the field, the insert count it needs
and the rest of the section. -/
def readLine (t : DynamicTable) (base : ℕ) (header : UInt8) (buf : Octets) :
    Except QpackError (Field × ℕ × Octets) :=
  if header &&& 0x80 ≠ 0 then do
    let (index, buf) ← decFailed (Integer.decode buf 6 header)
    if header &&& 0x40 ≠ 0 then
      let entry ← orFail .decompressionFailed (StaticTable.get index)
      return (entry, 0, buf)
    else
      let entry ← orFail .decompressionFailed (t.getBaseRelative base index)
      return (entry, base - index, buf)
  else if header &&& 0x40 ≠ 0 then do
    let (index, buf) ← decFailed (Integer.decode buf 4 header)
    let (value, buf) ← decFailed (readValueString buf)
    if header &&& 0x10 ≠ 0 then
      let entry ← orFail .decompressionFailed (StaticTable.get index)
      return (⟨entry.name, value⟩, 0, buf)
    else
      let entry ← orFail .decompressionFailed (t.getBaseRelative base index)
      return (⟨entry.name, value⟩, base - index, buf)
  else if header &&& 0x20 ≠ 0 then do
    let (name, buf) ← decFailed (readString buf 4 header)
    let (value, buf) ← decFailed (readValueString buf)
    return (⟨name, value⟩, 0, buf)
  else if header &&& 0x10 ≠ 0 then do
    let (index, buf) ← decFailed (Integer.decode buf 4 header)
    let entry ← orFail .decompressionFailed (t.getPostBase base index)
    return (entry, base + index + 1, buf)
  else do
    let (index, buf) ← decFailed (Integer.decode buf 3 header)
    let entry ← orFail .decompressionFailed (t.getPostBase base index)
    let (value, buf) ← decFailed (readValueString buf)
    return (⟨entry.name, value⟩, base + index + 1, buf)

/-- The loop of `decode_ready`: fields so far, insert count needed and size. The
length of the section is enough fuel, since every round reads its first octet. -/
def readLines (t : DynamicTable) (base : ℕ) (budget : Option ℕ) :
    ℕ → Octets → List Field → ℕ → ℕ → Except QpackError (List Field × ℕ × ℕ)
  | _, [], headers, needed, size => .ok (headers, needed, size)
  | 0, _ :: _, _, _, _ => .error .decompressionFailed
  | fuel + 1, header :: buf, headers, needed, size =>
    match readLine t base header buf with
    | .error e => .error e
    | .ok (f, need, buf) =>
      let size := min (size + (f.name.length + f.value.length + fieldOverhead)) usizeMax
      if budget.any fun limit => size > limit then .error .decompressionFailed
      else if headers.length ≥ maxFieldsPerSection then .error .decompressionFailed
      else readLines t base budget fuel buf (headers ++ [f]) (max needed need) size

/-- `decode_ready`: the fields of a section and the size they occupy. -/
def decodeReady (d : Decoder) (buf : Octets) (budget : Option ℕ) :
    Except QpackError (List Field × ℕ) := do
  let (ric, base, buf) ← d.readPrefix buf
  let (headers, needed, size) ← readLines d.dynamic base budget buf.length buf [] 0 0
  if ric ≠ needed then .error .decompressionFailed else .ok (headers, size)

/-! ### Bookkeeping of streams -/

def streamHasBlocked (d : Decoder) (stream : ℕ) : Bool := Tally.has d.blockedByStream stream

def addBlockedSection (d : Decoder) (stream : ℕ) : Decoder :=
  { d with blockedByStream := Tally.add d.blockedByStream stream }

def removeBlockedSection (d : Decoder) (stream : ℕ) : Decoder :=
  { d with blockedByStream := Tally.remove d.blockedByStream stream }

def accountSection (d : Decoder) (stream size : ℕ) : Decoder :=
  let total := min ((d.sectionSizeByStream stream).getD 0 + size) usizeMax
  { d with sectionSizeByStream := Function.update d.sectionSizeByStream stream (some total) }

def remainingBudget (d : Decoder) (stream : ℕ) : Option ℕ :=
  if d.maxFieldSectionSize = usizeMax then none
  else some (d.maxFieldSectionSize - (d.sectionSizeByStream stream).getD 0)

def acknowledge (d : Decoder) (ric : ℕ) : Decoder :=
  { d with knownReceived := max d.knownReceived ric }

def emitSectionAck (d : Decoder) (stream : ℕ) : Decoder :=
  { d with decoderStream := d.decoderStream ++ Integer.encode stream 7 0x80 }

/-- Decodes a section that is ready and acknowledges it if it has references. -/
def finishSection (d : Decoder) (buf : Octets) (stream ric : ℕ) :
    Except QpackError (Decoder × List Field) := do
  let (headers, size) ← d.decodeReady buf (d.remainingBudget stream)
  let d := d.accountSection stream size
  return (if ric > 0 then (d.acknowledge ric).emitSectionAck stream else d, headers)

/-- Decodes a section, or queues it when it cannot be processed in order yet. -/
def decodeBlock (d : Decoder) (buf : Octets) (stream now : ℕ) :
    Except QpackError (Decoder × Option (List Field)) := do
  let (ric, _, _) ← d.readPrefix buf
  let streamBlocked := d.streamHasBlocked stream
  if ric > d.dynamic.inserted ∨ streamBlocked then
    if !streamBlocked && decide (d.blockedByStream.length ≥ d.maxBlockedStreams) then
      .error .decompressionFailed
    else
      let queued : BlockedSection := ⟨stream, buf, ric, now⟩
      return ({ d with blocked := d.blocked ++ [queued] }.addBlockedSection stream, none)
  else
    let (d, headers) ← d.finishSection buf stream ric
    return (d, some headers)

/-- The loop that decodes queued sections, in arrival order, while their Required
Insert Count has been reached. -/
def unblock : List BlockedSection → Decoder → Except QpackError (Decoder × List UnblockedSection)
  | [], d => .ok ({ d with blocked := [] }, [])
  | front :: rest, d =>
    if front.ric > d.dynamic.inserted then .ok ({ d with blocked := front :: rest }, [])
    else do
      let d := { d with blocked := rest }.removeBlockedSection front.stream
      let (d, headers) ← d.finishSection front.buf front.stream front.ric
      let (d, sections) ← unblock rest d
      return (d, ⟨front.stream, headers⟩ :: sections)

/-- Takes what is to be sent on the decoder stream. -/
def takeDecoderStream (d : Decoder) : Decoder × Octets :=
  ({ d with decoderStream := [] }, d.decoderStream)

/-- A coalesced Insert Count Increment for what is not acknowledged yet. -/
def emitIncrement (d : Decoder) : Decoder :=
  if d.dynamic.inserted > d.knownReceived then
    { d with
      decoderStream := d.decoderStream ++
        Integer.encode (d.dynamic.inserted - d.knownReceived) 6 0x00
      knownReceived := d.dynamic.inserted }
  else d

def feedEncoderStream (d : Decoder) (buf : Octets) :
    Except QpackError (Decoder × List UnblockedSection) := do
  let data := d.encoderStreamPending ++ buf
  if data.length > min (d.maxCapacity + 1024) usizeMax then .error .encoderStream
  else
    let (d, rest) ← drain encoderInstructionLen parseEncoderInstruction data.length d data
    let d := { d with encoderStreamPending := rest }
    let (d, sections) ← unblock d.blocked d
    return (d.emitIncrement, sections)

/-! ### Streams that end -/

def streamFinished (d : Decoder) (stream : ℕ) : Decoder :=
  { d with sectionSizeByStream := Function.update d.sectionSizeByStream stream none }

/-- Drops everything about the given streams and tells the encoder. -/
def cancel (d : Decoder) (streams : List ℕ) : Decoder × Octets :=
  let out := streams.flatMap fun stream => Integer.encode stream 6 0x40
  ({ d with
      blocked := d.blocked.filter fun b => decide (b.stream ∉ streams)
      blockedByStream := d.blockedByStream.filter fun e => decide (e.1 ∉ streams)
      sectionSizeByStream := fun stream =>
        if stream ∈ streams then none else d.sectionSizeByStream stream
      decoderStream := d.decoderStream ++ out }, out)

def streamCancelled (d : Decoder) (stream : ℕ) : Decoder × Octets := d.cancel [stream]

/-- The streams of sections older than `maxAge`, in the order of the queue. -/
def expired (now maxAge : ℕ) : List BlockedSection → List ℕ → List ℕ
  | [], cancelled => cancelled
  | b :: rest, cancelled =>
    expired now maxAge rest
      (if now - b.since > maxAge ∧ b.stream ∉ cancelled then cancelled ++ [b.stream] else cancelled)

def expireBlocked (d : Decoder) (now maxAge : ℕ) : Decoder × Octets :=
  d.cancel (expired now maxAge d.blocked [])

end Decoder

end ZincioHttp.H3.Qpack
