import ZincioHttp.H2.Codec

/-! The octets of the frames that the connection writes. -/

namespace ZincioHttp.H2

open UInt8

/-- `u16::to_be_bytes`. -/
def u16Bytes (n : ℕ) : Octets := [ofNat (n / 2 ^ 8 % 256), ofNat (n % 256)]

/-- `u32::to_be_bytes`. -/
def u32Bytes (n : ℕ) : Octets :=
  [ofNat (n / 2 ^ 24 % 256), ofNat (n / 2 ^ 16 % 256), ofNat (n / 2 ^ 8 % 256), ofNat (n % 256)]

namespace FrameWriter

def header (payloadLen : ℕ) (typ flags : UInt8) (streamId : ℕ) : Octets :=
  [ofNat (payloadLen / 2 ^ 16 % 256), ofNat (payloadLen / 2 ^ 8 % 256),
    ofNat (payloadLen % 256), typ, flags, ofNat (streamId / 2 ^ 24 % 128),
    ofNat (streamId / 2 ^ 16 % 256), ofNat (streamId / 2 ^ 8 % 256),
    ofNat (streamId % 256)]

/-- The flag octet: END_STREAM or ACK, END_HEADERS, PRIORITY. -/
def flags (first endHeaders prioritized : Bool) : UInt8 :=
  (if first then 0x01 else 0) ||| (if endHeaders then 0x04 else 0) |||
    (if prioritized then 0x20 else 0)

def writeData (streamId : ℕ) (endStream : Bool) (data : Octets) : Octets :=
  header data.length RawFrame.dataType (flags endStream false false) streamId ++ data

def priorityFields (p : Priority) : Octets :=
  u32Bytes (p.dependency % 2 ^ 31 + if p.exclusive then 2 ^ 31 else 0) ++ [p.weight]

def writeHeaders (streamId : ℕ) (endStream endHeaders : Bool) (priority : Option Priority)
    (block : Octets) : Octets :=
  let extra := if priority.isSome then 5 else 0
  header (block.length + extra) RawFrame.headersType (flags endStream endHeaders priority.isSome)
    streamId ++ (priority.map priorityFields).getD [] ++ block

def writeContinuation (streamId : ℕ) (endHeaders : Bool) (block : Octets) : Octets :=
  header block.length RawFrame.continuationType (flags false endHeaders false) streamId ++ block

/-- The loop of `write_field_block`. -/
def continuations (capacity streamId : ℕ) : ℕ → Octets → Octets
  | 0, rest => writeContinuation streamId true rest
  | fuel + 1, rest =>
    if rest.length > capacity then
      writeContinuation streamId false (rest.take capacity) ++
        continuations capacity streamId fuel (rest.drop capacity)
    else writeContinuation streamId true rest

def writeFieldBlock (maxFrameSize streamId : ℕ) (endStream : Bool) (block : Octets) : Octets :=
  if block.length ≤ maxFrameSize then writeHeaders streamId endStream true none block
  else
    writeHeaders streamId endStream false none (block.take maxFrameSize) ++
      continuations maxFrameSize streamId block.length (block.drop maxFrameSize)

def writePriority (streamId : ℕ) (priority : Priority) : Octets :=
  header 5 RawFrame.priorityType 0 streamId ++ priorityFields priority

def writeReset (streamId errorCode : ℕ) : Octets :=
  header 4 RawFrame.rstStreamType 0 streamId ++ u32Bytes errorCode

def writeSettings (settings : List Setting) : Octets :=
  header (settings.length * 6) RawFrame.settingsType 0 0 ++
    settings.flatMap fun s => u16Bytes s.id ++ u32Bytes s.value

def writeSettingsAck : Octets := header 0 RawFrame.settingsType 0x01 0

def writePushPromise (streamId promisedStreamId : ℕ) (block : Octets) : Octets :=
  header (4 + block.length) RawFrame.pushPromiseType 0x04 streamId ++
    u32Bytes (promisedStreamId % 2 ^ 31) ++ block

/-- `write_ping` and `write_ping_ack`. -/
def writePing (ack : Bool) (payload : Octets) : Octets :=
  header 8 RawFrame.pingType (if ack then 0x01 else 0) 0 ++ payload

def writeGoaway (lastStreamId errorCode : ℕ) (debug : Octets) : Octets :=
  header (8 + debug.length) RawFrame.goawayType 0 0 ++ u32Bytes (lastStreamId % 2 ^ 31) ++
    u32Bytes errorCode ++ debug

def writeWindowUpdate (streamId increment : ℕ) : Octets :=
  header 4 RawFrame.windowUpdateType 0 streamId ++ u32Bytes (increment % 2 ^ 31)

end FrameWriter

/-- The octets of a frame. The writer has no frame of unknown type, announces a stream in
one frame and acknowledges SETTINGS without parameters. -/
def Frame.encode : Frame → Octets
  | .data id endStream octs => FrameWriter.writeData id endStream octs
  | .headers id endStream endHeaders p block =>
    FrameWriter.writeHeaders id endStream endHeaders p block
  | .priority id p => FrameWriter.writePriority id p
  | .reset id errorCode => FrameWriter.writeReset id errorCode
  | .settings ack parameters =>
    if ack then FrameWriter.writeSettingsAck else FrameWriter.writeSettings parameters
  | .pushPromise id _ promised block => FrameWriter.writePushPromise id promised block
  | .ping ack payload => FrameWriter.writePing ack payload
  | .goAway last errorCode debug => FrameWriter.writeGoaway last errorCode debug
  | .windowUpdate id increment => FrameWriter.writeWindowUpdate id increment
  | .continuation id endHeaders block => FrameWriter.writeContinuation id endHeaders block
  | .unknown .. => []

theorem FrameWriter.continuations_eq (capacity streamId : ℕ) : ∀ (fuel : ℕ) (rest : Octets),
    continuations capacity streamId fuel rest =
      (writeContinuations capacity streamId fuel rest).flatMap Frame.encode := by
  intro fuel
  induction fuel with
  | zero => simp [continuations, writeContinuations, Frame.encode]
  | succ fuel ih =>
    intro rest
    rw [continuations, writeContinuations]
    split_ifs
    · rw [ih]
      rfl
    · simp [Frame.encode]

theorem FrameWriter.writeFieldBlock_eq (maxFrameSize streamId : ℕ) (endStream : Bool)
    (block : Octets) : FrameWriter.writeFieldBlock maxFrameSize streamId endStream block =
      (H2.writeFieldBlock maxFrameSize streamId endStream block).flatMap Frame.encode := by
  rw [FrameWriter.writeFieldBlock, H2.writeFieldBlock]
  split_ifs
  · simp [Frame.encode]
  · rw [continuations_eq]
    rfl

end ZincioHttp.H2
