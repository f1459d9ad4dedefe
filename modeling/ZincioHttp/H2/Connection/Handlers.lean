import ZincioHttp.H2.Connection.Outbound

/-! The handlers of the frames a peer sends. Where the source awaits room in a
stream's body channel, the connection is parked with what is left to do; while it
is parked no other frame is handled. -/

namespace ZincioHttp.H2.Connection

open H2.Hpack (Header)

/-! ### The request body -/

/-- A message for a body reader that is there; without one the stream is
forgotten. -/
def deliver (c : Connection) (id : ℕ) (e : StreamEntry) (msg : BodyMsg) : Connection :=
  match e.sendBody msg with
  | none => c.retire id
  | some e => c.setEntry id e

/-- `send_body` of the end marker. -/
def sendEnd (c : Connection) (id : ℕ) : Connection :=
  match c.entry id with
  | none => c
  | some e =>
    if e.bodyReady then c.deliver id e .endStream
    else c.park (some ⟨id, .endStream, false⟩)

def endRequestBody (c : Connection) (id : ℕ) : Connection :=
  match c.entry id with
  | none => c
  | some e =>
    if e.remoteEnded then c
    else
      let c := c.setEntry id { e with remoteEnded := true }
      if e.contentLength.any fun length => decide (e.dataSum ≠ length) then
        c.streamError id .protocolError
      else if e.body.isNone then c
      else c.sendEnd id

/-- What follows `send_body` of data or trailers. -/
def afterBody (c : Connection) (id : ℕ) (e : StreamEntry) (msg : BodyMsg) (endStream : Bool) :
    Connection :=
  let delivered := (e.sendBody msg).isSome
  let c := c.deliver id e msg
  if delivered && endStream then c.endRequestBody id else c

/-- `send_body` of data or trailers, and what follows. -/
def forward (c : Connection) (id : ℕ) (msg : BodyMsg) (endStream : Bool) : Connection :=
  match c.entry id with
  | none => c
  | some e =>
    if e.bodyReady then c.afterBody id e msg endStream
    else c.park (some ⟨id, msg, endStream⟩)

/-- The connection task goes on once the channel has room or has lost its reader. -/
def resume (c : Connection) : Connection :=
  match c.parked with
  | none => c
  | some p =>
    match c.entry p.streamId with
    | none => c.park none
    | some e =>
      if e.bodyReady then
        if p.msg = .endStream then (c.park none).deliver p.streamId e p.msg
        else (c.park none).afterBody p.streamId e p.msg p.endStream
      else c

/-- Hands the octets of a DATA frame back to both windows of the peer. -/
def restoreWindows (c : Connection) (id : ℕ) (data : Octets) : Connection :=
  if data.isEmpty then c
  else c.write [.windowUpdate id (data.length % 2 ^ 31), .windowUpdate 0 (data.length % 2 ^ 31)]

def handleDataFrame (c : Connection) (id : ℕ) (endStream : Bool) (data : Octets) : Connection :=
  if data.isEmpty && !endStream then c
  else
    let c := c.restoreWindows id data
    match c.entry id with
    | none =>
      if id ∈ c.closedOrder then c.write [.reset id Reason.streamClosed.code]
      else c.goaway .protocolError "data on idle stream"
    | some e =>
      if !e.requestStarted || e.remoteEnded then c.streamError id .streamClosed
      else
        (c.setEntry id { e with dataSum := e.dataSum + data.length }).forward id (.data data)
          endStream

/-! ### Field blocks -/

def setBlockStream (c : Connection) (blockStream : Option ℕ) : Connection :=
  { c with blockStream := blockStream }

/-- The frame decoder forgets the open block if it is that of the stream. -/
def clearBlock (c : Connection) (id : ℕ) : Connection :=
  c.setBlockStream (if c.blockStream = some id then none else c.blockStream)

def checkContinuationFlood (c : Connection) (id : ℕ) : Connection :=
  match c.entry id with
  | none => c
  | some e =>
    let c := c.setEntry id e.countFrame
    if e.countFrame.continuationFrames > c.opts.maxContinuationFrames then
      (c.clearBlock id).streamError id .protocolError
    else c

/-- The stream's field block awaits finalization. -/
def completeBlock (c : Connection) (id : ℕ) : Connection :=
  { c with completeBlocks := c.completeBlocks ++ [id] }

def raiseHighest (c : Connection) (id : ℕ) : Connection := { c with highestStreamId := id }

def openRequestStream (c : Connection) (id : ℕ) (endStream endHeaders : Bool) (block : Octets) :
    Connection :=
  if id = 0 ∨ id % 2 = 0 then c.goaway .protocolError "headers on invalid stream"
  else if id ≤ c.highestStreamId then c.goaway .protocolError "non-increasing stream id"
  else if c.streams.keys.length ≥ c.opts.maxConcurrentStreams.toNat then
    (c.raiseHighest id).write [.reset id Reason.refusedStream.code]
  else if endHeaders then
    ((c.raiseHighest id).completeBlock id).setEntry id
      (.opening c.peer.initialWindowSize endStream true block)
  else
    (c.raiseHighest id).setEntry id (.opening c.peer.initialWindowSize endStream false block)

def handleHeadersFrame (c : Connection) (id : ℕ) (endStream endHeaders : Bool) (block : Octets) :
    Connection :=
  if c.graceful ∧ id > c.gracefulLastStream then c
  else
    match c.entry id with
    | none => c.openRequestStream id endStream endHeaders block
    | some e =>
      if e.remoteEnded then c.streamError id .streamClosed
      else
        let e := StreamEntry.extendBlock { e with pendingEndStream := endStream } block
        if endHeaders then (c.completeBlock id).setEntry id e.endFrames
        else (c.setEntry id e).checkContinuationFlood id

def handleContinuation (c : Connection) (id : ℕ) (endHeaders : Bool) (block : Octets) :
    Connection :=
  match c.entry id with
  | none => c.goaway .protocolError "continuation on unknown stream"
  | some e =>
    if endHeaders then (c.completeBlock id).setEntry id (e.extendBlock block).endFrames
    else (c.setEntry id (e.extendBlock block)).checkContinuationFlood id

/-- The first completed block whose stream still exists, and what is left. -/
def takeComplete (c : Connection) : List ℕ → Option ℕ × List ℕ
  | [] => (none, [])
  | id :: rest => if (c.entry id).isSome then (some id, rest) else c.takeComplete rest

def takeCompleteBlock (c : Connection) : Connection × Option ℕ :=
  let (id, rest) := c.takeComplete c.completeBlocks
  ({ c with completeBlocks := rest }, id)

def finalizeTrailers (http : HttpCrate) (c : Connection) (id : ℕ) (e : StreamEntry)
    (headers : List Header) : Connection :=
  match parseTrailers http headers with
  | none => c.streamError id .protocolError
  | some trailers =>
    if e.trailersSeen then c.streamError id .protocolError
    else
      let c := c.setEntry id { e with trailersSeen := true }
      if !e.pendingEndStream then c.streamError id .protocolError
      else c.forward id (.trailers trailers) true

def spawnRequest (c : Connection) (id : ℕ) (endStream : Bool) (parsed : ParsedRequest) :
    Connection :=
  match c.entry id with
  | none => c
  | some e =>
    let c := c.setEntry id (e.start parsed)
    if endStream && parsed.contentLength.any fun length => decide (length ≠ 0) then
      c.streamError id .protocolError
    else
      let c := c.setEntry id { e.start parsed with remoteEnded := endStream }
      { c with dispatched := c.dispatched ++ [(id, parsed)] }

def finalizeRequest (http : HttpCrate) (c : Connection) (id : ℕ) (endStream : Bool)
    (headers : List Header) : Connection :=
  match parseRequest http headers with
  | none => c.streamError id .protocolError
  | some parsed =>
    let c := if endStream then c.endRequestBody id else c
    c.spawnRequest id endStream parsed

def setDecoder (c : Connection) (requestDecoder : Hpack.Decoder) : Connection :=
  { c with requestDecoder := requestDecoder }

def finalizeDecoded (http : HttpCrate) (c : Connection) (id : ℕ) (e : StreamEntry) :
    Except ZincioHttp.Hpack.HpackError (List Header) → Connection
  | .error .headerListTooLarge => c.streamError id .protocolError
  | .error _ => c.goaway .compressionError "hpack decode error"
  | .ok headers =>
    if e.requestStarted then finalizeTrailers http c id e headers
    else finalizeRequest http c id e.pendingEndStream headers

def finalizeFieldBlock (http : HttpCrate) (c : Connection) (id : ℕ) : Connection :=
  match c.entry id with
  | none => c
  | some e =>
    let (requestDecoder, headerListSize, decoded) :=
      c.requestDecoder.decode e.fieldBlock e.headerListSize
    let e := e.takeBlock headerListSize
    finalizeDecoded http ((c.setDecoder requestDecoder).setEntry id e) id e decoded

/-! ### The other frames -/

def handleResetFrame (c : Connection) (id : ℕ) : Connection :=
  match c.entry id with
  | none => if id ∈ c.closedOrder then c else c.goaway .protocolError "rst on idle stream"
  | some e =>
    let c := c.removeStream id
    if e.responseStarted then c.markClosed id
    else if c.opts.maxPendingAcceptResetStreams.any fun max =>
        decide (c.pendingAcceptResets ≥ max) then
      c.goaway .enhanceYourCalm "too many resets before response"
    else markClosed { c with pendingAcceptResets := c.pendingAcceptResets + 1 } id

/-- All send windows move with the peer's initial window size. -/
def shiftWindows (streams : AList fun _ : ℕ => StreamEntry) (delta : ℤ) :
    AList fun _ : ℕ => StreamEntry :=
  ⟨streams.entries.map fun s => ⟨s.1, { s.2 with sendWindow := s.2.sendWindow + delta }⟩, by
    have h := streams.nodupKeys
    rw [List.NodupKeys, List.keys] at h ⊢
    rwa [List.map_map]⟩

/-- One setting; the flag says whether the next one is looked at. -/
def applySetting (c : Connection) (s : Setting) : Connection × Bool :=
  if s.id = 0x01 then
    ({ c with
      peer := { c.peer with headerTableSize := s.value }
      encoder := c.encoder.queueSizeUpdate s.value }, true)
  else if s.id = 0x02 then ({ c with peer := { c.peer with enablePush := s.value } }, true)
  else if s.id = 0x04 then
    let streams := shiftWindows c.streams ((s.value : ℤ) - c.peer.initialWindowSize)
    let c := { c with peer := { c.peer with initialWindowSize := s.value }, streams := streams }
    if streams.entries.any fun s => decide (s.2.sendWindow > maxWindow) then
      (c.goaway .flowControlError "initial window overflow", true)
    else (c, true)
  else if s.id = 0x05 then
    if s.value < defaultMaxFrameSize ∨ s.value > maxFrameSizeLimit then
      (c.goaway .protocolError "invalid SETTINGS_MAX_FRAME_SIZE", false)
    else
      ({ c with
        peer := { c.peer with maxFrameSize := s.value }
        writerMaxFrameSize := s.value }, true)
  else if s.id = 0x06 then ({ c with peer := { c.peer with maxHeaderListSize := s.value } }, true)
  else (c, true)

def applyPeerSettings : Connection → List Setting → Connection
  | c, [] => c
  | c, s :: settings =>
    match c.applySetting s with
    | (c, true) => applyPeerSettings c settings
    | (c, false) => c

def growWindow (c : Connection) (increment : ℕ) : Connection :=
  { c with connWindow := c.connWindow + increment }

def handleWindowUpdate (c : Connection) (hint : List ℕ) (id increment : ℕ) : Connection :=
  if increment = 0 then c
  else if id = 0 then
    if c.connWindow > maxWindow - increment then
      c.goaway .flowControlError "connection window overflow"
    else (c.growWindow increment).drainPendingData hint
  else
    match c.entry id with
    | none =>
      if id ∈ c.closedOrder then c else c.goaway .protocolError "window update on idle stream"
    | some e =>
      if e.sendWindow > maxWindow - increment then c.streamError id .flowControlError
      else (c.setEntry id (e.growWindow increment)).pumpStreamData id

/-- The `match` of `process_frames`; `hint` orders the streams that a connection
window update serves. -/
def handleFrame (c : Connection) (hint : List ℕ) : Frame → Connection
  | .settings false settings => (c.applyPeerSettings settings).write [.settings true []]
  | .settings true _ => c
  | .ping false payload => c.write [.ping true payload]
  | .ping true _ => c
  | .goAway .. => { c with peerGoaway := true }
  | .headers id endStream endHeaders _ block => c.handleHeadersFrame id endStream endHeaders block
  | .continuation id endHeaders block => c.handleContinuation id endHeaders block
  | .data id endStream data => c.handleDataFrame id endStream data
  | .reset id _ => c.handleResetFrame id
  | .priority .. => c
  | .windowUpdate id increment => c.handleWindowUpdate hint id increment
  | .pushPromise .. => c.goaway .protocolError "push promise to server"
  | .unknown .. => c

/-- The block a frame has completed, if any. -/
def finalizeComplete (http : HttpCrate) (c : Connection) : Connection :=
  match c.takeCompleteBlock with
  | (c, some id) => finalizeFieldBlock http c id
  | (c, none) => c

/-- One round of `process_frames` with the frame that has been parsed. -/
def processFrame (http : HttpCrate) (c : Connection) (hint : List ℕ) (f : Frame) : Connection :=
  match f.blockError c.blockStream with
  | some error => c.goaway error.reason "frame error"
  | none =>
    let c := (c.setBlockStream (f.nextBlockStream c.blockStream)).handleFrame hint f
    match f with
    | .goAway .. => c
    | _ => finalizeComplete http c

end ZincioHttp.H2.Connection
