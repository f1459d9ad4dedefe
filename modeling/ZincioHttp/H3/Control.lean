import ZincioHttp.H3.SharedCodecs
import ZincioHttp.Lib.Rounds

/-! The control plane of an HTTP/3 connection: the peer's control stream, its QPACK
streams, and streams of unknown type. Polling it runs rounds of the same stages,
accept, classify, then one poll of every open stream, until there is an event to
report or a round makes no progress. -/

namespace ZincioHttp.H3

open Qpack Lib

def streamTypeControl : ℕ := 0x0
def streamTypePush : ℕ := 0x1
def streamTypeQpackEncoder : ℕ := 0x2
def streamTypeQpackDecoder : ℕ := 0x3

inductive ControlEvent where
  | settings (settings : PeerSettings)
  | goaway (id : ℕ)
  | maxPushId (id : ℕ)
  | cancelPush (pushId : ℕ)
  deriving DecidableEq, Repr

structure PeerControl where
  stream : ℕ
  decoder : FrameDecoder

/-- The places where the control plane keeps classified streams. -/
inductive Kind where
  | control
  | encoder
  | decoder
  | discard
  deriving DecidableEq, Repr

structure PendingUni where
  stream : ℕ
  buf : Octets

/-- Streams are known by their numbers. The last four fields are notes: what the
transport has taken from the decoder-stream queue, what the decoder has emitted,
what the encoder has been fed, and whom the control plane has woken. -/
structure ControlStreams where
  peer : PeerSettings
  controlBuf : Octets
  encoderPending : List Octets
  decoderPending : List Octets
  inControl : Option PeerControl
  inEncoder : Option ℕ
  inDecoder : Option ℕ
  pendingUni : Option PendingUni
  inDiscard : Option ℕ
  shared : SharedCodecs
  /-- `decoder_stream_pending` of the QPACK decoder, which nothing else reads. -/
  feedbackPending : Octets
  settingsReceived : Bool
  maxPushId : Option ℕ
  goawaySent : Option ℕ
  events : List ControlEvent
  flushed : Octets
  emitted : Octets
  fed : Octets
  woken : List ℕ

namespace ControlStreams

def slot (c : ControlStreams) : Kind → Option ℕ
  | .control => c.inControl.map PeerControl.stream
  | .encoder => c.inEncoder
  | .decoder => c.inDecoder
  | .discard => c.inDiscard

/-- After `poll_init`: the outbound streams are open and their types are queued. -/
def new (settings : LocalSettings) : ControlStreams where
  peer := {}
  controlBuf := writeVarint streamTypeControl ++ (Frame.settings settings.toFrame).encode
  encoderPending := [[0x02]]
  decoderPending := [[0x03]]
  inControl := none
  inEncoder := none
  inDecoder := none
  pendingUni := none
  inDiscard := none
  shared := SharedCodecs.new settings
  feedbackPending := []
  settingsReceived := false
  maxPushId := none
  goawaySent := none
  events := []
  flushed := []
  emitted := [0x03]
  fed := []
  woken := []

/-- Only the first GOAWAY is queued. -/
def sendGoaway (c : ControlStreams) (id : ℕ) : ControlStreams :=
  match c.goawaySent with
  | some _ => c
  | none => { c with controlBuf := c.controlBuf ++ (Frame.goaway id).encode, goawaySent := some id }

def queueEncoderStreamsFromShared (c : ControlStreams) : ControlStreams :=
  { c with
    encoderPending := c.encoderPending ++ c.shared.encoderStream
    shared := { c.shared with encoderStream := [] } }

/-- The transport takes the front of the decoder-stream queue. -/
def flushDecoder (c : ControlStreams) : ControlStreams :=
  match c.decoderPending with
  | [] => c
  | bytes :: rest => { c with decoderPending := rest, flushed := c.flushed ++ bytes }

/-- What is queued for the decoder stream or still lies with the decoder. -/
def outbound (c : ControlStreams) : Octets :=
  c.flushed ++ c.decoderPending.flatten ++ c.shared.decoder.decoderStream

/-! ### The peer's QPACK streams -/

/-- Feeds the decoder, hands the released sections to their streams and queues what
the decoder has to say. -/
def feedEncoderStream (c : ControlStreams) (data : Octets) : Except ControlError ControlStreams :=
  match c.shared.decoder.feedEncoderStream data with
  | .error err => .error (.qpack err)
  | .ok (d, unblocked) =>
    let (d', acks) := d.takeDecoderStream
    let (shared, waiters) := { c.shared with decoder := d' }.takeWaitersFor
      (unblocked.map UnblockedSection.stream)
    .ok { c with
      shared := shared.placeUnblocked unblocked
      woken := c.woken ++ waiters
      decoderPending := if acks = [] then c.decoderPending else c.decoderPending ++ [acks]
      emitted := c.emitted ++ acks.drop c.shared.decoder.decoderStream.length }

/-- One instruction as the decoder checks it: nothing is remembered. -/
def checkDecoderInstruction (_ : Unit) (instr : Octets) : Except QpackError Unit :=
  match instr with
  | [] => .ok ()
  | header :: rest =>
    if header &&& 0x80 ≠ 0 then
      match Hpack.Integer.decode rest 7 header with
      | .error _ => .error .decoderStream
      | .ok _ => .ok ()
    else
      match Hpack.Integer.decode rest 6 header with
      | .error _ => .error .decoderStream
      | .ok (value, _) =>
        if header &&& 0x40 = 0 ∧ value = 0 then .error .decoderStream else .ok ()

/-- `Decoder::feed_decoder_stream`, which only validates. -/
def checkDecoderStream (c : ControlStreams) (data : Octets) : Except ControlError ControlStreams :=
  let data := c.feedbackPending ++ data
  match drain Encoder.decoderInstructionLen checkDecoderInstruction data.length () data with
  | .error err => .error (.qpack err)
  | .ok ((), rest) =>
    if rest.length > Encoder.maxDecoderStreamInstruction then .error (.qpack .decoderStream)
    else .ok { c with feedbackPending := rest }

/-- A chunk of the decoder stream: for the encoder, if there is one, and then for
the decoder. -/
def feedDecoderStream (c : ControlStreams) (data : Octets) : Except ControlError ControlStreams :=
  match c.shared.encoder with
  | none => c.checkDecoderStream data
  | some e =>
    match e.feedDecoderStream data with
    | .error err => .error (.qpack err)
    | .ok e =>
      { c with
        shared := { c.shared with encoder := some e }
        fed := c.fed ++ data }.checkDecoderStream data

end ControlStreams

/-! ### The peer's control stream -/

def Frame.isSettings : Frame → Bool
  | .settings _ => true
  | _ => false

namespace ControlStreams

/-- The first frame must be SETTINGS. -/
def handleControlFrame (c : ControlStreams) (frame : Frame) : Except ControlError ControlStreams :=
  if !c.settingsReceived && !frame.isSettings then .error .missingSettings
  else
    match frame with
    | .settings settings =>
      if c.settingsReceived then .error .frameUnexpected
      else
        let peer := c.peer.apply settings
        .ok { c with
          settingsReceived := true
          peer := peer
          shared := { c.shared with
            encoder := some (Encoder.new peer.qpackMaxTableCapacity true)
            peerMaxFieldSectionSize := peer.maxFieldSectionSize }
          events := c.events ++ [.settings peer] }
    | .goaway id => .ok { c with events := c.events ++ [.goaway id] }
    | .maxPushId id =>
      if c.maxPushId.any (id < ·) then .error .id
      else .ok { c with maxPushId := some id, events := c.events ++ [.maxPushId id] }
    | .cancelPush _ => .error .id
    | .data _ | .headers _ | .pushPromise _ _ => .error .frameUnexpected

/-- All complete frames that are buffered. A frame takes at least one octet. -/
def handleFrames : ℕ → ControlStreams → Except ControlError (ControlStreams × Bool)
  | 0, c => .ok (c, false)
  | fuel + 1, c =>
    match c.inControl with
    | none => .ok (c, false)
    | some control =>
      match control.decoder.nextFrame with
      | .error err => .error (.ofFrameError err)
      | .ok (decoder, none) =>
        .ok ({ c with inControl := some { control with decoder := decoder } }, false)
      | .ok (decoder, some frame) =>
        match { c with inControl := some { control with decoder := decoder } }.handleControlFrame
            frame with
        | .error err => .error err
        | .ok c => (handleFrames fuel c).map fun r => (r.1, true)

/-! ### Classification -/

/-- Wires a stream whose type has been read to its handler. -/
def place (c : ControlStreams) (stream ty : ℕ) (leftover : Octets) :
    Except ControlError ControlStreams :=
  if ty = streamTypeControl then
    if c.inControl.isSome then .error .streamCreation
    else .ok { c with inControl := some ⟨stream, FrameDecoder.new.extend leftover⟩ }
  else if ty = streamTypePush then .error .streamCreation
  else if ty = streamTypeQpackEncoder then
    if c.inEncoder.isSome then .error .streamCreation
    else if leftover = [] then .ok { c with inEncoder := some stream }
    else (c.feedEncoderStream leftover).map fun c => { c with inEncoder := some stream }
  else if ty = streamTypeQpackDecoder then
    if c.inDecoder.isSome then .error .streamCreation
    else if leftover = [] then .ok { c with inDecoder := some stream }
    else (c.checkDecoderStream leftover).map fun c => { c with inDecoder := some stream }
  else .ok { c with inDiscard := some stream }

end ControlStreams

inductive TypeRead where
  | incomplete (buf : Octets)
  | complete (ty : ℕ) (leftover : Octets) (rest : List Recv)

/-- The loop of `classify_uni`, over what the stream has to offer. -/
def readType (buf : Octets) : List Recv → Except ControlError TypeRead
  | [] => .ok (.incomplete buf)
  | .failed err :: _ => .error (.transport err)
  | .finished :: _ => .error .streamCreation
  | .chunk data :: rest =>
    match parseVarint (buf ++ data) with
    | .error err => .error (.ofFrameError err)
    | .ok none => readType (buf ++ data) rest
    | .ok (some (ty, used)) => .ok (.complete ty ((buf ++ data).drop used) rest)

/-! ### Polling -/

/-- The streams the peer has opened, or the failure to accept one, and what is
there to be received on each. The last two are notes: how many streams have been
opened, and all that ever came on each. -/
structure Net where
  incoming : List (Except TransportError ℕ)
  inbox : ℕ → List Recv
  opened : ℕ
  sent : ℕ → List Recv

/-- The control plane and the peer's unidirectional streams. -/
structure Plane where
  streams : ControlStreams
  net : Net

/-- An error and the stream it comes from, if it is not the connection's own. -/
structure Failure where
  stream : Option ℕ
  err : ControlError
  deriving DecidableEq, Repr

namespace Plane

def setInbox (p : Plane) (stream : ℕ) (items : List Recv) : Plane :=
  { p with net := { p.net with inbox := Function.update p.net.inbox stream items } }

/-- The result of a handler, with the stream it works for. -/
def onBehalf (p : Plane) (stream : ℕ) (r : Except ControlError ControlStreams) :
    Except Failure (Plane × Bool) :=
  match r with
  | .error err => .error ⟨some stream, err⟩
  | .ok c => .ok ({ p with streams := c }, true)

/-- Accepts one stream, when the one before it has been classified. -/
def accept (p : Plane) : Except Failure (Plane × Bool) :=
  match p.streams.pendingUni, p.net.incoming with
  | some _, _ | none, [] => .ok (p, false)
  | none, .error err :: _ => .error ⟨none, .transport err⟩
  | none, .ok stream :: rest =>
    .ok ({ streams := { p.streams with pendingUni := some ⟨stream, []⟩ }
           net := { p.net with incoming := rest } }, true)

def classifyUni (p : Plane) : Except Failure (Plane × Bool) :=
  match p.streams.pendingUni with
  | none => .ok (p, false)
  | some pending =>
    match readType pending.buf (p.net.inbox pending.stream) with
    | .error err => .error ⟨some pending.stream, err⟩
    | .ok (.incomplete buf) =>
      .ok ({ p.setInbox pending.stream [] with
        streams := { p.streams with pendingUni := some { pending with buf := buf } } }, false)
    | .ok (.complete ty leftover rest) =>
      (p.setInbox pending.stream rest).onBehalf pending.stream
        ({ p.streams with pendingUni := none }.place pending.stream ty leftover)

def pollSlot (slot : Option ℕ) (onChunk : Octets → Except ControlError ControlStreams)
    (onEnd : Except ControlError ControlStreams) (p : Plane) : Except Failure (Plane × Bool) :=
  match slot with
  | none => .ok (p, false)
  | some stream =>
    match p.net.inbox stream with
    | [] => .ok (p, false)
    | .failed err :: _ => .error ⟨some stream, .transport err⟩
    | .finished :: rest => (p.setInbox stream rest).onBehalf stream onEnd
    | .chunk data :: rest => (p.setInbox stream rest).onBehalf stream (onChunk data)

/-- The end of a critical stream. -/
def closed : Except ControlError ControlStreams := .error .closedCriticalStream

def readControl (p : Plane) : Except Failure (Plane × Bool) :=
  p.pollSlot (p.streams.slot .control)
    (fun data => .ok { p.streams with
      inControl := p.streams.inControl.map fun control =>
        { control with decoder := control.decoder.extend data } }) closed

def readFrames (p : Plane) : Except Failure (Plane × Bool) :=
  match p.streams.inControl with
  | none => .ok (p, false)
  | some control =>
    match p.streams.handleFrames (control.decoder.buffered + 1) with
    | .error err => .error ⟨some control.stream, err⟩
    | .ok (c, progressed) => .ok ({ p with streams := c }, progressed)

def readEncoder (p : Plane) : Except Failure (Plane × Bool) :=
  p.pollSlot (p.streams.slot .encoder) p.streams.feedEncoderStream closed

def readDecoder (p : Plane) : Except Failure (Plane × Bool) :=
  p.pollSlot (p.streams.slot .decoder) p.streams.feedDecoderStream closed

def readDiscard (p : Plane) : Except Failure (Plane × Bool) :=
  p.pollSlot (p.streams.slot .discard) (fun _ => .ok p.streams)
    (.ok { p.streams with inDiscard := none })

def stages : List (Plane → Except Failure (Plane × Bool)) :=
  [accept, classifyUni, readControl, readFrames, readEncoder, readDecoder, readDiscard]

def popEvent (p : Plane) : Option (ControlEvent × Plane) :=
  match p.streams.events with
  | [] => none
  | event :: rest => some (event, { p with streams := { p.streams with events := rest } })

/-- The streams that a round may poll, and those that it may come to poll. -/
def serviced (p : Plane) : List ℕ :=
  [Kind.control, .encoder, .decoder, .discard].filterMap p.streams.slot ++
    (p.streams.pendingUni.map PendingUni.stream).toList ++
    p.net.incoming.filterMap Except.toOption

/-- What a stream has to offer, in octets; every item counts for one more. -/
def weight (items : List Recv) : ℕ :=
  (items.map fun
    | .chunk data => data.length + 1
    | _ => 1).sum

/-- Every round with progress lowers this. -/
def waiting (p : Plane) : ℕ :=
  (p.serviced.map fun stream => weight (p.net.inbox stream)).sum + p.net.incoming.length +
    (p.streams.pendingUni.map fun u => u.buf.length).getD 0 +
    (p.streams.inControl.map fun control => control.decoder.buffered).getD 0

/-- `poll_read`; no event means that it returned `Pending`. -/
def pollRead (p : Plane) : Except Failure (Plane × Option ControlEvent) :=
  pollLoop popEvent (runStages stages) (p.waiting + 1) p

/-! ### Runs -/

/-- What can happen on a connection, as far as the control plane is concerned: the
peer opens a stream and sends on it, the connection fails, the driver polls and
flushes, and request streams decode and encode sections and come to their end. -/
inductive Action where
  | openUni
  | acceptFails (err : TransportError)
  | deliver (stream : ℕ) (item : Recv)
  | poll
  | flush
  | decode (stream : ℕ) (block : Octets) (now : ℕ)
  | encode (stream : ℕ) (lines : List Field)
  | finish (stream : ℕ)

def start (settings : LocalSettings) : Plane where
  streams := ControlStreams.new settings
  net := ⟨[], fun _ => [], 0, fun _ => []⟩

def setShared (p : Plane) (shared : SharedCodecs) : Plane :=
  { p with streams := { p.streams with shared := shared } }

/-- An error ends the connection. -/
def step (p : Plane) : Action → Except Failure Plane
  | .openUni =>
    .ok { p with net := { p.net with
      incoming := p.net.incoming ++ [.ok p.net.opened]
      opened := p.net.opened + 1 } }
  | .acceptFails err =>
    .ok { p with net := { p.net with incoming := p.net.incoming ++ [.error err] } }
  | .deliver stream item =>
    -- nothing comes on a stream that has not been opened
    if p.net.opened ≤ stream then .ok p
    else .ok { p with net := { p.net with
      inbox := Function.update p.net.inbox stream (p.net.inbox stream ++ [item])
      sent := Function.update p.net.sent stream (p.net.sent stream ++ [item]) } }
  | .poll => p.pollRead.map Prod.fst
  | .flush => .ok { p with streams := p.streams.flushDecoder }
  | .decode stream block now =>
    match p.streams.shared.decoder.decodeBlock block stream now with
    | .error err => .error ⟨none, .qpack err⟩
    | .ok (d, _) =>
      .ok { p with streams := { p.streams with
        shared := { p.streams.shared with decoder := d }
        emitted := p.streams.emitted ++
          d.decoderStream.drop p.streams.shared.decoder.decoderStream.length } }
  | .encode stream lines => .ok (p.setShared (p.streams.shared.encodeHeaders stream lines).1)
  | .finish stream => .ok (p.setShared (p.streams.shared.streamFinished stream))

def run (actions : List Action) (p : Plane) : Except Failure Plane := actions.foldlM step p

end Plane

end ZincioHttp.H3
