import ZincioHttp.H3.Request
import ZincioHttp.H3.SharedCodecs

/-! The receiving side of a request stream: the frames of its octets, in the order
that HTTP/3 allows, and the field sections they carry. A section that waits for an
insertion suspends the stream; the control plane leaves it among the unblocked
sections when it can be decoded. -/

namespace ZincioHttp.H3

open Qpack

/-- The last field is a note: how many sections have been given to the decoder. -/
structure RequestStream where
  streamId : ℕ
  frameDecoder : FrameDecoder
  awaitingHeaders : Bool
  headersBlocked : Bool
  recvData : List Octets
  trailersLines : Option (List Field)
  trailersBlocked : Bool
  trailersDone : Bool
  recvFinished : Bool
  sections : ℕ

/-- A request stream, what the transport has for it, and the shared codecs. The end
of a stream stays in its inbox. -/
structure Reader where
  stream : RequestStream
  inbox : List Recv
  shared : SharedCodecs

/-- What a poll comes to. `park` is `Pending` with a waker to be left first. -/
inductive Polled (α : Type) where
  | ready (result : Except StreamError α)
  | pending
  | park

/-- Frames of the control plane, which no request stream may carry. -/
def isControlFrameType (ty : ℕ) : Bool :=
  decide (ty ∈ [frameCancelPush, frameSettings, framePushPromise, frameGoaway, frameMaxPushId])

namespace RequestStream

def new (streamId : ℕ) (shared : SharedCodecs) : RequestStream where
  streamId := streamId
  frameDecoder := FrameDecoder.withMaxFieldSection shared.localMaxFieldSectionSize
  awaitingHeaders := true
  headersBlocked := false
  recvData := []
  trailersLines := none
  trailersBlocked := false
  trailersDone := false
  recvFinished := false
  sections := 0

/-- `poll_frame`, over what the transport has; `none` is `Pending`. -/
def pollFrame (inbox : List Recv) (rs : RequestStream) :
    RequestStream × List Recv × Option (Except StreamError (Option Frame)) :=
  if rs.frameDecoder.peekFrameType.any isControlFrameType then
    (rs, inbox, some (.error .frameUnexpected))
  else
    match rs.frameDecoder.nextFrame with
    | .error err => (rs, inbox, some (.error (.ofFrameError err)))
    | .ok (decoder, some frame) =>
      ({ rs with frameDecoder := decoder }, inbox, some (.ok (some frame)))
    | .ok (decoder, none) =>
      match inbox with
      | [] => ({ rs with frameDecoder := decoder }, [], none)
      | .chunk data :: rest => pollFrame rest { rs with frameDecoder := decoder.extend data }
      | .failed err :: rest =>
        ({ rs with frameDecoder := decoder }, .failed err :: rest, some (.error (.transport err)))
      | .finished :: rest =>
        if decoder.buffered ≠ 0 then
          ({ rs with frameDecoder := decoder }, .finished :: rest, some (.error .frame))
        else
          ({ rs with frameDecoder := decoder, recvFinished := true }, .finished :: rest,
            some (.ok none))

end RequestStream

namespace Reader

def pollFrame (r : Reader) : Reader × Option (Except StreamError (Option Frame)) :=
  let (stream, inbox, result) := RequestStream.pollFrame r.inbox r.stream
  ({ r with stream := stream, inbox := inbox }, result)

/-- `decode_block` of a request stream. -/
def decodeBlock (r : Reader) (block : Octets) (now : ℕ) :
    Except StreamError (Reader × Option (List Field)) :=
  match r.shared.decodeBlock block r.stream.streamId now with
  | .error err => .error err
  | .ok (shared, headers) =>
    .ok ({ r with
      stream := { r.stream with sections := r.stream.sections + 1 }
      shared := shared }, headers)

/-- `finish_recv`. -/
def finishRecv (r : Reader) : Reader :=
  { r with
    stream := { r.stream with recvFinished := true }
    shared := r.shared.streamFinished r.stream.streamId }

def pollHeaders (http : HttpCrate) (now : ℕ) (r : Reader) : Reader × Polled (Option Request) :=
  if r.stream.headersBlocked then
    match r.shared.takeUnblocked r.stream.streamId with
    | some (shared, released) =>
      ({ r with
        stream := { r.stream with headersBlocked := false, awaitingHeaders := false }
        shared := shared }, .ready ((buildRequest http released.headers).map some))
    | none => (r, .park)
  else if !r.stream.awaitingHeaders then (r, .ready (.ok none))
  else
    match r.pollFrame with
    | (r, none) => (r, .pending)
    | (r, some (.error err)) => (r, .ready (.error err))
    | (r, some (.ok none)) =>
      ({ r with stream := { r.stream with awaitingHeaders := false } }.finishRecv,
        .ready (.ok none))
    | (r, some (.ok (some (.headers block)))) =>
      match r.decodeBlock block now with
      | .error err => (r, .ready (.error err))
      | .ok (r, none) => ({ r with stream := { r.stream with headersBlocked := true } }, .pending)
      | .ok (r, some headers) =>
        match buildRequest http headers with
        | .error err => (r, .ready (.error err))
        | .ok request =>
          ({ r with stream := { r.stream with awaitingHeaders := false } },
            .ready (.ok (some request)))
    | (r, some (.ok (some _))) => (r, .ready (.error .frameUnexpected))

/-- After the trailers nothing but the end may come: the frame decoder skips unknown
frames and yields no others. -/
def pollAfterTrailers {α : Type} (r : Reader) : Reader × Polled (Option α) :=
  match r.pollFrame with
  | (r, none) => (r, .pending)
  | (r, some (.error err)) => (r, .ready (.error err))
  | (r, some (.ok none)) => (r.finishRecv, .ready (.ok none))
  | (r, some (.ok (some _))) => (r, .ready (.error .frameUnexpected))

def pollRecvData (now : ℕ) (r : Reader) : Reader × Polled (Option Octets) :=
  match r.stream.recvData with
  | data :: rest =>
    ({ r with stream := { r.stream with recvData := rest } }, .ready (.ok (some data)))
  | [] =>
    if r.stream.recvFinished then (r, .ready (.ok none))
    else if r.stream.awaitingHeaders || r.stream.headersBlocked || r.stream.trailersBlocked then
      (r, .pending)
    else if r.stream.trailersDone then r.pollAfterTrailers
    else
      match r.pollFrame with
      | (r, none) => (r, .pending)
      | (r, some (.error err)) => (r, .ready (.error err))
      | (r, some (.ok none)) => (r.finishRecv, .ready (.ok none))
      | (r, some (.ok (some (.data data)))) => (r, .ready (.ok (some data)))
      | (r, some (.ok (some (.headers block)))) =>
        match r.decodeBlock block now with
        | .error err => (r, .ready (.error err))
        | .ok (r, some headers) =>
          ({ r with stream := { r.stream with
            trailersDone := true, trailersLines := some headers } }, .ready (.ok none))
        | .ok (r, none) =>
          ({ r with stream := { r.stream with trailersBlocked := true } }, .ready (.ok none))
      | (r, some (.ok (some _))) => (r, .ready (.error .frameUnexpected))

def pollRecvTrailers (http : HttpCrate) (now : ℕ) (r : Reader) :
    Reader × Polled (Option (List Field)) :=
  match r.stream.trailersLines with
  | some lines =>
    ({ r with stream := { r.stream with trailersLines := none } },
      .ready ((headerMap http lines).map some))
  | none =>
    if r.stream.trailersBlocked then
      match r.shared.takeUnblocked r.stream.streamId with
      | some (shared, released) =>
        ({ r with
          stream := { r.stream with trailersBlocked := false, trailersDone := true }
          shared := shared }, .ready ((headerMap http released.headers).map some))
      | none => (r, .park)
    else if r.stream.recvFinished then (r, .ready (.ok none))
    else if r.stream.awaitingHeaders || r.stream.headersBlocked then (r, .pending)
    else if r.stream.trailersDone then r.pollAfterTrailers
    else
      match r.pollFrame with
      | (r, none) => (r, .pending)
      | (r, some (.error err)) => (r, .ready (.error err))
      | (r, some (.ok none)) => (r.finishRecv, .ready (.ok none))
      | (r, some (.ok (some (.headers block)))) =>
        match r.decodeBlock block now with
        | .error err => (r, .ready (.error err))
        | .ok (r, some headers) =>
          ({ r with stream := { r.stream with trailersDone := true } },
            .ready ((headerMap http headers).map some))
        | .ok (r, none) =>
          ({ r with stream := { r.stream with trailersBlocked := true } }, .pending)
      | (r, some (.ok (some _))) => (r, .ready (.error .frameUnexpected))

/-- The second half of `take_unblocked_for`: the waker is left. -/
def park (r : Reader) : Reader := { r with shared := r.shared.addWaiter r.stream.streamId }

end Reader

end ZincioHttp.H3
