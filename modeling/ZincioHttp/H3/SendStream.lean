import ZincioHttp.H3.RequestStream

/-! The sending side of a request stream. An operation writes one frame; while the transport
is not ready it is polled again, and then only drains what the first poll has queued. -/

namespace ZincioHttp.H3

open Qpack

structure SendHalf (τ : Type) where
  pollSend : τ → Octets → τ × Sent
  pollFinish : τ → τ × Sent

/-- The operation that is to be polled again. -/
inductive PendingSend where
  | none
  | responseHeaders (status : ℕ)
  | data
  | trailers
  deriving DecidableEq, Repr

structure Sender (τ : Type) where
  streamId : ℕ
  stream : τ
  sentHeaders : Bool
  sentTrailers : Bool
  pendingSend : PendingSend
  sendBuf : List Octets

/-- `WRITE_INLINE_LIMIT`. -/
def writeInlineLimit : ℕ := 16384

/-- `is_informational`. -/
def isInformational (status : ℕ) : Bool := decide (100 ≤ status) && decide (status < 200)

/-- `StatusCode::as_str`. -/
def statusText (status : ℕ) : Octets :=
  [UInt8.ofNat (0x30 + status / 100), UInt8.ofNat (0x30 + status / 10 % 10),
    UInt8.ofNat (0x30 + status % 10)]

/-- What the transport's answer comes to. -/
def Sent.polled : Sent → Polled Unit
  | .ready => .ready (.ok ())
  | .pending => .pending
  | .failed err => .ready (.error (.transport err))

namespace Sender

variable {τ : Type}

def new (streamId : ℕ) (stream : τ) : Sender τ := ⟨streamId, stream, false, false, .none, []⟩

/-- Sends what is queued, one element at a time. -/
def drain (T : SendHalf τ) : τ → List Octets → τ × List Octets × Sent
  | stream, [] => (stream, [], .ready)
  | stream, bytes :: rest =>
    match T.pollSend stream bytes with
    | (stream, .ready) => drain T stream rest
    | (stream, answer) => (stream, bytes :: rest, answer)

def pollWrite (T : SendHalf τ) (s : Sender τ) (bytes : Octets) : Sender τ × Sent :=
  let (stream, rest, answer) :=
    drain T s.stream (if bytes.isEmpty then s.sendBuf else s.sendBuf ++ [bytes])
  ({ s with stream := stream, sendBuf := rest }, answer)

/-- Elements of the queue for two adjacent byte ranges. -/
def parts (first second : Octets) : List Octets :=
  if first.isEmpty then if second.isEmpty then [] else [second]
  else if second.isEmpty then [first]
  else if first.length + second.length ≤ writeInlineLimit then [first ++ second]
  else [first, second]

def pollWriteParts (T : SendHalf τ) (s : Sender τ) (first second : Octets) : Sender τ × Sent :=
  pollWrite T { s with sendBuf := s.sendBuf ++ parts first second } []

/-- The operation is over, or is polled again. -/
def settle (s : Sender τ) : Sent → Sender τ × Polled Unit
  | .ready => ({ s with pendingSend := .none }, .ready (.ok ()))
  | answer => (s, answer.polled)

/-- The head of a response is over; a final one is not to be sent twice. -/
def settleResponse (s : Sender τ) : Sent → Sender τ × Polled Unit
  | .ready =>
    let final := match s.pendingSend with
      | .responseHeaders status => !isInformational status
      | _ => false
    ({ s with pendingSend := .none, sentHeaders := s.sentHeaders || final }, .ready (.ok ()))
  | answer => (s, answer.polled)

/-- No name of a header map may be that of a pseudo-field. -/
def hasPseudo (headers : List Field) : Bool :=
  headers.any fun f => decide (f.name.head? = some 0x3a)

def pollSendResponse (T : SendHalf τ) (shared : SharedCodecs) (s : Sender τ) (status : ℕ)
    (headers : List Field) : SharedCodecs × Sender τ × Polled Unit :=
  if s.sentHeaders && !isInformational status then (shared, s, .ready (.error .message))
  else
    match s.pendingSend with
    | .responseHeaders _ =>
      let (s, answer) := s.pollWrite T []
      (shared, s.settleResponse answer)
    | .none =>
      if hasPseudo headers then (shared, s, .ready (.error .message))
      else
        match shared.encodeHeaders s.streamId
          (⟨octets ":status", statusText status⟩ :: headers) with
        | (shared, .error err) => (shared, s, .ready (.error err))
        | (shared, .ok (frameHeader, fieldSection)) =>
          let s := { s with pendingSend := .responseHeaders status }
          let (s, answer) := s.pollWriteParts T frameHeader fieldSection
          (shared, s.settleResponse answer)
    | _ => (shared, s, .ready (.error .message))

/-- The header of a DATA frame. -/
def dataHeader (data : Octets) : Octets := writeVarint frameData ++ writeVarint data.length

def pollSendData (T : SendHalf τ) (s : Sender τ) (data : Octets) : Sender τ × Polled Unit :=
  match s.pendingSend with
  | .data =>
    let (s, answer) := s.pollWrite T []
    s.settle answer
  | .none =>
    let s := { s with pendingSend := .data }
    let (s, answer) := s.pollWriteParts T (dataHeader data) data
    s.settle answer
  | _ => (s, .ready (.error .message))

def pollSendTrailers (T : SendHalf τ) (shared : SharedCodecs) (s : Sender τ)
    (trailers : List Field) : SharedCodecs × Sender τ × Polled Unit :=
  if !s.sentHeaders then (shared, s, .ready (.error .message))
  else
    match s.pendingSend with
    | .trailers =>
      let (s, answer) := s.pollWrite T []
      (shared, s.settle answer)
    | .none =>
      if hasPseudo trailers then (shared, s, .ready (.error .message))
      else
        match shared.encodeHeaders s.streamId trailers with
        | (shared, .error err) => (shared, s, .ready (.error err))
        | (shared, .ok (frameHeader, fieldSection)) =>
          let s := { s with pendingSend := .trailers }
          match s.pollWriteParts T frameHeader fieldSection with
          | (s, .ready) => (shared, { s with sentTrailers := true }.settle .ready)
          | (s, answer) => (shared, s.settle answer)
    | _ => (shared, s, .ready (.error .message))

/-- After all queued data the stream is finished. -/
def pollFinish (T : SendHalf τ) (s : Sender τ) : Sender τ × Polled Unit :=
  match s.pollWrite T [] with
  | (s, .ready) =>
    let (stream, answer) := T.pollFinish s.stream
    ({ s with stream := stream }, answer.polled)
  | (s, answer) => (s, answer.polled)

end Sender

end ZincioHttp.H3
