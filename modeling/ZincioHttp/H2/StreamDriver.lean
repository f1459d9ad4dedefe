import ZincioHttp.H2.Stream

/-! The task of one stream, `StreamDriver`. It polls the handler, forwards interim and final
responses to the connection and then pipes the response body, all through a bounded channel.
One tick is one round of the loop in which the task is: the loop of `poll` itself, or that of
`poll_service` or `poll_body` in it. A poll that returns `Pending` leaves the inner loop, so
that the next tick is the first round of the next poll. -/

namespace ZincioHttp.H2

open H2.Hpack (Header)

/-! ### The handler and its response -/

/-- A frame of a response body. For data it is noted what `is_end_stream` says of the body
once the frame has been taken from it. -/
inductive BodyFrame where
  | data (data : Octets) (endStream : Bool)
  | trailers (trailers : List Header)
  /-- A kind of frame that is not known. -/
  | other
  deriving DecidableEq, Repr

/-- The answer of `poll_frame`. -/
inductive FramePoll where
  | pending
  | frame (frame : BodyFrame)
  | error
  | finished
  deriving DecidableEq, Repr

/-- A response: its head, whether its body is at its end, and what the body answers to each
poll. -/
structure Response where
  parts : Parts
  isEndStream : Bool
  frames : ℕ → FramePoll

inductive HintFate where
  | confirmed
  /-- The sender of the confirmation was dropped. -/
  | dropped
  deriving DecidableEq, Repr

/-- What the handler does up to and in one of its polls: the early hints it sends, whether it
has begun to read the request body, and its answer. -/
structure HandlerPoll where
  hints : List (List Header)
  readsBody : Bool
  result : Option (Except Unit Response)

/-- A handler answers by what became of the hint, if any, that was taken after each of its
earlier polls. -/
def Handler := List (Option HintFate) → HandlerPoll

structure DriverOptions where
  sendContinue : Bool
  /-- There is a flag that tells when the request body is read. -/
  sendContinueBody : Bool
  extendedConnect : Bool
  isHead : Bool

/-! ### The channel to the connection -/

/-- `msg_tx` with the channel behind it, as kanal documents its channels: a `SendFuture` is ready
once there is room, keeps the order, and fails when no receiver is left. Without a capacity it
is unbounded. -/
structure MsgChannel where
  capacity : Option ℕ
  queue : List StreamMsg
  receiver : Bool

inductive SendPoll where
  | ready (channel : MsgChannel)
  | closed
  | pending

namespace MsgChannel

def fits (ch : MsgChannel) (n : ℕ) : Bool :=
  ch.capacity.all fun capacity => decide (ch.queue.length + n ≤ capacity)

def push (ch : MsgChannel) (msg : StreamMsg) : MsgChannel := { ch with queue := ch.queue ++ [msg] }

/-- Polls a `SendFuture`. -/
def pollSend (ch : MsgChannel) (msg : StreamMsg) : SendPoll :=
  if !ch.receiver then .closed
  else if ch.fits 1 then .ready (ch.push msg)
  else .pending

end MsgChannel

/-! ### The states of the task -/

/-- `StreamDriverState::Service`, with the queue of early hints and what the handler has
done so far. -/
structure ServiceState where
  responseDone : Bool
  headers : Option Parts
  body : Option (ℕ → FramePoll)
  continueSent : Bool
  earlyHintsOpen : Bool
  hints : List (List Header)
  hintsClosed : Bool
  bodyRead : Bool
  /-- What the handler has learnt after each of its polls. -/
  history : List (Option HintFate)
  /-- The handler has returned. -/
  completed : Bool

/-- `StreamDriverState::Body`, with the number of polls of the body. -/
structure PipeState where
  headers : Option Parts
  frames : ℕ → FramePoll
  polls : ℕ
  bodyEnd : Bool
  firstFrame : Option BodyFrame

inductive DriverState where
  | service (s : ServiceState)
  | body (b : PipeState)

structure StreamDriver where
  /-- The message in `msg_tx_fut`. -/
  sending : Option StreamMsg
  queue : List StreamMsg
  done : Bool
  state : DriverState
  /-- In the loop of `poll_service` or `poll_body`. -/
  inside : Bool
  /-- The task has returned. -/
  ended : Bool
  /-- The hints that were confirmed to the handler. -/
  confirmed : List (List Header)
  /-- The hints that were taken and not confirmed. -/
  dropped : List (List Header)
  /-- The handler was polled after it had returned. -/
  repolled : Bool

def ServiceState.new : ServiceState where
  responseDone := false
  headers := none
  body := none
  continueSent := false
  earlyHintsOpen := true
  hints := []
  hintsClosed := false
  bodyRead := false
  history := []
  completed := false

def StreamDriver.new : StreamDriver where
  sending := none
  queue := []
  done := false
  state := .service .new
  inside := false
  ended := false
  confirmed := []
  dropped := []
  repolled := false

/-! ### Interim responses -/

def continueMsg : StreamMsg := .informational ⟨100, []⟩

def earlyHintsMsg (headers : List Header) : StreamMsg := .informational ⟨103, headers⟩

/-- `is_client_error` or `is_server_error`. -/
def isErrorStatus (status : ℕ) : Bool := decide (400 ≤ status) && decide (status < 600)

namespace ServiceState

def polled (s : ServiceState) (p : HandlerPoll) : ServiceState :=
  { s with
    hints := if s.hintsClosed then s.hints else s.hints ++ p.hints
    bodyRead := s.bodyRead || p.readsBody
    history := s.history ++ [none]
    completed := s.completed || p.result.isSome }

/-- What became of the hint that was taken after the last poll. -/
def noteHint (s : ServiceState) (fate : HintFate) : ServiceState :=
  { s with history := s.history.dropLast ++ [some fate] }

/-- A 100 Continue goes before this response. -/
def continueFirst (s : ServiceState) (o : DriverOptions) (r : Response) : Bool :=
  o.sendContinue && !s.continueSent && !isErrorStatus r.parts.status

/-- The handler waits for the body of a request that expects a 100 Continue. -/
def continueDue (s : ServiceState) (o : DriverOptions) : Bool :=
  o.sendContinue && !s.continueSent && (o.sendContinueBody && s.bodyRead)

end ServiceState

/-- The head is sent at once, and does or does not end the stream. -/
def DriverOptions.endStream (o : DriverOptions) (r : Response) : Bool := o.isHead || r.isEndStream

def DriverOptions.bodyOf (o : DriverOptions) (r : Response) : Option (ℕ → FramePoll) :=
  if o.isHead then none else some r.frames

namespace StreamDriver

/-- `send`; the flag says that it is `Ready`. -/
def sendNew (d : StreamDriver) (ch : MsgChannel) (msg : StreamMsg) :
    StreamDriver × MsgChannel × Bool :=
  match ch.pollSend msg with
  | .ready ch => ({ d with sending := none }, ch, true)
  | .closed => ({ d with sending := none }, ch, true)
  | .pending => ({ d with sending := some msg }, ch, false)

def send (d : StreamDriver) (ch : MsgChannel) (msg : StreamMsg) :
    StreamDriver × MsgChannel × Bool :=
  match d.sending with
  | none => d.sendNew ch msg
  | some old =>
    match ch.pollSend old with
    | .ready ch => sendNew { d with sending := none } ch msg
    | .closed => (d, ch, true)
    | .pending => (d, ch, false)

/-- `Pending` is returned. -/
def suspend (d : StreamDriver) : StreamDriver := { d with inside := false }

def conclude (d : StreamDriver) : StreamDriver :=
  { d with queue := d.queue ++ [.closed], done := true, inside := false }

def setService (d : StreamDriver) (s : ServiceState) : StreamDriver :=
  { d with state := .service s }

def setBody (d : StreamDriver) (b : PipeState) : StreamDriver := { d with state := .body b }

/-! ### `poll_service` -/

/-- The head of the final response, sent at once or kept for the first frame. -/
def sendHead (o : DriverOptions) (s : ServiceState) (r : Response) (d : StreamDriver)
    (ch : MsgChannel) : StreamDriver × MsgChannel :=
  if o.endStream r || o.extendedConnect then
    match d.send ch (.headers r.parts (o.endStream r)) with
    | (d, ch, true) => (d.setService { s with body := o.bodyOf r, responseDone := true }, ch)
    | (d, ch, false) => ((d.setService s).suspend, ch)
  else
    (d.setService { s with headers := some r.parts, body := o.bodyOf r, responseDone := true }, ch)

def respond (o : DriverOptions) (s : ServiceState) (r : Response) (d : StreamDriver)
    (ch : MsgChannel) : StreamDriver × MsgChannel :=
  if s.continueFirst o r then
    match d.send ch continueMsg with
    | (d, ch, true) => sendHead o { s with continueSent := true } r d ch
    | (d, ch, false) => ((d.setService s).suspend, ch)
  else sendHead o { s with continueSent := s.continueSent || o.sendContinue } r d ch

def wait (o : DriverOptions) (reset : Bool) (s : ServiceState) (d : StreamDriver)
    (ch : MsgChannel) : StreamDriver × MsgChannel :=
  if reset then ((d.setService s).conclude, ch)
  else if s.continueDue o then
    match d.send ch continueMsg with
    | (d, ch, true) => (d.setService { s with continueSent := true }, ch)
    | (d, ch, false) => ((d.setService s).suspend, ch)
  else if s.earlyHintsOpen then
    match s.hints with
    | hint :: hints =>
      let s := { s with hints := hints }
      match d.send ch (earlyHintsMsg hint) with
      | (d, ch, true) =>
        ({ d.setService (s.noteHint .confirmed) with confirmed := d.confirmed ++ [hint] }, ch)
      | (d, ch, false) =>
        (suspend { d.setService (s.noteHint .dropped) with dropped := d.dropped ++ [hint] }, ch)
    | [] =>
      if s.hintsClosed then (d.setService { s with earlyHintsOpen := false }, ch)
      else ((d.setService s).suspend, ch)
  else ((d.setService s).suspend, ch)

/-- One round of the loop of `poll_service`. -/
def pollService (o : DriverOptions) (handler : Handler) (reset : Bool) (s : ServiceState)
    (d : StreamDriver) (ch : MsgChannel) : StreamDriver × MsgChannel :=
  if s.responseDone then
    match s.body with
    | some frames => (suspend (d.setBody ⟨s.headers, frames, 0, false, none⟩), ch)
    | none => (d.conclude, ch)
  else
    let p := handler s.history
    let d := { d with repolled := d.repolled || s.completed }
    let s := s.polled p
    match p.result with
    | some (.ok r) => respond o s r d ch
    | some (.error ()) => (d.setService { s with responseDone := true }, ch)
    | none => wait o reset s d ch

/-! ### `poll_body` -/

end StreamDriver

/-- The next frame: the one that was put back, or the body is polled. -/
def PipeState.nextFrame (b : PipeState) : FramePoll × PipeState :=
  match b.firstFrame with
  | some frame => (.frame frame, { b with firstFrame := none })
  | none => (b.frames b.polls, { b with polls := b.polls + 1 })

namespace StreamDriver

/-- A message is on its way while the body is piped. -/
def pipe (d : StreamDriver) (b : PipeState) (msg : StreamMsg) : StreamDriver :=
  { d.setBody b with sending := some msg }

def onFramePoll (b : PipeState) (d : StreamDriver) : FramePoll → StreamDriver
  | .frame frame =>
    match b.headers with
    | some parts =>
      d.pipe { b with headers := none, firstFrame := some frame } (.headers parts false)
    | none =>
      match frame with
      | .data data endStream =>
        if data.isEmpty && !endStream then d.setBody b else d.pipe b (.data data endStream)
      | .trailers trailers => d.pipe { b with bodyEnd := true } (.trailers trailers)
      | .other => (d.setBody b).conclude
  | .error => d.pipe { b with bodyEnd := true } (.reset Reason.internalError.code)
  | .finished =>
    match b.headers with
    | some parts => d.pipe { b with headers := none, bodyEnd := true } (.headers parts true)
    | none => d.pipe { b with bodyEnd := true } (.data [] true)
  | .pending => (d.setBody b).suspend

/-- The rest of a round once no message is on its way. -/
def pollFrame (reset : Bool) (b : PipeState) (d : StreamDriver) : StreamDriver :=
  if b.bodyEnd || reset then d.conclude
  else d.onFramePoll b.nextFrame.2 b.nextFrame.1

/-- One round of the loop of `poll_body`. -/
def pollBody (reset : Bool) (b : PipeState) (d : StreamDriver) (ch : MsgChannel) :
    StreamDriver × MsgChannel :=
  match d.sending with
  | none => (d.pollFrame reset b, ch)
  | some msg =>
    match ch.pollSend msg with
    | .ready ch => (pollFrame reset b { d with sending := none }, ch)
    | .closed => (conclude { d with sending := none }, ch)
    | .pending => (d.suspend, ch)

/-! ### `poll` -/

/-- One round of the outer loop, up to the call of `poll_service` or `poll_body`. -/
def pollOuter (d : StreamDriver) (ch : MsgChannel) : StreamDriver × MsgChannel :=
  match d.sending with
  | some msg =>
    match ch.pollSend msg with
    | .ready ch => ({ d with sending := none }, ch)
    | .closed => ({ d with sending := none, ended := true }, ch)
    | .pending => (d, ch)
  | none =>
    match d.queue with
    | msg :: queue => ({ d with queue := queue, sending := some msg }, ch)
    | [] => if d.done then ({ d with ended := true }, ch) else ({ d with inside := true }, ch)

def tick (o : DriverOptions) (handler : Handler) (reset : Bool) (d : StreamDriver)
    (ch : MsgChannel) : StreamDriver × MsgChannel :=
  if d.ended then (d, ch)
  else if d.inside then
    match d.state with
    | .service s => pollService o handler reset s d ch
    | .body b => pollBody reset b d ch
  else d.pollOuter ch

end StreamDriver

end ZincioHttp.H2
