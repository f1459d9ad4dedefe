import ZincioHttp.H2.StreamDriver
import ZincioHttp.H3.Control
import ZincioHttp.H3.SendStream

/-! The task of one request, `handle_request`, among the tasks of a connection. It reads the
request, polls the handler and forwards its interim responses, sends the head of the final
response and pipes the body. One tick is one poll of what the task awaits; what it does between
two awaits belongs to the tick before. -/

namespace ZincioHttp.H3

open Qpack

/-- The other operations on a QUIC stream. -/
structure QuicStream (τ : Type) extends SendHalf τ where
  pollReset : τ → ℕ → τ × Sent
  pollStopSending : τ → ℕ → τ × Sent
  pollStopped : τ → τ × Sent

/-! ### The handler and its response -/

inductive BodyFrame where
  | data (data : Octets)
  | trailers (trailers : List Field)
  /-- A kind of frame that is not known. -/
  | other
  deriving DecidableEq, Repr

/-- The answer of `poll_frame`. -/
inductive FramePoll where
  | pending
  | frame (frame : BodyFrame)
  | error
  | finished
  deriving DecidableEq, Repr

/-- A response: its head, what its body says of itself, and what the body answers to each poll. -/
structure Response where
  status : ℕ
  headers : List Field
  isEndStream : Bool
  /-- `size_hint().exact()`. -/
  exactSize : Option ℕ
  frames : ℕ → FramePoll

/-- What the handler does up to and in one of its polls: the early hints it sends, whether the
request body has kept it waiting, whether it wants the upgrade, and its answer. -/
structure HandlerPoll where
  hints : List (List Field)
  readsBody : Bool
  upgrades : Bool
  result : Option (Except Unit Response)

/-- A handler answers by the request and by what it was told after each of its earlier polls of
the hint, if any, that was taken then. -/
abbrev Handler := Request → List (Option (Except StreamError Unit)) → HandlerPoll

structure TaskOptions where
  sendContinueResponse : Bool
  /-- The date at a time, if it is to be sent. -/
  date : ℕ → Option Octets

/-- `is_100_continue`. -/
def TaskOptions.is100Continue (o : TaskOptions) (request : Request) : Bool :=
  o.sendContinueResponse &&
    match request.headers.find? fun f => decide (f.name = octets "expect") with
    | none => false
    | some f => f.value.all isVisible && eqIgnoreAsciiCase f.value (octets "100-continue")

/-! ### The head of a response -/

/-- `HTTP3_INVALID_HEADERS`. -/
def http3InvalidHeaders : List Octets :=
  ["keep-alive", "proxy-connection", "connection", "transfer-encoding", "upgrade"].map octets

def hasHeader (headers : List Field) (name : Octets) : Bool :=
  headers.any fun f => decide (f.name = name)

def removeHeader (headers : List Field) (name : Octets) : List Field :=
  headers.filter fun f => decide (f.name ≠ name)

def removeInvalidHttp3Headers (headers : List Field) : List Field :=
  let headers := http3InvalidHeaders.foldl removeHeader headers
  match headers.find? fun f => decide (f.name = octets "te") with
  | none => headers
  | some f => if f.value = octets "trailers" then headers else removeHeader headers (octets "te")

/-- `entry(name).or_insert(value)`. -/
def orInsert (headers : List Field) (name value : Octets) : List Field :=
  if hasHeader headers name then headers else headers ++ [⟨name, value⟩]

/-- The date is added, what HTTP/3 does not allow is removed, and the length is announced. -/
def Response.finalHeaders (date : Option Octets) (r : Response) : List Field :=
  let headers := match date with
    | none => r.headers
    | some date => orInsert r.headers (octets "date") date
  let headers := removeInvalidHttp3Headers headers
  if r.isEndStream then headers
  else
    match r.exactSize with
    | none => headers
    | some size => orInsert headers (octets "content-length") (octets (toString size))

/-! ### The states of the task -/

/-- While the handler runs: the queue of early hints, and what the handler has done so far. -/
structure ServiceState where
  request : Request
  continueSent : Bool
  earlyHintsOpen : Bool
  hints : List (List Field)
  hintsClosed : Bool
  bodyRead : Bool
  upgraded : Bool
  /-- What the handler has been told after each of its polls. -/
  history : List (Option (Except StreamError Unit))

namespace ServiceState

def new (request : Request) : ServiceState where
  request := request
  continueSent := false
  earlyHintsOpen := true
  hints := []
  hintsClosed := false
  bodyRead := false
  upgraded := false
  history := []

def polled (s : ServiceState) (p : HandlerPoll) : ServiceState :=
  { s with
    hints := if s.hintsClosed then s.hints else s.hints ++ p.hints
    bodyRead := s.bodyRead || p.readsBody
    upgraded := s.upgraded || p.upgrades
    history := s.history ++ [none] }

/-- The handler is told of the hint that was taken after its last poll. -/
def noteHint (s : ServiceState) (result : Except StreamError Unit) : ServiceState :=
  { s with history := s.history.dropLast ++ [some result] }

def isHead (s : ServiceState) : Bool := decide (s.request.method = octets "HEAD")

/-- Only a CONNECT request can be upgraded. -/
def isConnect (s : ServiceState) : Bool := decide (s.request.method = octets "CONNECT")

end ServiceState

/-- A response that is being sent. A 100 Continue goes out because the handler reads the body, or
before the final response. -/
inductive Head where
  | earlyHints (headers : List Field)
  | continueRead
  | continueFirst (response : Response)
  | final (response : Response)

namespace Head

def status : Head → ℕ
  | earlyHints _ => 103
  | continueRead | continueFirst _ => 100
  | final response => response.status

def headers : Head → List Field
  | earlyHints headers => headers
  | continueRead | continueFirst _ => []
  | final response => response.headers

/-- It is sent by `send_response`, and not by `send_interim_response`. -/
def waits : Head → Bool
  | earlyHints _ | final _ => true
  | continueRead | continueFirst _ => false

end Head

/-- Why a task has come to its end before its time. -/
inductive Cause where
  | refused (err : StreamError)
  | send (err : StreamError)
  | handler
  | body
  deriving DecidableEq, Repr

inductive TaskPhase where
  | reading
  /-- A malformed request: the stream is reset, and then the peer is asked to stop. -/
  | resetting
  | stopSending
  | service (s : ServiceState)
  /-- About to look for the encoder. -/
  | awaitEncoder (s : ServiceState) (head : Head)
  /-- In `encoder_notify.notified()`. -/
  | parked (s : ServiceState) (head : Head) (notified : Bool)
  | sending (s : ServiceState) (head : Head)
  | piping (frames : ℕ → FramePoll) (polls : ℕ)
  | sendingData (frames : ℕ → FramePoll) (polls : ℕ) (data : Octets)
  | sendingTrailers (trailers : List Field)
  | finishing
  | stopping
  | aborting (cause : Cause)
  /-- The stream has passed to the send task of the upgrade. -/
  | upgraded
  | ended (cause : Option Cause)

/-- A request stream and its task. The last two fields are for the connection: the code it is to
be closed with, and a note that a field section was rejected while there was no encoder. -/
structure RequestTask (τ : Type) where
  stream : RequestStream
  inbox : List Recv
  sender : Sender τ
  phase : TaskPhase
  closeCode : Option ℕ
  unbound : Bool

namespace RequestTask

variable {τ : Type}

def new (streamId : ℕ) (stream : τ) (shared : SharedCodecs) : RequestTask τ where
  stream := RequestStream.new streamId shared
  inbox := []
  sender := Sender.new streamId stream
  phase := .reading
  closeCode := none
  unbound := false

def enter (t : RequestTask τ) (phase : TaskPhase) : RequestTask τ := { t with phase := phase }

/-! ### Up to the final head -/

def refuse (t : RequestTask τ) (err : StreamError) : RequestTask τ :=
  if err.isStreamScoped then t.enter (.ended (some (.refused err)))
  else if err = .message then t.enter .resetting
  else { t.enter (.ended (some (.refused err))) with closeCode := some err.h3Code }

def pollReading (http : HttpCrate) (now : ℕ) (shared : SharedCodecs) (t : RequestTask τ) :
    SharedCodecs × RequestTask τ :=
  let (r, result) := Reader.pollHeaders http now ⟨t.stream, t.inbox, shared⟩
  let t := { t with stream := r.stream, inbox := r.inbox }
  match result with
  | .pending => (r.shared, t)
  | .park => (r.park.shared, t)
  | .ready (.ok (some request)) => (r.shared, t.enter (.service (.new request)))
  | .ready (.ok none) => (r.shared, t.enter (.ended none))
  | .ready (.error err) => (r.shared, t.refuse err)

def respond (o : TaskOptions) (now : ℕ) (s : ServiceState) (r : Response) (t : RequestTask τ) :
    RequestTask τ :=
  let r := { r with headers := r.finalHeaders (o.date now) }
  if o.is100Continue s.request && !s.continueSent && !H2.isErrorStatus r.status then
    t.enter (.sending s (.continueFirst r))
  else t.enter (.awaitEncoder s (.final r))

/-- The handler is not ready. Once the hints are closed only the handler is awaited. -/
def wait (o : TaskOptions) (s : ServiceState) (t : RequestTask τ) : RequestTask τ :=
  if !s.earlyHintsOpen then t.enter (.service s)
  else
    match s.hints with
    | hint :: hints => t.enter (.awaitEncoder { s with hints := hints } (.earlyHints hint))
    | [] =>
      if s.hintsClosed then t.enter (.service { s with earlyHintsOpen := false })
      else if !s.continueSent && o.is100Continue s.request && s.bodyRead then
        t.enter (.sending { s with continueSent := true } .continueRead)
      else t.enter (.service s)

/-- One round of the loop over the handler and its hints. -/
def pollService (o : TaskOptions) (handler : Handler) (now : ℕ) (s : ServiceState)
    (t : RequestTask τ) : RequestTask τ :=
  let p := handler s.request s.history
  let s := s.polled p
  match p.result with
  | some (.ok r) => t.respond o now s r
  | some (.error ()) => t.enter (.aborting .handler)
  | none => t.wait o s

/-- A round of `wait_for_encoder`. -/
def lookForEncoder (shared : SharedCodecs) (s : ServiceState) (head : Head) (t : RequestTask τ) :
    RequestTask τ :=
  if shared.encoder.isSome then t.enter (.sending s head) else t.enter (.parked s head false)

/-- What follows the final head. -/
def afterHead (s : ServiceState) (r : Response) (t : RequestTask τ) : RequestTask τ :=
  if s.isConnect && s.upgraded then t.enter .upgraded
  else if !r.isEndStream && !s.isHead then t.enter (.piping r.frames 0)
  else t.enter .finishing

/-- A head has been sent, or has failed. -/
def onSent (s : ServiceState) (t : RequestTask τ) : Head → Except StreamError Unit → RequestTask τ
  | .earlyHints _, result => t.enter (.service (s.noteHint result))
  | .continueRead, .ok () => t.enter (.service s)
  | .continueFirst r, .ok () => t.enter (.awaitEncoder s (.final r))
  | .final r, .ok () => t.afterHead s r
  | _, .error err => t.enter (.aborting (.send err))

/-- Notes a rejection. -/
def noteResult (t : RequestTask τ) (shared : SharedCodecs) (result : Except StreamError Unit) :
    RequestTask τ :=
  { t with unbound := t.unbound || (shared.encoder.isNone && !result.isOk) }

def pollSending (T : QuicStream τ) (shared : SharedCodecs) (s : ServiceState) (head : Head)
    (t : RequestTask τ) : SharedCodecs × RequestTask τ :=
  let (shared', sender, result) :=
    t.sender.pollSendResponse T.toSendHalf shared head.status head.headers
  let t := { t with sender := sender }
  match result with
  | .ready result => (shared', onSent s (t.noteResult shared result) head result)
  | .pending | .park => (shared', t)

/-! ### The body -/

def pollPiping (frames : ℕ → FramePoll) (polls : ℕ) (t : RequestTask τ) : RequestTask τ :=
  match frames polls with
  | .pending => t.enter (.piping frames (polls + 1))
  | .frame (.data data) =>
    if data.isEmpty then t.enter (.piping frames (polls + 1))
    else t.enter (.sendingData frames (polls + 1) data)
  | .frame (.trailers trailers) => t.enter (.sendingTrailers (removeInvalidHttp3Headers trailers))
  | .frame .other => t.enter (.piping frames (polls + 1))
  | .error => t.enter (.aborting .body)
  | .finished => t.enter .finishing

def pollSendingData (T : QuicStream τ) (frames : ℕ → FramePoll) (polls : ℕ) (data : Octets)
    (t : RequestTask τ) : RequestTask τ :=
  let (sender, result) := t.sender.pollSendData T.toSendHalf data
  let t := { t with sender := sender }
  match result with
  | .ready (.ok ()) => t.enter (.piping frames polls)
  | .ready (.error err) => t.enter (.aborting (.send err))
  | .pending | .park => t

def pollSendingTrailers (T : QuicStream τ) (shared : SharedCodecs) (trailers : List Field)
    (t : RequestTask τ) : SharedCodecs × RequestTask τ :=
  let (shared', sender, result) := t.sender.pollSendTrailers T.toSendHalf shared trailers
  let t := { t with sender := sender }
  match result with
  | .ready (.ok ()) => (shared', t.enter .finishing)
  | .ready (.error err) =>
    (shared', (t.noteResult shared (.error err)).enter (.aborting (.send err)))
  | .pending | .park => (shared', t)

/-- The stream is finished; a failure is only reported. -/
def pollFinishing (T : QuicStream τ) (t : RequestTask τ) : RequestTask τ :=
  let (sender, result) := t.sender.pollFinish T.toSendHalf
  let t := { t with sender := sender }
  match result with
  | .ready _ => t.enter .stopping
  | .pending | .park => t

/-- An operation of the stream after which the task goes on, whatever has come of it. -/
def pollOperation (op : τ → τ × Sent) (next : TaskPhase) (t : RequestTask τ) : RequestTask τ :=
  let (stream, answer) := op t.sender.stream
  let t := { t with sender := { t.sender with stream := stream } }
  match answer with
  | .pending => t
  | .ready | .failed _ => t.enter next

def tick (T : QuicStream τ) (http : HttpCrate) (o : TaskOptions) (handler : Handler) (now : ℕ)
    (shared : SharedCodecs) (t : RequestTask τ) : SharedCodecs × RequestTask τ :=
  match t.phase with
  | .reading => t.pollReading http now shared
  | .resetting => (shared, t.pollOperation (T.pollReset · StreamError.message.h3Code) .stopSending)
  | .stopSending =>
    (shared, t.pollOperation (T.pollStopSending · StreamError.message.h3Code)
      (.ended (some (.refused .message))))
  | .service s => (shared, t.pollService o handler now s)
  | .awaitEncoder s head => (shared, t.lookForEncoder shared s head)
  | .parked s head notified => (shared, if notified then t.lookForEncoder shared s head else t)
  | .sending s head => t.pollSending T shared s head
  | .piping frames polls => (shared, t.pollPiping frames polls)
  | .sendingData frames polls data => (shared, t.pollSendingData T frames polls data)
  | .sendingTrailers trailers => t.pollSendingTrailers T shared trailers
  | .finishing => (shared, t.pollFinishing T)
  | .stopping => (shared, t.pollOperation T.pollStopped (.ended none))
  | .aborting cause =>
    (shared, t.pollOperation (T.pollReset · ErrorCode.internal.code) (.ended (some cause)))
  | .upgraded | .ended _ => (shared, t)

/-- `notify_waiters`, as far as this task is concerned. -/
def notify (t : RequestTask τ) : RequestTask τ :=
  match t.phase with
  | .parked s head _ => t.enter (.parked s head true)
  | _ => t

end RequestTask

/-! ### The tasks of a connection -/

/-- The control plane and the request tasks, by their streams. -/
structure Serving (τ : Type) where
  plane : Plane
  tasks : ℕ → Option (RequestTask τ)

namespace Serving

variable {τ : Type}

/-- The control plane does something, a request stream is accepted, something arrives on one, or a
task is polled. -/
inductive Action (τ : Type) where
  | plane (a : Plane.Action)
  | accept (stream : ℕ) (transport : τ)
  | deliver (stream : ℕ) (item : Recv)
  | tick (stream : ℕ) (now : ℕ)

def start (settings : LocalSettings) : Serving τ := ⟨.start settings, fun _ => none⟩

def shared (c : Serving τ) : SharedCodecs := c.plane.streams.shared

def setTask (c : Serving τ) (stream : ℕ) (t : RequestTask τ) : Serving τ :=
  { c with tasks := Function.update c.tasks stream (some t) }

/-- Whoever waits for the encoder is notified when SETTINGS create it. -/
def notifyWaiters (before : SharedCodecs) (c : Serving τ) : Serving τ :=
  if before.encoder.isNone && c.shared.encoder.isSome then
    { c with tasks := fun stream => (c.tasks stream).map RequestTask.notify }
  else c

/-- An error of the control plane ends the connection. -/
def step (T : QuicStream τ) (http : HttpCrate) (o : TaskOptions) (handler : ℕ → Handler)
    (c : Serving τ) : Action τ → Except Failure (Serving τ)
  | .plane a => (c.plane.step a).map fun p => notifyWaiters c.shared { c with plane := p }
  | .accept stream transport =>
    match c.tasks stream with
    | some _ => .ok c
    | none => .ok (c.setTask stream (.new stream transport c.shared))
  | .deliver stream item =>
    match c.tasks stream with
    | none => .ok c
    | some t => .ok (c.setTask stream { t with inbox := t.inbox ++ [item] })
  | .tick stream now =>
    match c.tasks stream with
    | none => .ok c
    | some t =>
      let (shared, t) := t.tick T http o (handler stream) now c.shared
      .ok ({ c with plane := c.plane.setShared shared }.setTask stream t)

def run (T : QuicStream τ) (http : HttpCrate) (o : TaskOptions) (handler : ℕ → Handler)
    (actions : List (Action τ)) (c : Serving τ) : Except Failure (Serving τ) :=
  actions.foldlM (step T http o handler) c

end Serving

end ZincioHttp.H3
