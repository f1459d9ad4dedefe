import ZincioHttp.H3.SendStream

/-! A request stream that was handed over to the application as raw octets. Reading goes
through the stream itself, under its lock; what is written goes through a channel to a task,
which sends it under the same lock. The future of a send keeps the guard while the transport
is not ready. -/

namespace ZincioHttp.H3

open Qpack

/-! ### The channel -/

/-- The channel from the consumer to the task, `kanal::bounded_async(1)`, as kanal documents
it. A `send` waits while the channel is full and fails once it is closed; `close` ends both
sides and drops what is in between; after the last sender `recv` gives what is left. -/
structure Bridge where
  queue : List Octets
  /-- `close` was called. -/
  closed : Bool
  /-- The sender was dropped. -/
  dropped : Bool
  deriving DecidableEq, Repr

inductive BridgeRecv where
  | item (data : Octets)
  | closed
  | pending
  deriving DecidableEq, Repr

namespace Bridge

def new : Bridge := ⟨[], false, false⟩

/-- Polls a `send` once; `none` is that it was not accepted. -/
def send (b : Bridge) (data : Octets) : Option Bridge :=
  if !b.closed && b.queue.isEmpty then some { b with queue := [data] } else none

def close (b : Bridge) : Bridge := { b with queue := [], closed := true }

def recv (b : Bridge) : Bridge × BridgeRecv :=
  if b.closed then (b, .closed)
  else
    match b.queue with
    | data :: queue => ({ b with queue := queue }, .item data)
    | [] => if b.dropped then (b, .closed) else (b, .pending)

/-- Nothing more can be sent. -/
def shut (b : Bridge) : Bool := b.closed || b.dropped

end Bridge

/-! ### Reading -/

/-- The reading half of `H3Upgraded`. -/
structure ReadHalf where
  reader : Reader
  buf : Octets

/-- What comes of a round of the loop in `poll_read`. -/
inductive ReadPoll where
  | data (data : Octets)
  /-- Nothing is put into the buffer of the caller. -/
  | finished
  | failed (err : StreamError)
  /-- An empty chunk: another round. -/
  | again
  /-- `Pending`, with the waker left in the transport. -/
  | pending
  /-- `Pending` from the lock. The future that would be woken is dropped with the poll. -/
  | locked
  deriving DecidableEq, Repr

/-- What comes of `poll_recv_data` when the buffer is empty, with room for `n` octets. -/
def ReadHalf.received (n : ℕ) (r : Reader) : Polled (Option Octets) → ReadHalf × ReadPoll
  | .ready (.ok none) => (⟨r, []⟩, .finished)
  | .ready (.ok (some data)) =>
    if data.isEmpty then (⟨r, []⟩, .again) else (⟨r, data.drop n⟩, .data (data.take n))
  | .ready (.error err) => (⟨r, []⟩, .failed err)
  | .pending | .park => (⟨r, []⟩, .pending)

/-- One round of `poll_read` with room for `n` octets. -/
def ReadHalf.pollRead (locked : Bool) (n now : ℕ) (h : ReadHalf) : ReadHalf × ReadPoll :=
  if h.buf.isEmpty then
    if locked then (h, .locked)
    else
      let (r, result) := h.reader.pollRecvData now
      received n r result
  else ({ h with buf := h.buf.drop n }, .data (h.buf.take n))

/-- The transport has something more for the stream. -/
def ReadHalf.deliver (h : ReadHalf) (item : Recv) : ReadHalf :=
  { h with reader := { h.reader with inbox := h.reader.inbox ++ [item] } }

/-! ### The task -/

/-- The future in `send_fut`. -/
inductive SendFut where
  | data (data : Octets)
  | finish
  deriving DecidableEq, Repr

/-- Both halves of the stream, the channel and the task. The last field is a note: the writes
that were accepted. -/
structure Upgrade (τ : Type) where
  sender : Sender τ
  readHalf : ReadHalf
  bridge : Bridge
  sendFut : Option SendFut
  /-- The future in `send_fut` is suspended with the guard. -/
  held : Bool
  /-- The task has returned. -/
  outcome : Option (Except StreamError Unit)
  accepted : List Octets

namespace Upgrade

variable {τ : Type}

/-- `pair`. -/
def start (sender : Sender τ) (reader : Reader) : Upgrade τ :=
  ⟨sender, ⟨reader, []⟩, .new, none, false, none, []⟩

/-- Polls the future in `send_fut`. The lock is free: a reader gives it back at the end of its
poll. -/
def pollFut (T : SendHalf τ) (u : Upgrade τ) : SendFut → Sender τ × Polled Unit
  | .data data => u.sender.pollSendData T data
  | .finish => u.sender.pollFinish T

/-- The second half of a round of `tick`. -/
def receive (u : Upgrade τ) : Upgrade τ :=
  match u.bridge.recv with
  | (bridge, .item data) => { u with bridge := bridge, sendFut := some (.data data) }
  | (bridge, .closed) => { u with bridge := bridge, sendFut := some .finish }
  | (bridge, .pending) => { u with bridge := bridge }

/-- A round of the loop in `tick`. A poll that returns `Pending` is followed by the next. -/
def tick (T : SendHalf τ) (u : Upgrade τ) : Upgrade τ :=
  if u.outcome.isSome then u
  else
    match u.sendFut with
    | none => u.receive
    | some fut =>
      match u.pollFut T fut with
      | (sender, .ready (.ok ())) =>
        receive { u with sender := sender, sendFut := none, held := false }
      | (sender, .ready (.error err)) =>
        { u with sender := sender, sendFut := none, held := false, outcome := some (.error err) }
      | (sender, .pending) | (sender, .park) => { u with sender := sender, held := true }

/-- The consumer writes. An empty write does nothing, and none is accepted once the task has
returned. -/
def write (u : Upgrade τ) (data : Octets) : Upgrade τ :=
  if data.isEmpty || u.outcome.isSome then u
  else
    match u.bridge.send data with
    | none => u
    | some bridge => { u with bridge := bridge, accepted := u.accepted ++ [data] }

inductive Action where
  | write (data : Octets)
  /-- `poll_shutdown`. -/
  | shutdown
  /-- The consumer drops its side. -/
  | hangUp
  | deliver (item : Recv)
  | read (n now : ℕ)
  | tick
  deriving DecidableEq, Repr

/-- The consumer closes its write side. -/
def Action.closes : Action → Bool
  | .shutdown | .hangUp => true
  | _ => false

def step (T : SendHalf τ) (u : Upgrade τ) : Action → Upgrade τ
  | .write data => u.write data
  | .shutdown => { u with bridge := u.bridge.close }
  | .hangUp => { u with bridge := { u.bridge with dropped := true } }
  | .deliver item => { u with readHalf := u.readHalf.deliver item }
  | .read n now => { u with readHalf := (u.readHalf.pollRead u.held n now).1 }
  | .tick => u.tick T

def run (T : SendHalf τ) (actions : List Action) (u : Upgrade τ) : Upgrade τ :=
  actions.foldl (step T) u

end Upgrade

end ZincioHttp.H3
