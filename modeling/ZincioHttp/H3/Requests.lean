import ZincioHttp.H3.RequestStream
import ZincioHttp.H3.Control
import ZincioHttp.Lib.Runs

/-! The request tasks of a connection beside the control plane, lock by lock. A poll
of a request stream takes at most one lock of the shared codecs, but for
`take_unblocked_for`, which looks among the unblocked sections under one and leaves
the task's waker under another. Feeding the peer's encoder stream takes three, one
after the other, and wakes the tasks at the end. -/

namespace ZincioHttp.H3

open Qpack Lib

inductive ReadCall where
  | headers
  | data
  | trailers
  deriving DecidableEq, Repr

/-- A poll whose result is left to the task. -/
def Polled.void {α : Type} : Polled α → Polled Unit
  | .ready result => .ready (result.map fun _ => ())
  | .pending => .pending
  | .park => .park

def ReadCall.poll (http : HttpCrate) (now : ℕ) (r : Reader) : ReadCall → Reader × Polled Unit
  | .headers => ((r.pollHeaders http now).1, (r.pollHeaders http now).2.void)
  | .data => ((r.pollRecvData now).1, (r.pollRecvData now).2.void)
  | .trailers => ((r.pollRecvTrailers http now).1, (r.pollRecvTrailers http now).2.void)

/-- A field section of the stream is waited for. -/
def RequestStream.blocked (rs : RequestStream) : Bool := rs.headersBlocked || rs.trailersBlocked

/-- A request task. It is `registering` between the two halves of
`take_unblocked_for`, and `parked` when its last poll returned `Pending` because of a
blocked section. -/
structure Task where
  stream : RequestStream
  inbox : List Recv
  registering : Bool
  parked : Bool
  woken : Bool
  ended : Bool

/-- How far the control plane is with the released sections. -/
inductive Feed where
  | idle
  | released (sections : List UnblockedSection)
  | taken (sections : List UnblockedSection) (wakers : List ℕ)
  | placed (wakers : List ℕ)

structure Requests where
  shared : SharedCodecs
  tasks : ℕ → Option Task
  feed : Feed

namespace Requests

def start (settings : LocalSettings) : Requests := ⟨SharedCodecs.new settings, fun _ => none, .idle⟩

def setTask (q : Requests) (s : ℕ) (t : Task) : Requests :=
  { q with tasks := Function.update q.tasks s (some t) }

inductive Action where
  | accept (s : ℕ)
  | deliver (s : ℕ) (item : Recv)
  | poll (s : ℕ) (call : ReadCall) (now : ℕ)
  | register (s : ℕ)
  | finish (s : ℕ)
  | feed (data : Octets)
  | takeWaiters
  | placeUnblocked
  | wake

/-- A poll up to its first lock. The task that has ended reads no request any more,
but the body may outlive it. -/
def poll (http : HttpCrate) (q : Requests) (s : ℕ) (call : ReadCall) (now : ℕ) : Requests :=
  match q.tasks s with
  | none => q
  | some t =>
    if t.registering || (t.ended && decide (call = .headers)) then q
    else
      let (r, result) := call.poll http now ⟨t.stream, t.inbox, q.shared⟩
      { q with shared := r.shared }.setTask s { t with
        stream := r.stream
        inbox := r.inbox
        woken := false
        registering := match result with
          | .park => true
          | _ => false
        parked := match result with
          | .pending => r.stream.blocked
          | _ => false }

/-- The waker is left, and the poll returns `Pending`. -/
def register (q : Requests) (s : ℕ) : Requests :=
  match q.tasks s with
  | none => q
  | some t =>
    if t.registering then
      { q with shared := q.shared.addWaiter s }.setTask s
        { t with registering := false, parked := true }
    else q

/-- An action of the control plane out of turn is none; a failed feed closes the
connection. -/
def step (http : HttpCrate) (q : Requests) : Action → Except ControlError Requests
  | .accept s =>
    match q.tasks s with
    | some _ => .ok q
    | none => .ok (q.setTask s ⟨RequestStream.new s q.shared, [], false, false, false, false⟩)
  | .deliver s item =>
    match q.tasks s with
    | none => .ok q
    | some t => .ok (q.setTask s { t with inbox := t.inbox ++ [item] })
  | .poll s call now => .ok (q.poll http s call now)
  | .register s => .ok (q.register s)
  | .finish s =>
    match q.tasks s with
    | none => .ok q
    | some t => .ok (q.setTask s { t with ended := true })
  | .feed data =>
    match q.feed with
    | .idle =>
      match q.shared.decoder.feedEncoderStream data with
      | .error err => .error (.qpack err)
      | .ok (d, sections) =>
        .ok { q with
          shared := { q.shared with decoder := d.takeDecoderStream.1 }, feed := .released sections }
    | _ => .ok q
  | .takeWaiters =>
    match q.feed with
    | .released sections =>
      let (shared, wakers) := q.shared.takeWaitersFor (sections.map UnblockedSection.stream)
      .ok { q with shared := shared, feed := .taken sections wakers }
    | _ => .ok q
  | .placeUnblocked =>
    match q.feed with
    | .taken sections wakers =>
      .ok { q with shared := q.shared.placeUnblocked sections, feed := .placed wakers }
    | _ => .ok q
  | .wake =>
    match q.feed with
    | .placed wakers =>
      .ok { q with
        tasks :=
          fun s => (q.tasks s).map fun t => { t with woken := t.woken || decide (s ∈ wakers) }
        feed := .idle }
    | _ => .ok q

def run (http : HttpCrate) (actions : List Action) (q : Requests) : Except ControlError Requests :=
  actions.foldlM (step http) q

/-- The four steps of a feed, with nothing in between, do to the shared codecs what the
control plane does with a chunk of the encoder stream. -/
theorem run_feed (http : HttpCrate) {q : Requests} {c : ControlStreams} (data : Octets)
    (hshared : c.shared = q.shared) (hidle : q.feed = .idle) :
    (run http [.feed data, .takeWaiters, .placeUnblocked, .wake] q).map Requests.shared =
      (c.feedEncoderStream data).map ControlStreams.shared := by
  rw [ControlStreams.feedEncoderStream, hshared]
  cases hfeed : q.shared.decoder.feedEncoderStream data with
  | error err =>
    simp only [run, List.foldlM_cons, step, hidle, hfeed]
    rfl
  | ok x =>
    simp only [run, List.foldlM_cons, step, hidle, hfeed]
    rfl

end Requests

end ZincioHttp.H3
