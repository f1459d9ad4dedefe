import ZincioHttp.H3.Control.Moves
import ZincioHttp.Lib.Runs

/-! The connection driver: a loop that watches the shutdown triggers, serves the
control plane, announces the end of the connection with a GOAWAY, and accepts
request streams. Each turn of the loop passes through the same phases; what the
transport and the timers answer is an argument of each phase. -/

namespace ZincioHttp.H3

open Qpack Lib

inductive Outcome where
  | ok
  | acceptTimeout
  | connectionError (code : ℕ) (detail : Option ControlError)
  | transport (err : TransportError)
  deriving DecidableEq, Repr

inductive Phase where
  | top
  | flush
  | read
  | announce
  | drain
  | accept
  | collect
  deriving DecidableEq, Repr

/-- An armed timer is `true`. The last three fields are notes: the request streams
that were accepted, those handed to `handle_request`, and those that were reset,
with the code. -/
structure Driver where
  plane : Plane
  acceptTimeout : Bool
  closeCode : Option ℕ
  ongoing : List ℕ
  acceptSleep : Bool
  drainGrace : Bool
  shutdown : Bool
  controlDead : Bool
  closingWith : Option ℕ
  closingDetail : Option ControlError
  outcome : Option Outcome
  lastRequestId : ℕ
  phase : Phase
  accepted : List ℕ
  handled : List ℕ
  rejected : List (ℕ × ℕ)

/-- Sends what is queued, one element at a time. Once the answers are used up, the
transport is not ready. -/
def sendQueue : List Octets → List Sent → List Octets × List Sent × Sent
  | [], answers => ([], answers, .ready)
  | queue, [] => (queue, [], .pending)
  | _ :: rest, .ready :: answers => sendQueue rest answers
  | queue, answer :: answers => (queue, answers, answer)

namespace ControlStreams

/-- The control stream first, then the encoder stream, then the decoder stream. -/
def pollFlush (c : ControlStreams) (answers : List Sent) : ControlStreams × Sent :=
  match sendQueue (if c.controlBuf = [] then [] else [c.controlBuf]) answers with
  | (_, answers, .ready) =>
    let c := { c with controlBuf := [] }
    match sendQueue c.encoderPending answers with
    | (rest, answers, .ready) =>
      let c := { c with encoderPending := rest }
      match sendQueue c.decoderPending answers with
      | (rest, _, answer) =>
        ({ c with
          decoderPending := rest
          flushed :=
            c.flushed ++ (c.decoderPending.take (c.decoderPending.length - rest.length)).flatten },
          answer)
    | (rest, _, answer) => ({ c with encoderPending := rest }, answer)
  | (_, _, answer) => (c, answer)

end ControlStreams

/-- What `poll_accept` yields. -/
inductive Accepted where
  | stream (id : ℕ)
  | closed
  | failed (err : TransportError)
  | pending

namespace Driver

def start (settings : LocalSettings) (acceptTimeout : Bool) : Driver where
  plane := Plane.start settings
  acceptTimeout := acceptTimeout
  closeCode := none
  ongoing := []
  acceptSleep := false
  drainGrace := false
  shutdown := false
  controlDead := false
  closingWith := none
  closingDetail := none
  outcome := none
  lastRequestId := 0
  phase := .top
  accepted := []
  handled := []
  rejected := []

def goawaySent (d : Driver) : Option ℕ := d.plane.streams.goawaySent

def setStreams (d : Driver) (c : ControlStreams) : Driver :=
  { d with plane := { d.plane with streams := c } }

/-- The end of the connection because of an error of the control plane; during a
shutdown the control plane is only given up. -/
def failControl (d : Driver) (err : ControlError) : Driver :=
  if d.shutdown then { d with controlDead := true }
  else { d with
    closingWith := some err.h3Code
    closingDetail := some err
    shutdown := true
    controlDead := true }

/-! ### The phases -/

/-- The code that a request task has left behind. -/
def takeCloseCode (d : Driver) : Driver :=
  match d.closeCode, d.closingWith with
  | some code, none =>
    { d with closeCode := none, closingWith := some code, shutdown := true, controlDead := true }
  | _, _ => { d with closeCode := none }

/-- The triggers of a graceful shutdown. -/
def trigger (d : Driver) (cancelFired timeoutFired : Bool) : Driver :=
  if d.shutdown then { d with phase := .flush }
  else if cancelFired then { d with phase := .flush, shutdown := true, outcome := some .ok }
  else if timeoutFired then
    { d with phase := .flush, shutdown := true, outcome := some .acceptTimeout }
  else { d with phase := .flush }

/-- The timer for the next request runs only while none is in flight. Arming it
starts the turn anew. -/
def beginTurn (d : Driver) (timer cancelled : Bool) : Driver :=
  let d := d.takeCloseCode
  if d.ongoing ≠ [] then { d with acceptSleep := false }.trigger cancelled false
  else if d.acceptSleep then
    if timer then { d with acceptSleep := false }.trigger cancelled true
    else d.trigger cancelled false
  else if d.acceptTimeout then { d with acceptSleep := true }
  else d.trigger cancelled false

def flush (d : Driver) (answers : List Sent) : Driver :=
  let c := d.plane.streams.queueEncoderStreamsFromShared
  let d := { d with phase := .read }
  if d.controlDead then d.setStreams c
  else
    match c.pollFlush answers with
    | (c, .failed err) => (d.setStreams c).failControl (.transport err)
    | (c, _) => d.setStreams c

/-- One call of `poll_read`. After an event there is another one. -/
def read (d : Driver) : Driver :=
  if d.controlDead then { d with phase := .announce }
  else
    match d.plane.pollRead with
    | .error failure => { d with phase := .announce }.failControl failure.err
    | .ok (plane, none) => { d with plane := plane, phase := .announce }
    | .ok (plane, some (.goaway _)) =>
      if d.shutdown then { d with plane := plane }
      else { d with plane := plane, shutdown := true, outcome := some .ok }
    | .ok (plane, some _) => { d with plane := plane }

/-- `poll_shutdown` of the connection, and the outcome to report. -/
def close (d : Driver) (closed : Option (Except TransportError Unit)) (outcome : Outcome) :
    Except Outcome Driver :=
  match closed with
  | none => .ok { d with phase := .top }
  | some (.error err) => .error (.transport err)
  | some (.ok ()) => .error (d.outcome.getD outcome)

/-- Either the connection closes at once, or the GOAWAY is queued. -/
def announce (d : Driver) (closed : Option (Except TransportError Unit)) : Except Outcome Driver :=
  if d.shutdown then
    match d.closingWith with
    | some code => d.close closed (.connectionError code d.closingDetail)
    | none => .ok { d.setStreams (d.plane.streams.sendGoaway d.lastRequestId) with phase := .drain }
  else .ok { d with phase := .accept }

/-- When nothing is in flight any more, a last timer and then the end. -/
def drain (d : Driver) (grace : Bool) (closed : Option (Except TransportError Unit)) :
    Except Outcome Driver :=
  if d.ongoing = [] then
    let d := { d with drainGrace := true }
    if grace then d.close closed .ok else .ok { d with phase := .accept }
  else .ok { d with phase := .accept }

def accept (d : Driver) : Accepted → Except Outcome Driver
  | .stream id =>
    let d := { d with
      lastRequestId := max d.lastRequestId id
      acceptSleep := d.acceptSleep && d.acceptTimeout
      accepted := d.accepted ++ [id] }
    if d.shutdown ∧ (d.goawaySent = none ∨ d.goawaySent.getD (2 ^ 64 - 1) < id) then
      .ok { d with rejected := d.rejected ++ [(id, ErrorCode.requestRejected.code)] }
    else .ok { d with ongoing := d.ongoing ++ [id], handled := d.handled ++ [id] }
  | .closed => .error .ok
  | .failed err => .error (.transport err)
  | .pending => .ok { d with phase := .collect }

/-- A finished task starts the turn anew, and so does the next poll. -/
def collect (d : Driver) (finished : Option ℕ) : Driver :=
  { d with phase := .top, ongoing := finished.elim d.ongoing d.ongoing.erase }

/-! ### Runs -/

inductive Action where
  | beginTurn (timer cancelled : Bool)
  | flush (answers : List Sent)
  | read
  | announce (closed : Option (Except TransportError Unit))
  | drain (grace : Bool) (closed : Option (Except TransportError Unit))
  | accept (accepted : Accepted)
  | collect (finished : Option ℕ)
  /-- What the peer and the request tasks do to the control plane. -/
  | outside (action : Plane.Action)
  /-- A request task asks for the connection to be closed. -/
  | closeCode (code : ℕ)

def Action.phase : Action → Option Phase
  | .beginTurn .. => some .top
  | .flush _ => some .flush
  | .read => some .read
  | .announce _ => some .announce
  | .drain .. => some .drain
  | .accept _ => some .accept
  | .collect _ => some .collect
  | .outside _ | .closeCode _ => none

/-- Polling and flushing the control plane is the driver's own business. -/
def outside (d : Driver) : Plane.Action → Driver
  | .poll | .flush => d
  | action =>
    match d.plane.step action with
    | .ok plane => { d with plane := plane }
    | .error failure => { d with closeCode := some failure.err.h3Code }

/-- An action out of turn is none. -/
def step (d : Driver) (a : Action) : Except Outcome Driver :=
  if a.phase.any (· ≠ d.phase) then .ok d
  else
    match a with
    | .beginTurn timer cancelled => .ok (d.beginTurn timer cancelled)
    | .flush answers => .ok (d.flush answers)
    | .read => .ok d.read
    | .announce closed => d.announce closed
    | .drain grace closed => d.drain grace closed
    | .accept accepted => d.accept accepted
    | .collect finished => .ok (d.collect finished)
    | .outside action => .ok (d.outside action)
    | .closeCode code => .ok { d with closeCode := some code }

def run (actions : List Action) (d : Driver) : Except Outcome Driver := actions.foldlM step d

end Driver

end ZincioHttp.H3
