import ZincioHttp.H2.Frame
import ZincioHttp.H2.Request
import Mathlib.Logic.Relation

/-! What the connection keeps for one stream: the two channels to the stream's
task, the state of both directions, and response data that waits for the peer's
windows. Sending such data is a loop over the stream's queue that needs nothing
of the connection but its window and the peer's frame size. -/

namespace ZincioHttp.H2

open H2.Hpack (Header)

/-- From the connection to a stream task: the request body. -/
inductive BodyMsg where
  | data (data : Octets)
  | trailers (trailers : List Header)
  | endStream
  deriving DecidableEq, Repr

structure Parts where
  status : ℕ
  headers : List Header
  deriving DecidableEq, Repr

/-- From a stream task to the connection: the response. -/
inductive StreamMsg where
  | headers (parts : Parts) (endStream : Bool)
  | informational (parts : Parts)
  | data (data : Octets) (endStream : Bool)
  | trailers (trailers : List Header)
  | reset (errorCode : ℕ)
  | closed
  deriving DecidableEq, Repr

/-- The request body channel: what is in it, and whether its receiver is still
there. -/
structure BodyChannel where
  queue : List BodyMsg
  receiver : Bool
  deriving DecidableEq, Repr

def channelCapacity : ℕ := 8

structure StreamEntry where
  /-- `body_tx` with the channel behind it. -/
  body : Option BodyChannel
  /-- What `msg_rx` holds. -/
  msgs : List StreamMsg
  fieldBlock : Octets
  pendingEndStream : Bool
  requestStarted : Bool
  responseStarted : Bool
  remoteEnded : Bool
  localEnded : Bool
  contentLength : Option ℕ
  dataSum : ℕ
  trailersSeen : Bool
  taskDone : Bool
  sendWindow : ℤ
  pendingData : List (Octets × Bool)
  deficit : ℕ
  headerListSize : ℕ
  continuationFrames : ℕ
  deriving DecidableEq, Repr

namespace StreamEntry

def new : StreamEntry where
  body := none
  msgs := []
  fieldBlock := []
  pendingEndStream := false
  requestStarted := false
  responseStarted := false
  remoteEnded := false
  localEnded := false
  contentLength := none
  dataSum := 0
  trailersSeen := false
  taskDone := false
  sendWindow := 65535
  pendingData := []
  deficit := 0
  headerListSize := 0
  continuationFrames := 0

/-- A stream as its opening HEADERS frame leaves it. The body channel exists only
while body frames may still arrive. -/
def opening (sendWindow : ℤ) (endStream endHeaders : Bool) (block : Octets) : StreamEntry :=
  { new with
    sendWindow := sendWindow
    body := if endStream then none else some ⟨[], true⟩
    pendingEndStream := endStream
    fieldBlock := block
    continuationFrames := if endHeaders then 0 else 1 }

def extendBlock (e : StreamEntry) (block : Octets) : StreamEntry :=
  { e with fieldBlock := e.fieldBlock ++ block }

/-- The field block is taken for decoding, which counts on in the list size. -/
def takeBlock (e : StreamEntry) (headerListSize : ℕ) : StreamEntry :=
  { e with fieldBlock := [], headerListSize := headerListSize }

def endFrames (e : StreamEntry) : StreamEntry := { e with continuationFrames := 0 }

def countFrame (e : StreamEntry) : StreamEntry :=
  { e with continuationFrames := e.continuationFrames + 1 }

def growWindow (e : StreamEntry) (increment : ℕ) : StreamEntry :=
  { e with sendWindow := e.sendWindow + increment }

/-- A send on the body channel has a result: its receiver is gone, or there is
room. -/
def bodyReady (e : StreamEntry) : Bool :=
  match e.body with
  | none => true
  | some ch => !ch.receiver || decide (ch.queue.length < channelCapacity)

/-- `send_body` once it has a result. -/
def sendBody (e : StreamEntry) (msg : BodyMsg) : Option StreamEntry :=
  match e.body with
  | none => none
  | some ch =>
    if ch.receiver then some { e with body := some { ch with queue := ch.queue ++ [msg] } }
    else none

/-- The request is handed to a task. That of a CONNECT request gets no body reader. -/
def start (e : StreamEntry) (parsed : ParsedRequest) : StreamEntry :=
  { e with
    requestStarted := true
    contentLength := parsed.contentLength
    body := e.body.map fun ch => { ch with receiver := ch.receiver && !parsed.isConnect } }

def hears (e : StreamEntry) : Bool := e.body.any fun ch => ch.receiver

/-- Only what concerns the response may differ. -/
def SameRequest (e e' : StreamEntry) : Prop :=
  e' = { e with
    msgs := e'.msgs
    responseStarted := e'.responseStarted
    localEnded := e'.localEnded
    taskDone := e'.taskDone
    sendWindow := e'.sendWindow
    pendingData := e'.pendingData
    deficit := e'.deficit }

theorem SameRequest.trans {e₁ e₂ e₃ : StreamEntry} (h : SameRequest e₁ e₂)
    (h' : SameRequest e₂ e₃) : SameRequest e₁ e₃ := by
  unfold SameRequest at h h' ⊢
  rw [h', h]

/-- The response is as it was; the send window may have moved. -/
structure SameResponse (e e' : StreamEntry) : Prop where
  msgs : e'.msgs = e.msgs
  responseStarted : e'.responseStarted = e.responseStarted
  localEnded : e'.localEnded = e.localEnded
  taskDone : e'.taskDone = e.taskDone
  pendingData : e'.pendingData = e.pendingData

theorem SameResponse.refl (e : StreamEntry) : SameResponse e e := ⟨rfl, rfl, rfl, rfl, rfl⟩

theorem SameResponse.trans {e₁ e₂ e₃ : StreamEntry} (h : SameResponse e₁ e₂)
    (h' : SameResponse e₂ e₃) : SameResponse e₁ e₃ :=
  ⟨h'.msgs.trans h.msgs, h'.responseStarted.trans h.responseStarted,
    h'.localEnded.trans h.localEnded, h'.taskDone.trans h.taskDone,
    h'.pendingData.trans h.pendingData⟩

theorem sendBody_eq_some {e e' : StreamEntry} {msg : BodyMsg} (h : e.sendBody msg = some e') :
    e.hears = true ∧ ∃ ch, e.body = some ch ∧
      e' = { e with body := some { ch with queue := ch.queue ++ [msg] } } := by
  rw [sendBody] at h
  cases hb : e.body with
  | none => simp [hb] at h
  | some ch =>
    simp only [hb] at h
    split_ifs at h with hr
    exact ⟨by simp [hears, hb, hr], ch, rfl, (Option.some.inj h).symm⟩

theorem sendBody_eq_none {e : StreamEntry} {msg : BodyMsg} (h : e.sendBody msg = none) :
    e.hears = false := by
  rw [sendBody] at h
  cases hb : e.body with
  | none => simp [hears, hb]
  | some ch =>
    simp only [hb] at h
    split_ifs at h with hr
    simp [hears, hb, hr]

end StreamEntry

/-! ### Sending queued data -/

/-- A stream while its queue is pumped: the entry, the connection window, what
has been written, and whether the stream is to be retired. -/
structure Pump where
  entry : StreamEntry
  connWindow : ℤ
  written : List Frame
  retired : Bool

namespace Pump

/-- The front chunk has been sent: it is popped, and END_STREAM noted. -/
def finishChunk (p : Pump) (frameEnd : Bool) : Pump :=
  { p with
    entry := { p.entry with
      pendingData := p.entry.pendingData.tail
      localEnded := p.entry.localEnded || frameEnd }
    retired := frameEnd && p.entry.taskDone }

/-- Writes the first `amount` octets of the front chunk. -/
def sendChunk (streamId amount : ℕ) (data : Octets) (endStream : Bool) (rest : List (Octets × Bool))
    (p : Pump) : Pump :=
  let all := decide (amount = data.length)
  let frameEnd := endStream && all
  let p := { p with
    entry := { p.entry with
      pendingData := (data.drop amount, endStream) :: rest
      sendWindow := p.entry.sendWindow - amount }
    written := p.written ++ [.data streamId frameEnd (data.take amount)]
    connWindow := p.connWindow - amount }
  if all then p.finishChunk frameEnd else p

/-- One round of the loop of `pump_stream_data`; the flag says whether the loop
goes on. -/
def step (streamId maxFrameSize : ℕ) (p : Pump) : Pump × Bool :=
  if p.entry.localEnded then (p, false)
  else
    match p.entry.pendingData with
    | [] => (p, false)
    | (data, endStream) :: rest =>
      if data.isEmpty then
        let p := finishChunk { p with written := p.written ++ [.data streamId endStream []] }
          endStream
        (p, !p.retired)
      else
        let available := min p.connWindow p.entry.sendWindow
        if available ≤ 0 then (p, false)
        else
          let origAmount := min data.length available.toNat
          let amount := min origAmount maxFrameSize
          let limited := decide (origAmount ≠ amount)
          let all := decide (amount = data.length)
          let p := p.sendChunk streamId amount data endStream rest
          (p, if all then !p.retired else limited)

def loop (round : Pump → Pump × Bool) : ℕ → Pump → Pump
  | 0, p => p
  | fuel + 1, p =>
    match round p with
    | (p, true) => loop round fuel p
    | (p, false) => p

/-- Rounds that suffice: each sends a chunk to its end or at least one octet. -/
def rounds (pendingData : List (Octets × Bool)) : ℕ :=
  (pendingData.map fun chunk => chunk.1.length + 1).sum + 1

/-- The loop of `pump_stream_data`. -/
def run (streamId maxFrameSize : ℕ) (entry : StreamEntry) (connWindow : ℤ) : Pump :=
  loop (step streamId maxFrameSize) (rounds entry.pendingData) ⟨entry, connWindow, [], false⟩

/-- One round of the loop of `pump_stream_data_drr`. -/
def stepDrr (streamId maxFrameSize : ℕ) (p : Pump) : Pump × Bool :=
  if p.entry.localEnded then (p, false)
  else
    match p.entry.pendingData with
    | [] => (p, false)
    | (data, endStream) :: rest =>
      if data.isEmpty then
        let p := finishChunk { p with written := p.written ++ [.data streamId endStream []] }
          endStream
        (p, !p.retired)
      else if p.entry.deficit = 0 then (p, false)
      else
        let available := min p.connWindow p.entry.sendWindow
        if available ≤ 0 then (p, false)
        else
          let origAmount := min data.length available.toNat
          let capped := min origAmount p.entry.deficit
          let amount := min capped maxFrameSize
          if amount = 0 then (p, false)
          else
            let p := { p with entry := { p.entry with deficit := p.entry.deficit - amount } }
            (p.sendChunk streamId amount data endStream rest, false)

/-- The loop of `pump_stream_data_drr`: empty chunks and then at most one frame. -/
def runDrr (streamId maxFrameSize : ℕ) (entry : StreamEntry) (connWindow : ℤ) : Pump :=
  loop (stepDrr streamId maxFrameSize) (rounds entry.pendingData) ⟨entry, connWindow, [], false⟩

theorem sendChunk_all (streamId : ℕ) (data : Octets) (endStream : Bool)
    (rest : List (Octets × Bool)) (p : Pump) :
    sendChunk streamId data.length data endStream rest p =
      { entry := { p.entry with
          pendingData := rest
          sendWindow := p.entry.sendWindow - data.length
          localEnded := p.entry.localEnded || endStream }
        connWindow := p.connWindow - data.length
        written := p.written ++ [.data streamId endStream data]
        retired := endStream && p.entry.taskDone } := by
  simp [sendChunk, finishChunk]

theorem sendChunk_part (streamId : ℕ) {amount : ℕ} {data : Octets} (endStream : Bool)
    (rest : List (Octets × Bool)) (p : Pump) (h : amount ≠ data.length) :
    sendChunk streamId amount data endStream rest p =
      { p with
        entry := { p.entry with
          pendingData := (data.drop amount, endStream) :: rest
          sendWindow := p.entry.sendWindow - amount }
        connWindow := p.connWindow - amount
        written := p.written ++ [.data streamId false (data.take amount)] } := by
  simp [sendChunk, h]

theorem sendChunk_written (streamId amount : ℕ) (data : Octets) (endStream : Bool)
    (rest : List (Octets × Bool)) (p : Pump) :
    (sendChunk streamId amount data endStream rest p).written =
      p.written ++
        [.data streamId (endStream && decide (amount = data.length)) (data.take amount)] := by
  rw [sendChunk]
  split_ifs <;> rfl

/-- What one round does, of either loop: nothing, or it sends a first part of
the front chunk that both windows and the frame size admit. -/
inductive Moves (streamId maxFrameSize : ℕ) (p : Pump) : Pump → Prop
  | stay : Moves streamId maxFrameSize p p
  | send (deficit amount : ℕ) (data : Octets) (endStream : Bool) (rest : List (Octets × Bool))
      (hopen : p.entry.localEnded = false)
      (hfront : p.entry.pendingData = (data, endStream) :: rest)
      (hle : amount ≤ data.length)
      (hconn : data = [] ∨ (amount : ℤ) ≤ p.connWindow)
      (hstream : data = [] ∨ (amount : ℤ) ≤ p.entry.sendWindow) (hsize : amount ≤ maxFrameSize) :
      Moves streamId maxFrameSize p
        (sendChunk streamId amount data endStream rest
          { p with entry := { p.entry with deficit := deficit } })

theorem finishChunk_nil {p : Pump} {endStream : Bool} {rest : List (Octets × Bool)}
    (streamId : ℕ) (h : p.entry.pendingData = ([], endStream) :: rest) :
    finishChunk { p with written := p.written ++ [.data streamId endStream []] } endStream =
      sendChunk streamId 0 [] endStream rest p := by
  simp [sendChunk, finishChunk, h]

section
variable (streamId maxFrameSize : ℕ)

theorem moves_nil {p : Pump} {endStream : Bool} {rest : List (Octets × Bool)}
    (hopen : p.entry.localEnded = false) (h : p.entry.pendingData = ([], endStream) :: rest) :
    Moves streamId maxFrameSize p
      (finishChunk { p with written := p.written ++ [.data streamId endStream []] } endStream) := by
  rw [finishChunk_nil streamId h]
  exact .send p.entry.deficit 0 [] endStream rest hopen h le_rfl (.inl rfl) (.inl rfl)
    (Nat.zero_le _)

theorem moves_step (p : Pump) : Moves streamId maxFrameSize p (p.step streamId maxFrameSize).1 := by
  rw [step]
  cases hopen : p.entry.localEnded with
  | true => exact .stay
  | false =>
    cases hfront : p.entry.pendingData with
    | nil => exact .stay
    | cons chunk rest =>
      obtain ⟨data, endStream⟩ := chunk
      cases data with
      | nil => exact moves_nil streamId maxFrameSize hopen hfront
      | cons b data =>
        simp only [List.isEmpty_cons]
        by_cases hav : min p.connWindow p.entry.sendWindow ≤ 0
        · rw [if_pos hav]
          exact .stay
        · rw [if_neg hav]
          exact .send p.entry.deficit _ (b :: data) endStream rest hopen hfront (by omega)
            (.inr (by omega)) (.inr (by omega)) (Nat.min_le_right _ _)

theorem moves_stepDrr (p : Pump) :
    Moves streamId maxFrameSize p (p.stepDrr streamId maxFrameSize).1 := by
  rw [stepDrr]
  cases hopen : p.entry.localEnded with
  | true => exact .stay
  | false =>
    cases hfront : p.entry.pendingData with
    | nil => exact .stay
    | cons chunk rest =>
      obtain ⟨data, endStream⟩ := chunk
      cases data with
      | nil => exact moves_nil streamId maxFrameSize hopen hfront
      | cons b data =>
        simp only [List.isEmpty_cons]
        by_cases hdef : p.entry.deficit = 0
        · rw [if_pos hdef]
          exact .stay
        rw [if_neg hdef]
        by_cases hav : min p.connWindow p.entry.sendWindow ≤ 0
        · rw [if_pos hav]
          exact .stay
        rw [if_neg hav]
        by_cases hamount : min (min (min (b :: data).length
            (min p.connWindow p.entry.sendWindow).toNat) p.entry.deficit) maxFrameSize = 0
        · rw [if_pos hamount]
          exact .stay
        · rw [if_neg hamount]
          exact .send _ _ (b :: data) endStream rest hopen hfront (by omega) (.inr (by omega))
            (.inr (by omega)) (Nat.min_le_right _ _)

end

theorem loop_induction {P : Pump → Prop} {round : Pump → Pump × Bool}
    (h : ∀ p, P p → P (round p).1) (fuel : ℕ) : ∀ p, P p → P (loop round fuel p) := by
  induction fuel with
  | zero => exact fun p hp => hp
  | succ fuel ih =>
    intro p hp
    have hround := h p hp
    rw [loop]
    rcases hr : round p with ⟨p', goOn⟩
    rw [hr] at hround
    cases goOn with
    | true => exact ih p' hround
    | false => exact hround

/-- What a pump may have come to: some rounds have been made. -/
def Reached (streamId maxFrameSize : ℕ) (e : StreamEntry) (connWindow : ℤ) : Pump → Prop :=
  Relation.ReflTransGen (Moves streamId maxFrameSize) ⟨e, connWindow, [], false⟩

theorem run_reached (streamId maxFrameSize : ℕ) (e : StreamEntry) (connWindow : ℤ) :
    Reached streamId maxFrameSize e connWindow (run streamId maxFrameSize e connWindow) ∧
      Reached streamId maxFrameSize e connWindow (runDrr streamId maxFrameSize e connWindow) :=
  ⟨loop_induction (fun p hp => hp.tail (moves_step streamId maxFrameSize p)) _ _ .refl,
    loop_induction (fun p hp => hp.tail (moves_stepDrr streamId maxFrameSize p)) _ _ .refl⟩

namespace Reached

variable {streamId maxFrameSize : ℕ} {e : StreamEntry} {connWindow : ℤ} {p : Pump}

section
variable (h : Reached streamId maxFrameSize e connWindow p)
include h

theorem induction {P : Pump → Prop} (hstart : P ⟨e, connWindow, [], false⟩)
    (hmove : ∀ p p', Moves streamId maxFrameSize p p' → P p → P p') : P p := by
  induction h with
  | refl => exact hstart
  | tail _ hm ih => exact hmove _ _ hm ih

/-- A pump writes DATA frames of its stream, none larger than the peer admits. -/
theorem written :
    ∀ f ∈ p.written, ∃ frameEnd octs, f = .data streamId frameEnd octs ∧
      octs.length ≤ maxFrameSize := by
  refine h.induction (P := fun p => ∀ f ∈ p.written, ∃ frameEnd octs,
    f = .data streamId frameEnd octs ∧ octs.length ≤ maxFrameSize) nofun fun p p' hm h => ?_
  cases hm with
  | stay => exact h
  | send deficit amount data endStream rest _ _ _ _ _ hsize =>
    rw [sendChunk_written]
    intro f hf
    rcases List.mem_append.1 hf with hf | hf
    · exact h f hf
    · exact ⟨_, _, List.mem_singleton.1 hf, (List.length_take_le _ _).trans hsize⟩

theorem sameRequest : e.SameRequest p.entry := by
  refine h.induction (P := fun p => e.SameRequest p.entry) rfl fun p p' hm hp => hp.trans ?_
  cases hm with
  | stay => rfl
  | send deficit amount data endStream rest =>
    rw [sendChunk]
    split_ifs <;> rfl

end

end Reached

end Pump

end ZincioHttp.H2
