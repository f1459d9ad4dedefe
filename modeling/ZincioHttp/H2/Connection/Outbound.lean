import ZincioHttp.H2.Connection.State

/-! The response side of the connection. Messages of the stream tasks become
frames; data that the peer's windows do not admit yet is queued with its stream
and pumped when a window opens, by one stream alone or by all of them in turn. -/

namespace ZincioHttp.H2.Connection

open H2.Hpack (Header)

/-- An order in which a hash map may be walked: the keys named in `hint` first. -/
def arrange (hint keys : List ℕ) : List ℕ :=
  (hint.dedup.filter fun id => decide (id ∈ keys)) ++ keys.filter fun id => decide (id ∉ hint)

/-! ### Queued data -/

/-- Puts a pumped stream back, or retires it. -/
def settle (c : Connection) (id : ℕ) (p : Pump) : Connection :=
  let c := (c.setEntry id p.entry).write p.written
  let c := { c with connWindow := p.connWindow }
  if p.retired then c.retire id else c

@[simp] theorem settle_written (c : Connection) (id : ℕ) (p : Pump) :
    (c.settle id p).written = c.written ++ p.written := by
  rw [settle]
  split_ifs <;> rfl

@[simp] theorem settle_connWindow (c : Connection) (id : ℕ) (p : Pump) :
    (c.settle id p).connWindow = p.connWindow := by
  rw [settle]
  split_ifs <;> rfl

def pumpStreamData (c : Connection) (id : ℕ) : Connection :=
  match c.entry id with
  | none => c
  | some e => c.settle id (Pump.run id c.peer.maxFrameSize e c.connWindow)

def pumpStreamDataDrr (c : Connection) (id : ℕ) : Connection :=
  match c.entry id with
  | none => c
  | some e => c.settle id (Pump.runDrr id c.peer.maxFrameSize e c.connWindow)

/-- A stream with queued data that it may still send. -/
def backlogged (c : Connection) (id : ℕ) : Bool :=
  match c.entry id with
  | none => false
  | some e => !e.pendingData.isEmpty && !e.localEnded

/-- One stream's turn: whether anything was sent, and whether it stays in line. -/
def turn (c : Connection) (quantum id : ℕ) : Connection × Bool × Bool :=
  match c.entry id with
  | none => (c, false, false)
  | some e =>
    if e.pendingData.isEmpty || e.localEnded || decide (e.sendWindow ≤ 0) then (c, false, false)
    else
      let before := c.connWindow
      let c := c.setEntry id { e with deficit := min (e.deficit + quantum) usizeMax }
      let c := c.pumpStreamDataDrr id
      (c, decide (c.connWindow < before), c.backlogged id)

/-- One round over the streams, until the connection window is used up. -/
def round (quantum : ℕ) : List ℕ → Connection → Bool → List ℕ → Connection × Bool × List ℕ
  | [], c, progress, next => (c, progress, next)
  | id :: ids, c, progress, next =>
    let (c', sent, again) := c.turn quantum id
    let progress := progress || sent
    let next := if again then next ++ [id] else next
    if c'.connWindow ≤ 0 then (c', progress, next)
    else round quantum ids c' progress next

/-- Rounds until nothing moves. Each round with progress uses up some of the
connection window, so that the window is enough fuel. -/
def rounds (quantum : ℕ) : ℕ → Connection → List ℕ → Connection
  | 0, c, _ => c
  | fuel + 1, c, ids =>
    if c.connWindow > 0 ∧ !ids.isEmpty then
      let (c, progress, next) := round quantum ids c false []
      if progress then rounds quantum fuel c next else c
    else c

/-- `drain_pending_data` without a stream. -/
def drainPendingData (c : Connection) (hint : List ℕ) : Connection :=
  let ids := (arrange hint c.streams.keys).filter c.backlogged
  rounds c.peer.maxFrameSize (c.connWindow.toNat + 1) c ids

section Induction
variable {P : Connection → Prop} (hturn : ∀ c quantum id, P c → P (c.turn quantum id).1)
include hturn

theorem round_induction (quantum : ℕ) (ids : List ℕ) : ∀ c progress next, P c →
    P (round quantum ids c progress next).1 := by
  induction ids with
  | nil => exact fun c _ _ h => h
  | cons id ids ih =>
    intro c progress next h
    have hnext := hturn c quantum id h
    rw [round]
    by_cases hw : (c.turn quantum id).1.connWindow ≤ 0
    · simp only [if_pos hw]
      exact hnext
    · simp only [if_neg hw]
      exact ih _ _ _ hnext

/-- What every turn preserves, serving all streams preserves. -/
theorem drainPendingData_induction {c : Connection} (hint : List ℕ) (h : P c) :
    P (c.drainPendingData hint) := by
  have hrounds : ∀ (quantum fuel : ℕ) (c : Connection) (ids : List ℕ), P c →
      P (rounds quantum fuel c ids) := by
    intro quantum fuel
    induction fuel with
    | zero => exact fun c _ h => h
    | succ fuel ih =>
      intro c ids h
      have hround := round_induction hturn quantum ids c false [] h
      rw [rounds]
      simp only
      split_ifs
      · exact ih _ _ hround
      · exact hround
      · exact h
  exact hrounds _ _ c _ h

end Induction

/-! ### Messages of a stream task -/

/-- The three digits of a status. -/
def statusValue (status : ℕ) : Octets :=
  [UInt8.ofNat (0x30 + status / 100), UInt8.ofNat (0x30 + status / 10 % 10),
    UInt8.ofNat (0x30 + status % 10)]

/-- The fields of a response block: the status and whatever HTTP/2 admits. -/
def responseFields (parts : Parts) : List Header :=
  ⟨octets ":status", statusValue parts.status⟩ :: parts.headers.filter fun h =>
      !isConnectionSpecific h.name && !(decide (h.name = octets "te") && !teIsTrailers h.value)

def writeFields (c : Connection) (id : ℕ) (endStream : Bool) (fields : List Header) : Connection :=
  let (encoder, block) := c.encoder.encode fields
  write { c with encoder := encoder } (writeFieldBlock c.writerMaxFrameSize id endStream block)

def encodeFieldBlock (c : Connection) (id : ℕ) (endStream : Bool) (parts : Parts) : Connection :=
  c.writeFields id endStream (responseFields parts)

def handleStreamMsg (c : Connection) (id : ℕ) : StreamMsg → Connection
  | .informational parts => c.encodeFieldBlock id false parts
  | .headers parts endStream =>
    match c.entry id with
    | none => c.encodeFieldBlock id endStream parts
    | some e =>
      if e.localEnded then c
      else
        (c.setEntry id { e with localEnded := endStream, responseStarted := true }).encodeFieldBlock
          id endStream parts
  | .data data endStream =>
    match c.entry id with
    | none => c
    | some e =>
      if e.localEnded then c
      else
        (c.setEntry id { e with
          responseStarted := true
          pendingData := e.pendingData ++ [(data, endStream)] }).pumpStreamData id
  | .trailers trailers =>
    match c.entry id with
    | none => c
    | some e =>
      if e.localEnded then c
      else
        (c.setEntry id { e with localEnded := true, responseStarted := true }).writeFields id true
          trailers
  | .reset errorCode => (c.write [.reset id errorCode]).retire id
  | .closed =>
    match c.entry id with
    | none => c
    | some e =>
      let c := c.setEntry id { e with taskDone := true }
      if e.localEnded then c.retire id else c

/-- A blank end marker is merged into the chunk before it. -/
def mergeEnd : List StreamMsg → List StreamMsg
  | .data data _ :: .data [] true :: rest => .data data true :: mergeEnd rest
  | msg :: rest => msg :: mergeEnd rest
  | [] => []

/-- One stream's part of `drain_outbound`. A stream with queued data is left
alone, so that its task waits. -/
def drainStream (c : Connection) (id : ℕ) : Connection :=
  match c.entry id with
  | none => c
  | some e =>
    if e.pendingData.isEmpty then
      (mergeEnd e.msgs).foldl (fun c msg => c.handleStreamMsg id msg)
        (c.setEntry id { e with msgs := [] })
    else c

def outboundIds (c : Connection) (hint : List ℕ) : List ℕ :=
  (arrange hint c.streams.keys).filter fun id => (c.entry id).any fun e => !e.msgs.isEmpty

def drainOutbound (c : Connection) (hint : List ℕ) : Connection :=
  (c.outboundIds hint).foldl drainStream c

/-! ### What the response side can do -/

/-- A relation between states that sending queued data of the streams of `on` is in. -/
structure PumpClosed (on : ℕ → Prop) (R : Connection → Connection → Prop) : Prop where
  refl : ∀ c, R c c
  trans : ∀ {c c' c''}, R c c' → R c' c'' → R c c''
  setEntry : ∀ c {id e e'}, on id → c.entry id = some e → e.SameRequest e' →
    e'.sendWindow = e.sendWindow → R c (c.setEntry id e')
  settle : ∀ c {id e p}, on id → c.entry id = some e →
    Pump.Reached id c.peer.maxFrameSize e c.connWindow p → R c (c.settle id p)

/-- The same for every operation of the response side. -/
structure ResponseClosed (on : ℕ → Prop) (R : Connection → Connection → Prop) : Prop
    extends PumpClosed on R where
  writeFields : ∀ c {id} endStream fields, on id → R c (c.writeFields id endStream fields)
  reset : ∀ c {id} code, on id → R c (c.write [.reset id code])
  retire : ∀ c {id}, on id → R c (c.retire id)

/-- What holds of every settled pump holds after either way of pumping. -/
theorem pumps_of_settle {c : Connection} {id : ℕ} {Q : Connection → Prop}
    (hnone : c.entry id = none → Q c)
    (hsome : ∀ e p, c.entry id = some e →
      Pump.Reached id c.peer.maxFrameSize e c.connWindow p → Q (c.settle id p)) :
    Q (c.pumpStreamData id) ∧ Q (c.pumpStreamDataDrr id) := by
  rw [pumpStreamData, pumpStreamDataDrr]
  cases he : c.entry id with
  | none => exact ⟨hnone he, hnone he⟩
  | some e =>
    have hreached := Pump.run_reached id c.peer.maxFrameSize e c.connWindow
    exact ⟨hsome e _ he hreached.1, hsome e _ he hreached.2⟩

namespace PumpClosed

variable {on : ℕ → Prop} {R : Connection → Connection → Prop} {id : ℕ}

theorem pumps (h : PumpClosed on R) (c : Connection) (hid : on id) :
    R c (c.pumpStreamData id) ∧ R c (c.pumpStreamDataDrr id) :=
  pumps_of_settle (fun _ => h.refl c) fun _ _ he hp => h.settle c hid he hp

theorem turn (h : PumpClosed on R) (c : Connection) (quantum : ℕ) (hid : on id) :
    R c (c.turn quantum id).1 := by
  rw [Connection.turn]
  cases he : c.entry id with
  | none => exact h.refl c
  | some e =>
    simp only
    split_ifs
    · exact h.refl c
    · refine h.trans (h.setEntry c hid he ?_ ?_) (h.pumps _ hid).2
      · rfl
      · rfl

theorem drainPendingData (h : PumpClosed (fun _ => True) R) (c : Connection) (hint : List ℕ) :
    R c (c.drainPendingData hint) :=
  drainPendingData_induction (fun c' quantum _ hc => h.trans hc (h.turn c' quantum trivial)) hint
    (h.refl c)

end PumpClosed

namespace ResponseClosed

variable {on : ℕ → Prop} {R : Connection → Connection → Prop} {id : ℕ}

theorem handleStreamMsg (h : ResponseClosed on R) (c : Connection) (hid : on id)
    (msg : StreamMsg) : R c (c.handleStreamMsg id msg) := by
  cases msg with
  | informational parts => exact h.writeFields c false (responseFields parts) hid
  | headers parts endStream =>
    simp only [Connection.handleStreamMsg]
    cases he : c.entry id with
    | none => exact h.writeFields c endStream (responseFields parts) hid
    | some e =>
      simp only
      split_ifs
      · exact h.refl c
      · refine h.trans (h.setEntry c hid he ?_ ?_)
          (h.writeFields _ endStream (responseFields parts) hid)
        · rfl
        · rfl
  | data data endStream =>
    simp only [Connection.handleStreamMsg]
    cases he : c.entry id with
    | none => exact h.refl c
    | some e =>
      simp only
      split_ifs
      · exact h.refl c
      · refine h.trans (h.setEntry c hid he ?_ ?_) (h.pumps _ hid).1
        · rfl
        · rfl
  | trailers trailers =>
    simp only [Connection.handleStreamMsg]
    cases he : c.entry id with
    | none => exact h.refl c
    | some e =>
      simp only
      split_ifs
      · exact h.refl c
      · refine h.trans (h.setEntry c hid he ?_ ?_) (h.writeFields _ true trailers hid)
        · rfl
        · rfl
  | reset errorCode => exact h.trans (h.reset c errorCode hid) (h.retire _ hid)
  | closed =>
    simp only [Connection.handleStreamMsg]
    cases he : c.entry id with
    | none => exact h.refl c
    | some e =>
      have hset : R c (c.setEntry id { e with taskDone := true }) := h.setEntry c hid he rfl rfl
      simp only
      split_ifs
      · exact h.trans hset (h.retire _ hid)
      · exact hset

theorem drainStream (h : ResponseClosed on R) (c : Connection) (hid : on id) :
    R c (c.drainStream id) := by
  have hfold : ∀ (msgs : List StreamMsg) (c : Connection),
      R c (msgs.foldl (fun c msg => c.handleStreamMsg id msg) c) := by
    intro msgs
    induction msgs with
    | nil => exact h.refl
    | cons msg msgs ih => exact fun c => h.trans (h.handleStreamMsg c hid msg) (ih _)
  rw [Connection.drainStream]
  cases he : c.entry id with
  | none => exact h.refl c
  | some e =>
    simp only
    split_ifs
    · refine h.trans (h.setEntry c hid he ?_ ?_) (hfold _ _)
      · rfl
      · rfl
    · exact h.refl c

end ResponseClosed

/-! ### What the response side leaves alone -/

/-- Nothing but the response side has changed, and no stream has come up. -/
structure Responds (c c' : Connection) : Prop where
  same : c' = { c with
    streams := c'.streams
    leftover := c'.leftover
    written := c'.written
    encoder := c'.encoder
    connWindow := c'.connWindow
    closedOrder := c'.closedOrder }
  entry : ∀ id e', c'.entry id = some e' → ∃ e, c.entry id = some e ∧ e.SameRequest e'

namespace Responds

variable {c c' : Connection}

theorem refl (c : Connection) : Responds c c := ⟨rfl, fun _ e h => ⟨e, h, rfl⟩⟩

theorem trans {c'' : Connection} (h : Responds c c') (h' : Responds c' c'') : Responds c c'' where
  same := by
    have hs := h'.same
    rw [h.same] at hs
    exact hs
  entry id e'' he := by
    obtain ⟨e', he', hsame'⟩ := h'.entry id e'' he
    obtain ⟨e, he, hsame⟩ := h.entry id e' he'
    exact ⟨e, he, hsame.trans hsame'⟩

theorem setEntry {id : ℕ} {e e' : StreamEntry} (he : c.entry id = some e)
    (hsame : e.SameRequest e') : Responds c (c.setEntry id e') where
  same := rfl
  entry := entry_setEntry_from he hsame fun _ => rfl

theorem write (c : Connection) (frames : List Frame) : Responds c (c.write frames) :=
  ⟨rfl, fun _ e h => ⟨e, h, rfl⟩⟩

theorem retire (c : Connection) (id : ℕ) : Responds c (c.retire id) where
  same := rfl
  entry := entry_removeStream_from fun _ => rfl

theorem settle {id : ℕ} {e : StreamEntry} {p : Pump} (he : c.entry id = some e)
    (hsame : e.SameRequest p.entry) : Responds c (c.settle id p) := by
  have hput : Responds c { (c.setEntry id p.entry).write p.written with
      connWindow := p.connWindow } :=
    (setEntry he hsame).trans ⟨rfl, fun _ e h => ⟨e, h, rfl⟩⟩
  rw [Connection.settle]
  by_cases hr : p.retired = true
  · simp only [hr]
    exact hput.trans (retire _ id)
  · simp only [hr]
    exact hput

theorem writeFields (c : Connection) (id : ℕ) (endStream : Bool) (fields : List Header) :
    Responds c (c.writeFields id endStream fields) :=
  ⟨rfl, fun _ e h => ⟨e, h, rfl⟩⟩

theorem closed : ResponseClosed (fun _ => True) Responds where
  refl := refl
  trans := trans
  setEntry _ _ _ _ _ he hsame _ := setEntry he hsame
  settle _ _ _ _ _ he hp := settle he hp.sameRequest
  writeFields c _ endStream fields _ := writeFields c _ endStream fields
  reset c _ _ _ := write c _
  retire c _ _ := retire c _

section
variable (c : Connection) (id : ℕ)

theorem pumpStreamData : Responds c (c.pumpStreamData id) :=
  (closed.pumps c trivial).1

theorem pumpStreamDataDrr : Responds c (c.pumpStreamDataDrr id) :=
  (closed.pumps c trivial).2

theorem handleStreamMsg (msg : StreamMsg) : Responds c (c.handleStreamMsg id msg) :=
  closed.handleStreamMsg c trivial msg

theorem drainStream : Responds c (c.drainStream id) :=
  closed.drainStream c trivial

end

theorem drainPendingData (c : Connection) (hint : List ℕ) : Responds c (c.drainPendingData hint) :=
  closed.drainPendingData c hint

end Responds

end ZincioHttp.H2.Connection
