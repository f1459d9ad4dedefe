import Mathlib.Data.List.AList
import ZincioHttp.H2.Hpack.Decode
import ZincioHttp.H2.Hpack.Encode
import ZincioHttp.H2.Stream
import ZincioHttp.Lib.History

/-! The state of an HTTP/2 server connection and the small operations its
handlers are made of. Everything that is written is kept as the list of frames
in the order in which they are appended to the output buffer. -/

namespace ZincioHttp.H2

structure ConnectionOptions where
  maxConcurrentStreams : UInt32
  initialStreamWindowSize : UInt32
  initialConnectionWindowSize : UInt32
  maxFrameSize : UInt32
  maxHeaderListSize : UInt32
  enableConnectProtocol : Bool
  maxLocalErrorResetStreams : Option ℕ
  maxPendingAcceptResetStreams : Option ℕ
  maxContinuationFrames : ℕ

def ConnectionOptions.default : ConnectionOptions where
  maxConcurrentStreams := 100
  initialStreamWindowSize := UInt32.ofNat defaultInitialWindowSize
  initialConnectionWindowSize := UInt32.ofNat defaultConnectionWindowSize
  maxFrameSize := UInt32.ofNat defaultMaxFrameSize
  maxHeaderListSize := 0xffffffff
  enableConnectProtocol := false
  maxLocalErrorResetStreams := some 1024
  maxPendingAcceptResetStreams := some 20
  maxContinuationFrames := 16

structure PeerSettings where
  headerTableSize : ℕ
  enablePush : ℕ
  initialWindowSize : ℕ
  maxFrameSize : ℕ
  maxHeaderListSize : ℕ

def PeerSettings.default : PeerSettings :=
  ⟨4096, 1, defaultConnectionWindowSize, defaultMaxFrameSize, 2 ^ 32 - 1⟩

/-- The connection task waits for room in a stream's body channel: the message,
and whether the request ends with it. -/
structure Parked where
  streamId : ℕ
  msg : BodyMsg
  endStream : Bool

structure Connection where
  opts : ConnectionOptions
  /-- The stream whose field block is open, as the frame decoder knows it. -/
  blockStream : Option ℕ
  /-- The largest frame the writer produces. -/
  writerMaxFrameSize : ℕ
  encoder : Hpack.Encoder
  requestDecoder : Hpack.Decoder
  peer : PeerSettings
  streams : AList fun _ : ℕ => StreamEntry
  /-- What the readers of removed streams still find in their body channels. -/
  leftover : ℕ → List BodyMsg
  connWindow : ℤ
  /-- `closed_streams` in the order in which they were closed. -/
  closedOrder : List ℕ
  localErrorResets : ℕ
  pendingAcceptResets : ℕ
  completeBlocks : List ℕ
  highestStreamId : ℕ
  closing : Bool
  graceful : Bool
  gracefulLastStream : ℕ
  connectionError : Option (Reason × String)
  peerGoaway : Bool
  /-- The loop of `handle` has been left. -/
  ended : Bool
  parked : Option Parked
  /-- Requests handed to the handler. -/
  dispatched : List (ℕ × ParsedRequest)
  written : List Frame

namespace Connection

def announcement (opts : ConnectionOptions) : Frame :=
  .settings false [⟨0x03, opts.maxConcurrentStreams.toNat⟩,
    ⟨0x04, opts.initialStreamWindowSize.toNat⟩, ⟨0x05, opts.maxFrameSize.toNat⟩,
    ⟨0x08, if opts.enableConnectProtocol then 1 else 0⟩]

/-- The connection when its loop starts, after the preface. -/
def start (opts : ConnectionOptions) : Connection where
  opts := opts
  blockStream := none
  writerMaxFrameSize := defaultMaxFrameSize
  encoder := Hpack.Encoder.new 4096
  requestDecoder := (Hpack.Decoder.new 4096).setMaxHeaderListSize opts.maxHeaderListSize.toNat
  peer := PeerSettings.default
  streams := ∅
  leftover _ := []
  connWindow := opts.initialConnectionWindowSize.toNat
  closedOrder := []
  localErrorResets := 0
  pendingAcceptResets := 0
  completeBlocks := []
  highestStreamId := 0
  closing := false
  graceful := false
  gracefulLastStream := 0
  connectionError := none
  peerGoaway := false
  ended := false
  parked := none
  dispatched := []
  written := [announcement opts]

def entry (c : Connection) (id : ℕ) : Option StreamEntry := c.streams.lookup id

def setEntry (c : Connection) (id : ℕ) (e : StreamEntry) : Connection :=
  { c with streams := c.streams.insert id e }

/-- The entry is dropped, and with it the sender of its body channel. -/
def removeStream (c : Connection) (id : ℕ) : Connection :=
  { c with
    streams := c.streams.erase id
    leftover := match (c.entry id).bind (·.body) with
      | none => c.leftover
      | some ch => Function.update c.leftover id ch.queue }

def write (c : Connection) (frames : List Frame) : Connection :=
  { c with written := c.written ++ frames }

/-- The connection task waits, or goes on. -/
def park (c : Connection) (parked : Option Parked) : Connection := { c with parked := parked }

/-- `mark_closed`: the oldest of 4096 closed streams is forgotten. -/
def markClosed (c : Connection) (id : ℕ) : Connection :=
  let order := if c.closedOrder.length ≥ 4096 then c.closedOrder.tail else c.closedOrder
  { c with closedOrder := if id ∈ order then order else order ++ [id] }

/-- The stream has ended for good. -/
def retire (c : Connection) (id : ℕ) : Connection := (c.markClosed id).removeStream id

/-- Queues a GOAWAY; the first error is the one that is reported. -/
def goaway (c : Connection) (reason : Reason) (debug : String) : Connection :=
  { c with
    connectionError := c.connectionError.or (some (reason, debug))
    closing := true
    written := c.written ++ [.goAway c.highestStreamId reason.code (octets debug)] }

/-- Queues a RST_STREAM and forgets the stream, unless the peer has made too many
errors. -/
def streamError (c : Connection) (id : ℕ) (reason : Reason) : Connection :=
  if reason ≠ .internalError then
    if c.opts.maxLocalErrorResetStreams.any fun max => decide (c.localErrorResets ≥ max) then
      c.goaway .enhanceYourCalm "too many resets for peer protocol errors"
    else
      (write { c with localErrorResets := c.localErrorResets + 1 }
        [.reset id reason.code]).retire id
  else (c.write [.reset id reason.code]).retire id

def beginGracefulShutdown (c : Connection) : Connection :=
  if c.graceful || c.closing then c
  else
    { c with
      graceful := true
      gracefulLastStream := c.highestStreamId
      written := c.written ++
        [.goAway c.highestStreamId Reason.noError.code (octets "graceful shutdown")] }

def finishGracefulShutdown (c : Connection) : Connection :=
  if c.closing then c
  else c.write [.goAway c.gracefulLastStream Reason.noError.code (octets "graceful shutdown")]

/-! ### Entries after each operation -/

section Entries
variable (c : Connection) (id id' : ℕ) (e : StreamEntry)

@[simp] theorem entry_start (opts : ConnectionOptions) : (start opts).entry id = none :=
  AList.lookup_empty id

@[simp] theorem entry_setEntry : (c.setEntry id e).entry id = some e :=
  AList.lookup_insert c.streams

theorem entry_setEntry_ne (h : id' ≠ id) : (c.setEntry id e).entry id' = c.entry id' :=
  AList.lookup_insert_ne h

variable {c id id' e} {e' : StreamEntry}

theorem eq_of_entry_setEntry (h : (c.setEntry id e).entry id = some e') : e' = e := by
  rw [entry_setEntry, Option.some.injEq] at h
  exact h.symm

theorem entry_of_setEntry (h : (c.setEntry id e).entry id' = some e') :
    id' = id ∧ e' = e ∨ id' ≠ id ∧ c.entry id' = some e' := by
  by_cases hid : id' = id
  · subst hid
    exact .inl ⟨rfl, eq_of_entry_setEntry h⟩
  · rw [entry_setEntry_ne _ _ _ _ hid] at h
    exact .inr ⟨hid, h⟩

theorem none_of_entry_setEntry (h : (c.setEntry id e).entry id' = none) : c.entry id' = none := by
  by_cases hid : id' = id
  · rw [hid, entry_setEntry] at h
    cases h
  · rwa [entry_setEntry_ne _ _ _ _ hid] at h

variable (c id id' e)

theorem setEntry_setEntry (e' : StreamEntry) :
    (c.setEntry id e).setEntry id e' = c.setEntry id e' := by
  have h : (c.streams.insert id e).insert id e' = c.streams.insert id e' := AList.insert_insert _
  exact congrArg (fun streams => { c with streams := streams }) h

@[simp] theorem entry_removeStream : (c.removeStream id).entry id = none :=
  AList.lookup_erase id c.streams

theorem entry_removeStream_ne (h : id' ≠ id) : (c.removeStream id).entry id' = c.entry id' :=
  AList.lookup_erase_ne h

variable {c id id'}

theorem entry_of_removeStream {e : StreamEntry} (h : (c.removeStream id).entry id' = some e) :
    id' ≠ id ∧ c.entry id' = some e := by
  by_cases hid : id' = id
  · rw [hid, entry_removeStream] at h
    cases h
  · rw [entry_removeStream_ne _ _ _ hid] at h
    exact ⟨hid, h⟩

variable {Q : StreamEntry → StreamEntry → Prop}

/-- Every entry goes back to one if the one that is set does. -/
theorem entry_setEntry_from {e : StreamEntry} (he : c.entry id = some e) (h : Q e e')
    (hQ : ∀ e, Q e e) :
    ∀ id₁ e₁, (c.setEntry id e').entry id₁ = some e₁ → ∃ e, c.entry id₁ = some e ∧ Q e e₁ := by
  intro id₁ e₁ he₁
  rcases entry_of_setEntry he₁ with ⟨rfl, rfl⟩ | ⟨-, he₁⟩
  · exact ⟨e, he, h⟩
  · exact ⟨e₁, he₁, hQ e₁⟩

theorem entry_removeStream_from (hQ : ∀ e, Q e e) :
    ∀ id₁ e₁, (c.removeStream id).entry id₁ = some e₁ → ∃ e, c.entry id₁ = some e ∧ Q e e₁ :=
  fun _ e₁ he₁ => ⟨e₁, (entry_of_removeStream he₁).2, hQ e₁⟩

end Entries

theorem streamError_entry (c : Connection) (id : ℕ) (reason : Reason) :
    (c.streamError id reason).closing = true ∨ (c.streamError id reason).entry id = none := by
  rw [streamError]
  split_ifs
  · exact .inl rfl
  · exact .inr (entry_removeStream _ _)
  · exact .inr (entry_removeStream _ _)

end Connection

end ZincioHttp.H2
