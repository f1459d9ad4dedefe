import Mathlib.Algebra.BigOperators.Group.List.Basic
import ZincioHttp.Basic

/-! HTTP/2 frames as the codec hands them to the connection and as the connection
writes them, and the rule that a field block left open is continued on the same
stream before anything else. -/

namespace ZincioHttp.H2

open List

inductive Reason where
  | noError
  | protocolError
  | internalError
  | flowControlError
  | settingsTimeout
  | streamClosed
  | frameSizeError
  | refusedStream
  | cancel
  | compressionError
  | connectError
  | enhanceYourCalm
  | inadequateSecurity
  | http11Required
  deriving DecidableEq, Repr

def Reason.code : Reason → ℕ
  | noError => 0x00
  | protocolError => 0x01
  | internalError => 0x02
  | flowControlError => 0x03
  | settingsTimeout => 0x04
  | streamClosed => 0x05
  | frameSizeError => 0x06
  | refusedStream => 0x07
  | cancel => 0x08
  | compressionError => 0x09
  | connectError => 0x0a
  | enhanceYourCalm => 0x0b
  | inadequateSecurity => 0x0c
  | http11Required => 0x0d

structure H2Error where
  reason : Reason
  message : String
  deriving DecidableEq, Repr

def H2Error.protocol (message : String) : H2Error := ⟨.protocolError, message⟩

structure Priority where
  exclusive : Bool
  dependency : ℕ
  weight : UInt8
  deriving DecidableEq, Repr

structure Setting where
  id : ℕ
  value : ℕ
  deriving DecidableEq, Repr

inductive Frame where
  | data (streamId : ℕ) (endStream : Bool) (data : Octets)
  | headers (streamId : ℕ) (endStream endHeaders : Bool) (priority : Option Priority)
      (block : Octets)
  | priority (streamId : ℕ) (priority : Priority)
  | reset (streamId errorCode : ℕ)
  | settings (ack : Bool) (settings : List Setting)
  | pushPromise (streamId : ℕ) (endHeaders : Bool) (promisedStreamId : ℕ) (block : Octets)
  | ping (ack : Bool) (payload : Octets)
  | goAway (lastStreamId errorCode : ℕ) (debug : Octets)
  | windowUpdate (streamId increment : ℕ)
  | continuation (streamId : ℕ) (endHeaders : Bool) (block : Octets)
  | unknown (typ flags : UInt8) (streamId : ℕ) (payload : Octets)
  deriving DecidableEq, Repr

/-- `DEFAULT_MAX_FRAME_SIZE`. -/
def defaultMaxFrameSize : ℕ := 16384

/-- `MAX_FRAME_SIZE_LIMIT`. -/
def maxFrameSizeLimit : ℕ := 16777215

/-- `DEFAULT_CONNECTION_WINDOW_SIZE`. -/
def defaultConnectionWindowSize : ℕ := 65535

/-- `DEFAULT_INITIAL_WINDOW_SIZE`. -/
def defaultInitialWindowSize : ℕ := 1048576

/-- `i32::MAX`, the largest window. -/
def maxWindow : ℤ := 2147483647

namespace Frame

/-- The stream a frame is about; 0 for the connection. -/
def streamId : Frame → ℕ
  | data id .. | headers id .. | priority id .. | reset id .. | pushPromise id .. |
    windowUpdate id .. | continuation id .. | unknown _ _ id _ => id
  | settings .. | ping .. | goAway .. => 0

/-- The field-block discipline of `parse_frame`. -/
def blockError (blockStream : Option ℕ) : Frame → Option H2Error
  | continuation id _ _ =>
    match blockStream with
    | some openStream =>
      if id ≠ openStream then
        some (.protocol "CONTINUATION frame on a different stream than the open field block")
      else none
    | none =>
      some (.protocol "CONTINUATION frame without a preceding HEADERS or PUSH_PROMISE")
  | _ =>
    match blockStream with
    | some _ => some (.protocol "frame received while field block was open")
    | none => none

/-- The stream whose field block is open after the frame. -/
def nextBlockStream (blockStream : Option ℕ) : Frame → Option ℕ
  | headers id _ false _ _ | pushPromise id false _ _ => some id
  | continuation _ true _ => none
  | _ => blockStream

/-- Frames that carry a piece of a request's field block. -/
def isFragment : Frame → Bool
  | headers .. | continuation .. => true
  | _ => false

end Frame

/-- The CONTINUATION frames of `write_field_block`. -/
def writeContinuations (capacity streamId : ℕ) : ℕ → Octets → List Frame
  | 0, rest => [.continuation streamId true rest]
  | fuel + 1, rest =>
    if rest.length > capacity then
      .continuation streamId false (rest.take capacity) ::
        writeContinuations capacity streamId fuel (rest.drop capacity)
    else [.continuation streamId true rest]

/-- A HEADERS frame and as many CONTINUATION frames as the frame size demands.
Every round of the loop takes `capacity` octets, so that the length is enough
fuel. -/
def writeFieldBlock (capacity streamId : ℕ) (endStream : Bool) (block : Octets) : List Frame :=
  if block.length ≤ capacity then [.headers streamId endStream true none block]
  else .headers streamId endStream false none (block.take capacity) ::
    writeContinuations capacity streamId block.length (block.drop capacity)

/-! ### What is written for a stream -/

namespace Frame

def payloadOn (id : ℕ) : Frame → Octets
  | data id' _ octs => if id' = id then octs else []
  | _ => []

/-- A frame that ends a stream from the server's side. -/
def endsStream (id : ℕ) : Frame → Bool
  | data id' e _ | headers id' e _ _ _ => decide (id' = id) && e
  | _ => false

/-- Frames that belong to no response. -/
def isControl : Frame → Bool
  | reset .. | settings .. | ping .. | goAway .. | windowUpdate .. => true
  | _ => false

def dataLen : Frame → ℕ
  | data _ _ octs => octs.length
  | _ => 0

end Frame

theorem mem_writeContinuations {capacity streamId : ℕ} {f : Frame} : ∀ {fuel : ℕ} {rest : Octets},
    f ∈ writeContinuations capacity streamId fuel rest →
      ∃ endHeaders octs, f = .continuation streamId endHeaders octs := by
  intro fuel
  induction fuel with
  | zero => exact fun hf => ⟨_, _, mem_singleton.1 hf⟩
  | succ fuel ih =>
    intro rest hf
    rw [writeContinuations] at hf
    split_ifs at hf
    · rcases mem_cons.1 hf with rfl | hf
      · exact ⟨_, _, rfl⟩
      · exact ih hf
    · exact ⟨_, _, mem_singleton.1 hf⟩

theorem writeFieldBlock_cons (capacity streamId : ℕ) (endStream : Bool) (block : Octets) :
    ∃ endHeaders octs more, writeFieldBlock capacity streamId endStream block =
        .headers streamId endStream endHeaders none octs :: more ∧
      ∀ f ∈ more, ∃ endHeaders octs, f = .continuation streamId endHeaders octs := by
  rw [writeFieldBlock]
  split_ifs
  · exact ⟨_, _, [], rfl, by simp⟩
  · exact ⟨_, _, _, rfl, fun f hf => mem_writeContinuations hf⟩

theorem writeFieldBlock_spec (capacity streamId id : ℕ) (endStream : Bool) (block : Octets) :
    (writeFieldBlock capacity streamId endStream block).flatMap (Frame.payloadOn id) = [] ∧
    (writeFieldBlock capacity streamId endStream block).countP (Frame.endsStream id) =
      (if streamId = id ∧ endStream = true then 1 else 0) ∧
    ((writeFieldBlock capacity streamId endStream block).map Frame.dataLen).sum = 0 := by
  obtain ⟨endHeaders, octs, more, heq, hmore⟩ :=
    writeFieldBlock_cons capacity streamId endStream block
  have hrest : ∀ f ∈ more, f.payloadOn id = [] ∧ f.endsStream id = false ∧ f.dataLen = 0 := by
    intro f hf
    obtain ⟨_, _, rfl⟩ := hmore f hf
    exact ⟨rfl, rfl, rfl⟩
  rw [heq]
  refine ⟨?_, ?_, ?_⟩
  · rw [flatMap_cons]
    exact flatMap_eq_nil_iff.2 fun f hf => (hrest f hf).1
  · rw [countP_cons, countP_eq_zero.2 fun f hf => by simp [(hrest f hf).2.1]]
    simp [Frame.endsStream]
  · rw [map_cons, sum_cons]
    refine (Nat.zero_add _).trans (sum_eq_zero fun x hx => ?_)
    obtain ⟨f, hf, rfl⟩ := mem_map.1 hx
    exact (hrest f hf).2.2

end ZincioHttp.H2
