import ZincioHttp.H3.Settings
import ZincioHttp.H3.Transport

/-! The QPACK codecs of a connection and what the request streams and the control
plane exchange through them. Every field of the record has a lock of its own; each
definition here takes one of them. -/

namespace ZincioHttp.H3

open Qpack ZincioHttp.Hpack Function

structure SharedCodecs where
  decoder : Decoder
  /-- Created once the peer's settings are known. -/
  encoder : Option Encoder
  /-- Encoder-stream instructions, one element for each section. -/
  encoderStream : List Octets
  /-- Released sections, oldest first. -/
  unblocked : ℕ → List UnblockedSection
  peerMaxFieldSectionSize : Option ℕ
  localMaxFieldSectionSize : Option ℕ
  /-- The streams whose task has left a waker. -/
  waiters : ℕ → Bool

namespace SharedCodecs

def new (settings : LocalSettings) : SharedCodecs where
  decoder := (Decoder.new settings.qpackMaxTableCapacity settings.qpackBlockedStreams
    ).setMaxFieldSectionSize (settings.maxFieldSectionSize.getD usizeMax)
  encoder := none
  encoderStream := []
  unblocked := fun _ => []
  peerMaxFieldSectionSize := none
  localMaxFieldSectionSize := settings.maxFieldSectionSize
  waiters := fun _ => false

/-! ### Sending -/

/-- The part of `encode_headers` under the encoder's lock. -/
def encodeSection (sh : SharedCodecs) (stream : ℕ) (lines : List Field) :
    Except StreamError (SharedCodecs × Encoder.EncodedSection) :=
  match sh.encoder with
  | none => .error .message
  | some e =>
    let (e, encoded) := e.encodeSectionWithAckBase stream lines
    .ok ({ sh with encoder := some e }, encoded)

/-- The peer's limit against the size of the encoded section. -/
def checkSize (sh : SharedCodecs) (encoded : Encoder.EncodedSection) : Except StreamError Unit :=
  match sh.peerMaxFieldSectionSize with
  | none => .ok ()
  | some limit =>
    if encoded.block.length > limit then .error (.headersTooBig encoded.block.length limit)
    else .ok ()

/-- Queues the instructions of a section for the control plane. -/
def pushEncoderStream (sh : SharedCodecs) (encoded : Encoder.EncodedSection) : SharedCodecs :=
  if encoded.encoderStream = [] then sh
  else { sh with encoderStream := sh.encoderStream ++ [encoded.encoderStream] }

/-- The header of the HEADERS frame and its field section; what has been changed
before a failure stays changed. -/
def encodeHeaders (sh : SharedCodecs) (stream : ℕ) (lines : List Field) :
    SharedCodecs × Except StreamError (Octets × Octets) :=
  match sh.encodeSection stream lines with
  | .error err => (sh, .error err)
  | .ok (sh, encoded) =>
    match sh.checkSize encoded with
    | .error err => (sh, .error err)
    | .ok () =>
      (sh.pushEncoderStream encoded,
        .ok (writeVarint frameHeaders ++ writeVarint encoded.block.length, encoded.block))

/-- Encoding does not touch the decoder, and neither creates nor drops the
encoder. -/
theorem encodeHeaders_frame (sh : SharedCodecs) (stream : ℕ) (lines : List Field) :
    (sh.encodeHeaders stream lines).1.decoder = sh.decoder ∧
      (sh.encodeHeaders stream lines).1.encoder.isSome = sh.encoder.isSome := by
  rw [encodeHeaders, encodeSection]
  cases he : sh.encoder with
  | none => simp [he]
  | some e =>
    dsimp only
    split
    · exact ⟨rfl, rfl⟩
    · rw [pushEncoderStream]
      split_ifs <;> exact ⟨rfl, rfl⟩

/-! ### Receiving -/

/-- `decode_block` of a request stream. -/
def decodeBlock (sh : SharedCodecs) (block : Octets) (stream now : ℕ) :
    Except StreamError (SharedCodecs × Option (List Field)) :=
  match sh.decoder.decodeBlock block stream now with
  | .error err => .error (.qpack err)
  | .ok (d, headers) => .ok ({ sh with decoder := d }, headers)

/-- `Decoder::stream_finished`. -/
def streamFinished (sh : SharedCodecs) (stream : ℕ) : SharedCodecs :=
  { sh with decoder := { sh.decoder with
      sectionSizeByStream := update sh.decoder.sectionSizeByStream stream none } }

/-- The first half of `take_unblocked_for`: the oldest released section of a
stream. -/
def takeUnblocked (sh : SharedCodecs) (stream : ℕ) : Option (SharedCodecs × UnblockedSection) :=
  match sh.unblocked stream with
  | [] => none
  | u :: rest => some ({ sh with unblocked := update sh.unblocked stream rest }, u)

/-- Its second half: nothing is there yet, and the task leaves its waker. -/
def addWaiter (sh : SharedCodecs) (stream : ℕ) : SharedCodecs :=
  { sh with waiters := update sh.waiters stream true }

/-! ### The control plane -/

/-- `take_waiters_for`: the streams whose wakers are taken. -/
def takeWaitersFor (sh : SharedCodecs) (ids : List ℕ) : SharedCodecs × List ℕ :=
  ({ sh with waiters := fun stream => sh.waiters stream && !decide (stream ∈ ids) },
    ids.dedup.filter sh.waiters)

/-- Hands released sections to their streams. -/
def placeUnblocked (sh : SharedCodecs) (sections : List UnblockedSection) : SharedCodecs :=
  { sh with
    unblocked := sections.foldl
      (fun map u => update map u.stream (map u.stream ++ [u])) sh.unblocked }

end SharedCodecs

end ZincioHttp.H3
