import ZincioHttp.H3.Frame
import ZincioHttp.H3.Qpack.Decoder

/-! What the HTTP/3 layer sees of QUIC, and the errors of the layer with the codes
they travel under. A stream's receive side is the list of what polling it will
yield; an empty list means that a poll finds nothing yet. -/

namespace ZincioHttp.H3

open Qpack

inductive TransportError where
  | closed (code : ℕ)
  | transport
  | timeout
  | reset (code : ℕ)
  | stopped (code : ℕ)
  | other
  deriving DecidableEq, Repr

/-- What a poll of a receive side yields when it is ready. -/
inductive Recv where
  | chunk (data : Octets)
  | finished
  | failed (err : TransportError)
  deriving DecidableEq, Repr

/-- The transport's answer to `poll_send`. -/
inductive Sent where
  | ready
  | pending
  | failed (err : TransportError)

/-- `H3Error`. -/
inductive ErrorCode where
  | noError
  | generalProtocol
  | internal
  | streamCreation
  | closedCriticalStream
  | frameUnexpected
  | frameError
  | excessiveLoad
  | id
  | settings
  | missingSettings
  | requestRejected
  | requestCancelled
  | requestIncomplete
  | message
  | connect
  | versionFallback
  deriving DecidableEq, Repr

def ErrorCode.code : ErrorCode → ℕ
  | noError => 0x0100
  | generalProtocol => 0x0101
  | internal => 0x0102
  | streamCreation => 0x0103
  | closedCriticalStream => 0x0104
  | frameUnexpected => 0x0105
  | frameError => 0x0106
  | excessiveLoad => 0x0107
  | id => 0x0108
  | settings => 0x0109
  | missingSettings => 0x010a
  | requestRejected => 0x010b
  | requestCancelled => 0x010c
  | requestIncomplete => 0x010d
  | message => 0x010e
  | connect => 0x010f
  | versionFallback => 0x0110

def Qpack.QpackError.code : QpackError → ℕ
  | decompressionFailed => 0x0200
  | encoderStream => 0x0201
  | decoderStream => 0x0202

inductive StreamError where
  | transport (err : TransportError)
  | frame
  | excessiveLoad
  | message
  | frameUnexpected
  | qpack (err : QpackError)
  | headersTooBig (size limit : ℕ)
  deriving DecidableEq, Repr

namespace StreamError

def h3Code : StreamError → ℕ
  | transport (.closed code) => code
  | transport _ => ErrorCode.internal.code
  | frame => ErrorCode.frameError.code
  | excessiveLoad => ErrorCode.excessiveLoad.code
  | message => ErrorCode.message.code
  | frameUnexpected => ErrorCode.frameUnexpected.code
  | qpack err => err.code
  | headersTooBig _ _ => ErrorCode.message.code

/-- Whether only the stream is affected: the peer reset it or stopped it. -/
def isStreamScoped : StreamError → Bool
  | transport (.reset _) | transport (.stopped _) => true
  | _ => false

/-- `map_frame_error` of a request stream. -/
def ofFrameError : FrameError → StreamError
  | .frame => .frame
  | .excessiveLoad => .excessiveLoad
  | .unexpected _ | .settings => .frameUnexpected

end StreamError

inductive ControlError where
  | transport (err : TransportError)
  | closedCriticalStream
  | missingSettings
  | streamCreation
  | frameUnexpected
  | frame
  | settings
  | excessiveLoad
  | id
  | qpack (err : QpackError)
  deriving DecidableEq, Repr

namespace ControlError

def h3Code : ControlError → ℕ
  | transport _ => ErrorCode.generalProtocol.code
  | closedCriticalStream => ErrorCode.closedCriticalStream.code
  | missingSettings => ErrorCode.missingSettings.code
  | streamCreation => ErrorCode.streamCreation.code
  | frameUnexpected => ErrorCode.frameUnexpected.code
  | frame => ErrorCode.frameError.code
  | settings => ErrorCode.settings.code
  | excessiveLoad => ErrorCode.excessiveLoad.code
  | id => ErrorCode.id.code
  | qpack err => err.code

/-- `map_frame_error` of the control plane. -/
def ofFrameError : FrameError → ControlError
  | .frame => .frame
  | .unexpected _ => .frameUnexpected
  | .settings => .settings
  | .excessiveLoad => .excessiveLoad

end ControlError

end ZincioHttp.H3
