/-!
# Failures of a connection

What can be wrong with a byte stream of frames, and why a transport does not take or give frames.
-/

set_option autoImplicit false

namespace DebugLink

/-- The largest payload that a header may announce. -/
def maxFrameBytes : Nat := 64 * 1024 * 1024

inductive StreamError where
  | missingLength
  | invalidLength (text : String)
  | tooLong (length : Nat)
  | lineNotText
  | payloadNotText
  | truncated
  | device (message : String)
deriving DecidableEq

/-- A fixed word for each class of failure. -/
def StreamError.code : StreamError → String
  | .truncated => "UnexpectedEof"
  | .device _ => "Other"
  | _ => "InvalidData"

def StreamError.message : StreamError → String
  | .missingLength => "missing Content-Length header"
  | .invalidLength text => "invalid Content-Length '" ++ text ++ "'"
  | .tooLong length =>
    "frame of " ++ toString length ++ " bytes exceeds the " ++ toString maxFrameBytes ++
      " byte limit"
  | .lineNotText => "stream did not contain valid UTF-8"
  | .payloadNotText => "frame payload is not utf-8"
  | .truncated => "failed to fill whole buffer"
  | .device message => message

inductive TransportError where
  | stream (error : StreamError)
  | framing (message : String)
  | closed
  | endpoint (text : String)
deriving DecidableEq

def TransportError.code : TransportError → String
  | .stream _ => "Io"
  | .framing _ => "Framing"
  | .closed => "Closed"
  | .endpoint _ => "Endpoint"

def TransportError.message : TransportError → String
  | .stream error => "transport io error: " ++ error.message
  | .framing message => "invalid frame: " ++ message
  | .closed => "transport closed"
  | .endpoint text => "unsupported endpoint '" ++ text ++ "'"

inductive Pulled where
  | frame (text : String)
  | ended
  | failed (error : TransportError)
  /-- The source breaks down instead of answering. -/
  | broken

end DebugLink
