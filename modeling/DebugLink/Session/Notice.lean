import DebugLink.Session.Call

/-!
# Notices

What a session and its transport report about their work. Each notice has a level, a message and
fields of text.
-/

set_option autoImplicit false

namespace DebugLink

inductive Level where
  | error
  | warn
  | info
  | debug
deriving DecidableEq

def Level.name : Level → String
  | .error => "error"
  | .warn => "warn"
  | .info => "info"
  | .debug => "debug"

inductive Notice where
  | ambiguous (ambiguity : Ambiguity)
  | sending (id : UInt64) (command : String)
  | sendFailed (id : UInt64) (error : TransportError)
  | sendFailedAfterClose (id : UInt64)
  | frameAfterClose
  | malformedFrame
  | unrecognizedFrame (id : Option UInt64) (error : FrameError)
  | unknownCall (id : UInt64)
  | responseReceived (id : UInt64) (command : String)
  | staleResponse (id : UInt64) (command : String)
  | malformedForUnknownCall (id : UInt64) (failure : CallFailure)
  | staleMalformedResponse (id : UInt64) (command : String)
  | malformedResponse (id : UInt64) (command : String) (failure : CallFailure)
  | unrecognizedEvent (name : String)
  | malformedEvent (name : String) (failure : CallFailure)
  | suspended (token : ContextToken)
  | resumed (token : ContextToken)
  | closing (reason : String) (pending : Nat)
  | failingCall (id : UInt64) (command : String)
  | callbackCrashed (label : String)
  | transportClosed (reason : String)
  | readFailed (error : TransportError)
  | sourceBroken
  | transcriptFailed
  | writeFailed (error : StreamError)

namespace Notice

def level : Notice → Level
  | .sendFailed .. | .callbackCrashed .. | .readFailed .. | .sourceBroken | .writeFailed .. =>
    .error
  | .ambiguous .. | .malformedFrame | .unrecognizedFrame .. | .malformedForUnknownCall ..
  | .malformedResponse .. | .unrecognizedEvent .. | .malformedEvent .. | .transportClosed ..
  | .transcriptFailed => .warn
  | .closing .. => .info
  | _ => .debug

def message : Notice → String
  | .ambiguous .. => "ambiguous structural subtype, using first match"
  | .sending .. => "sending command"
  | .sendFailed .. => "failed to send command"
  | .sendFailedAfterClose .. => "send failed after the session closed"
  | .frameAfterClose => "dropping frame received after close"
  | .malformedFrame => "dropping malformed frame"
  | .unrecognizedFrame .. => "dropping unrecognized frame"
  | .unknownCall .. => "response for unknown call"
  | .responseReceived .. => "response received"
  | .staleResponse .. => "dropping stale response"
  | .malformedForUnknownCall .. => "dropping malformed response for unknown call"
  | .staleMalformedResponse .. => "dropping stale malformed response"
  | .malformedResponse .. => "malformed response"
  | .unrecognizedEvent .. => "dropping unrecognized event"
  | .malformedEvent .. => "dropping event with malformed payload"
  | .suspended .. => "debuggee suspended"
  | .resumed .. => "debuggee resumed"
  | .closing .. => "closing session"
  | .failingCall .. => "failing pending call"
  | .callbackCrashed .. => "callback panicked"
  | .transportClosed .. => "transport closed"
  | .readFailed .. => "transport read failed"
  | .sourceBroken => "frame source panicked"
  | .transcriptFailed => "protocol log write failed"
  | .writeFailed .. => "failed to write frame"

def callFields (id : UInt64) (command : String) : List (String × String) :=
  [("seq", toString id), ("command", command)]

def fields : Notice → List (String × String)
  | .ambiguous ambiguity =>
    [("base", ambiguity.base), ("chosen", ambiguity.chosen),
      ("matches", toString ambiguity.matched)]
  | .sending id command | .responseReceived id command | .staleResponse id command
  | .staleMalformedResponse id command | .failingCall id command => callFields id command
  | .sendFailed id error => [("seq", toString id), ("err", error.message)]
  | .sendFailedAfterClose id | .unknownCall id => [("seq", toString id)]
  | .unrecognizedFrame none error => [("err", error.message)]
  | .unrecognizedFrame (some id) error => [("seq", toString id), ("err", error.message)]
  | .malformedForUnknownCall id failure => [("seq", toString id), ("failure", failure.message)]
  | .malformedResponse id command failure =>
    callFields id command ++ [("failure", failure.message)]
  | .unrecognizedEvent name => [("event", name)]
  | .malformedEvent name failure => [("event", name), ("err", failure.message)]
  | .suspended token | .resumed token => [("token", token.text)]
  | .closing reason pending => [("reason", reason), ("pending", toString pending)]
  | .callbackCrashed label => [("callback", label)]
  | .transportClosed reason => [("reason", reason)]
  | .readFailed error => [("err", error.message)]
  | .writeFailed error => [("err", error.message)]
  | .frameAfterClose | .malformedFrame | .sourceBroken | .transcriptFailed => []

end Notice

end DebugLink
