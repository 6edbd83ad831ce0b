import DebugLink.Session.Context
import DebugLink.Transport.Error
import DebugLink.Wire.Dialect

/-!
# Calls and what comes of them

A call is a command that has got its id and waits for its response. It ends in a reply, whose
body is bound to the type that the command expects, or in a failure.
-/

set_option autoImplicit false

namespace DebugLink

/-- A command that waits for its response. -/
structure PendingCall where
  id : UInt64
  command : String
  /-- The type that the body of the response is bound to. -/
  result : Option String
  /-- The suspend episode outside of which the response is dropped. -/
  token : Option ContextToken
deriving DecidableEq

/-- Which calls wait: the oldest, and how many others. -/
structure BusyStatus where
  oldest : Option String
  others : Nat
deriving DecidableEq

namespace BusyStatus

def ofCalls : List PendingCall → BusyStatus
  | [] => ⟨none, 0⟩
  | call :: rest => ⟨some call.command, rest.length⟩

def isIdle (status : BusyStatus) : Bool :=
  status.oldest.isNone

def text (status : BusyStatus) : String :=
  match status.oldest, status.others with
  | none, _ => "idle"
  | some command, 0 => "waiting for reply to " ++ command
  | some command, others =>
    "waiting for reply to " ++ command ++ " and " ++ toString others ++ " more"

end BusyStatus

/-- A bound body: a view, narrowed when its type is polymorphic. -/
inductive Payload where
  | record (view : View)
  | variant (variant : Variant)

def Payload.view : Payload → View
  | .record view => view
  | .variant v => v.view

def Payload.variant? : Payload → Option Variant
  | .record _ => none
  | .variant v => some v

structure Reply where
  id : UInt64
  command : String
  raw : Json
  /-- The bound body, if the command expects a type. -/
  payload : Option Payload

structure Event where
  name : String
  raw : Json
  payload : Payload

inductive CallFailure where
  | connectionClosed (reason : String)
  | remote (code : Option Int) (message : String)
  | binding (error : BindingError)
  | resolution (error : ResolutionError)

namespace CallFailure

def code : CallFailure → String
  | .connectionClosed _ => "ConnectionClosed"
  | .remote .. => "Remote"
  | .binding _ => "Binding"
  | .resolution _ => "Resolution"

def message : CallFailure → String
  | .connectionClosed reason => "connection closed: " ++ reason
  | .remote _ message => "remote error: " ++ message
  | .binding error => error.message
  | .resolution error => error.message

def isConnectionClosed : CallFailure → Bool
  | .connectionClosed _ => true
  | _ => false

end CallFailure

inductive SessionError where
  | closed
  | contextDismissed (token : ContextToken)
  | unknownType (type : String)
  | transcript
  | transport (error : TransportError)

def SessionError.code : SessionError → String
  | .closed => "Closed"
  | .contextDismissed _ => "ContextDismissed"
  | .unknownType _ => "UnknownType"
  | .transcript => "Transcript"
  | .transport _ => "Transport"

def SessionError.message : SessionError → String
  | .closed => "session is closed"
  | .contextDismissed token => token.text ++ " is no longer current"
  | .unknownType type => "payload type '" ++ type ++ "' is not registered"
  | .transcript => "cannot open protocol log"
  | .transport error => error.message

end DebugLink
