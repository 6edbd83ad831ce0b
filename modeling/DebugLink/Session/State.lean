import DebugLink.Config.Basic
import DebugLink.Session.Handles
import DebugLink.Session.Notice
import DebugLink.Session.Sequence

/-!
# The state of a session

What a session keeps between operations, and the parts of its work that touch nothing else: the
table of pending calls, suspend episodes, and the binding of payloads.
-/

set_option autoImplicit false

namespace DebugLink

/-- A session only ever moves down this list. -/
inductive Phase where
  | connected
  /-- Pending calls are being failed; commands are rejected. -/
  | closing
  | closed
deriving DecidableEq

def Phase.name : Phase → String
  | .connected => "connected"
  | .closing => "closing"
  | .closed => "closed"

/-- The log of frames that a session may keep. -/
inductive Transcript where
  | off
  | on
  /-- The log was opened but takes no text. -/
  | failing
deriving DecidableEq

/-- Where the events of a name go, and the type that their body is bound to. -/
structure Processor where
  event : String
  type : String
  /-- The name by which the surroundings know the handler. -/
  handler : Nat

structure Session where
  dialect : Dialect
  binder : Binder
  responseMode : Mode
  eventMode : Mode
  phase : Phase
  /-- In the order of their ids. -/
  calls : List PendingCall
  sequence : Sequence
  context : ContextTracker
  handles : HandleTable
  processors : List Processor
  /-- The name by which the surroundings know the listener to status changes. -/
  listener : Option Nat
  transcript : Transcript

namespace Session

def initial (config : Config) (registry : Registry) (transcript : Transcript) : Session where
  dialect := config.dialect
  binder := ⟨registry, config.ambiguity⟩
  responseMode := config.responseMode
  eventMode := config.eventMode
  phase := .connected
  calls := []
  sequence := .initial
  context := .initial
  handles := .empty
  processors := []
  listener := none
  transcript := transcript

def call? (session : Session) (id : UInt64) : Option PendingCall :=
  session.calls.find? (·.id == id)

def isPending (session : Session) (id : UInt64) : Bool :=
  (session.call? id).isSome

def removeCall (session : Session) (id : UInt64) : Session :=
  { session with calls := session.calls.eraseP (·.id == id) }

def busyStatus (session : Session) : BusyStatus :=
  .ofCalls session.calls

/-- Whether the suspend episode of a call is over. -/
def isStale (session : Session) (call : PendingCall) : Bool :=
  !session.context.allows call.token

def processor? (session : Session) (event : String) : Option Processor :=
  session.processors.find? (·.event == event)

/-- Routes the events of a name to a handler, in place of an earlier one. -/
def addProcessor (session : Session) (processor : Processor) : Session :=
  { session with
    processors := processor :: session.processors.filter (·.event != processor.event) }

/-- Why a command cannot be sent, whatever the transport does. -/
def sendFault? (session : Session) (command : Command) : Option SessionError :=
  match command.result.filter fun type => (session.binder.describe? type).isNone with
  | some type => some (.unknownType type)
  | none => if session.phase = .connected then none else some .closed

def suspend (session : Session) : ContextToken × Session :=
  let (token, context) := session.context.suspend
  (token, { session with context := context })

/-- Forgets the current token and all handles. -/
def resume (session : Session) : Session :=
  { session with context := session.context.resume, handles := .empty }

def resumeNotices (session : Session) : List Notice :=
  (session.context.current.map Notice.resumed).toList

/-- Binds a body to a type, narrowing it when the type is polymorphic. -/
def bindPayload (session : Session) (raw : Json) (type : String) (mode : Mode) :
    Outcome CallFailure Payload :=
  match session.binder.describe? type with
  | none => .record <$> (session.binder.bindType type raw mode).mapError .binding
  | some schema =>
    if schema.subtypes.isSome then
      .variant <$> (session.binder.resolve schema raw mode).mapError .resolution
    else
      .record <$> (session.binder.bind schema raw mode).mapError .binding

def reply (session : Session) (call : PendingCall) (body : Json) : Outcome CallFailure Reply :=
  match call.result with
  | none => pure ⟨call.id, call.command, body, none⟩
  | some type => do
    let payload ← session.bindPayload body type session.responseMode
    pure ⟨call.id, call.command, body, some payload⟩

/-- The body that an event is bound over: without one, the empty object. -/
def eventBody (body : Json) : Json :=
  match body with
  | .null => .object []
  | body => body

end Session

end DebugLink
