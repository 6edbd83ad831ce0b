import DebugLink.Binding.Access
import DebugLink.Json.Printer
import DebugLink.Wire.Command

/-!
# The two wire dialects

A dialect says how a command is written under its id, how an incoming frame is told to be a
response or an event, and which frames suspend or resume the program being debugged.
-/

set_option autoImplicit false

namespace DebugLink

inductive Dialect where
  /-- The native protocol, with `seq` and `request_seq`. -/
  | v8
  /-- The inspector protocol, with `id` and `method`. -/
  | wip
deriving DecidableEq

inductive Lifecycle where
  | suspend
  | resume
deriving DecidableEq

structure RemoteError where
  code : Option Int
  message : String

structure ResponseFrame where
  id : UInt64
  outcome : Except RemoteError Json
  /-- Remote objects described beside the body, with their handles. -/
  refs : List (Int × Json)
  /-- Whether the program runs after the command, when reported. -/
  running : Option Bool

structure EventFrame where
  name : String
  body : Json

inductive Incoming where
  | response (frame : ResponseFrame)
  | event (frame : EventFrame)

inductive FrameError where
  | unrecognized (error : ResolutionError)
  | malformed (error : BindingError)
  | missingEnvelope (type : String)
  | invalidId (id : Int)

def FrameError.code : FrameError → String
  | .unrecognized _ => "Unrecognized"
  | .malformed _ => "Malformed"
  | .missingEnvelope _ => "MissingEnvelope"
  | .invalidId _ => "InvalidSeq"

def FrameError.message : FrameError → String
  | .unrecognized error => "unrecognized frame: " ++ error.message
  | .malformed error => "malformed frame: " ++ error.message
  | .missingEnvelope type => "envelope type '" ++ type ++ "' is not registered"
  | .invalidId id => "invalid sequence id " ++ toString id

namespace Dialect

def name : Dialect → String
  | .v8 => "v8"
  | .wip => "wip"

/-- The polymorphic type that every incoming frame narrows. -/
def envelope : Dialect → String
  | .v8 => "V8Incoming"
  | .wip => "WipIncoming"

def responseType : Dialect → String
  | .v8 => "V8Response"
  | .wip => "WipResponse"

def members (dialect : Dialect) (id : UInt64) (command : Command) : List (String × Json) :=
  match dialect with
  | .v8 =>
    [("seq", .ofUInt64 id), ("type", .string "request"), ("command", .string command.name)] ++
      (command.params.map fun params => ("arguments", params)).toList
  | .wip =>
    [("id", .ofUInt64 id), ("method", .string command.name)] ++
      (command.params.map fun params => ("params", params)).toList

def encode (dialect : Dialect) (id : UInt64) (command : Command) : String :=
  (Json.ofMembers (dialect.members id command)).render

/-- The outcome of reading a field of a view that is not read again. -/
def readField (binder : Binder) (view : View) (name : String) : Outcome FrameError FieldValue :=
  ExceptT.mk ((fun (outcome, _) => outcome.mapError .malformed) <$>
    (binder.fieldNamed name).run.run view)

/-- An id has to be a natural number. -/
def checkId (id : Int) : Outcome FrameError UInt64 :=
  if 0 ≤ id then pure (.ofNat id.toNat) else throw (.invalidId id)

/-- A payload; absent and null both read as null. -/
def readPayload (binder : Binder) (view : View) (name : String) : Outcome FrameError Json := do
  return (← readField binder view name).asAny?.getD .null

def readText (binder : Binder) (view : View) (name : String) : Outcome FrameError String := do
  return (← readField binder view name).asString?.getD ""

def readRefs (binder : Binder) (elements : List FieldValue) :
    Outcome FrameError (List (Int × Json)) :=
  (elements.filterMap FieldValue.asRecord?).mapM fun entry => do
    return ((← readField binder entry "handle").asLong?.getD 0, entry.raw)

def v8Response (binder : Binder) (view : View) : Outcome FrameError ResponseFrame := do
  let id ← checkId ((← readField binder view "requestSeq").asLong?.getD 0)
  let outcome ←
    if (← readField binder view "success").asBool?.getD false then
      .ok <$> readPayload binder view "body"
    else do
      let message := (← readField binder view "message").asString?.getD "command failed"
      pure (.error ⟨none, message⟩)
  let refs ← readRefs binder ((← readField binder view "refs").asList?.getD [])
  let running := (← readField binder view "running").asBool?
  pure ⟨id, outcome, refs, running⟩

def wipResponse (binder : Binder) (view : View) : Outcome FrameError ResponseFrame := do
  let id ← checkId ((← readField binder view "id").asLong?.getD 0)
  let outcome ←
    match (← readField binder view "error").asRecord? with
    | some error => do
      let code := (← readField binder error "code").asLong?
      let message := (← readField binder error "message").asString?.getD ""
      pure (.error ⟨code, message⟩)
    | none => .ok <$> readPayload binder view "result"
  pure ⟨id, outcome, [], none⟩

/-- Tells what an incoming frame is, by narrowing it from the envelope. -/
def classify (dialect : Dialect) (binder : Binder) (raw : Json) : Outcome FrameError Incoming := do
  let schema ← .ofOption (.missingEnvelope dialect.envelope) (binder.describe? dialect.envelope)
  let variant ← (binder.resolve schema raw .eager).mapError .unrecognized
  let view := variant.view
  if variant.isOf dialect.responseType then
    match dialect with
    | .v8 => .response <$> v8Response binder view
    | .wip => .response <$> wipResponse binder view
  else
    match dialect with
    | .v8 => do
      let name ← readText binder view "event"
      return .event ⟨name, ← readPayload binder view "body"⟩
    | .wip => do
      let name ← readText binder view "method"
      return .event ⟨name, ← readPayload binder view "params"⟩

/-- The id that a response answers, read from the raw frame without narrowing it. -/
def responseId? (dialect : Dialect) (raw : Json) : Option UInt64 :=
  match dialect with
  | .v8 =>
    if ((raw.get? "type").bind Json.asString?).any (Text.equalIgnoringCase · "response") then
      (raw.get? "request_seq").bind Json.asUInt64?
    else
      none
  | .wip => (raw.get? "id").bind Json.asUInt64?

def eventLifecycle? (dialect : Dialect) (name : String) : Option Lifecycle :=
  match dialect with
  | .v8 => if name = "break" || name = "exception" then some .suspend else none
  | .wip =>
    if name = "Debugger.paused" then some .suspend
    else if name = "Debugger.resumed" then some .resume
    else none

def responseLifecycle? (dialect : Dialect) (frame : ResponseFrame) : Option Lifecycle :=
  match dialect, frame.running with
  | .v8, some true => some .resume
  | _, _ => none

end Dialect

end DebugLink
