import DebugLink.Json.Basic

/-!
# Commands

A command has a name, parameters and, when known, the type of its result. `Arguments` are the
commands whose parameters have a fixed form.
-/

set_option autoImplicit false

namespace DebugLink

/-- A command before it gets its id. Parameters may be absent, which differs from null. -/
structure Command where
  name : String
  params : Option Json
  result : Option String

inductive StepAction where
  | into
  | next
  | out
deriving DecidableEq

def StepAction.name : StepAction → String
  | .into => "in"
  | .next => "next"
  | .out => "out"

inductive Arguments where
  | backtrace (fromFrame toFrame : Option UInt32) (inlineRefs : Option Bool)
  | scope (number : UInt32) (frameNumber : Option UInt32)
  | lookup (handles : List Int64) (includeSource : Option Bool)
  | evaluate (expression : String) (frame : Option UInt32) (global disableBreak : Option Bool)
  | continue (stepAction : Option StepAction) (stepCount : Option UInt32)
  | evaluateOnCallFrame (callFrameId expression : String) (returnByValue : Option Bool)
  | runtimeEvaluate (expression : String) (returnByValue : Option Bool)
  | resume

namespace Arguments

def frameNumber (n : UInt32) : Json :=
  .ofUInt64 n.toUInt64

def handle (n : Int64) : Json :=
  .number (.integer n.toInt n.le_toInt (by have := n.toInt_lt; omega))

def member {α : Type} (key : String) (write : α → Json) (value : Option α) :
    Option (String × Json) :=
  value.map fun value => (key, write value)

def object (members : List (Option (String × Json))) : Json :=
  .ofMembers (members.filterMap id)

def params : Arguments → Json
  | .backtrace fromFrame toFrame inlineRefs => object [
      member "fromFrame" frameNumber fromFrame,
      member "toFrame" frameNumber toFrame,
      member "inlineRefs" .bool inlineRefs]
  | .scope number frame => object [
      some ("number", frameNumber number),
      member "frameNumber" frameNumber frame]
  | .lookup handles includeSource => object [
      some ("handles", .array (handles.map handle)),
      member "includeSource" .bool includeSource]
  | .evaluate expression frame global disableBreak => object [
      some ("expression", .string expression),
      member "frame" frameNumber frame,
      member "global" .bool global,
      member "disableBreak" .bool disableBreak]
  | .continue stepAction stepCount => object [
      member "stepaction" (.string ∘ StepAction.name) stepAction,
      member "stepcount" frameNumber stepCount]
  | .evaluateOnCallFrame callFrameId expression returnByValue => object [
      some ("callFrameId", .string callFrameId),
      some ("expression", .string expression),
      member "returnByValue" .bool returnByValue]
  | .runtimeEvaluate expression returnByValue => object [
      some ("expression", .string expression),
      member "returnByValue" .bool returnByValue]
  | .resume => object []

def name : Arguments → String
  | .backtrace .. => "backtrace"
  | .scope .. => "scope"
  | .lookup .. => "lookup"
  | .evaluate .. => "evaluate"
  | .continue .. => "continue"
  | .evaluateOnCallFrame .. => "Debugger.evaluateOnCallFrame"
  | .runtimeEvaluate .. => "Runtime.evaluate"
  | .resume => "Debugger.resume"

def result : Arguments → Option String
  | .backtrace .. => some "V8BacktraceBody"
  | .evaluate .. => some "V8Value"
  | .evaluateOnCallFrame .. => some "WipEvaluateResult"
  | .runtimeEvaluate .. => some "WipEvaluateResult"
  | _ => none

def command (arguments : Arguments) : Command :=
  ⟨arguments.name, some arguments.params, arguments.result⟩

end Arguments

end DebugLink
