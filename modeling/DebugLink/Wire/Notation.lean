import DebugLink.Json.Members
import DebugLink.Wire.Command

/-!
# Commands in JSON

A command is read from an object with its name, its parameters and the type of its result, or with
arguments of a fixed form.
-/

set_option autoImplicit false

namespace DebugLink

def word? (value : Json) (key : String) : Option UInt32 :=
  (value.nat? key).map UInt32.ofNat

def StepAction.ofName? (name : String) : Option StepAction :=
  [StepAction.into, .next, .out].find? (·.name == name)

def Arguments.ofJson? (value : Json) : Option Arguments :=
  match value.text "kind" with
  | "backtrace" => some <| .backtrace (word? value "fromFrame") (word? value "toFrame")
      (value.flag? "inlineRefs")
  | "scope" => some <| .scope ((word? value "number").getD 0) (word? value "frameNumber")
  | "lookup" => some <| .lookup
      ((value.items "handles").filterMap fun handle => (handle.asInt?).map Int64.ofInt)
      (value.flag? "includeSource")
  | "evaluate" => some <| .evaluate (value.text "expression") (word? value "frame")
      (value.flag? "global") (value.flag? "disableBreak")
  | "continue" => some <| .continue (StepAction.ofName? (value.text "stepAction"))
      (word? value "stepCount")
  | "evaluateOnCallFrame" => some <| .evaluateOnCallFrame (value.text "callFrameId")
      (value.text "expression") (value.flag? "returnByValue")
  | "runtimeEvaluate" => some <| .runtimeEvaluate (value.text "expression")
      (value.flag? "returnByValue")
  | "resume" => some .resume
  | _ => none

/-- Reads a command. A type under `expect` is the result, whatever the arguments say. -/
def Command.ofJson (value : Json) : Command :=
  let command :=
    match (value.get? "args").bind Arguments.ofJson? with
    | some arguments => arguments.command
    | none => ⟨value.text "command", value.get? "params", none⟩
  { command with result := (value.text? "expect").or command.result }

end DebugLink
