import DebugLink.Session.Notice

/-!
# What is printed of a connection

The events that are printed in each dialect, and the line for an event, a reply, a failure or a
notice.
-/

set_option autoImplicit false

namespace DebugLink.Attach

def printedEvents : Dialect → List (String × String)
  | .v8 => [("break", "V8BreakBody"), ("exception", "V8BreakBody"), ("afterCompile", "Opaque")]
  | .wip => [("Debugger.paused", "WipPausedParams"), ("Debugger.resumed", "Opaque"),
      ("Debugger.scriptParsed", "WipScriptParsed")]

def eventLine (event : Event) : String :=
  "event " ++ event.name ++ " " ++ event.raw.render

def replyLine (reply : Reply) : String :=
  reply.command ++ " -> " ++ reply.raw.render

def failureLine (command : String) (failure : CallFailure) : String :=
  command ++ " failed: " ++ failure.message

/-- The line for a call that has been waited for in vain. -/
def silenceLine (command : String) : String :=
  "warn no reply command=" ++ command

def noticeLine (notice : Notice) : String :=
  Text.joined " " (notice.level.name :: notice.message ::
    notice.fields.map fun (name, value) => name ++ "=" ++ value)

end DebugLink.Attach
