import DebugLink.Attach.Client
import DebugLink.CommandLine.Help
import DebugLink.CommandLine.Invocation
import DebugLink.Config.Document

/-!
# The program

From arguments to a client, and what can go wrong on the way. The settings are taken from the
configuration file, the environment and the arguments, later ones before earlier ones.
-/

set_option autoImplicit false

namespace DebugLink.Attach

inductive Failure where
  | pairing (error : CommandLine.PairingError)
  | config (error : ConfigError)
  | connection (endpoint : Endpoint) (reason : String)
  | session (error : SessionError)

def Failure.message : Failure → String
  | .pairing error => error.message
  | .config error => error.message
  | .connection endpoint reason => "cannot connect to " ++ endpoint.text ++ ": " ++ reason
  | .session error => error.message

def Failure.line (failure : Failure) : String :=
  "jsdebug error: " ++ failure.message

def Failure.exitCode (_ : Failure) : UInt32 := 1

structure Plan where
  endpoint : Endpoint
  config : Config
  commands : List Command
  timeout : Nat

/-- The plan of an invocation, given the bytes of its configuration file if there is one, and the
path of the log of frames in the environment. -/
def plan (invocation : CommandLine.Invocation) (file : Option ByteArray)
    (environment : Option String) : Except Failure Plan := do
  let loaded ←
    match invocation.config with
    | some path => (Config.ofFile path file).mapError .config
    | none => .ok .default
  let config := loaded.withProtocolLog environment
  pure ⟨invocation.endpoint, { config with dialect := invocation.dialect.getD config.dialect },
    invocation.commands, invocation.timeout⟩

end DebugLink.Attach
