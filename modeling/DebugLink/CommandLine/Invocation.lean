import DebugLink.CommandLine.Options
import DebugLink.Json.Parser
import DebugLink.Wire.Command

/-!
# Invocations

What the program is asked to do: where to connect, how, and which commands to send. Each parameter
text belongs to the closest command before it; of several the last counts.
-/

set_option autoImplicit false

namespace DebugLink.CommandLine

inductive PairingError where
  | noCommand (text : String)
  | notJson (command text : String)
deriving DecidableEq

def PairingError.message : PairingError → String
  | .noCommand text => "--params " ++ text ++ " does not follow a --command"
  | .notJson command _ => "invalid --params for " ++ command

/-- The place among the commands of the last one before a place among all values. -/
def commandBefore? (commands : List (Nat × String)) (place : Nat) : Option Nat :=
  (commands.zipIdx.reverse.find? fun ((p, _), _) => p < place).map Prod.snd

/-- Gives parameters to the closest command before them. -/
def pairOne (places : List (Nat × String)) (commands : List Command) (param : Nat × String) :
    Except PairingError (List Command) :=
  match commandBefore? places param.1 with
  | none => .error (.noCommand param.2)
  | some index =>
    match Json.parse? param.2 with
    | some params =>
      .ok (commands.modify index fun command => { command with params := some params })
    | none => .error (.notJson ((places[index]?.map Prod.snd).getD "") param.2)

def pair (commands params : List (Nat × String)) : Except PairingError (List Command) :=
  params.foldlM (pairOne commands) (commands.map fun (_, name) => ⟨name, none, none⟩)

structure Invocation where
  endpoint : Endpoint
  config : Option String
  /-- Overrides the dialect of the configuration. -/
  dialect : Option Dialect
  commands : List Command
  /-- How many seconds to wait for each reply. -/
  timeout : Nat

def defaultTimeout : Nat := 10

inductive Refusal where
  | halt (halt : Halt)
  | pairing (error : PairingError)

def read (arguments : List String) : Except Refusal Invocation := do
  let (endpoint, options) ← (readOptions arguments).mapError .halt
  let commands ← (pair options.commands options.params).mapError .pairing
  pure ⟨endpoint, options.config, options.dialect, commands,
    options.timeout.getD defaultTimeout⟩

end DebugLink.CommandLine
