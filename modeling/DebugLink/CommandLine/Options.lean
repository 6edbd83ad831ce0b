import DebugLink.Config.Basic
import DebugLink.Transport.Endpoint

/-!
# Reading command-line options

Arguments are read from left to right. An option takes the argument after it, or what follows an
equals sign. A value is looked at only when the next option starts or the arguments end, so an
argument that is no option at all is reported before a value in front of it that cannot be read.
-/

set_option autoImplicit false

namespace DebugLink.CommandLine

inductive Name where
  | endpoint
  | config
  | dialect
  | command
  | params
  | timeout
deriving DecidableEq

def Name.ofText? : String → Option Name
  | "endpoint" => some .endpoint
  | "config" => some .config
  | "dialect" => some .dialect
  | "command" => some .command
  | "params" => some .params
  | "timeout" => some .timeout
  | _ => none

inductive Halt where
  | missingEndpoint
  /-- An option has no value, or an empty one that it does not take. -/
  | noValue (name : Name)
  | invalidValue (name : Name) (value : String)
  | unknown (argument : String)
  | repeated (name : Name)
  | needlessValue (argument : String)
  | help
  | version
deriving DecidableEq

/-- A fixed word for each kind of halt, for programs that tell the kinds apart. -/
def Halt.code : Halt → String
  | .missingEndpoint => "MissingRequiredArgument"
  | .noValue _ => "InvalidValue"
  | .invalidValue .. => "ValueValidation"
  | .unknown _ => "UnknownArgument"
  | .repeated _ => "ArgumentConflict"
  | .needlessValue _ => "TooManyValues"
  | .help => "DisplayHelp"
  | .version => "DisplayVersion"

/-- The options read so far. Commands and parameters have their places among all values. -/
structure Options where
  endpoint : Option Endpoint
  config : Option String
  dialect : Option Dialect
  timeout : Option Nat
  commands : List (Nat × String)
  params : List (Nat × String)
  next : Nat

/-- An option that is not finished: without its value, or with a value not looked at yet. -/
inductive Unfinished where
  | nothing
  | awaiting (name : Name)
  | given (name : Name) (value : String)

structure State where
  options : Options
  unfinished : Unfinished
  /-- Nothing that follows is an option. -/
  ended : Bool

def State.initial : State := ⟨⟨none, none, none, none, [], [], 0⟩, .nothing, false⟩

namespace Options

/-- Sets an option that counts once. -/
def once {α : Type} (name : Name) (present : Option α) (read : Except Halt α) : Except Halt α :=
  if present.isSome then .error (.repeated name) else read

def readWith {α : Type} (name : Name) (value : String) : Option α → Except Halt α
  | some read => .ok read
  | none => .error (.invalidValue name value)

def assign (options : Options) (name : Name) (value : String) : Except Halt Options :=
  let options := { options with next := options.next + 1 }
  match name with
  | .endpoint => do
    let endpoint ← once name options.endpoint
      (readWith name value (Endpoint.parse value).toOption)
    pure { options with endpoint := some endpoint }
  | .config => do
    let config ← once name options.config
      (if value.isEmpty then .error (.noValue name) else .ok value)
    pure { options with config := some config }
  | .dialect => do
    let dialect ← once name options.dialect (readWith name value (Dialect.parse value).toOption)
    pure { options with dialect := some dialect }
  | .timeout => do
    let timeout ← once name options.timeout (readWith name value (Text.natural64? value))
    pure { options with timeout := some timeout }
  | .command => .ok { options with commands := options.commands ++ [(options.next, value)] }
  | .params => .ok { options with params := options.params ++ [(options.next, value)] }

end Options

namespace State

def resolve (state : State) : Except Halt Options :=
  match state.unfinished with
  | .nothing => .ok state.options
  | .awaiting name => .error (.noValue name)
  | .given name value => state.options.assign name value

/-- A long option, without its dashes: the name, and what follows an equals sign. -/
def splitLong (text : List Char) : String × Option String :=
  let name := text.takeWhile (· != '=')
  (String.ofList name, ((text.drop name.length).tail?).map String.ofList)

def long (state : State) (argument : String) (text : List Char) : Except Halt State :=
  let (name, value) := splitLong text
  match Name.ofText? name, value with
  | some name, some value => do
    let options ← (← state.resolve).assign name value
    pure { state with options := options, unfinished := .nothing }
  | some name, none => do
    pure { state with options := ← state.resolve, unfinished := .awaiting name }
  | none, value =>
    if name = "help" || name = "version" then
      if value.isSome then .error (.needlessValue argument)
      else do
        discard state.resolve
        .error (if name = "help" then .help else .version)
    else
      .error (.unknown argument)

def short (state : State) (argument : String) (letter : Char) : Except Halt State :=
  if letter = 'h' || letter = 'V' then do
    discard state.resolve
    .error (if letter = 'h' then .help else .version)
  else
    .error (.unknown argument)

def step (state : State) (argument : String) : Except Halt State :=
  if state.ended then .error (.unknown argument)
  else
    match argument.toList with
    | ['-', '-'] => .ok { state with ended := true }
    | '-' :: '-' :: text => state.long argument text
    | '-' :: letter :: _ => state.short argument letter
    | _ =>
      match state.unfinished with
      | .awaiting name => .ok { state with unfinished := .given name argument }
      | _ => .error (.unknown argument)

end State

/-- Reads all arguments, which have to name an endpoint. -/
def readOptions (arguments : List String) : Except Halt (Endpoint × Options) := do
  let options ← (← arguments.foldlM State.step .initial).resolve
  match options.endpoint with
  | some endpoint => pure (endpoint, options)
  | none => .error .missingEndpoint

end DebugLink.CommandLine
