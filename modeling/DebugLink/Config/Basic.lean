import DebugLink.Binding.Binder
import DebugLink.Text.Blank
import DebugLink.Wire.Dialect

/-!
# Configuration of a session

A configuration is made from settings, which are texts that may be absent. A setting is read
without the blanks at its ends and in any case. The first setting that cannot be read is the fault
reported, in the order of the fields of `Settings`.
-/

set_option autoImplicit false

namespace DebugLink

structure Config where
  dialect : Dialect
  responseMode : Mode
  eventMode : Mode
  ambiguity : AmbiguityPolicy
  /-- The path of the log of frames. -/
  protocolLog : Option String
deriving DecidableEq

def Config.default : Config := ⟨.v8, .eager, .lazy, .reject, none⟩

inductive ConfigError where
  /-- There is no file at the path, or none that holds text. -/
  | unreadable (path : String)
  | malformed
  | invalid (key value : String)
deriving DecidableEq

def ConfigError.message : ConfigError → String
  | .unreadable path => path ++ ": cannot be read"
  | .malformed => "invalid config: no table of settings"
  | .invalid key value => "invalid " ++ key ++ " '" ++ value ++ "'"

structure Settings where
  dialect : Option String
  responseMode : Option String
  eventMode : Option String
  ambiguity : Option String
  protocolLog : Option String

namespace Settings

def dialectOf? : String → Option Dialect
  | "v8" | "native" => some .v8
  | "wip" | "webinspector" | "devtools" => some .wip
  | _ => none

def modeOf? : String → Option Mode
  | "eager" => some .eager
  | "lazy" => some .lazy
  | _ => none

def ambiguityOf? : String → Option AmbiguityPolicy
  | "reject" => some .reject
  | "first-match" | "first_match" => some .firstMatch
  | _ => none

def readText {α : Type} (key : String) (read? : String → Option α) (text : String) :
    Except ConfigError α :=
  match read? (Text.toLower (Text.trim text)) with
  | some value => .ok value
  | none => .error (.invalid key text)

/-- Reads a setting, which has a default when it is absent. -/
def readSetting {α : Type} (key : String) (read? : String → Option α) (default : α) :
    Option String → Except ConfigError α
  | none => .ok default
  | some text => readText key read? text

def config (settings : Settings) : Except ConfigError Config := do
  let default := Config.default
  let dialect ← readSetting "session.dialect" dialectOf? default.dialect settings.dialect
  let responseMode ←
    readSetting "session.response_mode" modeOf? default.responseMode settings.responseMode
  let eventMode ← readSetting "session.event_mode" modeOf? default.eventMode settings.eventMode
  let ambiguity ← readSetting "session.ambiguity" ambiguityOf? default.ambiguity settings.ambiguity
  let protocolLog := settings.protocolLog.filter fun path => !Text.isAllBlank path
  pure ⟨dialect, responseMode, eventMode, ambiguity, protocolLog⟩

end Settings

def Dialect.parse (text : String) : Except ConfigError Dialect :=
  Settings.readText "session.dialect" Settings.dialectOf? text

namespace Config

def protocolLogVariable : String := "JSDEBUG_PROTOCOL_LOG"

/-- The configuration with the log of frames at a path, unless the path is empty. -/
def withProtocolLog (config : Config) (path : Option String) : Config :=
  match path.filter fun path => !path.isEmpty with
  | some path => { config with protocolLog := some path }
  | none => config

end Config

end DebugLink
