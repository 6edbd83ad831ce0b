import DebugLink.Config.Basic
import DebugLink.Toml.Document

/-!
# Configuration documents

A configuration is written as a TOML document with the sections `session` and `log`. Keys that
are not known are skipped, but numbers there have to be usable; settings that are known have to be
strings.
-/

set_option autoImplicit false

namespace DebugLink

namespace Settings

/-- Whether all numbers outside the given keys can be used. -/
def othersUsable (table : Toml.Table) (keys : List String) : Bool :=
  table.members.all fun (key, value) => keys.contains key || value.isUsable

/-- The settings of a section by their keys. A section may also be an array that lists the
settings in the order of the keys, with anything after them, and a date in its place has none. -/
def readSection (keys : List String) : Option Toml.Value → Except ConfigError (List (Option String))
  | none | some (.dateTime _) => .ok (keys.map fun _ => none)
  | some (.table table) =>
    if othersUsable table keys then
      keys.mapM fun key =>
        match table.get? key with
        | none => .ok none
        | some (.string text) => .ok (some text)
        | some _ => .error .malformed
    else
      .error .malformed
  | some (.array items) =>
    if items.length < keys.length then .error .malformed
    else
      (items.take keys.length).mapM fun
        | .string text => .ok (some text)
        | _ => .error .malformed
  | some _ => .error .malformed

def ofTable (table : Toml.Table) : Except ConfigError Settings := do
  let session ← readSection ["dialect", "response_mode", "event_mode", "ambiguity"]
    (table.get? "session")
  let log ← readSection ["protocol_log"] (table.get? "log")
  match othersUsable table ["session", "log"], session, log with
  | true, [dialect, responseMode, eventMode, ambiguity], [protocolLog] =>
    pure ⟨dialect, responseMode, eventMode, ambiguity, protocolLog⟩
  | _, _, _ => .error .malformed

end Settings

namespace Config

def parse (text : String) : Except ConfigError Config :=
  match Toml.parse? text with
  | none => .error .malformed
  | some table => do (← Settings.ofTable table).config

/-- Reads a configuration from the bytes of a file, which is absent or has to be UTF-8. -/
def ofFile (path : String) (bytes : Option ByteArray) : Except ConfigError Config :=
  match bytes.bind String.fromUTF8? with
  | none => .error (.unreadable path)
  | some text => parse text

end Config

end DebugLink
