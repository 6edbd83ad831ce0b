import DebugLink.Json.Basic

/-!
# Members of an object by type

Reading a member that should be a text, a flag, a number or a list. A member of another type counts
as absent.
-/

set_option autoImplicit false

namespace DebugLink.Json

def text? (value : Json) (key : String) : Option String := (value.get? key).bind asString?

/-- The text of a member, or the empty text. -/
def text (value : Json) (key : String) : String := (value.text? key).getD ""

def flag? (value : Json) (key : String) : Option Bool := (value.get? key).bind asBool?

def flag (value : Json) (key : String) : Bool := (value.flag? key).getD false

def items (value : Json) (key : String) : List Json :=
  ((value.get? key).bind asItems?).getD []

def texts (value : Json) (key : String) : List String :=
  (value.items key).filterMap asString?

def asInt? : Json → Option Int
  | .number (.integer n _ _) => some n
  | _ => none

def int? (value : Json) (key : String) : Option Int := (value.get? key).bind asInt?

def nat? (value : Json) (key : String) : Option Nat := (value.int? key).map Int.toNat

end DebugLink.Json
