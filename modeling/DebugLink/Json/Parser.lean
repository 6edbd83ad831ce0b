import DebugLink.Json.Token

/-!
# Reading JSON text

`Json.parse?` reads one value that fills the whole text. The reader goes through the tokens with
the containers still open on a stack, at most `limit` of them; in an object the last of several
members with one key counts.
-/

set_option autoImplicit false

namespace DebugLink

namespace Json.Reader

/-- A container around the value being read: an array with its items so far, last first, or an
object with its members so far and the key of the value. -/
inductive Frame where
  | array (items : List Json)
  | object (members : List (String × Json)) (key : String)

/-- What may come next. The innermost open container is kept here while no value inside it is
being read. -/
inductive Next where
  | value
  | firstItem
  | afterItem (items : List Json)
  | firstKey
  | key (members : List (String × Json))
  | colon (members : List (String × Json)) (key : String)
  | afterMember (members : List (String × Json))
  | finished (value : Json)

structure State where
  stack : List Frame
  next : Next

def State.start : State := ⟨[], .value⟩

def place (stack : List Frame) (value : Json) : State :=
  match stack with
  | [] => ⟨[], .finished value⟩
  | .array items :: rest => ⟨rest, .afterItem (value :: items)⟩
  | .object members key :: rest => ⟨rest, .afterMember (Json.insert key value members)⟩

def stepValue (limit : Nat) (stack : List Frame) : Json.Token → Option State
  | .scalar value => some (place stack value)
  | .text value => some (place stack (.string value))
  | .openArray => if stack.length < limit then some ⟨stack, .firstItem⟩ else none
  | .openObject => if stack.length < limit then some ⟨stack, .firstKey⟩ else none
  | _ => none

/-- The state after one more token; none when no value goes on so. -/
def step (limit : Nat) (s : State) (token : Json.Token) : Option State :=
  match s.next, token with
  | .value, token => stepValue limit s.stack token
  | .firstItem, .closeArray => some (place s.stack (.array []))
  | .firstItem, token => stepValue limit (.array [] :: s.stack) token
  | .afterItem items, .comma => some ⟨.array items :: s.stack, .value⟩
  | .afterItem items, .closeArray => some (place s.stack (.array items.reverse))
  | .firstKey, .closeObject => some (place s.stack (.object []))
  | .firstKey, .text key => some ⟨s.stack, .colon [] key⟩
  | .key members, .text key => some ⟨s.stack, .colon members key⟩
  | .colon members key, .colon => some ⟨.object members key :: s.stack, .value⟩
  | .afterMember members, .comma => some ⟨s.stack, .key members⟩
  | .afterMember members, .closeObject => some (place s.stack (.object members))
  | _, _ => none

def run (limit : Nat) (s : State) : List Json.Token → Option State
  | [] => some s
  | token :: tokens =>
    match step limit s token with
    | some next => run limit next tokens
    | none => none

theorem run_append (limit : Nat) (s : State) (ts us : List Json.Token) :
    run limit s (ts ++ us) = (run limit s ts).bind (run limit · us) := by
  induction ts generalizing s with
  | nil => rfl
  | cons t ts ih =>
    simp only [List.cons_append, run]
    cases step limit s t with
    | none => rfl
    | some next => exact ih next

end Json.Reader

namespace Json

/-- The value that a list of tokens spells, with at most `limit` containers open at once. -/
def ofTokens? (limit : Nat) (tokens : List Json.Token) : Option Json :=
  match Reader.run limit .start tokens with
  | some ⟨_, .finished value⟩ => some value
  | _ => none

/-- The deepest nesting of arrays and objects that a frame may have. -/
def nestingLimit : Nat := 127

def parseWithin? (limit : Nat) (text : String) : Option Json :=
  (Json.Token.scan text.toList).bind (ofTokens? limit)

def parse? (text : String) : Option Json :=
  parseWithin? nestingLimit text

end Json

end DebugLink
