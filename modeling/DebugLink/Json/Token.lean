import DebugLink.Json.Numeral

/-!
# The tokens of JSON text

`Json.Token.scan` reads text one character at a time: `Json.Scanner.step` takes the state after one
more character, so the scan of a text is a fold. Between tokens only space, tab and line ends may
stand. A string holds no bare control character, and `\u` escapes above the first plane come as
a high and a low surrogate.
-/

set_option autoImplicit false

namespace DebugLink

inductive Json.Token where
  | openArray
  | closeArray
  | openObject
  | closeObject
  | colon
  | comma
  | text (value : String)
  | scalar (value : Json)

def hexValue? (c : Char) : Option Nat :=
  if c.isDigit then some (c.toNat - '0'.toNat)
  else if 'a' ≤ c && c ≤ 'f' then some (c.toNat - 'a'.toNat + 10)
  else if 'A' ≤ c && c ≤ 'F' then some (c.toNat - 'A'.toNat + 10)
  else none

namespace Json.Scanner

/-- Where the scanner stands. Strings and numbers keep the characters seen so far, last first. -/
inductive Mode where
  | between
  | word (rest : List Char) (value : Json)
  | number (seen : List Char)
  | text (seen : List Char)
  | escape (seen : List Char)
  /-- Inside `\u`: the high surrogate before it, if any, the hex digits to come, their value. -/
  | unicode (seen : List Char) (high : Option Nat) (left : Nat) (code : Nat)
  /-- After a high surrogate a backslash must follow, and then a `u`. -/
  | pairEscape (seen : List Char) (high : Nat)
  | pairUnicode (seen : List Char) (high : Nat)

/-- The tokens so far, last first, and the mode. -/
structure State where
  tokens : List Json.Token
  mode : Mode

def State.start : State := ⟨[], .between⟩

def isBlank (c : Char) : Bool :=
  c = ' ' || c = '\t' || c = '\n' || c = '\r'

def isNumberPart (c : Char) : Bool :=
  c.isDigit || c = '-' || c = '+' || c = '.' || c = 'e' || c = 'E'

def stepBetween (tokens : List Json.Token) (c : Char) : Option State :=
  if isBlank c then some ⟨tokens, .between⟩
  else if c = '[' then some ⟨.openArray :: tokens, .between⟩
  else if c = ']' then some ⟨.closeArray :: tokens, .between⟩
  else if c = '\x7b' then some ⟨.openObject :: tokens, .between⟩
  else if c = '\x7d' then some ⟨.closeObject :: tokens, .between⟩
  else if c = ':' then some ⟨.colon :: tokens, .between⟩
  else if c = ',' then some ⟨.comma :: tokens, .between⟩
  else if c = '"' then some ⟨tokens, .text []⟩
  else if c = 'n' then some ⟨tokens, .word ['u', 'l', 'l'] .null⟩
  else if c = 't' then some ⟨tokens, .word ['r', 'u', 'e'] (.bool true)⟩
  else if c = 'f' then some ⟨tokens, .word ['a', 'l', 's', 'e'] (.bool false)⟩
  else if c = '-' || c.isDigit then some ⟨tokens, .number [c]⟩
  else none

def simpleEscape? (c : Char) : Option Char :=
  if c = '"' || c = '\\' || c = '/' then some c
  else if c = 'b' then some '\x08'
  else if c = 'f' then some '\x0c'
  else if c = 'n' then some '\n'
  else if c = 'r' then some '\r'
  else if c = 't' then some '\t'
  else none

/-- The mode after the last hex digit of `\u`. A low surrogate stands only after a high one. -/
def finishUnicode (seen : List Char) (high : Option Nat) (code : Nat) : Option Mode :=
  let isLow := 0xDC00 ≤ code && code < 0xE000
  match high with
  | some high =>
    if isLow then
      some (.text (Char.ofNat (0x10000 + (high - 0xD800) * 0x400 + (code - 0xDC00)) :: seen))
    else
      none
  | none =>
    if isLow then none
    else if 0xD800 ≤ code && code < 0xDC00 then some (.pairEscape seen code)
    else some (.text (Char.ofNat code :: seen))

/-- The state after one more character; none when no text goes on so. -/
def step (s : State) (c : Char) : Option State :=
  match s.mode with
  | .between => stepBetween s.tokens c
  | .word rest value =>
    match rest with
    | [] => none
    | [last] => if c = last then some ⟨.scalar value :: s.tokens, .between⟩ else none
    | next :: rest => if c = next then some ⟨s.tokens, .word rest value⟩ else none
  | .number seen =>
    if isNumberPart c then some ⟨s.tokens, .number (c :: seen)⟩
    else do stepBetween (.scalar (.number (← Number.read? seen.reverse)) :: s.tokens) c
  | .text seen =>
    if c = '"' then some ⟨.text (String.ofList seen.reverse) :: s.tokens, .between⟩
    else if c = '\\' then some ⟨s.tokens, .escape seen⟩
    else if c.toNat < 0x20 then none
    else some ⟨s.tokens, .text (c :: seen)⟩
  | .escape seen =>
    if c = 'u' then some ⟨s.tokens, .unicode seen none 4 0⟩
    else do some ⟨s.tokens, .text ((← simpleEscape? c) :: seen)⟩
  | .unicode seen high left code => do
    let code := code * 16 + (← hexValue? c)
    if left ≤ 1 then some ⟨s.tokens, ← finishUnicode seen high code⟩
    else some ⟨s.tokens, .unicode seen high (left - 1) code⟩
  | .pairEscape seen high => if c = '\\' then some ⟨s.tokens, .pairUnicode seen high⟩ else none
  | .pairUnicode seen high =>
    if c = 'u' then some ⟨s.tokens, .unicode seen (some high) 4 0⟩ else none

def finish (s : State) : Option (List Json.Token) :=
  match s.mode with
  | .between => some s.tokens.reverse
  | .number seen => do
    some (Json.Token.scalar (.number (← Number.read? seen.reverse)) :: s.tokens).reverse
  | _ => none

def run (s : State) : List Char → Option State
  | [] => some s
  | c :: cs =>
    match step s c with
    | some next => run next cs
    | none => none

theorem run_append (s : State) (cs ds : List Char) :
    run s (cs ++ ds) = (run s cs).bind (run · ds) := by
  induction cs generalizing s with
  | nil => rfl
  | cons c cs ih =>
    simp only [List.cons_append, run]
    cases step s c with
    | none => rfl
    | some next => exact ih next

end Json.Scanner

/-- The tokens of a text, if it consists of tokens. -/
def Json.Token.scan (cs : List Char) : Option (List Json.Token) :=
  (Json.Scanner.run .start cs).bind Json.Scanner.finish

end DebugLink
