import DebugLink.Toml.Basic

/-!
# Scanning TOML text: blanks, strings and keys

A `Scan` takes characters off the front of a text. Strings are basic, with escapes, or literal;
both also come with three quotes, over several lines.
-/

set_option autoImplicit false

namespace DebugLink.Toml

abbrev Scan := StateT (List Char) Option

namespace Scan

def rest : Scan (List Char) := get

def peek? : Scan (Option Char) := List.head? <$> get

def takeWhile (p : Char → Bool) : Scan (List Char) := fun cs =>
  some (cs.takeWhile p, cs.dropWhile p)

def skip (count : Nat) : Scan Unit := modify (·.drop count)

def expect (expected : List Char) : Scan Unit := fun cs =>
  if expected.isPrefixOf cs then some ((), cs.drop expected.length) else none

def startsWith (expected : List Char) : Scan Bool := expected.isPrefixOf <$> get

/-- Runs a step until it gives nothing. Each step that gives something has to take something off
the text, so the length of the text bounds their number. -/
def collect {α : Type} (step : Scan (Option α)) : Scan (List α) := fun cs => go cs.length cs
where
  go : Nat → Scan (List α)
    | 0 => do
      match ← step with
      | none => pure []
      | some _ => failure
    | bound + 1 => do
      match ← step with
      | none => pure []
      | some item => (item :: ·) <$> go bound

/-! ## Blanks -/

def isSpace (c : Char) : Bool := c = ' ' || c = '\t'

/-- The characters of comments and of literal strings: no control character but the tab. -/
def isText (c : Char) : Bool :=
  c = '\t' || (0x20 ≤ c.toNat && c.toNat ≠ 0x7f)

def spaces : Scan Unit := discard (takeWhile isSpace)

def atNewline : Scan Bool := do
  return (← startsWith ['\n']) || (← startsWith ['\r', '\n'])

def newline : Scan Unit := expect ['\n'] <|> expect ['\r', '\n']

def comment : Scan Unit := do
  spaces
  if (← peek?) = some '#' then discard (takeWhile isText)

def blank : Scan Unit :=
  discard <| collect do
    comment
    if ← atNewline then some <$> newline else pure none

def endOfLine : Scan Unit := do
  comment
  if (← rest).isEmpty then pure () else newline

/-! ## Strings -/

def hexValue (digits : List Char) : Nat :=
  digits.foldl (fun value c =>
    value * 16 + if c.isDigit then c.toNat - '0'.toNat else c.toLower.toNat - 'a'.toNat + 10) 0

def isHexDigit (c : Char) : Bool :=
  c.isDigit || ('a' ≤ c.toLower && c.toLower ≤ 'f')

def codePoint (count : Nat) : Scan Char := do
  let digits := (← rest).take count
  let code := hexValue digits
  if digits.length = count && digits.all isHexDigit && code.isValidChar then
    skip count
    pure (Char.ofNat code)
  else
    failure

def escape : Scan Char := do
  let c ← peek?
  skip 1
  match c with
  | some 'b' => pure '\x08'
  | some 't' => pure '\t'
  | some 'n' => pure '\n'
  | some 'f' => pure '\x0c'
  | some 'r' => pure '\r'
  | some 'e' => pure '\x1b'
  | some '"' => pure '"'
  | some '\\' => pure '\\'
  | some 'x' => codePoint 2
  | some 'u' => codePoint 4
  | some 'U' => codePoint 8
  | _ => failure

def character (quote : Char) : Scan Char := do
  match ← peek? with
  | some c =>
    skip 1
    if c = '\\' && quote = '"' then escape else if isText c then pure c else failure
  | none => failure

/-- A character of a string on one line; none at the closing quote. -/
def lineCharacter (quote : Char) : Scan (Option Char) := do
  if ← startsWith [quote] then
    skip 1
    pure none
  else
    some <$> character quote

/-- Whether a backslash stands at the end of a line, so that blanks after it are dropped. -/
def atFold : Scan Bool := do
  let after := ((← rest).drop 1).dropWhile isSpace
  return (← startsWith ['\\']) && (['\n'].isPrefixOf after || ['\r', '\n'].isPrefixOf after)

def lines : Scan Unit :=
  discard <| collect do
    spaces
    if ← atNewline then some <$> newline else pure none

/-- A part of a string over several lines; none after the closing quotes. -/
def blockPart (quote : Char) : Scan (Option (List Char)) := do
  if ← startsWith [quote, quote, quote] then
    skip 3
    pure none
  else if ← atNewline then
    let crlf ← startsWith ['\r']
    newline
    pure (some (if crlf then ['\r', '\n'] else ['\n']))
  else if quote = '"' && (← atFold) then
    skip 1
    lines
    pure (some [])
  else
    return some [← character quote]

/-- The rest of a string over several lines, after the opening quotes. Up to two quotes right
before the closing ones belong to the string. -/
def block (quote : Char) : Scan String := do
  if ← atNewline then newline
  let parts ← collect (blockPart quote)
  let extra ← takeWhile (· = quote)
  if extra.length ≤ 2 then pure (String.ofList (parts.flatten ++ extra)) else failure

def lineString (quote : Char) : Scan String := do
  expect [quote]
  return String.ofList (← collect (lineCharacter quote))

def string : Scan String := do
  if ← startsWith ['"', '"', '"'] then skip 3; block '"'
  else if ← startsWith ['\'', '\'', '\''] then skip 3; block '\''
  else lineString '"' <|> lineString '\''

/-! ## Keys -/

/-- The greatest number of parts of a key, and of brackets around a value. -/
def nestingLimit : Nat := 80

def isBare (c : Char) : Bool :=
  c.isAlphanum || c = '-' || c = '_'

def simpleKey : Scan String := do
  match ← peek? with
  | some '"' => lineString '"'
  | some '\'' => lineString '\''
  | _ =>
    let cs ← takeWhile isBare
    if cs.isEmpty then failure else pure (String.ofList cs)

/-- A key with dots between its parts, not too many: the parts before the last, and the last. -/
def key : Scan (List String × String) := do
  let first ← simpleKey
  let others ← collect do
    spaces
    if (← peek?) = some '.' then
      skip 1
      spaces
      some <$> simpleKey
    else
      pure none
  if nestingLimit ≤ others.length then failure
  else
    match (first :: others).reverse with
    | last :: before => pure (before.reverse, last)
    | [] => failure

end Scan

end DebugLink.Toml
