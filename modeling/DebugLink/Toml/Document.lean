import DebugLink.Toml.Scalar
import DebugLink.Toml.Scan

/-!
# Reading TOML documents

`Toml.parse?` reads a document into its table. Values in brackets or braces may be nested up to
`Toml.Scan.nestingLimit`.
-/

set_option autoImplicit false

namespace DebugLink.Toml

namespace Scan

/-- What ends a value without quotes. A quote inside it does not. -/
def isDelimiter (c : Char) : Bool :=
  isSpace c || c = '\n' || c = '\r' || c = ',' || c = ']' || c = '}' || c = '[' || c = '{' ||
    c = '=' || c = '#'

/-- A value without quotes. A space may stand between a date and a time. -/
def scalar : Scan Value := do
  let first ← takeWhile fun c => !isDelimiter c
  let after ← rest
  match after with
  | ' ' :: c :: _ =>
    if Scalar.date? first = some [] && c.isDigit then do
      skip 1
      let time ← takeWhile fun c => !isDelimiter c
      StateT.lift (Scalar.ofChars? (first ++ ' ' :: time))
    else
      StateT.lift (Scalar.ofChars? first)
  | _ => StateT.lift (Scalar.ofChars? first)

/-- Items up to a closing bracket, with commas between them and perhaps one after the last. -/
def items {α : Type} (closing : Char) (item : Scan α) : Scan (List α) := do
  let found ← collect do
    blank
    if ← startsWith [closing] then pure none
    else do
      let value ← item
      blank
      if ← startsWith [','] then
        skip 1
        pure (some value)
      else if ← startsWith [closing] then
        pure (some value)
      else
        failure
  expect [closing]
  pure found

def member (gap : Scan Unit) (value : Scan Value) : Scan ((List String × String) × Value) := do
  let k ← key
  gap
  expect ['=']
  gap
  return (k, ← value)

def inlineTable (members : List ((List String × String) × Value)) : Option Table :=
  members.foldlM (fun table ((path, key), value) => table.define path key value) (.new .inline)

def plain : Scan Value := do
  match ← peek? with
  | some '"' | some '\'' => .string <$> string
  | _ => scalar

def value : Nat → Scan Value
  | 0 => plain
  | limit + 1 => do
    match ← peek? with
    | some '[' =>
      skip 1
      .array <$> items ']' (value limit)
    | some '{' =>
      skip 1
      let members ← items '}' (member blank (value limit))
      .table <$> StateT.lift (inlineTable members)
    | _ => plain

/-! ## Documents -/

/-- The table of a document so far, and the path of the header that applies. -/
structure Draft where
  root : Table
  current : List String

def openSection (draft : Draft) (isElement : Bool) (path : List String) (last : String) :
    Option Draft :=
  let opened := if isElement then Table.openElement last else Table.openTable last
  (Table.change .passed opened path draft.root).map fun root => ⟨root, path ++ [last]⟩

def header (draft : Draft) : Scan Draft := do
  let isElement ← startsWith ['[', '[']
  skip (if isElement then 2 else 1)
  spaces
  let (path, last) ← key
  spaces
  expect (if isElement then [']', ']'] else [']'])
  StateT.lift (openSection draft isElement path last)

def expression (draft : Draft) : Scan Draft := do
  spaces
  let draft ←
    match ← peek? with
    | some '[' => header draft
    | none | some '#' | some '\n' | some '\r' => pure draft
    | _ => do
      let ((path, last), v) ← member spaces (value nestingLimit)
      StateT.lift ((draft.root.change .passed (Table.define path last v) draft.current).map
        fun root => { draft with root := root })
  endOfLine
  pure draft

/-- The lines of a document, at most as many as it has characters. -/
def document (draft : Draft) : Nat → Scan Draft
  | 0 => pure draft
  | bound + 1 => do
    if (← rest).isEmpty then pure draft
    else document (← expression draft) bound

end Scan

/-- Reads a document; a byte order mark may stand in front. -/
def parse? (text : String) : Option Table := do
  let cs :=
    match text.toList with
    | '\ufeff' :: rest => rest
    | cs => cs
  let (draft, rest) ← (Scan.document ⟨.new .header, []⟩ cs.length).run cs
  if rest.isEmpty then some draft.root else none

end DebugLink.Toml
