/-!
# TOML tables

The tree of values of a TOML document, and how headers, dotted keys and values add to it. Each
key is set once. A table remembers how it came to be, because only tables that were merely passed
through on the way to others, and by headers alone, may have a header later.
-/

set_option autoImplicit false

namespace DebugLink.Toml

inductive Origin where
  /-- By a header of its own, or as the root or an element of an array of tables. -/
  | header
  /-- On the way to the table of a header. -/
  | passed
  /-- On the way to the last part of a dotted key, and perhaps to the table of a header before. -/
  | dotted
  /-- By braces; such a table is complete. -/
  | inline
deriving DecidableEq

mutual

inductive Value where
  | string (text : String)
  /-- An integer of any size; none if it only starts like one. -/
  | integer (value : Option Int)
  /-- A float as written, and whether it is too large for a double. -/
  | float (text : String) (overflows : Bool)
  | boolean (value : Bool)
  | dateTime (text : String)
  | array (items : List Value)
  /-- An array of tables that headers have added, the last one first. -/
  | tables (elements : List Table)
  | table (table : Table)

inductive Table where
  | mk (origin : Origin) (members : List (String × Value))

end

instance : Inhabited Value := ⟨.boolean false⟩

mutual

/-- Whether the numbers in a value can be used: integers within 128 bits, signed or unsigned, and
floats that are doubles. -/
def Value.isUsable : Value → Bool
  | .integer n =>
    n.any fun n =>
      -0x80000000000000000000000000000000 ≤ n && n < 0x100000000000000000000000000000000
  | .float _ overflows => !overflows
  | .array items => itemsUsable items
  | .tables elements => tablesUsable elements
  | .table table => table.isUsable
  | .string _ | .boolean _ | .dateTime _ => true

def Table.isUsable : Table → Bool
  | .mk _ members => membersUsable members

def itemsUsable : List Value → Bool
  | [] => true
  | item :: rest => item.isUsable && itemsUsable rest

def tablesUsable : List Table → Bool
  | [] => true
  | table :: rest => table.isUsable && tablesUsable rest

def membersUsable : List (String × Value) → Bool
  | [] => true
  | (_, value) :: rest => value.isUsable && membersUsable rest

end

namespace Table

def origin : Table → Origin
  | .mk origin _ => origin

def members : Table → List (String × Value)
  | .mk _ members => members

def new (origin : Origin) : Table := .mk origin []

def withOrigin (table : Table) (origin : Origin) : Table := .mk origin table.members

def get? (table : Table) (key : String) : Option Value :=
  table.members.lookup key

def put (table : Table) (key : String) (value : Value) : Table :=
  .mk table.origin ((key, value) :: table.members.filter (·.1 != key))

/-- Changes the table at the end of a path. Tables that are not there are made with the given
origin; of an array of tables the last one counts. A complete table is not passed, nor by dotted
keys one that has a header; a table that a dotted key has passed will not have a header. -/
def change (origin : Origin) (final : Table → Option Table) : List String → Table → Option Table
  | [], table => final table
  | key :: path, table => do
    let value ←
      match table.get? key with
      | none => .table <$> change origin final path (.new origin)
      | some (.table child) =>
        if child.origin = .inline || (origin = .dotted && child.origin = .header) then none
        else
          let child := if origin = .dotted then child.withOrigin .dotted else child
          .table <$> change origin final path child
      | some (.tables (last :: others)) =>
        (fun last => .tables (last :: others)) <$> change origin final path last
      | some _ => none
    pure (table.put key value)

/-- Adds a member by a dotted key, given as its parts before the last and the last. A table that has
a header, or is an element of an array of tables, takes members only right below that header. -/
def define (path : List String) (key : String) (value : Value) (table : Table) : Option Table :=
  let final (target : Table) : Option Table :=
    if (!path.isEmpty && target.origin = .header) || (target.get? key).isSome then none
    else some (target.put key value)
  change .dotted final path table

def openTable (key : String) (table : Table) : Option Table :=
  match table.get? key with
  | none => some (table.put key (.table (.new .header)))
  | some (.table child) =>
    if child.origin = .passed then some (table.put key (.table (child.withOrigin .header)))
    else none
  | some _ => none

def openElement (key : String) (table : Table) : Option Table :=
  match table.get? key with
  | none => some (table.put key (.tables [.new .header]))
  | some (.tables elements) => some (table.put key (.tables (.new .header :: elements)))
  | some _ => none

end Table

end DebugLink.Toml
