import DebugLink.Binding.Binder

/-!
# Reading the fields of a view

An `Access` reads from a view and may fill slots of it; the slots filled stay filled when the
access fails. A field is decoded on the first access to it and looked up on later ones.
-/

set_option autoImplicit false

namespace DebugLink

abbrev Access := ExceptT BindingError (StateT View Warned)

namespace Binder

/-- The field at `index`, decoded if its slot is empty. -/
def fieldAt (binder : Binder) (index : Nat) : Access FieldValue := fun view =>
  match view.slots[index]?, view.schema.fields[index]? with
  | some (some outcome), _ => pure (outcome, view)
  | some none, some field => do
    let outcome ← (binder.bindField view.schema view.raw view.mode field).run
    pure (outcome, view.setSlot index outcome)
  | _, _ =>
    pure (.error (.mk view.type ("#" ++ toString index) .declaredField .notDeclared), view)

def fieldNamed (binder : Binder) (name : String) : Access FieldValue := do
  let view ← get
  match view.schema.fieldIndex? name with
  | some index => binder.fieldAt index
  | none => throw (.mk view.type name .declaredField .notDeclared)

/-- Decodes every field in order and looks for undeclared members of a closed record. -/
def bindAll (binder : Binder) : Access Unit := do
  let view ← get
  (List.range view.slots.length).forM fun index => discard (binder.fieldAt index)
  match view.raw.asMembers?.bind view.schema.undeclared? with
  | some key => throw (.mk view.type key .closedRecord .undeclaredProperty)
  | none => pure ()

mutual

/-- Applies an action to the views right inside a decoded field. -/
def expandValue (expand : View → Warned View) : FieldValue → Warned FieldValue
  | .record view => .record <$> expand view
  | .variant base type view => .variant base type <$> expand view
  | .list items => .list <$> expandItems expand items
  | value => pure value

def expandItems (expand : View → Warned View) : List FieldValue → Warned (List FieldValue)
  | [] => pure []
  | item :: rest => do
    let item ← expandValue expand item
    let rest ← expandItems expand rest
    pure (item :: rest)

end

def expandField (binder : Binder) (expand : View → Warned View) (view : View) (index : Nat) :
    Warned View := do
  match ← (binder.fieldAt index).run.run view with
  | (.ok value, view) => do
    let value ← expandValue expand value
    pure (view.setSlot index (.ok value))
  | (.error _, view) => pure view

/-- Decodes every field of a view and of the views inside, down to the depth of the budget. -/
def expandWithin (binder : Binder) : Nat → View → Warned View
  | 0, view => pure view
  | budget + 1, view =>
    (List.range view.slots.length).foldlM
      (binder.expandField (binder.expandWithin budget)) view

/-- Decodes every field of a view and of all views inside, each field before the views in it. -/
def expand (binder : Binder) (view : View) : Warned View :=
  binder.expandWithin (view.raw.depth + 1) view

end Binder

namespace View

def readLongs? (view : View) : Option (List (String × Int)) := do
  let members ← view.raw.asMembers?
  members.mapM fun (key, value) =>
    match value with
    | .number (.integer n _ _) => if n < 0x8000000000000000 then some (key, n) else none
    | _ => none

def readStrings? (view : View) : Option (List String) := do
  (← view.raw.asItems?).mapM Json.asString?

end View

end DebugLink
