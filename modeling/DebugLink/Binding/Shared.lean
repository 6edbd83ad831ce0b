import DebugLink.Binding.Access

/-!
# Views that are shared

Clones of a view, and views taken out of its fields, share their slots with it. A `ViewKey`
names such a view by the view it lies in and the way down to it; what is decoded through one key
is decoded for all.
-/

set_option autoImplicit false

namespace DebugLink

/-- A step down into a view: a field, and the places in the lists around the view inside it. -/
structure Hop where
  field : Nat
  items : List Nat

namespace FieldValue

def viewAt? : List Nat → FieldValue → Option View
  | [], value => value.asRecord?
  | place :: places, .list items => items[place]?.bind (viewAt? places)
  | _ :: _, _ => none

def modifyViewAt (change : View → View) : List Nat → FieldValue → FieldValue
  | [], .record view => .record (change view)
  | [], .variant base type view => .variant base type (change view)
  | place :: places, .list items => .list (items.modify place (modifyViewAt change places))
  | _, value => value

end FieldValue

namespace View

/-- The view at the end of a way down. Only decoded fields can be passed. -/
def descend? : List Hop → View → Option View
  | [], view => some view
  | hop :: hops, view =>
    match view.slots[hop.field]? with
    | some (some (.ok value)) => (value.viewAt? hop.items).bind (descend? hops)
    | _ => none

def modifyAt (change : View → View) : List Hop → View → View
  | [], view => change view
  | hop :: hops, view =>
    match view.slots[hop.field]? with
    | some (some (.ok value)) =>
      view.setSlot hop.field (.ok (value.modifyViewAt (modifyAt change hops) hop.items))
    | _ => view

end View

structure ViewKey where
  root : Nat
  hops : List Hop

structure SharedViews where
  roots : List View

namespace SharedViews

def empty : SharedViews := ⟨[]⟩

def add (shared : SharedViews) (view : View) : ViewKey × SharedViews :=
  (⟨shared.roots.length, []⟩, ⟨shared.roots ++ [view]⟩)

def get? (shared : SharedViews) (key : ViewKey) : Option View :=
  shared.roots[key.root]?.bind (View.descend? key.hops)

def replace (shared : SharedViews) (key : ViewKey) (view : View) : SharedViews :=
  ⟨shared.roots.modify key.root (View.modifyAt (fun _ => view) key.hops)⟩

/-- Reads from the view that a key names; none when there is no such view. -/
def access {α : Type} (shared : SharedViews) (key : ViewKey) (reading : Access α) :
    Option (Warned (Except BindingError α × SharedViews)) :=
  (shared.get? key).map fun view => do
    let (outcome, view) ← reading.run.run view
    pure (outcome, shared.replace key view)

def expand (shared : SharedViews) (binder : Binder) (key : ViewKey) :
    Option (Warned (View × SharedViews)) :=
  (shared.get? key).map fun view => do
    let view ← binder.expand view
    pure (view, shared.replace key view)

end SharedViews

namespace ViewKey

def inside (key : ViewKey) (hop : Hop) : ViewKey :=
  { key with hops := key.hops ++ [hop] }

end ViewKey

end DebugLink
