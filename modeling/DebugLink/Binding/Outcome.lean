import DebugLink.Logged

/-!
# Outcomes of binding

An `Outcome` is a result or an error, together with the warnings given on the way.
-/

set_option autoImplicit false

namespace DebugLink

/-- The warning that several candidates of `base` bound and the first of them was taken. -/
structure Ambiguity where
  base : String
  chosen : String
  matched : Nat
deriving DecidableEq

abbrev Warned := Logged Ambiguity

/-- A result or an error, and the warnings on the way. -/
abbrev Outcome (ε : Type) := ExceptT ε Warned

namespace Outcome

variable {ε δ α : Type}

def attempt (x : Outcome ε α) : Outcome δ (Except ε α) :=
  ExceptT.mk (Except.ok <$> x.run)

def mapError (f : ε → δ) (x : Outcome ε α) : Outcome δ α :=
  ExceptT.mk (Except.mapError f <$> x.run)

def ofOption (error : ε) : Option α → Outcome ε α
  | some value => pure value
  | none => throw error

def warn (warning : Ambiguity) : Outcome ε Unit :=
  ExceptT.mk (Except.ok <$> Logged.report warning)

end Outcome

end DebugLink
