import DebugLink.Schema.Basic

/-!
# Why a value does not bind

A `BindingError` names a field of a record, what was expected of it and the problem. A problem
may lie deeper: in an element of a list, in a nested record, or in the choice of a candidate.
-/

set_option autoImplicit false

namespace DebugLink

inductive Expectation where
  | kind (kind : Kind)
  | declaredField
  | closedRecord

def Expectation.text : Expectation → String
  | .kind k => k.text
  | .declaredField => "declared field"
  | .closedRecord => "closed record"

mutual

inductive BindingProblem where
  | missing
  | mistyped (found : Shape)
  | unexpectedNull
  | unknownConstant (text : String)
  | notAnObject (found : Shape)
  | undeclaredProperty
  | notDeclared
  | unknownType
  | element (index : Nat) (problem : BindingProblem)
  | nested (error : BindingError)
  | resolution (error : ResolutionError)

inductive BindingError where
  | mk (type field : String) (expected : Expectation) (problem : BindingProblem)

inductive ResolutionError where
  | noMatch (base : String) (mismatches : List Mismatch)
  | ambiguous (base : String) (candidates : List String)
  | notPolymorphic (base : String)
  | notACandidate (base type : String)
  | binding (error : BindingError)

/-- Why one candidate was not chosen: a condition on a field failed, or the field did not bind. -/
inductive Mismatch where
  | refused (candidate field : String) (failure : Condition.Failure)
  | unbound (candidate field : String) (problem : BindingProblem)

end

namespace BindingError

def type : BindingError → String
  | .mk type _ _ _ => type

def field : BindingError → String
  | .mk _ field _ _ => field

def expected : BindingError → Expectation
  | .mk _ _ expected _ => expected

def problem : BindingError → BindingProblem
  | .mk _ _ _ problem => problem

/-- The name that stands for the record itself in place of a field. -/
def root : String := "$"

end BindingError

/-- A fixed word for each problem, for programs that tell the problems apart. -/
def BindingProblem.code : BindingProblem → String
  | .missing => "Missing"
  | .mistyped _ => "Mistyped"
  | .unexpectedNull => "UnexpectedNull"
  | .unknownConstant _ => "UnknownEnumValue"
  | .notAnObject _ => "NotAnObject"
  | .undeclaredProperty => "UndeclaredProperty"
  | .notDeclared => "NotDeclared"
  | .unknownType => "UnknownType"
  | .element .. => "Element"
  | .nested _ => "Nested"
  | .resolution _ => "Resolution"

def ResolutionError.code : ResolutionError → String
  | .noMatch .. => "NoMatch"
  | .ambiguous .. => "Ambiguous"
  | .notPolymorphic _ => "NotPolymorphic"
  | .notACandidate .. => "NotACandidate"
  | .binding _ => "Binding"

mutual

def BindingProblem.message : BindingProblem → String
  | .missing => "missing"
  | .mistyped found => "found " ++ found.name
  | .unexpectedNull => "found null"
  | .unknownConstant text => "unknown constant '" ++ text ++ "'"
  | .notAnObject found => "enclosing value is " ++ found.name ++ ", not an object"
  | .undeclaredProperty => "property is not declared"
  | .notDeclared => "no such field is declared"
  | .unknownType => "type is not registered"
  | .element index problem => "element " ++ toString index ++ ": " ++ problem.message
  | .nested error => error.message
  | .resolution error => error.message

def BindingError.message : BindingError → String
  | .mk type field expected problem =>
    type ++ "." ++ field ++ " (" ++ expected.text ++ "): " ++ problem.message

def ResolutionError.message : ResolutionError → String
  | .noMatch base mismatches =>
    "no subtype of '" ++ base ++ "' matches: " ++ Text.joined ", " (mismatchMessages mismatches)
  | .ambiguous base candidates =>
    "ambiguous subtype of '" ++ base ++ "': " ++ Text.joined ", " candidates ++ " all match"
  | .notPolymorphic base => "'" ++ base ++ "' declares no subtypes"
  | .notACandidate base type => "'" ++ type ++ "' is not a candidate of '" ++ base ++ "'"
  | .binding error => error.message

def Mismatch.reason : Mismatch → String
  | .refused _ _ failure => failure.message
  | .unbound _ _ problem => problem.message

def mismatchMessages : List Mismatch → List String
  | [] => []
  | mismatch :: rest =>
    (match mismatch with
      | .refused candidate field failure =>
        candidate ++ " (" ++ field ++ ": " ++ failure.message ++ ")"
      | .unbound candidate field problem =>
        candidate ++ " (" ++ field ++ ": " ++ problem.message ++ ")") ::
      mismatchMessages rest

end

namespace Mismatch

def candidate : Mismatch → String
  | .refused candidate _ _ | .unbound candidate _ _ => candidate

def field : Mismatch → String
  | .refused _ field _ | .unbound _ field _ => field

end Mismatch

mutual

/-- Equality of problems, with expectations and reasons compared by their wording. -/
def BindingProblem.equal : BindingProblem → BindingProblem → Bool
  | .missing, .missing => true
  | .mistyped a, .mistyped b => a == b
  | .unexpectedNull, .unexpectedNull => true
  | .unknownConstant a, .unknownConstant b => a == b
  | .notAnObject a, .notAnObject b => a == b
  | .undeclaredProperty, .undeclaredProperty => true
  | .notDeclared, .notDeclared => true
  | .unknownType, .unknownType => true
  | .element i a, .element j b => i == j && a.equal b
  | .nested a, .nested b => a.equal b
  | .resolution a, .resolution b => a.equal b
  | _, _ => false

def BindingError.equal : BindingError → BindingError → Bool
  | .mk type field expected problem, .mk type' field' expected' problem' =>
    type == type' && field == field' && expected.text == expected'.text && problem.equal problem'

def ResolutionError.equal : ResolutionError → ResolutionError → Bool
  | .noMatch base mismatches, .noMatch base' mismatches' =>
    base == base' && mismatches.map Mismatch.candidate == mismatches'.map Mismatch.candidate &&
      mismatches.map Mismatch.field == mismatches'.map Mismatch.field &&
      mismatches.map Mismatch.reason == mismatches'.map Mismatch.reason
  | .ambiguous base candidates, .ambiguous base' candidates' =>
    base == base' && candidates == candidates'
  | .notPolymorphic base, .notPolymorphic base' => base == base'
  | .notACandidate base type, .notACandidate base' type' => base == base' && type == type'
  | .binding a, .binding b => a.equal b
  | _, _ => false

end

end DebugLink
