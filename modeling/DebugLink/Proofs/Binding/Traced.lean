import DebugLink.Binding.View
import DebugLink.Proofs.Binding.Result

/-!
# Outcomes that keep their calls

Binding is four functions that call each other. A `Traced` outcome is an outcome beside the tree of
the calls made on the way to it. The record changes nothing of the outcome: taking the outcome of a
traced computation commutes with all that the binder is built from.
-/

set_option autoImplicit false

namespace DebugLink.Binder

inductive Call where
  | coerce (value : Json) (kind : Kind) (mode : Mode)
  | resolve (base : Schema) (value : Json) (mode : Mode)
  | bindEager (schema : Schema) (value : Json)
  | bindField (schema : Schema) (value : Json) (mode : Mode) (field : Field)

namespace Call

def value : Call → Json
  | .coerce value _ _ => value
  | .resolve _ value _ => value
  | .bindEager _ value => value
  | .bindField _ value _ _ => value

abbrev Error : Call → Type
  | .coerce .. => BindingProblem
  | .resolve .. => ResolutionError
  | .bindEager .. => BindingError
  | .bindField .. => BindingError

abbrev Result : Call → Type
  | .coerce .. => FieldValue
  | .resolve .. => Variant
  | .bindEager .. => View
  | .bindField .. => FieldValue

end Call

inductive CallTree where
  | node (call : Call) (inner : List CallTree)

namespace CallTree

def call : CallTree → Call
  | .node call _ => call

def inner : CallTree → List CallTree
  | .node _ inner => inner

mutual

def height : CallTree → Nat
  | .node _ inner => heightOfInner inner + 1

def heightOfInner : List CallTree → Nat
  | [] => 0
  | tree :: rest => max tree.height (heightOfInner rest)

end

theorem height_eq (tree : CallTree) : tree.height = heightOfInner tree.inner + 1 := by
  cases tree
  rfl

theorem heightOfInner_le {trees : List CallTree} {bound : Nat}
    (each : ∀ tree ∈ trees, tree.height ≤ bound) : heightOfInner trees ≤ bound := by
  induction trees with
  | nil => exact Nat.zero_le _
  | cons tree rest ih =>
    rw [heightOfInner]
    exact Nat.max_le.2 ⟨each tree List.mem_cons_self,
      ih fun other mem => each other (List.mem_cons_of_mem tree mem)⟩

/-- A call made somewhere inside the outermost call of a tree, or the outermost itself, with all
that it calls. -/
inductive Occurs : CallTree → CallTree → Prop where
  | here (tree : CallTree) : Occurs tree tree
  | inside {sub tree outer : CallTree} (mem : tree ∈ outer.inner) (occurs : Occurs sub tree) :
      Occurs sub outer

end CallTree

/-- An outcome, and the calls made on the way to it. -/
structure Traced (ε α : Type) where
  outcome : Outcome ε α
  calls : List CallTree

namespace Traced

variable {ε δ α β : Type}

theorem ext {x y : Traced ε α} (outcome : x.outcome = y.outcome) (calls : x.calls = y.calls) :
    x = y := by
  cases x; cases y; cases outcome; cases calls; rfl

def lift (x : Outcome ε α) : Traced ε α := ⟨x, []⟩

def mapError (f : ε → δ) (x : Traced ε α) : Traced δ α :=
  ⟨x.outcome.mapError f, x.calls⟩

def attempt (x : Traced ε α) : Traced δ (Except ε α) :=
  ⟨x.outcome.attempt, x.calls⟩

/-- Notes a call: those recorded so far were made inside it. -/
def noted (call : Call) (x : Traced ε α) : Traced ε α :=
  ⟨x.outcome, [.node call x.calls]⟩

/-- The calls of a continuation, which does not run after an error. -/
def callsAfter (f : α → Traced ε β) : Except ε α → List CallTree
  | .ok a => (f a).calls
  | .error _ => []

instance : Monad (Traced ε) where
  pure a := lift (pure a)
  bind x f := ⟨x.outcome >>= fun a => (f a).outcome, x.calls ++ callsAfter f x.outcome.result⟩

@[simp] theorem outcome_lift (x : Outcome ε α) : (lift x).outcome = x := rfl

theorem lift_pure (a : α) : lift (pure a : Outcome ε α) = pure a := rfl

@[simp] theorem outcome_pure (a : α) : (pure a : Traced ε α).outcome = pure a := rfl

@[simp] theorem outcome_bind (x : Traced ε α) (f : α → Traced ε β) :
    (x >>= f).outcome = x.outcome >>= fun a => (f a).outcome := rfl

theorem calls_bind (x : Traced ε α) (f : α → Traced ε β) :
    (x >>= f).calls = x.calls ++ callsAfter f x.outcome.result := rfl

@[simp] theorem outcome_mapError (f : ε → δ) (x : Traced ε α) :
    (x.mapError f).outcome = x.outcome.mapError f := rfl

@[simp] theorem outcome_attempt (x : Traced ε α) :
    (x.attempt : Traced δ (Except ε α)).outcome = x.outcome.attempt := rfl

theorem callsAfter_bind (f : α → Traced ε β) {γ : Type} (g : β → Traced ε γ) (x : Outcome ε α) :
    callsAfter (fun a => f a >>= g) x.result
      = callsAfter f x.result ++ callsAfter g (x >>= fun a => (f a).outcome).result := by
  rw [Outcome.result_bind]
  cases x.result with
  | ok a => rfl
  | error e => rfl

theorem callsAfter_eq_nil {f : α → Traced ε β} (none : ∀ a, (f a).calls = [])
    (result : Except ε α) : callsAfter f result = [] := by
  cases result with
  | ok a => exact none a
  | error e => rfl

instance : LawfulMonad (Traced ε) :=
  .mk' (Traced ε)
    (fun x => ext (bind_pure x.outcome)
      ((congrArg (x.calls ++ ·) (callsAfter_eq_nil (fun _ => rfl) _)).trans (List.append_nil _)))
    (fun _ _ => ext (pure_bind _ _) rfl)
    (fun x f g => ext (bind_assoc _ _ _)
      (by rw [calls_bind, calls_bind, calls_bind, callsAfter_bind, List.append_assoc]; rfl))

@[simp] theorem outcome_map (f : α → β) (x : Traced ε α) :
    (f <$> x).outcome = f <$> x.outcome := by
  rw [← bind_pure_comp, ← bind_pure_comp]
  rfl

theorem calls_bind_of_quiet {x : Traced ε α} {f : α → Traced ε β}
    (quiet : ∀ a, (f a).calls = []) : (x >>= f).calls = x.calls := by
  rw [calls_bind, callsAfter_eq_nil quiet, List.append_nil]

@[simp] theorem calls_map (f : α → β) (x : Traced ε α) : (f <$> x).calls = x.calls := by
  rw [← bind_pure_comp]
  exact calls_bind_of_quiet fun _ => rfl

/-- Of a continuation of something quiet only what it does with the result counts. -/
theorem calls_lift_bind (x : Outcome ε α) (f : α → Traced ε β) :
    (lift x >>= f).calls = callsAfter f x.result := rfl

theorem outcome_mapM (f : α → Traced ε β) (as : List α) :
    (as.mapM f).outcome = as.mapM fun a => (f a).outcome := by
  induction as with
  | nil => rfl
  | cons a as ih => simp only [List.mapM_cons, outcome_bind, outcome_pure, ih]

theorem calls_mapM (f : α → Traced ε β) (as : List α) :
    ∃ taken, taken <+: as ∧ (as.mapM f).calls = taken.flatMap fun a => (f a).calls := by
  induction as with
  | nil => exact ⟨[], List.prefix_rfl, rfl⟩
  | cons a as ih =>
    obtain ⟨taken, first, calls⟩ := ih
    rw [List.mapM_cons, calls_bind]
    cases (f a).outcome.result with
    | error e => exact ⟨[a], List.prefix_append [a] as, rfl⟩
    | ok b =>
      refine ⟨a :: taken, List.cons_prefix_cons.2 ⟨rfl, first⟩, ?_⟩
      rw [List.flatMap_cons, ← calls]
      exact congrArg ((f a).calls ++ ·) (calls_bind_of_quiet fun _ => rfl)

end Traced

end DebugLink.Binder
