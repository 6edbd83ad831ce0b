import Mathlib.Algebra.Group.Nat.Defs
import Mathlib.Data.List.Forall2
import DebugLink.Binding.Outcome

/-!
# Results without warnings

`Outcome.result` forgets the warnings of an outcome. It commutes with all that outcomes are built
from, so what binding gives can be told without looking at the log.
-/

set_option autoImplicit false

namespace DebugLink.Outcome

variable {ε δ α β : Type}

/-- The result or the error, without the warnings. -/
def result (x : Outcome ε α) : Except ε α :=
  x.run.value

@[simp] theorem result_pure (a : α) : (pure a : Outcome ε α).result = .ok a := rfl

@[simp] theorem result_throw (e : ε) : (throw e : Outcome ε α).result = .error e := rfl

theorem result_bind (x : Outcome ε α) (f : α → Outcome ε β) :
    (x >>= f).result = x.result.bind fun a => (f a).result := by
  obtain ⟨log, value⟩ := x
  cases value with
  | ok a => rfl
  | error e => rfl

@[simp] theorem result_map (f : α → β) (x : Outcome ε α) :
    (f <$> x).result = x.result.map f := by
  rw [← bind_pure_comp, result_bind]
  cases x.result <;> rfl

@[simp] theorem result_mapError (f : ε → δ) (x : Outcome ε α) :
    (x.mapError f).result = x.result.mapError f := rfl

@[simp] theorem result_attempt (x : Outcome ε α) :
    (x.attempt : Outcome δ (Except ε α)).result = .ok x.result := rfl

@[simp] theorem result_warn (warning : Ambiguity) :
    (warn warning : Outcome ε Unit).result = .ok () := rfl

theorem result_bind_of_ok {x : Outcome ε α} {a : α} (h : x.result = .ok a)
    (f : α → Outcome ε β) : (x >>= f).result = (f a).result := by
  rw [result_bind, h]
  rfl

theorem result_bind_of_error {x : Outcome ε α} {e : ε} (h : x.result = .error e)
    (f : α → Outcome ε β) : (x >>= f).result = .error e := by
  rw [result_bind, h]
  rfl

theorem result_bind_eq_ok {x : Outcome ε α} {f : α → Outcome ε β} {b : β} :
    (x >>= f).result = .ok b ↔ ∃ a, x.result = .ok a ∧ (f a).result = .ok b := by
  rw [result_bind]
  cases x.result with
  | ok a => simp [Except.bind]
  | error e => simp [Except.bind]

theorem result_ofOption_eq_ok {error : ε} {x : Option α} {a : α} :
    (ofOption error x).result = .ok a ↔ x = some a := by
  cases x with
  | none => simp [ofOption]
  | some b => simp [ofOption]

theorem result_map_eq_ok {f : α → β} {x : Outcome ε α} {b : β} :
    (f <$> x).result = .ok b ↔ ∃ a, x.result = .ok a ∧ f a = b := by
  rw [result_map]
  cases x.result <;> simp [Except.map]

theorem result_mapError_eq_ok {f : ε → δ} {x : Outcome ε α} {a : α} :
    (x.mapError f).result = .ok a ↔ x.result = .ok a := by
  rw [result_mapError]
  cases x.result <;> simp [Except.mapError]

theorem result_mapM_eq_ok {f : α → Outcome ε β} {as : List α} {bs : List β} :
    (as.mapM f).result = .ok bs ↔ List.Forall₂ (fun a b => (f a).result = .ok b) as bs := by
  induction as generalizing bs with
  | nil => cases bs <;> simp
  | cons a as ih =>
    rw [List.mapM_cons, result_bind_eq_ok]
    constructor
    · rintro ⟨b, head, rest⟩
      rw [result_bind_eq_ok] at rest
      obtain ⟨tail, mapped, last⟩ := rest
      cases last
      exact .cons head (ih.1 mapped)
    · intro h
      cases h with
      | cons head tail =>
        refine ⟨_, head, ?_⟩
        rw [result_bind_eq_ok]
        exact ⟨_, ih.2 tail, rfl⟩

theorem exists_result_mapM {f : α → Outcome ε β} {as : List α}
    (each : ∀ a ∈ as, ∃ b, (f a).result = .ok b) : ∃ bs, (as.mapM f).result = .ok bs := by
  induction as with
  | nil => exact ⟨[], rfl⟩
  | cons a as ih =>
    obtain ⟨b, head⟩ := each a List.mem_cons_self
    obtain ⟨bs, tail⟩ := ih fun other mem => each other (List.mem_cons_of_mem a mem)
    exact ⟨b :: bs, result_mapM_eq_ok.2 (.cons head (result_mapM_eq_ok.1 tail))⟩

theorem result_mapM_eq_error {f : α → Outcome ε β} {as : List α} {error : ε} :
    (as.mapM f).result = .error error ↔
      ∃ front a, front ++ [a] <+: as ∧ (∀ other ∈ front, ∃ b, (f other).result = .ok b) ∧
        (f a).result = .error error := by
  induction as with
  | nil => simp
  | cons first rest ih =>
    rw [List.mapM_cons, result_bind]
    cases head : (f first).result with
    | error fault =>
      constructor
      · intro failed
        cases failed
        exact ⟨[], first, List.prefix_append [first] rest, nofun, head⟩
      · rintro ⟨front, a, before, decoded, fails⟩
        cases front with
        | nil =>
          obtain ⟨rfl, -⟩ := List.cons_prefix_cons.1 before
          exact congrArg Except.error (Except.error.inj (head.symm.trans fails))
        | cons other front =>
          obtain ⟨rfl, -⟩ := List.cons_prefix_cons.1 before
          obtain ⟨b, decodes⟩ := decoded other List.mem_cons_self
          cases head.symm.trans decodes
    | ok b =>
      have tail : ((rest.mapM f >>= fun bs => pure (b :: bs) : Outcome ε (List β)).result
          = .error error) ↔ (rest.mapM f).result = .error error := by
        rw [result_bind]
        cases (rest.mapM f).result <;> simp [Except.bind]
      refine tail.trans (ih.trans ⟨?_, ?_⟩)
      · rintro ⟨front, a, before, decoded, fails⟩
        refine ⟨first :: front, a, List.cons_prefix_cons.2 ⟨rfl, before⟩, ?_, fails⟩
        exact List.forall_mem_cons.2 ⟨⟨b, head⟩, decoded⟩
      · rintro ⟨front, a, before, decoded, fails⟩
        cases front with
        | nil =>
          obtain ⟨rfl, -⟩ := List.cons_prefix_cons.1 before
          cases head.symm.trans fails
        | cons other front =>
          obtain ⟨-, before⟩ := List.cons_prefix_cons.1 before
          exact ⟨front, a, before, (List.forall_mem_cons.1 decoded).2, fails⟩

end DebugLink.Outcome
