/-!
# Values with a log

A computation may report what happens on the way to its value, and it reports it whether it
succeeds or not. `Logged` keeps the reports in order beside the value.
-/

set_option autoImplicit false

namespace DebugLink

/-- A value and what was reported on the way to it. -/
structure Logged (ρ α : Type) where
  log : List ρ
  value : α

namespace Logged

variable {ρ α β : Type}

theorem ext {x y : Logged ρ α} (log : x.log = y.log) (value : x.value = y.value) : x = y := by
  cases x; cases y; cases log; cases value; rfl

instance : Monad (Logged ρ) where
  pure a := ⟨[], a⟩
  bind x f := ⟨x.log ++ (f x.value).log, (f x.value).value⟩

@[simp] theorem value_pure (a : α) : (pure a : Logged ρ α).value = a := rfl

@[simp] theorem log_pure (a : α) : (pure a : Logged ρ α).log = [] := rfl

@[simp] theorem value_bind (x : Logged ρ α) (f : α → Logged ρ β) :
    (x >>= f).value = (f x.value).value := rfl

@[simp] theorem log_bind (x : Logged ρ α) (f : α → Logged ρ β) :
    (x >>= f).log = x.log ++ (f x.value).log := rfl

instance : LawfulMonad (Logged ρ) :=
  .mk' (Logged ρ)
    (fun _ => ext (List.append_nil _) rfl)
    (fun _ _ => ext (List.nil_append _) rfl)
    (fun _ _ _ => ext (List.append_assoc _ _ _) rfl)

def report (entry : ρ) : Logged ρ Unit := ⟨[entry], ()⟩

end Logged

end DebugLink
