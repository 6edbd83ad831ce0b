import DebugLink.Binding.Binder

/-!
# The budget of a coercion

A value is coerced part by part, and a part is nested less deeply than its whole. So the budget
with which values are coerced is never used up, and `Binder.coerce` is the coercion that reads the
parts of a value as it reads the value.
-/

set_option autoImplicit false

namespace DebugLink

theorem mapM_congr_left {m : Type → Type} [Monad m] [LawfulMonad m] {α β : Type} {f g : α → m β}
    {as : List α} (same : ∀ a ∈ as, f a = g a) : as.mapM f = as.mapM g := by
  induction as with
  | nil => rfl
  | cons a as ih =>
    rw [List.mapM_cons, List.mapM_cons, same a List.mem_cons_self,
      ih fun other mem => same other (List.mem_cons_of_mem a mem)]

theorem Json.depth_lt_of_item {value item : Json} {items : List Json}
    (array : value.asItems? = some items) (mem : item ∈ items) : item.depth < value.depth := by
  cases value with
  | array own =>
    cases array
    exact Nat.lt_succ_of_le (depth_le_of_mem mem)
  | _ => cases array

theorem Json.depth_lt_of_lookup {value part : Json} {members : List (String × Json)} {key : String}
    (object : value.asMembers? = some members) (found : members.lookup key = some part) :
    part.depth < value.depth := by
  refine Json.depth_lt_of_get? (?_ : value.get? key = some part)
  rw [get?, object]
  exact found

@[elab_as_elim]
theorem Json.induction_on_depth {Q : Json → Prop} (value : Json)
    (step : ∀ value : Json, (∀ part : Json, part.depth < value.depth → Q part) → Q value) :
    Q value :=
  (measure Json.depth).wf.induction value step

namespace Binder

def AgreeBelow (depth : Nat) (first second : Coercion) (kind : Kind) : Prop :=
  ∀ part mode, part.depth < depth → first part kind mode = second part kind mode

variable {binder : Binder} {first second : Coercion} {schema : Schema} {raw value : Json}

theorem bindFieldWith_congr {field : Field} (agree : AgreeBelow raw.depth first second field.kind)
    (schema : Schema) (mode : Mode) :
    bindFieldWith first schema raw mode field = bindFieldWith second schema raw mode field := by
  unfold bindFieldWith
  cases object : raw.asMembers? with
  | none => rfl
  | some members =>
    cases found : members.lookup field.wire with
    | none => simp only [found]
    | some part =>
      have smaller := Json.depth_lt_of_lookup object found
      have same := agree part (field.mode.getD mode) smaller
      cases part with
      | null => simp only [found]
      | _ => simp only [found, same]

theorem bindEagerWith_congr
    (agree : ∀ field ∈ schema.fields, AgreeBelow raw.depth first second field.kind) :
    bindEagerWith first schema raw = bindEagerWith second schema raw := by
  have same : schema.fields.mapM (bindFieldWith first schema raw .eager)
      = schema.fields.mapM (bindFieldWith second schema raw .eager) :=
    mapM_congr_left fun field declared => bindFieldWith_congr (agree field declared) schema .eager
  unfold bindEagerWith
  rw [same]

theorem bindWith_congr
    (agree : ∀ field ∈ schema.fields, AgreeBelow raw.depth first second field.kind) (mode : Mode) :
    bindWith first schema raw mode = bindWith second schema raw mode := by
  cases mode with
  | eager => exact bindEagerWith_congr agree
  | lazy => rfl

theorem coerceWith_list_congr {element : Kind}
    (agree : AgreeBelow value.depth first second element) (other : Binder) (mode : Mode) :
    binder.coerceWith first value (.list element) mode
      = other.coerceWith second value (.list element) mode := by
  cases array : value.asItems? with
  | none => simp only [coerceWith, array]; rfl
  | some items =>
    have same : items.zipIdx.mapM (fun item =>
          (first item.1 element mode).mapError (BindingProblem.element item.2))
        = items.zipIdx.mapM fun item =>
          (second item.1 element mode).mapError (BindingProblem.element item.2) := by
      apply mapM_congr_left
      rintro ⟨item, index⟩ mem
      have listed : item ∈ items := List.fst_mem_of_mem_zipIdx mem
      rw [agree item mode (Json.depth_lt_of_item array listed)]
    simp only [coerceWith, array, Outcome.ofOption, pure_bind, same]

theorem resolveWith_congr (agree : ∀ kind, AgreeBelow raw.depth first second kind) (base : Schema)
    (mode : Mode) :
    binder.resolveWith first base raw mode = binder.resolveWith second base raw mode := by
  have eager : ∀ schema, bindEagerWith first schema raw = bindEagerWith second schema raw :=
    fun schema => bindEagerWith_congr fun field _ => agree field.kind
  have either : ∀ schema, bindWith first schema raw mode = bindWith second schema raw mode :=
    fun schema => bindWith_congr (fun field _ => agree field.kind) mode
  have structural : ∀ subtypes, binder.bindStructural first base subtypes raw
      = binder.bindStructural second base subtypes raw := by
    intro subtypes
    unfold bindStructural
    simp only [eager]
  unfold resolveWith
  simp only [either, structural]

/-- What a value is read as is decided by how the parts nested in it are read. -/
theorem coerceWith_congr (agree : ∀ kind, AgreeBelow value.depth first second kind) (kind : Kind)
    (mode : Mode) :
    binder.coerceWith first value kind mode = binder.coerceWith second value kind mode := by
  have eager : ∀ schema, bindEagerWith first schema value = bindEagerWith second schema value :=
    fun schema => bindEagerWith_congr fun field _ => agree field.kind
  cases kind with
  | record type => simp only [coerceWith, eager]
  | subtype base => simp only [coerceWith, resolveWith_congr agree]
  | list element => exact coerceWith_list_congr (agree element) binder mode
  | _ => rfl

theorem coerceWithin_eq_of_lt {budget other : Nat} (enough : value.depth < budget)
    (enough' : value.depth < other) (kind : Kind) (mode : Mode) :
    binder.coerceWithin budget value kind mode = binder.coerceWithin other value kind mode := by
  induction budget generalizing value other kind mode with
  | zero => omega
  | succ budget ih =>
    cases other with
    | zero => omega
    | succ other =>
      apply coerceWith_congr
      -- The parts are nested less deeply, so both budgets may go down by one.
      intro kind part mode smaller
      exact ih (by omega) (by omega) kind mode

theorem coerce_eq_coerceWith (binder : Binder) :
    binder.coerce = binder.coerceWith binder.coerce := by
  funext value kind mode
  apply coerceWith_congr
  intro kind part mode smaller
  exact coerceWithin_eq_of_lt smaller (Nat.lt_succ_self _) kind mode

end Binder

end DebugLink
