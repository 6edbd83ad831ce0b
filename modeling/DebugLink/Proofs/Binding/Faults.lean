import DebugLink.Proofs.Binding.Memory

/-!
# Which field is blamed

An eager view fails on the first of its fields that cannot be decoded, and only when all of them
can be, on a member that a closed record does not declare. A lazy view meets its faults in the
order in which it is asked. Each of them is a reason for the eager view to fail; and unless the
fault lies in a record inside the field, both ways tell it in the same words.
-/

set_option autoImplicit false

namespace DebugLink

/-! ## Faults of an eager view -/

structure Binder.FirstFault (binder : Binder) (schema : Schema) (raw : Json) (front : List Field)
    (field : Field) (error : BindingError) : Prop where
  declared : front ++ [field] <+: schema.fields
  decoded : ∀ other ∈ front, ∃ x, (binder.bindField schema raw .eager other).result = .ok x
  fails : (binder.bindField schema raw .eager field).result = .error error

/-- A key that a closed record does not declare, and the least of these. -/
structure Schema.FirstUndeclared (schema : Schema) (members : List (String × Json))
    (key : String) : Prop where
  closed : schema.allowsOthers = false
  member : key ∈ members.map Prod.fst
  undeclared : schema.declares key = false
  least : ∀ other ∈ members.map Prod.fst, schema.declares other = false → key ≤ other

theorem Schema.FirstUndeclared.unique {schema : Schema} {members : List (String × Json)}
    {key other : String} (first : schema.FirstUndeclared members key)
    (second : schema.FirstUndeclared members other) : key = other :=
  String.le_antisymm (first.least other second.member second.undeclared)
    (second.least key first.member first.undeclared)

theorem Schema.firstUndeclared_of_undeclared? {schema : Schema} {members : List (String × Json)}
    {key : String} (sorted : (members.map Prod.fst).Pairwise (· < ·))
    (found : schema.undeclared? members = some key) : schema.FirstUndeclared members key := by
  unfold undeclared? at found
  cases others : schema.allowsOthers with
  | true => simp [others] at found
  | false =>
    simp only [others, Bool.false_eq_true, if_false, Option.map_eq_some_iff] at found
    obtain ⟨⟨own, value⟩, found, rfl⟩ := found
    obtain ⟨undeclared, front, back, rfl, declared⟩ := List.find?_eq_some_iff_append.1 found
    rw [List.map_append, List.map_cons, List.pairwise_append, List.pairwise_cons] at sorted
    obtain ⟨-, ⟨after, -⟩, -⟩ := sorted
    refine ⟨others, by simp, by simpa using undeclared, fun other among unknown => ?_⟩
    rw [List.map_append, List.map_cons, List.mem_append, List.mem_cons] at among
    obtain before | rfl | later := among
    · obtain ⟨member, listed, rfl⟩ := List.mem_map.1 before
      have known := declared member listed
      simp [unknown] at known
    · exact String.le_refl _
    · exact String.not_lt.1 (String.lt_asymm (after other later))

/-- In an object the member that is blamed is the one of least key. -/
theorem Schema.undeclared?_eq_some {schema : Schema} {members : List (String × Json)} {key : String}
    (sorted : (members.map Prod.fst).Pairwise (· < ·)) :
    schema.undeclared? members = some key ↔ schema.FirstUndeclared members key := by
  refine ⟨firstUndeclared_of_undeclared? sorted, fun first => ?_⟩
  cases found : schema.undeclared? members with
  | some other => rw [(firstUndeclared_of_undeclared? sorted found).unique first]
  | none =>
    obtain ⟨member, listed, rfl⟩ := List.mem_map.1 first.member
    simp only [undeclared?, first.closed, Bool.false_eq_true, if_false, Option.map_eq_none_iff,
      List.find?_eq_none] at found
    have known := found member listed
    simp [first.undeclared] at known

namespace Binder

variable {binder : Binder} {schema : Schema} {raw value : Json} {kind : Kind}
  {members : List (String × Json)} {error : BindingError}

def DecodesAll (binder : Binder) (schema : Schema) (raw : Json) : Prop :=
  ∀ field ∈ schema.fields, ∃ x, (binder.bindField schema raw .eager field).result = .ok x

theorem result_bindEager (object : raw.asMembers? = some members) :
    (binder.bindEager schema raw).result =
      (schema.fields.mapM (binder.bindField schema raw .eager)).result.bind fun values =>
        match schema.undeclared? members with
        | some key => .error (.mk schema.id key .closedRecord .undeclaredProperty)
        | none => .ok (.mk schema raw .eager (values.map fun value => some (.ok value))) := by
  unfold bindEager bindEagerWith
  rw [object]
  refine (Outcome.result_bind ..).trans (congrArg _ (funext fun values => ?_))
  cases schema.undeclared? members <;> rfl

/-- Fields are blamed before members that are left over. -/
theorem bindEager_eq_error (object : raw.asMembers? = some members)
    (sorted : (members.map Prod.fst).Pairwise (· < ·)) :
    (binder.bindEager schema raw).result = .error error ↔
      (∃ front field, binder.FirstFault schema raw front field error) ∨
      (binder.DecodesAll schema raw ∧ ∃ key, schema.FirstUndeclared members key ∧
        error = .mk schema.id key .closedRecord .undeclaredProperty) := by
  rw [result_bindEager object]
  cases fields : (schema.fields.mapM (binder.bindField schema raw .eager)).result with
  | error fault =>
    obtain ⟨front, field, declared, decoded, fails⟩ := Outcome.result_mapM_eq_error.1 fields
    constructor
    · intro failed
      cases failed
      exact .inl ⟨front, field, declared, decoded, fails⟩
    · rintro (⟨other, own, fault⟩ | ⟨all, -⟩)
      · have same := Outcome.result_mapM_eq_error.2
          ⟨other, own, fault.declared, fault.decoded, fault.fails⟩
        exact congrArg Except.error (Except.error.inj (fields.symm.trans same))
      · obtain ⟨x, decodes⟩ := all field (declared.subset (by simp))
        cases fails.symm.trans decodes
  | ok values =>
    have all : binder.DecodesAll schema raw := fun field mem =>
      let ⟨x, _, decodes⟩ := exists_of_mem_right (Outcome.result_mapM_eq_ok.1 fields).flip mem
      ⟨x, decodes⟩
    have none_fails : ¬ ∃ front field, binder.FirstFault schema raw front field error := by
      rintro ⟨front, field, declared, -, fails⟩
      obtain ⟨x, decodes⟩ := all field (declared.subset (by simp))
      cases fails.symm.trans decodes
    simp only [none_fails, all, false_or, true_and, Except.bind,
      ← Schema.undeclared?_eq_some sorted]
    cases schema.undeclared? members with
    | none => simp
    | some key => simp [eq_comm]

theorem exists_error_of_field {field : Field} (declared : field ∈ schema.fields)
    (fails : ¬ ∃ x, (binder.bindField schema raw .eager field).result = .ok x) :
    ∃ error, (binder.bindEager schema raw).result = .error error := by
  cases bound : (binder.bindEager schema raw).result with
  | error error => exact ⟨error, rfl⟩
  | ok view =>
    obtain ⟨members, values, -, fields, -⟩ := bindEagerWith_eq_ok.1 bound
    obtain ⟨x, -, decodes⟩ := exists_of_mem_right fields.flip declared
    exact absurd ⟨x, decodes⟩ fails

/-! ## Faults that both modes tell alike -/

theorem coerce_of_plain (plain : kind.reference? = none) (mode other : Mode) :
    binder.coerce value kind mode = binder.coerce value kind other := by
  induction kind generalizing value with
  | record type | subtype base => cases plain
  | list element ih =>
    rw [coerce_eq_coerceWith]
    unfold coerceWith
    simp only [ih plain]
  | _ =>
    rw [coerce_eq_coerceWith]
    rfl

/-- The fault of a field does not lie in a record inside it. -/
def Shallow (members : List (String × Json)) (field : Field) : Prop :=
  members.lookup field.wire = none ∨ members.lookup field.wire = some .null ∨
    field.kind.reference? = none

theorem bindField_of_shallow {field : Field} (object : raw.asMembers? = some members)
    (shallow : Shallow members field) (mode other : Mode) :
    binder.bindField schema raw mode field = binder.bindField schema raw other field := by
  unfold bindField bindFieldWith
  simp only [object]
  obtain absent | null | plain := shallow
  · simp only [absent]
  · simp only [null]
  · cases members.lookup field.wire with
    | none => rfl
    | some value =>
      cases value with
      | null => rfl
      | _ => simp only [coerce_of_plain plain (field.mode.getD mode) (field.mode.getD other)]

end Binder

/-! ## Faults of a lazy view -/

inductive Query.Reads (schema : Schema) (index : Nat) : Query → Prop where
  | fieldAt : Reads schema index (.fieldAt index)
  | field {name : String} (place : schema.fieldIndex? name = some index) :
      Reads schema index (.field name)
  | typed {name : String} (accessor : Accessor) (place : schema.fieldIndex? name = some index) :
      Reads schema index (.typed accessor name)

namespace SharedViews

/-- What is answered to a visit; none when there is no such view. -/
def told (binder : Binder) (shared : SharedViews) (visit : Visit) :
    Option (Except BindingError Answer) :=
  (shared.answer binder visit).map fun result => result.value.1

variable {binder : Binder} {schema : Schema} {raw : Json} {members : List (String × Json)}
  {query : Query} {index : Nat} {field : Field} {error : BindingError}

theorem map_eq_error {ε α β : Type} {f : α → β} {outcome : Except ε α} {error : ε} :
    outcome.map f = .error error ↔ outcome = .error error := by
  cases outcome <;> simp [Except.map]

theorem ask_blank_eq_error (reads : query.Reads schema index)
    (declared : schema.fields[index]? = some field) (shared : SharedViews) :
    query.ask binder shared (.blank schema raw .lazy) = .error error ↔
      (binder.bindField schema raw .lazy field).result = .error error := by
  rw [← Binder.read_blank declared]
  cases reads with
  | fieldAt =>
    rw [Query.ask, Query.access, Access.outcome_map, map_eq_error]
    rfl
  | field place | typed accessor place =>
    have own : (View.blank schema raw .lazy).schema.fieldIndex? _ = some index := place
    rw [Query.ask, Query.access, Access.outcome_map, map_eq_error,
      Binder.fieldNamed_of_index binder own]
    rfl

/-- Whatever has been asked of a lazy view and of those inside it, a field fails as it would have
failed at first. -/
theorem told_eq_error (reads : query.Reads schema index)
    (declared : schema.fields[index]? = some field) (shared : SharedViews) (visits : List Visit) :
    let added := shared.add (.blank schema raw .lazy)
    (added.2.after binder visits).told binder ⟨added.1, query⟩ = some (.error error) ↔
      (binder.bindField schema raw .lazy field).result = .error error := by
  intro added
  have held : added.2.get? added.1 = some (.blank schema raw .lazy) :=
    get?_add_new shared _ rfl
  obtain ⟨later, held, grows⟩ := grows_after binder visits held
  let visit : Visit := ⟨added.1, query⟩
  have found : (added.2.after binder visits).get? visit.key = some later := held
  obtain ⟨result, answered, serves⟩ := serves_of_held binder found
  have other : ∀ name, query ≠ .isDecoded name := by
    rintro name rfl
    cases reads
  have bare := grows.ask (added.2.after binder visits) other
  unfold told
  rw [answered, Option.map_some, Option.some_inj, serves.answer, ← map_eq_error, bare,
    map_eq_error]
  exact ask_blank_eq_error reads declared _

/-- An eager view of an object blames the first field that cannot be decoded, or else the first
member that a closed record does not declare. A field that a lazy view cannot decode, whenever it
is asked for it, makes the eager view fail. And the lazy view blames the same field as the eager
one does, in the same words each time, unless the fault lies in a record inside the field. -/
theorem blames_first_fault (binder : Binder) (schema : Schema)
    (object : raw.asMembers? = some members) (ordered : raw.Ordered) (shared : SharedViews) :
    let added := shared.add (.blank schema raw .lazy)
    (∀ error, (binder.bind schema raw .eager).result = .error error ↔
      (∃ front field, binder.FirstFault schema raw front field error) ∨
      (binder.DecodesAll schema raw ∧ ∃ name, schema.FirstUndeclared members name ∧
        error = .mk schema.id name .closedRecord .undeclaredProperty)) ∧
    (binder.bind schema raw .lazy).result = .ok (.blank schema raw .lazy) ∧
    (∀ visits index query error, index < schema.fields.length → query.Reads schema index →
      (added.2.after binder visits).told binder ⟨added.1, query⟩ = some (.error error) →
        ∃ blamed, (binder.bind schema raw .eager).result = .error blamed) ∧
    ∀ front field error, binder.FirstFault schema raw front field error →
      Binder.Shallow members field → ∀ visits query, query.Reads schema front.length →
        (added.2.after binder visits).told binder ⟨added.1, query⟩ = some (.error error) := by
  have sorted : (members.map Prod.fst).Pairwise (· < ·) := by
    cases raw with
    | object own =>
      cases object
      exact ordered.1
    | _ => cases object
  refine ⟨fun error => Binder.bindEager_eq_error object sorted, rfl, ?_, ?_⟩
  · intro visits index query error below reads failed
    have declared := List.getElem?_eq_getElem below
    have fails := (told_eq_error reads declared shared visits).1 failed
    refine Binder.exists_error_of_field (List.getElem_mem below) ?_
    rintro ⟨x, decodes⟩
    obtain ⟨y, lazily, -⟩ := Binder.lazy_of_bindField (binder.lazyBelow _) decodes
    cases fails.symm.trans lazily
  · intro front field error fault shallow visits query reads
    have declared : schema.fields[front.length]? = some field := by
      obtain ⟨back, split⟩ := fault.declared
      simp [← split]
    refine (told_eq_error reads declared shared visits).2 ?_
    rw [Binder.bindField_of_shallow object shallow .lazy .eager]
    exact fault.fails

/-- The second field of a chain is at fault as well, and is read first. -/
theorem blames_first_fault_chain :
    let raw : Json := .object [("next", .ofUInt64 3), ("number", .bool true)]
    let error : BindingError := .mk "Chain" "number" (.kind .long) (.mistyped .boolean)
    let added := empty.add (.blank Binder.chain raw .lazy)
    (Binder.chains.bind Binder.chain raw .eager).result = .error error ∧
    (added.2.after Binder.chains [⟨added.1, .field "next"⟩]).told Binder.chains
      ⟨added.1, .typed .string "number"⟩ = some (.error error) := by
  intro raw error added
  have increasing : ["next", "number"].Pairwise (· < ·) := by decide +kernel
  have ordered : raw.Ordered := ⟨increasing, trivial, trivial, trivial⟩
  obtain ⟨eagerly, -, -, lazily⟩ :=
    blames_first_fault Binder.chains Binder.chain rfl ordered empty
  have fault : Binder.chains.FirstFault Binder.chain raw []
      ⟨"number", "number", false, false, .long, none⟩ error :=
    ⟨List.prefix_append [_] _, nofun, rfl⟩
  refine ⟨(eagerly _).2 (.inl ⟨_, _, fault⟩), ?_⟩
  exact lazily _ _ _ fault (.inr (.inr rfl)) [⟨_, .field "next"⟩] _ (.typed .string rfl)

end SharedViews

end DebugLink
