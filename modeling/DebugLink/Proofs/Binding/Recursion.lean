import Mathlib.Logic.Relation
import DebugLink.Proofs.Binding.Evaluation
import DebugLink.Proofs.Binding.Inversion
import DebugLink.Proofs.Binding.References

/-!
# How deep binding goes

Schemas refer to themselves and to each other, so no measure of them goes down when a reference is
followed. What goes down is the value: a coercion made inside a call reads a part of the value that
the call is about. Between two parts the calls follow each other in one order only: a coercion
resolves, a resolution binds candidates, and binding a candidate binds its fields.
-/

set_option autoImplicit false

namespace DebugLink

inductive Json.IsPart (part whole : Json) : Prop where
  | member {key : String} (found : whole.get? key = some part)
  | item {items : List Json} (array : whole.asItems? = some items) (mem : part ∈ items)

/-- A value that lies in another, at any depth, and is not the whole of it. -/
def Json.Inside : Json → Json → Prop :=
  Relation.TransGen Json.IsPart

theorem Json.IsPart.depth_lt {part whole : Json} (isPart : part.IsPart whole) :
    part.depth < whole.depth := by
  cases isPart with
  | member found => exact Json.depth_lt_of_get? found
  | item array mem => exact Json.depth_lt_of_item array mem

theorem Json.Inside.depth_lt {part whole : Json} (inside : part.Inside whole) :
    part.depth < whole.depth := by
  induction inside with
  | single isPart => exact isPart.depth_lt
  | tail _ isPart ih => exact Nat.lt_trans ih isPart.depth_lt

namespace Binder

variable {binder : Binder} {draft : Registry.Draft} {call : Call} {schema : Schema} {raw : Json}
  {mode : Mode}

/-! ## The calls made right inside a call -/

/-- The calls that a call may make itself, in order: none, or those that its next step asks for, up
to the first that fails. -/
inductive Makes (binder : Binder) : Call → List Call → Prop where
  | none (call : Call) : Makes binder call []
  | part {schema : Schema} {raw part : Json} {mode : Mode} {field : Field}
      (found : raw.get? field.wire = some part) :
      Makes binder (.bindField schema raw mode field)
        [.coerce part field.kind (field.mode.getD mode)]
  | fields {schema : Schema} {raw : Json} {fields : List Field} (first : fields <+: schema.fields) :
      Makes binder (.bindEager schema raw) (fields.map (Call.bindField schema raw .eager))
  | chosen {base schema : Schema} {subtypes : Subtypes} {raw : Json} {candidate : Candidate}
      (polymorphic : base.subtypes = some subtypes) (listed : candidate ∈ subtypes.candidates)
      (described : binder.describe? candidate.type = some schema) :
      Makes binder (.resolve base raw .eager) [.bindEager schema raw]
  | tried {base : Schema} {subtypes : Subtypes} {raw : Json} {mode : Mode}
      {candidates : List Candidate} (polymorphic : base.subtypes = some subtypes)
      (first : candidates <+: subtypes.candidates) :
      Makes binder (.resolve base raw mode)
        ((candidates.filterMap fun candidate => binder.describe? candidate.type).map
          fun schema => .bindEager schema raw)
  | record {value : Json} {type : String} {schema : Schema}
      (described : binder.describe? type = some schema) :
      Makes binder (.coerce value (.record type) .eager) [.bindEager schema value]
  | subtype {value : Json} {base : String} {schema : Schema} {mode : Mode}
      (described : binder.describe? base = some schema) :
      Makes binder (.coerce value (.subtype base) mode) [.resolve schema value mode]
  | items {value : Json} {element : Kind} {mode : Mode} {items taken : List Json}
      (array : value.asItems? = some items) (first : taken <+: items) :
      Makes binder (.coerce value (.list element) mode)
        (taken.map fun item => .coerce item element mode)

/-- The trees record calls that a call may make itself. -/
def MakesTrees (binder : Binder) (call : Call) (trees : List CallTree) : Prop :=
  ∃ calls, trees = calls.map binder.callTree ∧ binder.Makes call calls

theorem MakesTrees.none (binder : Binder) (call : Call) : binder.MakesTrees call [] :=
  ⟨[], rfl, .none call⟩

theorem makes_tracedField (schema : Schema) (raw : Json) (mode : Mode) (field : Field) :
    binder.MakesTrees (.bindField schema raw mode field)
      (tracedField binder.recorded schema raw mode field).calls := by
  unfold tracedField
  cases object : raw.asMembers? with
  | none => exact .none binder _
  | some members =>
    cases found : members.lookup field.wire with
    | none => simpa only [found] using .none binder _
    | some part =>
      have got : raw.get? field.wire = some part := by
        rw [Json.get?, object]
        exact found
      cases part with
      | null => simpa only [found] using .none binder _
      | _ =>
        simp only [found]
        exact ⟨_, rfl, .part got⟩

theorem makes_tracedEager (schema : Schema) (raw : Json) :
    binder.MakesTrees (.bindEager schema raw) (tracedEager binder.recorded schema raw).calls := by
  unfold tracedEager
  cases raw.asMembers? with
  | none => exact .none binder _
  | some members =>
    obtain ⟨taken, first, calls⟩ := Traced.calls_mapM
      (fun field => binder.recorded (.bindField schema raw .eager field)) schema.fields
    refine ⟨_, ?_, .fields first⟩
    rw [List.map_map, List.map_eq_flatMap]
    exact (Traced.calls_bind_of_quiet fun _ => rfl).trans calls

theorem calls_tracedTrial (base : Schema) (raw : Json) (candidate : Candidate) :
    (binder.tracedTrial binder.recorded base raw candidate).calls
      = ((binder.describe? candidate.type).map
        fun schema => binder.callTree (.bindEager schema raw)).toList := by
  simp only [tracedTrial, candidateSchema]
  cases binder.describe? candidate.type with
  | none => rfl
  | some schema =>
    simp only [Outcome.ofOption, Traced.lift_pure, pure_bind]
    exact Traced.calls_bind_of_quiet fun _ => rfl

theorem makes_tracedStructural {base : Schema} {subtypes : Subtypes}
    (polymorphic : base.subtypes = some subtypes) (raw : Json) (mode : Mode) :
    binder.MakesTrees (.resolve base raw mode)
      (binder.tracedStructural binder.recorded base subtypes raw).calls := by
  obtain ⟨taken, first, calls⟩ :=
    Traced.calls_mapM (binder.tracedTrial binder.recorded base raw) subtypes.candidates
  refine ⟨_, ?_, .tried polymorphic first⟩
  rw [List.map_map, List.map_filterMap, List.filterMap_eq_flatMap_toList, tracedStructural,
    Traced.calls_bind_of_quiet fun _ => rfl, calls]
  simp only [calls_tracedTrial]
  rfl

theorem makes_tracedResolve (base : Schema) (raw : Json) (mode : Mode) :
    binder.MakesTrees (.resolve base raw mode)
      (binder.tracedResolve binder.recorded base raw mode).calls := by
  unfold tracedResolve
  cases polymorphic : base.subtypes with
  | none => exact .none binder _
  | some subtypes =>
    cases raw.asMembers? with
    | none => exact .none binder _
    | some members =>
      cases rule : subtypes.rule with
      | discriminated =>
        simp only [rule, Traced.calls_lift_bind]
        cases found : (binder.discriminate base subtypes members).result with
        | error error => exact .none binder _
        | ok chosen =>
          obtain ⟨candidate, listed, described, -⟩ := candidate_of_discriminate found
          cases mode with
          | eager =>
            simp only [Traced.callsAfter]
            exact ⟨_, Traced.calls_bind_of_quiet fun _ => rfl,
              .chosen polymorphic listed described⟩
          | lazy => exact .none binder _
      | structural =>
        simp only [rule]
        cases mode with
        | eager =>
          rw [Traced.calls_bind_of_quiet fun _ => rfl]
          exact makes_tracedStructural polymorphic raw .eager
        | lazy =>
          rw [Traced.calls_bind_of_quiet fun _ => rfl]
          exact makes_tracedStructural polymorphic raw .lazy

theorem makes_tracedCoerce (value : Json) (kind : Kind) (mode : Mode) :
    binder.MakesTrees (.coerce value kind mode)
      (binder.tracedCoerce binder.recorded value kind mode).calls := by
  cases kind with
  | record type =>
    cases described : binder.describe? type with
    | none =>
      simp only [tracedCoerce, described]
      exact .none binder _
    | some schema =>
      simp only [tracedCoerce, described, Outcome.ofOption, Traced.lift_pure, pure_bind]
      cases mode with
      | eager => exact ⟨_, Traced.calls_map _ _, .record described⟩
      | lazy => exact .none binder _
  | subtype base =>
    cases described : binder.describe? base with
    | none =>
      simp only [tracedCoerce, described]
      exact .none binder _
    | some schema =>
      simp only [tracedCoerce, described, Outcome.ofOption, Traced.lift_pure, pure_bind]
      exact ⟨_, Traced.calls_bind_of_quiet fun _ => rfl, .subtype described⟩
  | list element =>
    cases array : value.asItems? with
    | none =>
      simp only [tracedCoerce, array]
      exact .none binder _
    | some items =>
      obtain ⟨taken, first, calls⟩ := Traced.calls_mapM (fun (item : Json × Nat) =>
        (binder.recorded (.coerce item.1 element mode)).mapError (BindingProblem.element item.2))
        items.zipIdx
      have first : taken.map Prod.fst <+: items := by
        simpa only [List.zipIdx_map_fst] using first.map Prod.fst
      refine ⟨_, ?_, .items array first⟩
      rw [List.map_map, List.map_map, List.map_eq_flatMap]
      simp only [tracedCoerce, array, Outcome.ofOption, Traced.lift_pure, pure_bind,
        Traced.calls_map]
      exact calls
  | _ => exact .none binder _

theorem makes_callTree (binder : Binder) (call : Call) :
    binder.MakesTrees call (binder.callTree call).inner := by
  rw [inner_callTree]
  cases call with
  | coerce value kind mode => exact makes_tracedCoerce value kind mode
  | resolve base value mode => exact makes_tracedResolve base value mode
  | bindEager schema value => exact makes_tracedEager schema value
  | bindField schema value mode field => exact makes_tracedField schema value mode field

/-! ## What goes down -/

/-- The call inside coerces a part of the value that the call around it is about, or it is about
that value itself. -/
def Call.Narrows (outer : Call) : Call → Prop
  | .coerce part _ _ => part.IsPart outer.value
  | .resolve _ value _ => value = outer.value
  | .bindEager _ value => value = outer.value
  | .bindField _ value _ _ => value = outer.value

theorem Makes.narrows {calls : List Call} (makes : binder.Makes call calls) :
    ∀ inner ∈ calls, call.Narrows inner := by
  cases makes with
  | none => nofun
  | part found => exact List.forall_mem_singleton.2 (.member found)
  | fields => exact List.forall_mem_map.2 fun _ _ => rfl
  | chosen => exact List.forall_mem_singleton.2 rfl
  | tried => exact List.forall_mem_map.2 fun _ _ => rfl
  | record => exact List.forall_mem_singleton.2 rfl
  | subtype => exact List.forall_mem_singleton.2 rfl
  | items array first =>
    exact List.forall_mem_map.2 fun item mem => .item array (first.subset mem)

theorem Makes.measure_lt {calls : List Call} (makes : binder.Makes call calls) :
    ∀ inner ∈ calls, inner.measure < call.measure := by
  cases makes with
  | none => nofun
  | part found =>
    exact List.forall_mem_singleton.2 (measure_coerce_lt (Json.depth_lt_of_get? found) _ _)
  | fields => exact List.forall_mem_map.2 fun _ _ => Nat.lt_succ_self _
  | chosen => exact List.forall_mem_singleton.2 (Nat.lt_succ_self _)
  | tried => exact List.forall_mem_map.2 fun _ _ => Nat.lt_succ_self _
  | record => exact List.forall_mem_singleton.2 (Nat.lt_succ_of_lt (Nat.lt_succ_self _))
  | subtype => exact List.forall_mem_singleton.2 (Nat.lt_succ_self _)
  | items array first =>
    refine List.forall_mem_map.2 fun item mem => Nat.lt_add_right 3 (measure_coerce_lt ?_ _ _)
    exact Json.depth_lt_of_item array (first.subset mem)

theorem height_callTree_le (binder : Binder) (call : Call) :
    (binder.callTree call).height ≤ call.measure + 1 := by
  induction size : call.measure using Nat.strongRecOn generalizing call with
  | ind bound ih =>
    obtain ⟨calls, inner, makes⟩ := makes_callTree binder call
    rw [CallTree.height_eq, inner]
    refine Nat.succ_le_succ (CallTree.heightOfInner_le ?_)
    refine List.forall_mem_map.2 fun other mem => ?_
    have smaller : other.measure < bound := size ▸ makes.measure_lt other mem
    exact Nat.le_trans (ih _ smaller other rfl) smaller

/-- What the calls inside a call keep holds of all calls made while it is answered. -/
theorem callTree_of_occurs {P : Call → Prop} {sub : CallTree}
    (kept : ∀ {outer calls}, binder.Makes outer calls → P outer → ∀ inner ∈ calls, P inner)
    (start : P call) (occurs : sub.Occurs (binder.callTree call)) :
    ∃ inner, sub = binder.callTree inner ∧ P inner := by
  generalize whole : binder.callTree call = tree at occurs
  induction occurs generalizing call with
  | here => exact ⟨call, whole.symm, start⟩
  | inside mem occurs ih =>
    obtain ⟨calls, inner, makes⟩ := makes_callTree binder call
    rw [← whole, inner] at mem
    obtain ⟨other, made, same⟩ := List.mem_map.1 mem
    exact ih (kept makes start other made) same

theorem inside_of_bindField {field : Field} {tree sub : CallTree}
    (mem : tree ∈ (binder.callTree (.bindField schema raw mode field)).inner)
    (occurs : sub.Occurs tree) : sub.call.value.Inside raw := by
  obtain ⟨calls, inner, makes⟩ := makes_callTree binder (.bindField schema raw mode field)
  rw [inner] at mem
  cases makes with
  | none => cases mem
  | @part _ _ part _ _ found =>
    obtain rfl := List.mem_singleton.1 mem
    have kept : ∀ {outer calls}, binder.Makes outer calls →
        Relation.ReflTransGen Json.IsPart outer.value part → ∀ other ∈ calls,
          Relation.ReflTransGen Json.IsPart other.value part := by
      intro outer calls makes within other made
      have narrows := makes.narrows other made
      cases other with
      | coerce => exact .head narrows within
      | resolve | bindEager | bindField => exact narrows.symm ▸ within
    obtain ⟨other, rfl, within⟩ := callTree_of_occurs kept .refl occurs
    exact .tail' within (.member found)

/-! ## One value is bound once as each candidate -/

def Call.readsPart : Call → Bool
  | .coerce .. => true
  | .resolve .. | .bindEager .. | .bindField .. => false

def Call.boundAs? : Call → Option Schema
  | .bindEager schema _ => some schema
  | .coerce .. | .resolve .. | .bindField .. => none

mutual

/-- The schemas that the value of a call is bound to eagerly inside it, before a part is read. -/
def CallTree.binds : CallTree → List Schema
  | .node call inner => call.boundAs?.toList ++ bindsOfInner inner

def bindsOfInner : List CallTree → List Schema
  | [] => []
  | tree :: rest => (if tree.call.readsPart then [] else tree.binds) ++ bindsOfInner rest

end

theorem bindsOfInner_eq_nil {trees : List CallTree}
    (none : ∀ tree ∈ trees, tree.call.readsPart = true ∨ tree.binds = []) :
    bindsOfInner trees = [] := by
  induction trees with
  | nil => rfl
  | cons tree rest ih =>
    obtain ⟨first, others⟩ := List.forall_mem_cons.1 none
    rw [bindsOfInner, ih others, List.append_nil]
    split
    · rfl
    · exact first.resolve_left ‹_›

theorem exists_binds (binder : Binder) (call : Call) :
    ∃ calls, binder.Makes call calls ∧ (binder.callTree call).binds
      = call.boundAs?.toList ++ bindsOfInner (calls.map binder.callTree) := by
  obtain ⟨calls, inner, makes⟩ := makes_callTree binder call
  exact ⟨calls, makes, congrArg (call.boundAs?.toList ++ bindsOfInner ·) inner⟩

theorem binds_bindField (binder : Binder) (schema : Schema) (raw : Json) (mode : Mode)
    (field : Field) : (binder.callTree (.bindField schema raw mode field)).binds = [] := by
  obtain ⟨calls, makes, binds⟩ := exists_binds binder (.bindField schema raw mode field)
  rw [binds]
  cases makes with
  | none => rfl
  | part => rfl

theorem binds_bindEager (binder : Binder) (schema : Schema) (raw : Json) :
    (binder.callTree (.bindEager schema raw)).binds = [schema] := by
  obtain ⟨calls, makes, binds⟩ := exists_binds binder (.bindEager schema raw)
  rw [binds]
  cases makes with
  | none => rfl
  | fields =>
    rw [bindsOfInner_eq_nil, List.append_nil]
    · rfl
    · refine List.forall_mem_map.2 (List.forall_mem_map.2 fun field _ => ?_)
      exact .inr (binds_bindField binder schema raw .eager field)

theorem bindsOfInner_bindEager (binder : Binder) (raw : Json) (schemas : List Schema) :
    bindsOfInner ((schemas.map fun schema => Call.bindEager schema raw).map binder.callTree)
      = schemas := by
  induction schemas with
  | nil => rfl
  | cons schema rest ih =>
    rw [List.map_cons, List.map_cons, bindsOfInner, ih, binds_bindEager]
    rfl

/-- There is one schema at most, or they are candidates of one registered base, each of them once. -/
def TriedOnce (registry : Registry) (schemas : List Schema) : Prop :=
  schemas.length ≤ 1 ∨ ∃ base ∈ registry.schemas, ∃ subtypes, base.subtypes = some subtypes ∧
    (∀ schema ∈ schemas, ∃ candidate ∈ subtypes.candidates, candidate.type = schema.id) ∧
    (schemas.map Schema.id).Nodup

theorem ids_described_sublist (binder : Binder) (candidates : List Candidate) :
    List.Sublist
      ((candidates.filterMap fun candidate => binder.describe? candidate.type).map Schema.id)
      (candidates.map Candidate.type) := by
  induction candidates with
  | nil => exact .slnil
  | cons candidate rest ih =>
    rw [List.filterMap_cons]
    cases described : binder.describe? candidate.type with
    | none => exact ih.cons _
    | some schema =>
      rw [List.map_cons, List.map_cons, Registry.id_of_describe? described]
      exact ih.cons_cons _

theorem triedOnce_resolve {base : Schema} (built : draft.build = .ok binder.registry)
    (registered : base ∈ binder.registry.schemas) (raw : Json) (mode : Mode) :
    TriedOnce binder.registry (binder.callTree (.resolve base raw mode)).binds := by
  obtain ⟨calls, makes, binds⟩ := exists_binds binder (.resolve base raw mode)
  rw [binds]
  cases makes with
  | none => exact .inl (Nat.zero_le 1)
  | @chosen _ schema =>
    have one := bindsOfInner_bindEager binder raw [schema]
    exact .inl (one ▸ Nat.le_refl 1)
  | @tried _ subtypes _ _ candidates polymorphic first =>
    rw [bindsOfInner_bindEager]
    refine .inr ⟨base, registered, subtypes, polymorphic, ?_, ?_⟩
    · intro schema mem
      obtain ⟨candidate, listed, described⟩ := List.mem_filterMap.1 mem
      exact ⟨candidate, first.subset listed, (Registry.id_of_describe? described).symm⟩
    · have distinct := Registry.Draft.nodup_of_build built registered polymorphic
      exact distinct.sublist ((ids_described_sublist binder candidates).trans (first.sublist.map _))

def Call.Known (registry : Registry) : Call → Prop
  | .resolve base _ _ => base ∈ registry.schemas
  | .coerce .. | .bindEager .. | .bindField .. => True

theorem triedOnce_callTree (built : draft.build = .ok binder.registry)
    (known : call.Known binder.registry) :
    TriedOnce binder.registry (binder.callTree call).binds := by
  cases call with
  | bindField schema raw mode field =>
    exact .inl (binds_bindField binder schema raw mode field ▸ Nat.zero_le 1)
  | bindEager schema raw => exact .inl (binds_bindEager binder schema raw ▸ Nat.le_refl 1)
  | resolve base raw mode => exact triedOnce_resolve built known raw mode
  | coerce value kind mode =>
    obtain ⟨calls, makes, binds⟩ := exists_binds binder (.coerce value kind mode)
    rw [binds]
    cases makes with
    | none => exact .inl (Nat.zero_le 1)
    | @record _ _ schema =>
      have one := bindsOfInner_bindEager binder value [schema]
      exact .inl (one ▸ Nat.le_refl 1)
    | subtype described =>
      rw [List.map_singleton, bindsOfInner, bindsOfInner, List.append_nil]
      exact triedOnce_resolve built (mem_of_describe? described) value mode
    | items =>
      rw [bindsOfInner_eq_nil (List.forall_mem_map.2 (List.forall_mem_map.2 fun _ _ => .inl rfl))]
      exact .inl (Nat.zero_le 1)

structure Descends (registry : Registry) (tree : CallTree) : Prop where
  narrows : ∀ inner ∈ tree.inner, tree.call.Narrows inner.call
  /-- All that is bound for the sake of a field lies strictly inside the object of the field. -/
  inside : ∀ schema raw mode field, tree.call = .bindField schema raw mode field →
    ∀ inner ∈ tree.inner, ∀ sub : CallTree, sub.Occurs inner →
      sub.call.value.Inside raw ∧ sub.call.value.depth < raw.depth
  /-- Before a part of it is read, the value is bound at most once as each candidate of one base. -/
  once : tree.call.Known registry → TriedOnce registry tree.binds

theorem descends_callTree (built : draft.build = .ok binder.registry) (call : Call) :
    Descends binder.registry (binder.callTree call) where
  narrows := by
    obtain ⟨calls, inner, makes⟩ := makes_callTree binder call
    rw [inner]
    exact List.forall_mem_map.2 makes.narrows
  inside := by
    rintro schema raw mode field (rfl : call = _) inner mem sub occurs
    have inside := inside_of_bindField mem occurs
    exact ⟨inside, inside.depth_lt⟩
  once := triedOnce_callTree built

/-- A call of the binder ends, whatever cycles the schemas have. The calls inside it make a finite
tree, no higher than four times the nesting of the value, and any budget above that gives the same
outcome and the same tree. In the tree the values get smaller from field to field, and between two
fields a value is bound at most once as each candidate of one base. -/
theorem binding_terminates (built : draft.build = .ok binder.registry) (call : Call) :
    ∃ tree : CallTree, tree.call = call ∧ tree.height ≤ 4 * (call.value.depth + 1) ∧
      (∀ sub : CallTree, sub.Occurs tree → Descends binder.registry sub) ∧
      (∀ rest budget, 4 * (call.value.depth + 1) ≤ budget →
        binder.traceWithin rest budget call = ⟨binder.answer call, tree.inner⟩) ∧
      ∀ budget, call.value.depth < budget →
        binder.answerWithin budget call = binder.answer call := by
  have measured := call.measure_lt
  refine ⟨binder.callTree call, rfl, ?_, ?_, ?_, ?_⟩
  · exact Nat.le_trans (height_callTree_le binder call) measured
  · intro sub occurs
    obtain ⟨own, rfl, -⟩ := callTree_of_occurs
      (P := fun _ => True) (fun _ _ _ _ => trivial) trivial occurs
    exact descends_callTree built own
  · exact fun rest budget enough => traceWithin_of_lt (Nat.lt_of_lt_of_le measured enough)
  · exact fun budget enough => answerWithin_of_lt enough

def folder : Schema :=
  ⟨"Folder", [⟨"parent", "parent", true, false, .record "Folder", none⟩,
    ⟨"entries", "entries", true, false, .list (.subtype "Entry"), none⟩], false, some "Entry", none⟩

def filing : List Schema := [folder,
  ⟨"Entry", [], true, none, some ⟨.structural, [⟨"Folder", []⟩, ⟨"Link", []⟩]⟩⟩,
  ⟨"Link", [⟨"target", "target", false, false, .subtype "Entry", none⟩], false, some "Entry", none⟩]

def linkedFolder : Json :=
  .object [("entries", .array [.object [("target", .object [("parent", .object [])])]])]

/-- Binding a folder goes from list to link to folder and on, fourteen calls deep. -/
theorem binding_terminates_filing :
    ∃ registry tree, (Registry.Draft.empty.registerAll filing).1.build = .ok registry ∧
      tree.call = .bindEager folder linkedFolder ∧ tree.height = 14 ∧
      (∀ sub : CallTree, sub.Occurs tree → Descends registry sub) ∧
      ∀ rest, traceWithin ⟨registry, .reject⟩ rest 24 (.bindEager folder linkedFolder)
        = ⟨bindEager ⟨registry, .reject⟩ folder linkedFolder, tree.inner⟩ := by
  let binder : Binder := ⟨⟨(Registry.Draft.empty.registerAll filing).1.schemas⟩, .reject⟩
  have built : (Registry.Draft.empty.registerAll filing).1.build = .ok binder.registry := rfl
  obtain ⟨tree, own, -, descends, settled, -⟩ :=
    binding_terminates built (.bindEager folder linkedFolder)
  have enough : 4 * (linkedFolder.depth + 1) ≤ 24 := by decide
  have inner : (binder.traceWithin binder.recorded 24 (.bindEager folder linkedFolder)).calls
      = tree.inner := congrArg Traced.calls (settled binder.recorded 24 enough)
  refine ⟨binder.registry, tree, built, own, ?_, descends, fun rest => settled rest 24 enough⟩
  rw [CallTree.height_eq, ← inner]
  rfl

end Binder

end DebugLink
