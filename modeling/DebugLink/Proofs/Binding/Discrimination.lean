import DebugLink.Proofs.Binding.Inversion
import DebugLink.Proofs.Binding.References

/-!
# Candidates told apart by conditions

A value is narrowed by conditions to the one candidate whose conditions all hold, if the members
that this candidate requires are there. Several such candidates are ambiguous under either policy,
and a value that no candidate is chosen for is refused by each of them for a reason of its own.
-/

set_option autoImplicit false

namespace DebugLink

/-! ## Conditions -/

theorem Json.shape_eq_null {value : Json} : value.shape = .null ↔ value = .null := by
  cases value with
  | number number =>
    simp only [shape, reduceCtorEq, iff_false]
    split <;> simp
  | _ => simp [shape]

namespace Condition

def Holds (members : List (String × Json)) : Condition → Prop
  | .isBool field expected => members.lookup field = some (.bool expected)
  | .isString field expected => ∃ text, members.lookup field = some (.string text) ∧
      Text.equalIgnoringCase text expected = true
  | .present field => ∃ value, members.lookup field = some value
  | .absent field => members.lookup field = none
  | .nonNull field => ∃ value, members.lookup field = some value ∧ value ≠ .null

inductive Fails (members : List (String × Json)) : Condition → Failure → Prop where
  | missing {condition : Condition} (needed : condition ≠ .absent condition.field)
      (none : members.lookup condition.field = none) : Fails members condition .missing
  | unwanted {field : String} {value : Json} (found : members.lookup field = some value) :
      Fails members (.absent field) .expectedAbsent
  | null {field : String} (found : members.lookup field = some .null) :
      Fails members (.nonNull field) .expectedNonNull
  | otherBool {field : String} {expected : Bool} {value : Json}
      (found : members.lookup field = some value) (other : value ≠ .bool expected) :
      Fails members (.isBool field expected) (.expectedBool expected)
  | otherString {field expected : String} {value : Json}
      (found : members.lookup field = some value)
      (other : ∀ text, value = .string text → Text.equalIgnoringCase text expected = false) :
      Fails members (.isString field expected) (.expectedString expected)

variable {members : List (String × Json)} {condition : Condition} {failure : Failure}

theorem failure?_eq_none : condition.failure? members = none ↔ condition.Holds members := by
  cases condition with
  | isBool field expected =>
    simp only [failure?, Condition.field, Holds]
    cases members.lookup field with
    | none => simp
    | some value => cases value <;> simp [Json.asBool?]
  | isString field expected =>
    simp only [failure?, Condition.field, Holds]
    cases members.lookup field with
    | none => simp
    | some value =>
      cases value with
      | string text =>
        by_cases equal : Text.equalIgnoringCase text expected = true <;> simp [Json.asString?, equal]
      | _ => simp [Json.asString?]
  | present field | absent field =>
    simp only [failure?, Condition.field, Holds]
    cases members.lookup field <;> simp
  | nonNull field =>
    simp only [failure?, Condition.field, Holds]
    cases members.lookup field <;> simp [Json.shape_eq_null]

theorem fails_of_failure? (fails : condition.failure? members = some failure) :
    condition.Fails members failure := by
  cases found : members.lookup condition.field with
  | none =>
    cases condition <;> simp only [failure?, found] at fails <;> cases fails <;>
      exact .missing (by simp) found
  | some value =>
    cases condition with
    | isBool field expected =>
      simp only [failure?, found] at fails
      split at fails
      · cases fails
      · rename_i other
        cases fails
        exact .otherBool found fun same => other (by rw [same]; rfl)
    | isString field expected =>
      simp only [failure?, found] at fails
      split at fails
      · cases fails
      · rename_i other
        cases fails
        refine .otherString found fun text same => ?_
        rw [same] at other
        simpa [Json.asString?] using other
    | present field =>
      simp only [failure?, found] at fails
      cases fails
    | absent field =>
      simp only [failure?, found] at fails
      cases fails
      exact .unwanted found
    | nonNull field =>
      simp only [failure?, found] at fails
      split at fails
      · rename_i null
        cases fails
        rw [Json.shape_eq_null.1 null] at found
        exact .null found
      · cases fails

end Condition

/-! ## Candidates -/

namespace Candidate

variable {members : List (String × Json)} {candidate : Candidate}

def Matches (members : List (String × Json)) (candidate : Candidate) : Prop :=
  ∀ condition ∈ candidate.conditions, condition.Holds members

/-- A candidate is refused for the first of its conditions that fails. -/
inductive Refused (members : List (String × Json)) (candidate : Candidate) : Mismatch → Prop where
  | intro {before after : List Condition} {condition : Condition} {failure : Condition.Failure}
      (conditions : candidate.conditions = before ++ condition :: after)
      (passed : ∀ other ∈ before, other.Holds members) (fails : condition.Fails members failure) :
      Refused members candidate (.refused candidate.type condition.field failure)

theorem firstFailure?_eq_none :
    Binder.firstFailure? members candidate = none ↔ candidate.Matches members := by
  simp only [Binder.firstFailure?, List.findSome?_eq_none_iff, Option.map_eq_none_iff,
    Condition.failure?_eq_none, Matches]

instance : DecidablePred (Matches members) :=
  fun _ => decidable_of_iff _ firstFailure?_eq_none

theorem refused_of_firstFailure? {failed : String × Condition.Failure}
    (fails : Binder.firstFailure? members candidate = some failed) :
    candidate.Refused members (.refused candidate.type failed.1 failed.2) := by
  obtain ⟨before, condition, after, conditions, failing, passed⟩ :=
    List.findSome?_eq_some_iff.1 fails
  obtain ⟨failure, reason, rfl⟩ := Option.map_eq_some_iff.1 failing
  refine .intro conditions (fun other mem => ?_) (Condition.fails_of_failure? reason)
  exact Condition.failure?_eq_none.1 (Option.map_eq_none_iff.1 (passed other mem))

def matching (members : List (String × Json)) (candidates : List Candidate) : List Candidate :=
  candidates.filter (·.Matches members)

/-- Why candidates are refused, each that does not match for one reason. -/
def refusals (members : List (String × Json)) (candidates : List Candidate) : List Mismatch :=
  candidates.filterMap fun candidate =>
    (Binder.firstFailure? members candidate).map fun failed =>
      .refused candidate.type failed.1 failed.2

theorem refused_refusals (members : List (String × Json)) (candidates : List Candidate) :
    List.Forall₂ (Refused members) (candidates.filter fun candidate => ¬ candidate.Matches members)
      (refusals members candidates) := by
  induction candidates with
  | nil => exact .nil
  | cons candidate rest ih =>
    unfold refusals
    cases fails : Binder.firstFailure? members candidate with
    | none =>
      have holds := firstFailure?_eq_none.1 fails
      rw [List.filter_cons_of_neg (by simpa using holds),
        List.filterMap_cons_none (by rw [fails]; rfl)]
      exact ih
    | some failed =>
      have refused := refused_of_firstFailure? fails
      have misses : ¬ candidate.Matches members := by
        rw [← firstFailure?_eq_none, fails]
        simp
      rw [List.filter_cons_of_pos (by simpa using misses),
        List.filterMap_cons_some (by rw [fails]; rfl)]
      exact .cons refused ih

end Candidate

/-! ## Required members -/

def Field.Lacking (members : List (String × Json)) (field : Field) : Prop :=
  field.optional = false ∧ members.lookup field.wire = none

namespace Schema

variable {members : List (String × Json)} {schema : Schema} {field : Field}

def Complete (members : List (String × Json)) (schema : Schema) : Prop :=
  ∀ field ∈ schema.fields, ¬ field.Lacking members

def FirstLacking (members : List (String × Json)) (schema : Schema) (field : Field) : Prop :=
  ∃ before after, schema.fields = before ++ field :: after ∧ field.Lacking members ∧
    ∀ other ∈ before, ¬ other.Lacking members

theorem lacking_iff : (!field.optional && (members.lookup field.wire).isNone) = true ↔
    field.Lacking members := by
  simp [Field.Lacking]

theorem firstMissing?_eq_none : schema.firstMissing? members = none ↔ schema.Complete members := by
  simp only [firstMissing?, List.find?_eq_none, lacking_iff, Complete]

theorem firstMissing?_eq_some :
    schema.firstMissing? members = some field ↔ schema.FirstLacking members field := by
  have passed : ∀ other : Field,
      (!(!other.optional && (members.lookup other.wire).isNone)) = true ↔
        ¬ other.Lacking members := by
    intro other
    rw [Bool.not_eq_true', ← Bool.not_eq_true, lacking_iff]
  rw [firstMissing?, List.find?_eq_some_iff_append, lacking_iff]
  simp only [passed, FirstLacking]
  constructor
  · rintro ⟨lacks, before, after, fields, given⟩
    exact ⟨before, after, fields, lacks, given⟩
  · rintro ⟨before, after, fields, lacks, given⟩
    exact ⟨lacks, before, after, fields, given⟩

end Schema

/-! ## Choosing a candidate -/

namespace Binder

variable {binder : Binder} {base : Schema} {candidates : List Candidate} {raw : Json}
  {members : List (String × Json)}

/-- A candidate and the record it stands for, with the outcome of its conditions. -/
def Tested (binder : Binder) (members : List (String × Json)) (candidate : Candidate)
    (test : Schema × Option (String × Condition.Failure)) : Prop :=
  binder.describe? candidate.type = some test.1 ∧ test.2 = firstFailure? members candidate

def Knows (binder : Binder) (candidates : List Candidate) : Prop :=
  ∀ candidate ∈ candidates, ∃ schema, binder.describe? candidate.type = some schema

theorem refusals_of_tested {tests : List (Schema × Option (String × Condition.Failure))}
    (tested : List.Forall₂ (binder.Tested members) candidates tests) :
    (tests.filterMap fun test => test.2.map fun failed =>
      Mismatch.refused test.1.id failed.1 failed.2) = Candidate.refusals members candidates := by
  induction tested with
  | nil => rfl
  | @cons candidate test candidates tests head tail ih =>
    obtain ⟨described, outcome⟩ := head
    have named := Registry.id_of_describe? described
    unfold Candidate.refusals at ih ⊢
    simp only [List.filterMap_cons, ih, outcome, named]

theorem matching_of_tested {tests : List (Schema × Option (String × Condition.Failure))}
    (tested : List.Forall₂ (binder.Tested members) candidates tests) :
    List.Forall₂ (fun candidate schema => binder.describe? candidate.type = some schema)
      (Candidate.matching members candidates)
      (tests.filterMap fun test => if test.2.isNone then some test.1 else none) := by
  induction tested with
  | nil => exact .nil
  | @cons candidate test candidates tests head tail ih =>
    obtain ⟨described, outcome⟩ := head
    unfold Candidate.matching at ih ⊢
    by_cases holds : candidate.Matches members
    · have passed : test.2 = none := outcome.trans (Candidate.firstFailure?_eq_none.2 holds)
      rw [List.filter_cons_of_pos (by simpa using holds),
        List.filterMap_cons_some (show _ = some test.1 by simp [passed])]
      exact .cons described ih
    · have failed : test.2.isNone = false := by
        rw [← Bool.not_eq_true, Option.isNone_iff_eq_none, outcome,
          Candidate.firstFailure?_eq_none]
        exact holds
      rw [List.filter_cons_of_neg (by simpa using holds),
        List.filterMap_cons_none (by simp [failed])]
      exact ih

theorem exists_tested (knows : binder.Knows candidates) (base : Schema)
    (members : List (String × Json)) :
    ∃ tests, (candidates.mapM fun candidate => do
        let schema ← binder.candidateSchema base candidate
        pure (schema, firstFailure? members candidate)).result = .ok tests ∧
      List.Forall₂ (binder.Tested members) candidates tests := by
  have each : ∀ candidate ∈ candidates, ∃ test, (do
      let schema ← binder.candidateSchema base candidate
      pure (schema, firstFailure? members candidate)).result = .ok test := by
    intro candidate listed
    obtain ⟨schema, described⟩ := knows candidate listed
    exact ⟨_, Outcome.result_bind_of_ok (Outcome.result_ofOption_eq_ok.2 described) _⟩
  obtain ⟨tests, trials⟩ := Outcome.exists_result_mapM each
  refine ⟨tests, trials, (Outcome.result_mapM_eq_ok.1 trials).imp fun candidate test trial => ?_⟩
  obtain ⟨schema, described, last⟩ := Outcome.result_bind_eq_ok.1 trial
  cases last
  exact ⟨Outcome.result_ofOption_eq_ok.1 described, rfl⟩

/-- The outcome of choosing hangs on the candidates that match and on why the others do not. -/
theorem result_discriminate (knows : binder.Knows candidates) (base : Schema) (rule : Rule)
    (members : List (String × Json)) :
    ∃ matched, List.Forall₂ (fun candidate schema => binder.describe? candidate.type = some schema)
        (Candidate.matching members candidates) matched ∧
      (binder.discriminate base ⟨rule, candidates⟩ members).result
        = (match matched with
          | [] => throw (.noMatch base.id (Candidate.refusals members candidates))
          | [schema] =>
            match schema.firstMissing? members with
            | some field =>
              throw (.noMatch base.id (Candidate.refusals members candidates
                ++ [.refused schema.id field.name .missing]))
            | none => pure schema
          | several => throw (.ambiguous base.id (several.map Schema.id)) :
          Outcome ResolutionError Schema).result := by
  obtain ⟨tests, trials, tested⟩ := exists_tested knows base members
  refine ⟨_, matching_of_tested tested, ?_⟩
  rw [← refusals_of_tested tested]
  exact Outcome.result_bind_of_ok trials _

theorem ids_of_described {schemas : List Schema}
    (described : List.Forall₂ (fun candidate schema =>
      binder.describe? candidate.type = some schema) candidates schemas) :
    schemas.map Schema.id = candidates.map Candidate.type := by
  induction described with
  | nil => rfl
  | cons head tail ih => rw [List.map_cons, List.map_cons, ih, Registry.id_of_describe? head]

theorem discriminate_of_none (knows : binder.Knows candidates) (base : Schema) (rule : Rule)
    (none : Candidate.matching members candidates = []) :
    (binder.discriminate base ⟨rule, candidates⟩ members).result
      = .error (.noMatch base.id (Candidate.refusals members candidates)) := by
  obtain ⟨matched, described, result⟩ := result_discriminate knows base rule members
  rw [none, List.forall₂_nil_left_iff] at described
  subst described
  exact result

theorem discriminate_of_single {candidate : Candidate} {chosen : Schema}
    (knows : binder.Knows candidates) (base : Schema) (rule : Rule)
    (single : Candidate.matching members candidates = [candidate])
    (described : binder.describe? candidate.type = some chosen) :
    (binder.discriminate base ⟨rule, candidates⟩ members).result
      = match chosen.firstMissing? members with
        | some field => .error (.noMatch base.id (Candidate.refusals members candidates
            ++ [.refused candidate.type field.name .missing]))
        | none => .ok chosen := by
  obtain ⟨matched, known, result⟩ := result_discriminate knows base rule members
  rw [single] at known
  cases known with
  | cons head tail =>
    cases tail
    cases described.symm.trans head
    rw [result, ← Registry.id_of_describe? described]
    dsimp only
    cases chosen.firstMissing? members <;> rfl

theorem discriminate_of_several {first second : Candidate} {rest : List Candidate}
    (knows : binder.Knows candidates) (base : Schema) (rule : Rule)
    (several : Candidate.matching members candidates = first :: second :: rest) :
    (binder.discriminate base ⟨rule, candidates⟩ members).result
      = .error (.ambiguous base.id ((first :: second :: rest).map Candidate.type)) := by
  obtain ⟨matched, known, result⟩ := result_discriminate knows base rule members
  rw [several] at known
  have named := ids_of_described known
  cases known with
  | cons head tail =>
    cases tail with
    | cons next tail =>
      rw [result, ← named]
      rfl

theorem result_resolve_discriminated (binder : Binder)
    (rule : base.subtypes = some ⟨.discriminated, candidates⟩)
    (object : raw.asMembers? = some members) (mode : Mode) :
    (binder.resolve base raw mode).result
      = (binder.discriminate base ⟨.discriminated, candidates⟩ members).result.bind fun chosen =>
        ((binder.bind chosen raw mode).result.mapError .binding).map fun view =>
          ⟨base.id, chosen.id, view⟩ := by
  unfold resolve resolveWith
  rw [rule, object]
  dsimp only
  rw [Outcome.result_bind]
  congr
  funext chosen
  change Outcome.result (Outcome.mapError _ (binder.bind chosen raw mode) >>= _) = _
  rw [Outcome.result_bind, Outcome.result_mapError]
  cases (binder.bind chosen raw mode).result <;> rfl

/-! ## The outcomes of narrowing by conditions -/

/-- What narrowing the object `raw` of the given members gives, by cases on the candidates that
match. -/
structure Discriminates (binder : Binder) (base : Schema) (candidates : List Candidate) (raw : Json)
    (members : List (String × Json)) (mode : Mode) (refusals : List Mismatch) : Prop where
  chosen : ∀ variant, (binder.resolve base raw mode).result = .ok variant ↔
    ∃ candidate chosen, Candidate.matching members candidates = [candidate] ∧
      binder.describe? candidate.type = some chosen ∧ chosen.Complete members ∧
      (binder.bind chosen raw mode).result = .ok variant.view ∧
      variant.base = base.id ∧ variant.type = candidate.type
  ambiguous : ∀ named listed,
    (binder.resolve base raw mode).result = .error (.ambiguous named listed) ↔
      2 ≤ (Candidate.matching members candidates).length ∧ named = base.id ∧
        listed = (Candidate.matching members candidates).map Candidate.type
  unmatched : ∀ named mismatches,
    (binder.resolve base raw mode).result = .error (.noMatch named mismatches) ↔
      named = base.id ∧
      ((Candidate.matching members candidates = [] ∧ mismatches = refusals) ∨
        ∃ candidate chosen field, Candidate.matching members candidates = [candidate] ∧
          binder.describe? candidate.type = some chosen ∧ chosen.FirstLacking members field ∧
          mismatches = refusals ++ [.refused candidate.type field.name .missing])
  unbound : ∀ fault, (binder.resolve base raw mode).result = .error (.binding fault) ↔
    ∃ candidate chosen, Candidate.matching members candidates = [candidate] ∧
      binder.describe? candidate.type = some chosen ∧ chosen.Complete members ∧
      (binder.bind chosen raw mode).result = .error fault
  errors : ∀ error, (binder.resolve base raw mode).result = .error error →
    (∃ listed, error = .ambiguous base.id listed) ∨
      (∃ mismatches, error = .noMatch base.id mismatches) ∨ ∃ fault, error = .binding fault

theorem discriminates_of_none (knows : binder.Knows candidates)
    (rule : base.subtypes = some ⟨.discriminated, candidates⟩)
    (object : raw.asMembers? = some members) (mode : Mode)
    (none : Candidate.matching members candidates = []) :
    binder.Discriminates base candidates raw members mode
      (Candidate.refusals members candidates) := by
  have gives : (binder.resolve base raw mode).result
      = .error (.noMatch base.id (Candidate.refusals members candidates)) := by
    rw [result_resolve_discriminated binder rule object mode,
      discriminate_of_none knows base .discriminated none]
    rfl
  constructor <;> simp [gives, none, eq_comm]

theorem discriminates_of_several {first second : Candidate} {rest : List Candidate}
    (knows : binder.Knows candidates) (rule : base.subtypes = some ⟨.discriminated, candidates⟩)
    (object : raw.asMembers? = some members) (mode : Mode)
    (several : Candidate.matching members candidates = first :: second :: rest)
    (refusals : List Mismatch) :
    binder.Discriminates base candidates raw members mode refusals := by
  have gives : (binder.resolve base raw mode).result
      = .error (.ambiguous base.id ((first :: second :: rest).map Candidate.type)) := by
    rw [result_resolve_discriminated binder rule object mode,
      discriminate_of_several knows base .discriminated several]
    rfl
  constructor <;> simp [gives, several, eq_comm]

theorem discriminates_of_single {candidate : Candidate} {chosen : Schema}
    (knows : binder.Knows candidates) (rule : base.subtypes = some ⟨.discriminated, candidates⟩)
    (object : raw.asMembers? = some members) (mode : Mode)
    (single : Candidate.matching members candidates = [candidate])
    (described : binder.describe? candidate.type = some chosen) :
    binder.Discriminates base candidates raw members mode
      (Candidate.refusals members candidates) := by
  have whole := result_resolve_discriminated binder rule object mode
  rw [discriminate_of_single knows base .discriminated single described] at whole
  cases lacking : chosen.firstMissing? members with
  | some field =>
    have gives : (binder.resolve base raw mode).result
        = .error (.noMatch base.id (Candidate.refusals members candidates
          ++ [.refused candidate.type field.name .missing])) := by
      rw [whole, lacking]
      rfl
    have incomplete : ¬ chosen.Complete members := by
      rw [← Schema.firstMissing?_eq_none, lacking]
      simp
    have first : ∀ other, chosen.FirstLacking members other ↔ field = other := by
      intro other
      rw [← Schema.firstMissing?_eq_some, lacking, Option.some.injEq]
    constructor <;> simp [gives, single, described, incomplete, first, eq_comm]
  | none =>
    have complete := Schema.firstMissing?_eq_none.1 lacking
    have given : ∀ other, ¬ chosen.FirstLacking members other := by
      intro other
      rw [← Schema.firstMissing?_eq_some, lacking]
      simp
    cases bound : (binder.bind chosen raw mode).result with
    | error fault =>
      have gives : (binder.resolve base raw mode).result = .error (.binding fault) := by
        simp only [whole, lacking, Except.bind, bound]
        rfl
      constructor <;> simp [gives, single, described, complete, given, bound, eq_comm]
    | ok view =>
      have gives : (binder.resolve base raw mode).result
          = .ok ⟨base.id, candidate.type, view⟩ := by
        simp only [whole, lacking, Except.bind, bound, Registry.id_of_describe? described]
        rfl
      constructor
      case chosen =>
        rintro ⟨own, type, shown⟩
        have same : Variant.mk base.id candidate.type view = ⟨own, type, shown⟩ ↔
            view = shown ∧ own = base.id ∧ type = candidate.type := by
          rw [Variant.mk.injEq, eq_comm, @eq_comm _ candidate.type]
          tauto
        simp [gives, same, single, described, complete, bound, -Variant.mk.injEq]
      all_goals simp [gives, single, described, given, bound]

theorem discriminates_of_knows (knows : binder.Knows candidates)
    (rule : base.subtypes = some ⟨.discriminated, candidates⟩)
    (object : raw.asMembers? = some members) (mode : Mode) :
    binder.Discriminates base candidates raw members mode
      (Candidate.refusals members candidates) := by
  match matched : Candidate.matching members candidates with
  | [] => exact discriminates_of_none knows rule object mode matched
  | [candidate] =>
    have mem : candidate ∈ Candidate.matching members candidates := by simp [matched]
    obtain ⟨chosen, described⟩ := knows candidate (List.mem_of_mem_filter mem)
    exact discriminates_of_single knows rule object mode matched described
  | first :: second :: rest => exact discriminates_of_several knows rule object mode matched _

theorem candidates_of_refused {candidates : List Candidate} {refusals : List Mismatch}
    (refused : List.Forall₂ (Candidate.Refused members) candidates refusals) :
    refusals.map Mismatch.candidate = candidates.map Candidate.type := by
  induction refused with
  | nil => rfl
  | cons head tail ih =>
    obtain ⟨⟩ := head
    rw [List.map_cons, List.map_cons, ih]
    rfl

theorem Discriminates.perm_of_noMatch {mode : Mode} {refusals mismatches : List Mismatch}
    {named : String} (discriminates : binder.Discriminates base candidates raw members mode refusals)
    (refused : List.Forall₂ (Candidate.Refused members)
      (candidates.filter fun candidate => ¬ candidate.Matches members) refusals)
    (unmatched : (binder.resolve base raw mode).result = .error (.noMatch named mismatches)) :
    (mismatches.map Mismatch.candidate).Perm (candidates.map Candidate.type) := by
  have parted : (Candidate.matching members candidates
      ++ candidates.filter fun candidate => ¬ candidate.Matches members).Perm candidates := by
    simpa [Candidate.matching] using
      List.filter_append_perm (fun candidate : Candidate => candidate.Matches members) candidates
  have named := candidates_of_refused refused
  obtain ⟨-, ⟨none, rfl⟩ | ⟨candidate, chosen, field, single, -, -, rfl⟩⟩ :=
    (discriminates.unmatched _ _).1 unmatched
  · rw [none, List.nil_append] at parted
    rw [named]
    exact parted.map _
  · rw [single] at parted
    rw [List.map_append, named]
    have mapped := parted.map Candidate.type
    rw [List.map_append] at mapped
    exact List.perm_append_comm.trans mapped

/-- Narrowing by conditions chooses the one candidate that matches and is complete. Otherwise it
says which candidates match, or for each candidate why it does not. -/
theorem conditions_decide_candidate {draft : Registry.Draft} {registry : Registry}
    (built : draft.build = .ok registry) (ambiguity : AmbiguityPolicy) {base : Schema}
    (registered : base ∈ registry.schemas)
    (rule : base.subtypes = some ⟨.discriminated, candidates⟩)
    (object : raw.asMembers? = some members) (mode : Mode) :
    ∃ refusals, List.Forall₂ (Candidate.Refused members)
        (candidates.filter fun candidate => ¬ candidate.Matches members) refusals ∧
      Discriminates ⟨registry, ambiguity⟩ base candidates raw members mode refusals ∧
      ∀ named mismatches,
        (resolve ⟨registry, ambiguity⟩ base raw mode).result
            = .error (.noMatch named mismatches) →
          (mismatches.map Mismatch.candidate).Perm (candidates.map Candidate.type) ∧
          (mismatches.map Mismatch.candidate).Nodup := by
  have knows : Knows ⟨registry, ambiguity⟩ candidates :=
    (Registry.Draft.sound_of_build built).candidates base registered _ rule
  have distinct : (candidates.map Candidate.type).Nodup :=
    Registry.Draft.nodup_of_build built registered rule
  have discriminates := discriminates_of_knows knows rule object mode
  have refused := Candidate.refused_refusals members candidates
  refine ⟨_, refused, discriminates, fun named mismatches unmatched => ?_⟩
  have perm := discriminates.perm_of_noMatch refused unmatched
  exact ⟨perm, perm.nodup_iff.2 distinct⟩

def property : Schema :=
  ⟨"Property", [], true, none, some ⟨.discriminated, [⟨"Object", [.present "className"]⟩,
    ⟨"Scalar", [.absent "className", .nonNull "value"]⟩,
    ⟨"Flag", [.isBool "flag" true, .isString "kind" "FLAG"]⟩]⟩⟩

def properties : Registry.Draft := ⟨[property,
  ⟨"Object", [⟨"handle", "handle", false, false, .long, none⟩], true, some "Property", none⟩,
  ⟨"Scalar", [], true, some "Property", none⟩, ⟨"Flag", [], true, some "Property", none⟩]⟩

def scalarFlag : Json :=
  .object [("flag", .bool true), ("kind", .string "flag"), ("value", .ofUInt64 3)]

def lostObject : Json :=
  .object [("className", .string "Point")]

theorem conditions_decide_candidate_properties :
    (resolve ⟨⟨properties.schemas⟩, .firstMatch⟩ property scalarFlag .lazy).result
      = .error (.ambiguous "Property" ["Scalar", "Flag"]) ∧
    ∃ mismatches,
      (resolve ⟨⟨properties.schemas⟩, .firstMatch⟩ property lostObject .lazy).result
        = .error (.noMatch "Property" mismatches) ∧
      (mismatches.map Mismatch.candidate).Perm ["Object", "Scalar", "Flag"] := by
  have built : properties.build = .ok ⟨properties.schemas⟩ := rfl
  have registered : property ∈ properties.schemas := by simp [properties]
  obtain ⟨_, -, flagged, -⟩ := conditions_decide_candidate built .firstMatch registered rfl
    (show scalarFlag.asMembers? = some _ from rfl) .lazy
  obtain ⟨refusals, -, lost, accounted⟩ := conditions_decide_candidate built .firstMatch registered
    rfl (show lostObject.asMembers? = some _ from rfl) .lazy
  have unmatched := (lost.unmatched "Property" _).2 ⟨rfl, .inr ⟨⟨"Object", [.present "className"]⟩,
    _, _, rfl, rfl, ⟨[], [], rfl, ⟨rfl, rfl⟩, by simp⟩, rfl⟩⟩
  exact ⟨(flagged.ambiguous _ _).2 ⟨by decide, rfl, rfl⟩, _, unmatched, (accounted _ _ unmatched).1⟩

end Binder

end DebugLink
