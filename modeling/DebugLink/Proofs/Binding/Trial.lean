import Mathlib.Data.List.Nodup
import DebugLink.Proofs.Binding.Discrimination

/-!
# Candidates told apart by trial

A value is narrowed by trial to a candidate that it binds to eagerly. Whether it is bound eagerly or
lazily afterwards changes neither the candidate nor the error, and the policy matters only for a
value that binds to several candidates.
-/

set_option autoImplicit false

namespace DebugLink

/-! ## Warnings of an outcome -/

namespace Outcome

variable {ε δ α β : Type}

def warnings (x : Outcome ε α) : List Ambiguity :=
  x.run.log

@[simp] theorem warnings_pure (a : α) : (pure a : Outcome ε α).warnings = [] := rfl

@[simp] theorem warnings_throw (e : ε) : (throw e : Outcome ε α).warnings = [] := rfl

@[simp] theorem warnings_warn (warning : Ambiguity) :
    (warn warning : Outcome ε Unit).warnings = [warning] := rfl

@[simp] theorem warnings_mapError (f : ε → δ) (x : Outcome ε α) :
    (x.mapError f).warnings = x.warnings :=
  List.append_nil _

@[simp] theorem warnings_attempt (x : Outcome ε α) :
    (x.attempt : Outcome δ (Except ε α)).warnings = x.warnings :=
  List.append_nil _

theorem warnings_bind_of_ok {x : Outcome ε α} {a : α} (gives : x.result = .ok a)
    (f : α → Outcome ε β) : (x >>= f).warnings = x.warnings ++ (f a).warnings := by
  obtain ⟨log, value⟩ := x
  cases gives
  rfl

theorem warnings_bind_of_error {x : Outcome ε α} {e : ε} (fails : x.result = .error e)
    (f : α → Outcome ε β) : (x >>= f).warnings = x.warnings := by
  obtain ⟨log, value⟩ := x
  cases fails
  exact List.append_nil _

theorem warnings_mapM {f : α → Outcome ε β} {as : List α} {bs : List β}
    (mapped : (as.mapM f).result = .ok bs) :
    (as.mapM f).warnings = as.flatMap fun a => (f a).warnings := by
  induction as generalizing bs with
  | nil => rfl
  | cons a as ih =>
    rw [List.mapM_cons] at mapped ⊢
    obtain ⟨b, head, rest⟩ := result_bind_eq_ok.1 mapped
    obtain ⟨tail, later, -⟩ := result_bind_eq_ok.1 rest
    rw [warnings_bind_of_ok head, warnings_bind_of_ok later, warnings_pure, List.append_nil,
      ih later, List.flatMap_cons]

end Outcome

/-! ## Trials -/

namespace Binder

variable {binder : Binder} {base schema : Schema} {candidates : List Candidate}
  {candidate : Candidate} {raw : Json} {members : List (String × Json)} {mode : Mode}

theorem bindType_of_described {type : String} (described : binder.describe? type = some schema)
    (raw : Json) (mode : Mode) : binder.bindType type raw mode = binder.bind schema raw mode := by
  unfold bindType
  rw [described]
  rfl

def tried (binder : Binder) (raw : Json) (candidate : Candidate) : Except BindingError View :=
  (binder.bindType candidate.type raw .eager).result

def Admits (binder : Binder) (raw : Json) (candidate : Candidate) : Prop :=
  ∃ view, binder.tried raw candidate = .ok view

/-- A value does not bind as a candidate, which is told with the field and the problem of the
binding. -/
def Unfit (binder : Binder) (raw : Json) (candidate : Candidate) (mismatch : Mismatch) : Prop :=
  ∃ error, binder.tried raw candidate = .error error ∧
    mismatch = .unbound candidate.type error.field error.problem

theorem isSome_tried : (binder.tried raw candidate).toOption.isSome = true ↔
    binder.Admits raw candidate := by
  unfold Admits
  cases binder.tried raw candidate <;> simp [Except.toOption]

instance : DecidablePred (binder.Admits raw) :=
  fun _ => decidable_of_iff _ isSome_tried

def fitting (binder : Binder) (raw : Json) (candidates : List Candidate) : List Candidate :=
  candidates.filter (binder.Admits raw)

theorem type_of_tried {view : View} (fits : binder.tried raw candidate = .ok view) :
    view.type = candidate.type := by
  obtain ⟨schema, described, bound⟩ := Outcome.result_bind_eq_ok.1 fits
  have own : view.schema = schema := schema_of_bindEagerWith bound
  rw [View.type, own, Registry.id_of_describe? (Outcome.result_ofOption_eq_ok.1 described)]

def attempt (binder : Binder) (base : Schema) (raw : Json) (candidate : Candidate) :
    Outcome ResolutionError (Schema × Except BindingError View) := do
  let schema ← binder.candidateSchema base candidate
  let trial ← (binder.bindEager schema raw).attempt
  pure (schema, trial)

/-- A candidate with the outcome of its trial. -/
def Trial (binder : Binder) (raw : Json) (candidate : Candidate)
    (trial : Schema × Except BindingError View) : Prop :=
  trial.1.id = candidate.type ∧ trial.2 = binder.tried raw candidate

theorem attempt_of_described (described : binder.describe? candidate.type = some schema)
    (base : Schema) (raw : Json) :
    (binder.attempt base raw candidate).result = .ok (schema, binder.tried raw candidate) ∧
      (binder.attempt base raw candidate).warnings
        = (binder.bindType candidate.type raw .eager).warnings := by
  have known : binder.candidateSchema base candidate = pure schema := by
    unfold candidateSchema
    rw [described]
    rfl
  have attempted := Outcome.result_attempt (δ := ResolutionError) (binder.bindEager schema raw)
  unfold attempt tried
  rw [known, pure_bind, bindType_of_described described]
  constructor
  · rw [Outcome.result_bind_of_ok attempted]
    rfl
  · rw [Outcome.warnings_bind_of_ok attempted, Outcome.warnings_attempt, Outcome.warnings_pure,
      List.append_nil]
    rfl

theorem exists_trials (knows : binder.Knows candidates) (base : Schema) (raw : Json) :
    ∃ trials, (candidates.mapM (binder.attempt base raw)).result = .ok trials ∧
      List.Forall₂ (binder.Trial raw) candidates trials ∧
      (candidates.mapM (binder.attempt base raw)).warnings
        = candidates.flatMap fun candidate =>
          (binder.bindType candidate.type raw .eager).warnings := by
  obtain ⟨trials, mapped⟩ := Outcome.exists_result_mapM fun candidate listed =>
    have ⟨_, described⟩ := knows candidate listed
    ⟨_, (attempt_of_described described base raw).1⟩
  refine ⟨trials, mapped, ?_, ?_⟩
  · refine (Outcome.result_mapM_eq_ok.1 mapped).imp fun candidate trial attempted => ?_
    obtain ⟨schema, described, -⟩ := Outcome.result_bind_eq_ok.1 attempted
    have known := Outcome.result_ofOption_eq_ok.1 described
    cases (attempt_of_described known base raw).1.symm.trans attempted
    exact ⟨Registry.id_of_describe? known, rfl⟩
  · rw [Outcome.warnings_mapM mapped]
    refine List.flatMap_congr fun candidate listed => ?_
    obtain ⟨schema, described⟩ := knows candidate listed
    exact (attempt_of_described described base raw).2

def misfits (binder : Binder) (raw : Json) (candidates : List Candidate) : List Mismatch :=
  candidates.filterMap fun candidate =>
    match binder.tried raw candidate with
    | .ok _ => none
    | .error error => some (.unbound candidate.type error.field error.problem)

theorem misfits_of_trials {trials : List (Schema × Except BindingError View)}
    (tried : List.Forall₂ (binder.Trial raw) candidates trials) :
    (trials.filterMap fun (schema, trial) =>
      match trial with
      | .ok _ => none
      | .error error => some (Mismatch.unbound schema.id error.field error.problem))
        = binder.misfits raw candidates := by
  induction tried with
  | nil => rfl
  | @cons candidate trial candidates trials head tail ih =>
    obtain ⟨schema, outcome⟩ := trial
    obtain ⟨named, rfl⟩ := head
    unfold misfits at ih ⊢
    simp only at named
    simp only [List.filterMap_cons, ih, named]

theorem fitting_of_trials {trials : List (Schema × Except BindingError View)}
    (tried : List.Forall₂ (binder.Trial raw) candidates trials) :
    List.Forall₂ (fun candidate view => binder.tried raw candidate = .ok view)
      (binder.fitting raw candidates) (trials.filterMap fun trial => trial.2.toOption) := by
  induction tried with
  | nil => exact .nil
  | @cons candidate trial candidates trials head tail ih =>
    obtain ⟨schema, outcome⟩ := trial
    obtain ⟨-, rfl⟩ := head
    unfold fitting at ih ⊢
    cases outcome : binder.tried raw candidate with
    | ok view =>
      have fits : binder.Admits raw candidate := ⟨view, outcome⟩
      rw [List.filter_cons_of_pos (by simpa using fits)]
      exact .cons outcome ih
    | error error =>
      have misses : ¬ binder.Admits raw candidate := by
        rintro ⟨view, fits⟩
        cases outcome.symm.trans fits
      rw [List.filter_cons_of_neg (by simpa using misses)]
      exact ih

/-- What follows the trials: one view is taken, several are left to the policy. -/
def pick (binder : Binder) (base : Schema) (mismatches : List Mismatch) (bound : List View) :
    Outcome ResolutionError View :=
  match bound with
  | [] => throw (.noMatch base.id mismatches)
  | [view] => pure view
  | view :: _ =>
    match binder.ambiguity with
    | .reject => throw (.ambiguous base.id (bound.map View.type))
    | .firstMatch => do
      Outcome.warn ⟨base.id, view.type, bound.length⟩
      pure view

theorem exists_bound (knows : binder.Knows candidates) (base : Schema) (rule : Rule) (raw : Json) :
    ∃ bound, List.Forall₂ (fun candidate view => binder.tried raw candidate = .ok view)
        (binder.fitting raw candidates) bound ∧
      (binder.bindStructural binder.coerce base ⟨rule, candidates⟩ raw).result
        = (binder.pick base (binder.misfits raw candidates) bound).result ∧
      (binder.bindStructural binder.coerce base ⟨rule, candidates⟩ raw).warnings
        = (candidates.flatMap fun candidate =>
            (binder.bindType candidate.type raw .eager).warnings)
          ++ (binder.pick base (binder.misfits raw candidates) bound).warnings := by
  obtain ⟨trials, mapped, tried, warned⟩ := exists_trials knows base raw
  refine ⟨_, fitting_of_trials tried, ?_, ?_⟩
  · rw [← misfits_of_trials tried]
    exact Outcome.result_bind_of_ok mapped _
  · rw [← warned, ← misfits_of_trials tried]
    exact Outcome.warnings_bind_of_ok mapped _

/-! ## The outcomes of narrowing by trial -/

def overlap (binder : Binder) (base : Schema) (fitting : List Candidate) : List Ambiguity :=
  match binder.ambiguity, fitting with
  | .firstMatch, first :: _ :: _ => [⟨base.id, first.type, fitting.length⟩]
  | _, _ => []

def shown (raw : Json) (view : View) : Mode → View
  | .eager => view
  | .lazy => .blank view.schema raw .lazy

theorem resolve_structural (binder : Binder)
    (rule : base.subtypes = some ⟨.structural, candidates⟩)
    (object : raw.asMembers? = some members) (mode : Mode) :
    (binder.resolve base raw mode).result
        = (binder.bindStructural binder.coerce base ⟨.structural, candidates⟩ raw).result.map
          (fun view => ⟨base.id, view.type, shown raw view mode⟩) ∧
      (binder.resolve base raw mode).warnings
        = (binder.bindStructural binder.coerce base ⟨.structural, candidates⟩ raw).warnings := by
  unfold resolve resolveWith
  rw [rule, object]
  dsimp only
  cases tried : (binder.bindStructural binder.coerce base ⟨.structural, candidates⟩ raw).result with
  | error error =>
    rw [Outcome.result_bind_of_error tried, Outcome.warnings_bind_of_error tried]
    exact ⟨rfl, rfl⟩
  | ok view =>
    rw [Outcome.result_bind_of_ok tried, Outcome.warnings_bind_of_ok tried]
    cases mode <;> exact ⟨rfl, List.append_nil _⟩

theorem bindType_of_tried {view : View} (fits : binder.tried raw candidate = .ok view)
    (mode : Mode) : (binder.bindType candidate.type raw mode).result = .ok (shown raw view mode) := by
  cases mode with
  | eager => exact fits
  | lazy =>
    obtain ⟨schema, described, bound⟩ := Outcome.result_bind_eq_ok.1 fits
    have own : view.schema = schema := schema_of_bindEagerWith bound
    rw [bindType_of_described (Outcome.result_ofOption_eq_ok.1 described), shown, own]
    rfl

/-- A value is narrowed to a candidate, and bound to it in the mode asked for. -/
def Chooses (binder : Binder) (base : Schema) (raw : Json) (mode : Mode) (candidate : Candidate) :
    Prop :=
  ∃ view, (binder.bindType candidate.type raw mode).result = .ok view ∧
    (binder.resolve base raw mode).result = .ok ⟨base.id, candidate.type, view⟩

/-- What narrowing the object `raw` by trial gives, by cases on the candidates it binds to. -/
structure Tries (binder : Binder) (base : Schema) (candidates : List Candidate) (raw : Json)
    (mode : Mode) : Prop where
  single : binder.ambiguity = .reject → ∀ candidate ∈ candidates,
    (binder.Chooses base raw mode candidate ↔ binder.fitting raw candidates = [candidate])
  first : binder.ambiguity = .firstMatch → ∀ candidate ∈ candidates,
    (binder.Chooses base raw mode candidate ↔
      (binder.fitting raw candidates).head? = some candidate)
  ambiguous : ∀ named listed,
    (binder.resolve base raw mode).result = .error (.ambiguous named listed) ↔
      binder.ambiguity = .reject ∧ 2 ≤ (binder.fitting raw candidates).length ∧
        named = base.id ∧ listed = (binder.fitting raw candidates).map Candidate.type
  unmatched : ∀ named mismatches,
    (binder.resolve base raw mode).result = .error (.noMatch named mismatches) ↔
      named = base.id ∧ List.Forall₂ (binder.Unfit raw) candidates mismatches
  unfit : binder.fitting raw candidates = [] ↔
    ∃ mismatches, List.Forall₂ (binder.Unfit raw) candidates mismatches
  warned : (binder.resolve base raw mode).warnings
    = (candidates.flatMap fun candidate =>
        (binder.bindType candidate.type raw .eager).warnings)
      ++ binder.overlap base (binder.fitting raw candidates)

theorem forall₂_unfit {mismatches : List Mismatch} :
    List.Forall₂ (binder.Unfit raw) candidates mismatches ↔
      binder.fitting raw candidates = [] ∧ mismatches = binder.misfits raw candidates := by
  unfold fitting misfits
  induction candidates generalizing mismatches with
  | nil => simp
  | cons candidate rest ih =>
    rw [List.forall₂_cons_left_iff]
    cases outcome : binder.tried raw candidate with
    | ok view =>
      have fits : binder.Admits raw candidate := ⟨view, outcome⟩
      simp [Unfit, outcome, fits]
    | error error =>
      have misses : ¬ binder.Admits raw candidate := by
        rintro ⟨view, fits⟩
        cases outcome.symm.trans fits
      simp [Unfit, outcome, misses, ih, and_assoc]

def Views (binder : Binder) (raw : Json) : List Candidate → List View → Prop :=
  List.Forall₂ fun candidate view => binder.tried raw candidate = .ok view

variable {fitting : List Candidate} {bound : List View} {mismatches : List Mismatch}

theorem types_of_views (views : binder.Views raw fitting bound) :
    bound.map View.type = fitting.map Candidate.type := by
  induction views with
  | nil => rfl
  | cons head tail ih => rw [List.map_cons, List.map_cons, ih, type_of_tried head]

theorem warnings_pick (views : binder.Views raw fitting bound) (base : Schema)
    (mismatches : List Mismatch) :
    (binder.pick base mismatches bound).warnings = binder.overlap base fitting := by
  unfold pick overlap
  cases views with
  | nil => cases binder.ambiguity <;> rfl
  | cons head tail =>
    have length := tail.length_eq
    cases tail with
    | nil => cases binder.ambiguity <;> rfl
    | cons next others =>
      cases binder.ambiguity with
      | reject => rfl
      | firstMatch =>
        dsimp only
        rw [type_of_tried head, List.length_cons, ← length]
        rfl

theorem result_pick (views : binder.Views raw fitting bound) (base : Schema)
    (mismatches : List Mismatch) :
    (fitting = [] ∧
      (binder.pick base mismatches bound).result = .error (.noMatch base.id mismatches)) ∨
    (binder.ambiguity = .reject ∧ 2 ≤ fitting.length ∧ (binder.pick base mismatches bound).result
      = .error (.ambiguous base.id (fitting.map Candidate.type))) ∨
    ∃ candidate view, fitting.head? = some candidate ∧ binder.tried raw candidate = .ok view ∧
      (fitting = [candidate] ∨ binder.ambiguity = .firstMatch) ∧
      (binder.pick base mismatches bound).result = .ok view := by
  have named := types_of_views views
  cases views with
  | nil => exact .inl ⟨rfl, rfl⟩
  | cons head tail =>
    cases tail with
    | nil => exact .inr (.inr ⟨_, _, rfl, head, .inl rfl, rfl⟩)
    | cons next others =>
      cases policy : binder.ambiguity with
      | reject =>
        refine .inr (.inl ⟨rfl, by simp, ?_⟩)
        unfold pick
        rw [← named, policy]
        rfl
      | firstMatch =>
        refine .inr (.inr ⟨_, _, rfl, head, .inr rfl, ?_⟩)
        unfold pick
        rw [policy]
        rfl

theorem tries_of_knows (knows : binder.Knows candidates)
    (distinct : (candidates.map Candidate.type).Nodup)
    (rule : base.subtypes = some ⟨.structural, candidates⟩)
    (object : raw.asMembers? = some members) (mode : Mode) :
    binder.Tries base candidates raw mode := by
  obtain ⟨bound, views, picked, warned⟩ := exists_bound knows base .structural raw
  obtain ⟨result, warnings⟩ := resolve_structural binder rule object mode
  have unfit : binder.fitting raw candidates = [] ↔
      ∃ mismatches, List.Forall₂ (binder.Unfit raw) candidates mismatches := by
    simp only [forall₂_unfit, exists_and_left, exists_eq, and_true]
  have warns : (binder.resolve base raw mode).warnings
      = (candidates.flatMap fun candidate =>
          (binder.bindType candidate.type raw .eager).warnings)
        ++ binder.overlap base (binder.fitting raw candidates) := by
    rw [warnings, warned, warnings_pick views]
  rw [picked] at result
  obtain ⟨none, gives⟩ | ⟨policy, several, gives⟩ | ⟨candidate, view, first, fits, only, gives⟩ :=
    result_pick views base (binder.misfits raw candidates)
  · rw [gives] at result
    refine ⟨?_, ?_, ?_, ?_, unfit, warns⟩
    all_goals simp [Chooses, result, Except.map, none, forall₂_unfit, eq_comm]
  · rw [gives] at result
    have some : binder.fitting raw candidates ≠ [] := by
      intro none
      simp [none] at several
    refine ⟨?_, ?_, ?_, ?_, unfit, warns⟩
    · intro _ candidate _
      have alone : binder.fitting raw candidates ≠ [candidate] := by
        intro single
        simp [single] at several
      simp [Chooses, result, Except.map, alone]
    · simp [policy]
    · simp [result, Except.map, policy, several, eq_comm]
    · simp [result, Except.map, forall₂_unfit, some]
  · have narrowed : (binder.resolve base raw mode).result
        = .ok ⟨base.id, candidate.type, shown raw view mode⟩ := by
      rw [result, gives, ← type_of_tried fits]
      rfl
    have listed : candidate ∈ candidates :=
      List.mem_of_mem_filter (List.mem_of_mem_head? first)
    -- The name of a candidate tells which one was chosen, since none is listed twice.
    have chosen : ∀ other ∈ candidates, binder.Chooses base raw mode other ↔ candidate = other := by
      intro other among
      constructor
      · rintro ⟨_, -, same⟩
        rw [narrowed, Except.ok.injEq, Variant.mk.injEq] at same
        exact List.inj_on_of_nodup_map distinct listed among same.2.1
      · rintro rfl
        exact ⟨_, bindType_of_tried fits mode, narrowed⟩
    have some : binder.fitting raw candidates ≠ [] := by
      intro none
      simp [none] at first
    refine ⟨?_, ?_, ?_, ?_, unfit, warns⟩
    · intro policy other among
      obtain single | policy' := only
      · rw [chosen other among, single, List.cons.injEq, and_iff_left rfl]
      · simp [policy] at policy'
    · intro _ other among
      rw [chosen other among, first, Option.some.injEq]
    · obtain single | policy := only
      · simp [narrowed, single]
      · simp [narrowed, policy]
    · simp [narrowed, forall₂_unfit, some]

/-- Binding lazily what is narrowed by trial gives a blank view in place of the view of the trial. -/
theorem resolve_lazy_of_structural (binder : Binder)
    (rule : base.subtypes = some ⟨.structural, candidates⟩)
    (object : raw.asMembers? = some members) :
    (binder.resolve base raw .lazy).result
      = (binder.resolve base raw .eager).result.map fun variant =>
        { variant with view := .blank variant.view.schema raw .lazy } := by
  rw [(resolve_structural binder rule object .lazy).1,
    (resolve_structural binder rule object .eager).1]
  cases (binder.bindStructural binder.coerce base ⟨.structural, candidates⟩ raw).result <;> rfl

/-- Narrowing by trial chooses the one candidate that the value binds to eagerly, or the first by
policy, with a warning when there are several. Otherwise it says which candidates the value binds
to, or for each candidate where it does not. The mode asked for has no part in this. -/
theorem trials_decide_candidate {draft : Registry.Draft} {registry : Registry}
    (built : draft.build = .ok registry) (ambiguity : AmbiguityPolicy)
    (registered : base ∈ registry.schemas)
    (rule : base.subtypes = some ⟨.structural, candidates⟩)
    (object : raw.asMembers? = some members) :
    (∀ mode, Tries ⟨registry, ambiguity⟩ base candidates raw mode) ∧
      (resolve ⟨registry, ambiguity⟩ base raw .lazy).result
        = (resolve ⟨registry, ambiguity⟩ base raw .eager).result.map fun variant =>
          { variant with view := .blank variant.view.schema raw .lazy } := by
  have knows : Knows ⟨registry, ambiguity⟩ candidates :=
    (Registry.Draft.sound_of_build built).candidates base registered _ rule
  have distinct : (candidates.map Candidate.type).Nodup :=
    Registry.Draft.nodup_of_build built registered rule
  exact ⟨tries_of_knows knows distinct rule object, resolve_lazy_of_structural _ rule object⟩

def scalar : Schema :=
  ⟨"Scalar", [], true, none, some ⟨.structural, [⟨"Number", []⟩, ⟨"Text", []⟩]⟩⟩

def scalars : Registry.Draft := ⟨[scalar,
  ⟨"Number", [⟨"value", "value", false, false, .long, none⟩], true, some "Scalar", none⟩,
  ⟨"Text", [⟨"text", "text", false, false, .string, none⟩], true, some "Scalar", none⟩]⟩

def numberAndText : Json :=
  .object [("text", .string "one"), ("value", .ofUInt64 1)]

theorem trials_decide_candidate_scalars :
    (resolve ⟨⟨scalars.schemas⟩, .reject⟩ scalar numberAndText .lazy).result
      = .error (.ambiguous "Scalar" ["Number", "Text"]) ∧
    Chooses ⟨⟨scalars.schemas⟩, .firstMatch⟩ scalar numberAndText .lazy ⟨"Number", []⟩ ∧
    (resolve ⟨⟨scalars.schemas⟩, .firstMatch⟩ scalar numberAndText .lazy).warnings
      = [⟨"Scalar", "Number", 2⟩] := by
  have built : scalars.build = .ok ⟨scalars.schemas⟩ := rfl
  have registered : scalar ∈ scalars.schemas := by simp [scalars]
  have object : numberAndText.asMembers? = some _ := rfl
  obtain ⟨strict, -⟩ := trials_decide_candidate built .reject registered rfl object
  obtain ⟨lenient, -⟩ := trials_decide_candidate built .firstMatch registered rfl object
  refine ⟨((strict .lazy).ambiguous _ _).2 ⟨rfl, by decide, rfl, rfl⟩, ?_, (lenient .lazy).warned⟩
  exact ((lenient .lazy).first rfl _ List.mem_cons_self).2 rfl

end Binder

end DebugLink
