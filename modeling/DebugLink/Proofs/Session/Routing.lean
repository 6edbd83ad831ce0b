import DebugLink.Proofs.Session.Identity

/-!
# Where events go

Handlers are only registered by operations that do so, and the one registered last for a name takes
the place of those before it. So after any run the processor of a name is the last one registered
for it, or else the one that was there at the beginning.
-/

set_option autoImplicit false

namespace DebugLink

/-- The processor that an input registers. The type of its events must be known. -/
def Binder.registration? (binder : Binder) : Input → Option Processor
  | .start (.onEvent name type handler) =>
    if (binder.describe? type).isSome then some ⟨name, type, handler⟩ else none
  | _ => none

def Binder.registrations (binder : Binder) (inputs : List Input) : List Processor :=
  (inputs.filterMap binder.registration?).reverse

theorem Binder.registrations_cons (binder : Binder) (input : Input) (inputs : List Input) :
    binder.registrations (input :: inputs)
      = binder.registrations inputs ++ (binder.registration? input).toList := by
  unfold registrations
  cases registered : binder.registration? input with
  | none => simp [List.filterMap_cons_none registered]
  | some processor => simp [List.filterMap_cons_some registered]

theorem Session.processor?_addProcessor (s : Session) (processor : Processor) (name : String) :
    (s.addProcessor processor).processor? name
      = (processor :: s.processors).find? (·.event == name) := by
  simp only [processor?, addProcessor, List.find?_cons]
  cases same : processor.event == name with
  | true => rfl
  | false =>
    -- What is taken out has another name than the one that is looked for.
    rw [List.find?_filter]
    refine congrArg (List.find? · s.processors) (funext fun other => ?_)
    by_cases named : other.event = name
    · have differs : name ≠ processor.event := fun equal => beq_eq_false_iff_ne.1 same equal.symm
      simp [named, differs]
    · simp [named]

variable {m : Machine} {input : Input}

def Input.RegistersNone (input : Input) : Prop :=
  ∀ name type handler, input ≠ .start (.onEvent name type handler)

theorem Work.processors_eq {s t : Session} {hand next : Hand} {es : List Emission}
    (work : Work m input s hand es t next) (other : input.RegistersNone) :
    t.processors = s.processors := by
  cases work with
  | routed asked => exact absurd asked (other _ _ _)
  | responded received decoded pending =>
    rename_i frame call
    obtain ⟨context, handles, absorbed, -⟩ := Machine.absorb_eq
      (m.session.removeCall frame.id) frame (m.session.isStale call)
    rw [absorbed]
    rfl
  | _ => rfl

theorem Ends.processors_eq {s t : Session} {hand : Hand} {es : List Emission}
    {waiting : Option Waiting} (last : Ends m input s hand es t waiting) :
    t.processors = s.processors := by
  cases last <;> rfl

theorem Works.processors_eq {base : List Waiting} {s : Session} {hand : Hand} {turn : Turn}
    (works : Works m input base s hand turn) (other : input.RegistersNone) :
    turn.machine.session.processors = s.processors := by
  induction works with
  | ends last => exact last.processors_eq
  | work first rest ih => exact ih.trans (first.processors_eq other)

namespace Machine

theorem processors_step (m : Machine) (other : input.RegistersNone) :
    (m.step input).machine.session.processors = m.session.processors := by
  rcases step_works m input with idle | works
  · rw [idle]
  · exact works.processors_eq other

theorem processor?_step (m : Machine) (input : Input) (name : String) :
    (m.step input).machine.session.processor? name
      = ((m.session.binder.registration? input).toList ++ m.session.processors).find?
          (·.event == name) := by
  have unchanged : m.session.binder.registration? input = none →
      (m.step input).machine.session.processors = m.session.processors →
      (m.step input).machine.session.processor? name
        = ((m.session.binder.registration? input).toList ++ m.session.processors).find?
            (·.event == name) := by
    intro none same
    rw [none, Session.processor?, same]
    rfl
  cases input with
  | start operation =>
    cases operation with
    | onEvent event type handler =>
      have started : m.step (.start (.onEvent event type handler))
          = m.onEvent ⟨event, type, handler⟩ := rfl
      by_cases known : (m.session.binder.describe? type).isSome
      · have registered : m.onEvent ⟨event, type, handler⟩
            = (m.modify (·.addProcessor ⟨event, type, handler⟩)).give .unit := if_pos known
        rw [started, registered, Binder.registration?, if_pos known]
        exact m.session.processor?_addProcessor ⟨event, type, handler⟩ name
      · have unknown : m.onEvent ⟨event, type, handler⟩ = m.give (.failed (.unknownType type)) :=
          if_neg known
        refine unchanged (if_neg known) ?_
        rw [started, unknown]
        rfl
    | _ => exact unchanged rfl (m.processors_step nofun)
  | _ => exact unchanged rfl (m.processors_step nofun)

theorem processor?_after (m : Machine) (inputs : List Input) (name : String) :
    (m.after inputs).session.processor? name
      = (m.session.binder.registrations inputs ++ m.session.processors).find?
          (·.event == name) := by
  induction inputs generalizing m with
  | nil => rfl
  | cons input inputs ih =>
    have later := ih (m.step input).machine
    rw [(m.sameSetup_step input).binder, List.find?_append] at later
    have now := m.processor?_step input name
    rw [Session.processor?] at now
    rw [after_cons, later, now, ← List.find?_append, ← List.append_assoc,
      ← Binder.registrations_cons]

end Machine

end DebugLink
