import DebugLink.Proofs.Binding.Blame
import DebugLink.Proofs.Binding.Extension
import DebugLink.Proofs.Binding.Inheritance
import DebugLink.Session.State

/-!
# Payloads and their types

A payload is bound over a body for a type. It shows the body as this type or, when the type is
polymorphic, as one of the candidates of the type; and if a body cannot be bound to a type that is
registered, the body is at fault.
-/

set_option autoImplicit false

namespace DebugLink

def View.Decoded (view : View) : Prop :=
  ∀ index < view.schema.fields.length,
    ∃ value : FieldValue, view.slots[index]? = some (some (.ok value))

structure Payload.Shows (registry : Registry) (type : String) (raw : Json) (mode : Mode)
    (payload : Payload) : Prop where
  source : payload.view.raw = raw
  inMode : payload.view.mode = mode
  own : registry.describe? payload.view.type = some payload.view.schema
  known : registry.Describes type
  /-- A type that is not polymorphic is shown as itself. -/
  plain : ∀ schema, registry.describe? type = some schema → schema.subtypes = none →
    payload.variant? = none ∧ payload.view.type = type
  /-- A polymorphic type is shown as a candidate that it lists. -/
  narrowed : ∀ schema subtypes, registry.describe? type = some schema →
    schema.subtypes = some subtypes →
    ∃ variant, payload.variant? = some variant ∧ variant.base = type ∧
      variant.type = payload.view.type ∧
      ∃ candidate ∈ subtypes.candidates, candidate.type = variant.type
  decoded : mode = .eager → payload.view.Decoded

/-- A reply to a call carries the body of the response and shows it as the type that the command
asks for, if it asks for one. -/
structure Reply.Carries (registry : Registry) (mode : Mode) (call : PendingCall) (body : Json)
    (reply : Reply) : Prop where
  id : reply.id = call.id
  command : reply.command = call.command
  raw : reply.raw = body
  untyped : call.result = none → reply.payload = none
  typed : ∀ type, call.result = some type →
    ∃ payload, reply.payload = some payload ∧ payload.Shows registry type body mode

/-- An event for a handler carries the body of the event, which counts as the empty object if there
is none, and shows it as the type that the handler is registered for. -/
structure Event.Carries (registry : Registry) (mode : Mode) (type : String) (frame : EventFrame)
    (event : Event) : Prop where
  name : event.name = frame.name
  raw : event.raw = Session.eventBody frame.body
  typed : event.payload.Shows registry type event.raw mode

/-- The failure is no fault of the registry. -/
def CallFailure.LiesInValue : CallFailure → Prop
  | .connectionClosed _ | .remote .. => True
  | .binding error => error.LiesInValue
  | .resolution error => error.LiesInValue

def CallFailure.isOfBinding : CallFailure → Bool
  | .binding _ | .resolution _ => true
  | .connectionClosed _ | .remote .. => false

/-! ## What binding shows -/

theorem View.Settled.decoded {view : View} (settled : view.Settled) (eager : view.mode = .eager) :
    view.Decoded := by
  intro index below
  have inside : index < view.slots.length := settled.sized ▸ below
  obtain ⟨value, held⟩ := settled.filled eager _ (List.getElem_mem inside)
  exact ⟨value, held ▸ List.getElem?_eq_getElem inside⟩

namespace Binder

variable {binder : Binder} {schema : Schema} {raw : Json} {mode : Mode} {view : View}

theorem shown_of_bind (bound : (binder.bind schema raw mode).result = .ok view) :
    view.schema = schema ∧ view.raw = raw := by
  cases mode with
  | eager =>
    obtain ⟨members, values, -, -, -, rfl⟩ := bindEagerWith_eq_ok.1 bound
    exact ⟨rfl, rfl⟩
  | lazy =>
    cases bound
    exact ⟨rfl, rfl⟩

theorem decoded_of_bind (bound : (binder.bind schema raw mode).result = .ok view)
    (eager : mode = .eager) : view.Decoded := by
  have settled := (all_of_bind binder.keeps_settled trivial bound).here
  exact settled.decoded ((mode_of_bind bound).trans eager)

end Binder

namespace Session

variable {session : Session} {type : String} {raw : Json} {mode : Mode}

theorem shows_of_bindPayload {payload : Payload}
    (bound : (session.bindPayload raw type mode).result = .ok payload) :
    payload.Shows session.binder.registry type raw mode := by
  unfold bindPayload at bound
  cases described : session.binder.describe? type with
  | none =>
    rw [described] at bound
    obtain ⟨view, unknown, -⟩ := Outcome.result_map_eq_ok.1 bound
    obtain ⟨schema, found, -⟩ :=
      Outcome.result_bind_eq_ok.1 (Outcome.result_mapError_eq_ok.1 unknown)
    cases described.symm.trans (Outcome.result_ofOption_eq_ok.1 found)
  | some schema =>
    have named := Registry.id_of_describe? described
    rw [described] at bound
    dsimp only at bound
    split at bound
    · rename_i polymorphic
      obtain ⟨variant, resolved, rfl⟩ := Outcome.result_map_eq_ok.1 bound
      obtain ⟨subtypes, declared, candidate, listed, chosen, found, viewed, base, own⟩ :=
        Binder.candidate_of_resolveWith (Outcome.result_mapError_eq_ok.1 resolved)
      obtain ⟨rfl, source⟩ := Binder.shown_of_bind viewed
      have target := Registry.id_of_describe? found
      refine ⟨source, Binder.mode_of_bind viewed, (congrArg _ target).trans found,
        ⟨schema, described⟩, ?_, ?_, Binder.decoded_of_bind viewed⟩
      · intro other same single
        cases described.symm.trans same
        rw [single] at polymorphic
        cases polymorphic
      · intro other others same narrows
        cases described.symm.trans same
        cases declared.symm.trans narrows
        exact ⟨variant, rfl, base.trans named, own, candidate, listed, target.symm.trans own.symm⟩
    · rename_i single
      obtain ⟨view, viewed, rfl⟩ := Outcome.result_map_eq_ok.1 bound
      have viewed := Outcome.result_mapError_eq_ok.1 viewed
      obtain ⟨rfl, source⟩ := Binder.shown_of_bind viewed
      refine ⟨source, Binder.mode_of_bind viewed, (congrArg _ named).trans described,
        ⟨_, described⟩, ?_, ?_, Binder.decoded_of_bind viewed⟩
      · exact fun _ _ _ => ⟨rfl, named⟩
      · intro other subtypes same narrows
        cases described.symm.trans same
        rw [narrows] at single
        exact absurd rfl single

theorem bindPayload_blames (sound : session.binder.registry.Sound)
    (known : session.binder.registry.Describes type) (raw : Json) (mode : Mode) :
    (session.bindPayload raw type mode).FailsWith fun failure =>
      failure.isOfBinding = true ∧ failure.LiesInValue := by
  obtain ⟨schema, known⟩ := known
  have described : session.binder.describe? type = some schema := known
  have registered := Binder.mem_of_describe? described
  unfold bindPayload
  rw [described]
  dsimp only
  split
  · rename_i polymorphic
    refine Outcome.FailsWith.map (Outcome.FailsWith.mapError (fun error failed =>
      Binder.resolve_blames sound registered failed) ?_)
    rintro error (lies | ⟨single, -⟩)
    · exact ⟨rfl, lies⟩
    · rw [single] at polymorphic
      cases polymorphic
  · have fails : (session.binder.bind schema raw mode).FailsWith BindingError.LiesInValue :=
      Binder.bind_blames sound registered
    exact (fails.mapError fun error lies => ⟨rfl, lies⟩).map

theorem carries_of_reply {call : PendingCall} {body : Json} {reply : Reply}
    (replied : (session.reply call body).result = .ok reply) :
    reply.Carries session.binder.registry session.responseMode call body := by
  unfold Session.reply at replied
  cases asked : call.result with
  | none =>
    rw [asked] at replied
    cases replied
    refine ⟨rfl, rfl, rfl, fun _ => rfl, ?_⟩
    intro type same
    cases asked.symm.trans same
  | some type =>
    rw [asked] at replied
    obtain ⟨payload, bound, last⟩ := Outcome.result_bind_eq_ok.1 replied
    cases last
    refine ⟨rfl, rfl, rfl, ?_, ?_⟩
    · intro none
      cases asked.symm.trans none
    · intro other same
      cases asked.symm.trans same
      exact ⟨payload, rfl, shows_of_bindPayload bound⟩

theorem reply_blames {call : PendingCall} (sound : session.binder.registry.Sound)
    (known : ∀ type, call.result = some type → session.binder.registry.Describes type)
    (body : Json) :
    (session.reply call body).FailsWith fun failure =>
      failure.isOfBinding = true ∧ failure.LiesInValue := by
  unfold Session.reply
  cases asked : call.result with
  | none => exact .pure _
  | some type => exact .bind (bindPayload_blames sound (known type asked) body _) fun _ _ => .pure _

end Session

end DebugLink
