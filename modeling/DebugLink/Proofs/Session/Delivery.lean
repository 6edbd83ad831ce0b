import DebugLink.Proofs.Session.Origin
import DebugLink.Proofs.Session.Payload
import DebugLink.Proofs.Session.Receipt
import DebugLink.Proofs.Session.Routing
import DebugLink.Proofs.Wire.Decoding

/-!
# What is delivered is typed

The type of a payload is checked when its command is sent or its handler registered, and used when
the response or the event is taken in. A callback of success is only run with a reply that shows
the body of the response as the type that the command asks for, and a handler only with an event
that shows its body as the type that the handler is registered for. A body that cannot be bound
fails its call, and in no run is a type found to be unregistered.
-/

set_option autoImplicit false

namespace DebugLink

def Emission.failure? : Emission → Option CallFailure
  | .request (.fail _ failure) => some failure
  | .notice (.malformedEvent _ failure) => some failure
  | .notice (.malformedResponse _ _ failure) => some failure
  | .notice (.malformedForUnknownCall _ failure) => some failure
  | _ => none

/-- A frame could not be decoded because the envelope of the dialect has nothing to be narrowed to,
so that no frame can be. -/
def CallFailure.IsOfEnvelope (dialect : Dialect) (registry : Registry) (failure : CallFailure) :
    Prop :=
  ∃ schema, registry.describe? dialect.envelope = some schema ∧ schema.subtypes = none ∧
    failure = .resolution (.notPolymorphic schema.id)

namespace Machine

structure Enters (m : Machine) (input : Input) (command : Command) (call : PendingCall) : Prop where
  sent : ∃ token, m.Sends input command token call.id
  named : call.command = command.name
  asks : call.result = command.result

inductive Sequel (m : Machine) (inputs : List Input) (call : PendingCall)
    (outcome : Except RemoteError Json) (stale : Bool) : Prop where
  | waiting (waits : (m.after inputs).Withholds call.id)
  | dropped (abandoned : call.id ∈ abandonedIds (m.emitted inputs))
      (cause : stale = true ∨ m.Happens (BreaksTelling call.id) inputs)
  | completed (settled : m.session.settle call outcome ∈ outcomes call.id (m.emitted inputs))

end Machine

/-! ## Who is to blame -/

theorem Emission.failure?_of_isPlain {emission : Emission} (plain : emission.isPlain = true) :
    emission.failure? = none := by
  unfold failure?
  split
  · cases plain
  · cases plain
  · cases plain
  · cases plain
  · rfl

theorem CallFailure.liesInValue_of_meant {error : FrameError} {failure : CallFailure}
    (lies : error.LiesInValue) (meant : Machine.failureOf? error = some failure) :
    failure.LiesInValue := by
  cases error with
  | malformed error =>
    cases meant
    exact lies
  | unrecognized error =>
    cases error <;> cases meant <;> exact lies
  | missingEnvelope | invalidId => cases meant

/-- What a response that cannot be decoded means for its call is no fault of the registry, unless
the envelope is of no use. -/
theorem CallFailure.blame_of_refused {dialect : Dialect} {binder : Binder} {raw : Json}
    {error : FrameError} {failure : CallFailure} (sound : binder.registry.Sound)
    (refused : (dialect.classify binder raw).result = .error error)
    (meant : Machine.failureOf? error = some failure) :
    failure.LiesInValue ∨ failure.IsOfEnvelope dialect binder.registry := by
  rcases Dialect.classify_blames sound dialect raw error refused with lies | unusable
  · exact .inl (liesInValue_of_meant lies meant)
  · cases unusable with
    | unknown missing => cases meant
    | plain described single =>
      cases meant
      exact .inr ⟨_, described, single, rfl⟩

theorem CallFailure.not_isOfEnvelope {dialect : Dialect} {registry : Registry}
    (extending : registry.Extends) (failure : CallFailure) :
    ¬ failure.IsOfEnvelope dialect registry := by
  rintro ⟨schema, described, single, -⟩
  exact Dialect.usable_of_extends extending (.plain described single)

namespace Session

variable {session : Session} {call : PendingCall} {body : Json} {failure : CallFailure}

theorem settle_of_unbound {type : String} (asks : call.result = some type)
    (failed : (session.bindPayload body type session.responseMode).result = .error failure) :
    session.settle call (.ok body) = .error failure := by
  simp only [settle, reply, asks]
  rw [Outcome.result_bind, failed]
  rfl

theorem settle_blames {outcome : Except RemoteError Json} (sound : session.binder.registry.Sound)
    (known : ∀ type, call.result = some type → session.binder.registry.Describes type)
    (settled : session.settle call outcome = .error failure) : failure.LiesInValue := by
  cases outcome with
  | error error =>
    cases settled
    trivial
  | ok body => exact (reply_blames sound known body failure settled).2

theorem SameSetup.blame_of_refused {s t : Session} {raw : Json} {error : FrameError}
    (same : s.SameSetup t) (sound : s.binder.registry.Sound)
    (refused : (t.dialect.classify t.binder raw).result = .error error)
    (meant : Machine.failureOf? error = some failure) :
    failure.LiesInValue ∨ failure.IsOfEnvelope s.dialect s.binder.registry := by
  rw [same.dialect, same.binder] at refused
  exact CallFailure.blame_of_refused sound refused meant

end Session

namespace Machine

variable {m : Machine} {input : Input} {call : PendingCall}

/-! ## The types that are asked for -/

theorem fine_of_sends {command : Command} {token : Option ContextToken} {id : UInt64}
    (sent : m.Sends input command token id) : m.session.sendFault? command = none := by
  obtain ⟨operation, invalidating, rfl, sends⟩ := sent.asked
  have issued := sent.issued
  cases fault : m.session.sendFault? command with
  | none => rfl
  | some error =>
    have silent : ∀ stamp dismisses,
        issuedIds (m.dispatch command stamp dismisses).emitted = [] := by
      intro stamp dismisses
      rw [dispatch_of_fault fault]
      rfl
    cases operation with
    | send other stamp =>
      cases sends
      simp only [step, start, send] at issued
      split at issued
      · split at issued
        · rw [silent] at issued
          cases issued
        · cases issued
      · rw [silent] at issued
        cases issued
    | sendAndInvalidate other stamp =>
      cases sends
      simp only [step, start, sendAndInvalidate] at issued
      split at issued
      · rw [silent] at issued
        cases issued
      · cases issued
    | _ => cases sends

theorem describes_of_sends {command : Command} {token : Option ContextToken} {id : UInt64}
    {type : String} (sent : m.Sends input command token id) (asks : command.result = some type) :
    m.session.binder.registry.Describes type := by
  have fine := fine_of_sends sent
  unfold Session.sendFault? at fine
  rw [asks] at fine
  cases described : m.session.binder.describe? type with
  | some schema => exact ⟨schema, described⟩
  | none =>
    rw [Option.filter_some, described] at fine
    cases fine

theorem enters_of_held {inputs : List Input} (fresh : m.heldCalls = [])
    (mem : call ∈ (m.after inputs).heldCalls) :
    (∃ command, m.Happens (fun n i => n.Enters i command call) inputs) ∧
      ∀ type, call.result = some type → m.session.binder.registry.Describes type := by
  induction inputs using List.reverseRecOn with
  | nil =>
    rw [after_nil, fresh] at mem
    cases mem
  | append_singleton before input ih =>
    rw [after_concat] at mem
    rcases (calls_subset_step (m.after before) input).2 mem with old | ⟨entered, issued⟩
    · obtain ⟨⟨command, enters⟩, known⟩ := ih old
      exact ⟨⟨command, happens_append.2 (.inl enters)⟩, known⟩
    · obtain ⟨operation, command, token, invalidating, asked, sends, rfl⟩ := entered
      have sent : (m.after before).Sends input command token
          ((m.after before).session.newCall command token).id :=
        ⟨⟨operation, invalidating, asked, sends⟩, issued⟩
      refine ⟨⟨command, happens_append.2 (.inr (happens_single.2 ⟨⟨token, sent⟩, rfl, rfl⟩))⟩, ?_⟩
      intro type asks
      rw [← (sameSetup_run m before).binder]
      exact describes_of_sends sent asks

theorem registered_of_processor? {before : List Input} {name : String} {processor : Processor}
    (unregistered : m.session.processors = [])
    (routed : (m.after before).session.processor? name = some processor) :
    (m.session.binder.registrations before).find? (·.event == name) = some processor ∧
      processor.event = name ∧ m.session.binder.registry.Describes processor.type := by
  rw [processor?_after, unregistered, List.append_nil] at routed
  have named : processor.event = name := by simpa using List.find?_some routed
  refine ⟨routed, named, ?_⟩
  obtain ⟨input, -, registers⟩ :=
    List.mem_filterMap.1 (List.mem_reverse.1 (List.mem_of_find?_eq_some routed))
  unfold Binder.registration? at registers
  split at registers
  · split at registers
    · rename_i known
      cases registers
      exact Option.isSome_iff_exists.1 known
    · cases registers
  · cases registers

/-! ## Where an outcome comes from -/

section Past

variable {before : List Input} {outcome : Except RemoteError Json}

theorem held_of_completes (completes : m.Completes input call outcome) : call ∈ m.heldCalls := by
  cases completes with
  | onReceipt hears =>
    obtain ⟨-, -, pending⟩ := hears
    exact List.mem_append_left _ (Session.call?_eq_some pending).1
  | onceTold waited =>
    apply List.mem_append_right
    rw [waited, List.flatMap_cons]
    exact List.mem_append_left _ (List.mem_singleton.2 rfl)

theorem heard_of_completes (rested : m.stack = [])
    (completes : (m.after before).Completes input call outcome) :
    m.Happens (fun n i => n.Hears i call outcome) (before ++ [input]) := by
  rw [happens_append, happens_single]
  cases completes with
  | onReceipt hears => exact .inr hears
  | onceTold waited =>
    rename_i after rest
    have traced : m.Happens (fun n i => n.Hears i call outcome ∧ n.session.isStale call = false)
        before := (traced_run rested before).1 (.announcedResponse call outcome false after)
          (waited ▸ List.mem_cons_self)
    exact .inl (traced.imp fun _ _ hears => hears.1)

theorem misheard_of_fails {failure : CallFailure} (rested : m.stack = [])
    (fails : (m.after before).Fails input call failure) :
    m.Happens (fun n i => n.Mishears i call failure) (before ++ [input]) := by
  rw [happens_append, happens_single]
  cases fails with
  | onReceipt mishears => exact .inr mishears
  | onceTold waited =>
    rename_i after rest
    have traced : m.Happens (fun n i => n.Mishears i call failure) before :=
      (traced_run rested before).1 (.announcedMalformed call failure after)
        (waited ▸ List.mem_cons_self)
    exact .inl traced

end Past

/-! ## What becomes of a response -/

section Becoming

variable {outcome : Except RemoteError Json} {stale : Bool} {inputs : List Input}

theorem Sequel.append (before : List Input)
    (sequel : (m.after before).Sequel inputs call outcome stale) :
    m.Sequel (before ++ inputs) call outcome stale := by
  cases sequel with
  | waiting waits => exact .waiting (by rwa [after_append])
  | dropped abandoned cause =>
    refine .dropped ?_ (cause.imp_right fun broken => happens_append.2 (.inr broken))
    rw [emitted_append, abandonedIds_append]
    exact List.mem_append_right _ abandoned
  | completed settled =>
    refine .completed ?_
    rw [emitted_append, outcomes_append, ← (sameSetup_run m before).settle]
    exact List.mem_append_right _ settled

theorem sequel_of_complete {n : Machine} {after : After} {emissions : List Emission}
    (same : m.session.SameSetup n.session)
    (taken : m.step input = (n.completeResponse call outcome stale after).preceded emissions) :
    m.Sequel (input :: inputs) call outcome stale := by
  have among : ∀ emission ∈ (n.completeResponse call outcome stale after).emitted,
      emission ∈ m.emitted (input :: inputs) := by
    intro emission mem
    rw [emitted_cons, taken]
    exact List.mem_append_left _ (List.mem_append_right _ mem)
  cases stale with
  | true =>
    refine .dropped (List.mem_filterMap.2 ⟨.abandoned call.id, among _ ?_, rfl⟩) (.inl rfl)
    simp [completeResponse, Turn.preceded]
  | false =>
    obtain ⟨emission, shown, given⟩ :=
      List.mem_filterMap.1 (settle_mem_outcomes n call outcome after)
    rw [same.settle] at given
    exact .completed (List.mem_filterMap.2 ⟨emission, among _ shown, given⟩)

/-- The listener has been told of a response, and the wait for it to answer stays until then. -/
theorem sequel_of_told {after : After} {upper base : List Waiting} (inputs : List Input)
    (waits : m.stack = upper ++ .announcedResponse call outcome stale after :: base) :
    m.Sequel inputs call outcome stale := by
  induction inputs generalizing m upper with
  | nil =>
    refine .waiting ⟨.announcedResponse call outcome stale after, ?_, call,
      List.mem_singleton.2 rfl, rfl⟩
    rw [after_nil, waits]
    exact List.mem_append_right _ List.mem_cons_self
  | cons input inputs ih =>
    rcases wait_stays input waits with ⟨-, upper', stays⟩ | ⟨rfl, turn, given⟩
    · exact Sequel.append [input] (ih stays)
    · have taken := step_of_answer waits given
      cases input with
      | start | accepted | refused | pulled => cases given
      | done =>
        cases given
        have told : m.step .done = Turn.preceded
            (completeResponse ⟨m.session, base⟩ call outcome stale after) [] := taken
        exact sequel_of_complete (n := ⟨m.session, base⟩) (.refl m.session) told
      | crashed =>
        cases given
        refine .dropped (List.mem_filterMap.2 ⟨.abandoned call.id, ?_, rfl⟩)
          (.inr (happens_cons.2 (.inl ⟨rfl, _, _, call, waits, rfl, rfl⟩)))
        rw [emitted_cons, taken]
        exact List.mem_append_left _ List.mem_cons_self

theorem sequel_of_hears (hears : m.Hears input call outcome) (inputs : List Input) :
    m.Sequel (input :: inputs) call outcome (m.session.isStale call) := by
  obtain ⟨absorbed, after, emissions, same, -, taken⟩ := step_of_hears hears
  rcases announce_cases absorbed
    (.announcedResponse call outcome (m.session.isStale call) after)
    (·.completeResponse call outcome (m.session.isStale call) after) with
    direct | ⟨listener, told⟩
  · rw [direct] at taken
    exact sequel_of_complete same taken
  · rw [told] at taken
    have waits : (m.step input).machine.stack
        = [] ++ .announcedResponse call outcome (m.session.isStale call) after :: absorbed.stack := by
      rw [taken]
      rfl
    exact Sequel.append [input] (sequel_of_told inputs waits)

/-- As long as ids last, all that the callbacks of a call are run with is what is made of its
response. -/
theorem Sequel.outcomes_eq (fresh : m.heldCalls = [])
    (few : (issuedIds (m.emitted inputs)).length < 2 ^ 64)
    (sequel : m.Sequel inputs call outcome stale) :
    (∀ given ∈ outcomes call.id (m.emitted inputs), given = m.session.settle call outcome) ∧
    (stale = false → ¬ m.Happens (BreaksTelling call.id) inputs →
      ¬ (m.after inputs).Withholds call.id →
      outcomes call.id (m.emitted inputs) = [m.session.settle call outcome]) := by
  have once := held_le_one fresh few call.id
  have silent : outcomes call.id (m.emitted inputs) = [] →
      ∀ given ∈ outcomes call.id (m.emitted inputs), given = m.session.settle call outcome := by
    intro none given mem
    rw [none] at mem
    cases mem
  cases sequel with
  | waiting waits =>
    refine ⟨silent (List.eq_nil_of_length_eq_zero ?_), fun _ _ free => absurd waits free⟩
    obtain ⟨waiting, listed, other, held, named⟩ := waits
    have some : 0 < copies call.id ((m.after inputs).stack.flatMap (·.hand.calls)) :=
      copies_pos.2 ⟨other, List.mem_flatMap.2 ⟨waiting, listed, held⟩, named⟩
    rw [Machine.held, heldCalls, copies_append] at once
    omega
  | dropped abandoned cause =>
    have some := List.count_pos_iff.2 abandoned
    refine ⟨silent (List.eq_nil_of_length_eq_zero (by omega)), ?_⟩
    rintro rfl sound -
    exact absurd (cause.resolve_left Bool.false_ne_true) sound
  | completed settled =>
    have some := List.length_pos_of_mem settled
    obtain ⟨only, single⟩ := List.length_eq_one_iff.1 (Nat.le_antisymm (by omega) some)
    rw [single] at settled ⊢
    rw [List.mem_singleton.1 settled]
    exact ⟨fun given mem => List.mem_singleton.1 mem, fun _ _ _ => rfl⟩

end Becoming

/-! ## What is reported -/

section Reporting

variable {before : List Input}

theorem blame_of_fails {failure : CallFailure} (sound : m.session.binder.registry.Sound)
    (rested : m.stack = []) (fails : (m.after before).Fails input call failure) :
    failure.LiesInValue ∨
      failure.IsOfEnvelope m.session.dialect m.session.binder.registry := by
  obtain ⟨earlier, answer, rest, -, mishears⟩ := misheard_of_fails rested fails
  obtain ⟨-, refused, -, meant, -⟩ := mishears
  exact (sameSetup_run m earlier).blame_of_refused sound refused meant

theorem reports_blame {emission : Emission} {failure : CallFailure}
    (sound : m.session.binder.registry.Sound) (rested : m.stack = []) (fresh : m.heldCalls = [])
    (unregistered : m.session.processors = [])
    (shown : emission ∈ ((m.after before).step input).emitted)
    (tells : emission.failure? = some failure) :
    failure.LiesInValue ∨
      failure.IsOfEnvelope m.session.dialect m.session.binder.registry := by
  have setup := sameSetup_run m before
  cases step_stems (m.after before) input emission shown with
  | plain plain =>
    rw [Emission.failure?_of_isPlain plain] at tells
    cases tells
  | rejected | handled | unrecognized => cases tells
  | drained =>
    cases tells
    exact .inl trivial
  | completed completes =>
    rename_i call outcome
    have known := (enters_of_held fresh (held_of_completes completes)).2
    cases settled : (m.after before).session.settle call outcome with
    | ok reply =>
      rw [settled] at tells
      cases tells
    | error other =>
      rw [settled] at tells
      cases tells
      rw [setup.settle] at settled
      exact .inl (Session.settle_blames sound known settled)
  | failed fails | malformed fails =>
    cases tells
    exact blame_of_fails sound rested fails
  | unbound routes failed =>
    cases tells
    obtain ⟨-, -, known⟩ := registered_of_processor? unregistered routes.routed
    rw [← setup.binder] at sound known
    exact .inl (Session.bindPayload_blames sound known _ _ _ failed).2
  | unknown id invalid meant =>
    cases tells
    exact setup.blame_of_refused sound invalid.refused meant

theorem unrecognized_blames {id : Option UInt64} {error : FrameError}
    (sound : m.session.binder.registry.Sound) (extending : m.session.binder.registry.Extends)
    (shown : .notice (.unrecognizedFrame id error) ∈ ((m.after before).step input).emitted) :
    error.LiesInValue := by
  obtain ⟨raw, invalid⟩ := (step_stems (m.after before) input _ shown).of_unrecognizedFrame
  have setup := sameSetup_run m before
  rw [← setup.binder] at sound extending
  rcases Dialect.classify_blames sound _ raw error invalid.refused with lies | unusable
  · exact lies
  · exact absurd unusable (Dialect.usable_of_extends extending)

end Reporting

/-! ## What callbacks and handlers are given -/

theorem succeed_of_mem_outcomes {id : UInt64} {reply : Reply} {emitted : List Emission}
    (mem : .ok reply ∈ outcomes id emitted) : .request (.succeed id reply) ∈ emitted := by
  obtain ⟨emission, shown, given⟩ := List.mem_filterMap.1 mem
  unfold Emission.outcome? at given
  split at given
  · split at given
    · rename_i same
      cases given
      exact same ▸ shown
    · cases given
  · split at given <;> cases given
  · cases given

section Giving

variable {before : List Input}

theorem carries_of_succeed {id : UInt64} {reply : Reply} (rested : m.stack = [])
    (fresh : m.heldCalls = [])
    (shown : .request (.succeed id reply) ∈ ((m.after before).step input).emitted) :
    ∃ command call body, m.Happens (fun n i => n.Enters i command call) before ∧
      m.Happens (fun n i => n.Hears i call (.ok body)) (before ++ [input]) ∧ call.id = id ∧
      reply.Carries m.session.binder.registry m.session.responseMode call body := by
  obtain ⟨call, outcome, completes, named, settled⟩ :=
    (step_stems (m.after before) input _ shown).of_succeed
  obtain ⟨⟨command, enters⟩, -⟩ := enters_of_held fresh (held_of_completes completes)
  have heard := heard_of_completes rested completes
  rw [(sameSetup_run m before).settle] at settled
  cases outcome with
  | error error => cases settled
  | ok body =>
    exact ⟨command, call, body, enters, heard, named, Session.carries_of_reply settled⟩

theorem carries_of_handle {handler : Nat} {event : Event} (unregistered : m.session.processors = [])
    (shown : .request (.handle handler event) ∈ ((m.after before).step input).emitted) :
    ∃ frame type, (m.after before).ReceivesEvent input frame ∧
      (m.session.binder.registrations before).find? (·.event == frame.name)
        = some ⟨frame.name, type, handler⟩ ∧
      event.Carries m.session.binder.registry m.session.eventMode type frame := by
  obtain ⟨frame, processor, payload, routes, own, bound, rfl⟩ :=
    (step_stems (m.after before) input _ shown).of_handle
  obtain ⟨registered, named, -⟩ := registered_of_processor? unregistered routes.routed
  have setup := sameSetup_run m before
  have shows := Session.shows_of_bindPayload bound
  rw [setup.binder, setup.eventMode] at shows
  refine ⟨frame, processor.type, routes.received, ?_, ⟨rfl, rfl, shows⟩⟩
  rw [registered, ← named, ← own]

theorem ReceivesEvent.unique {frame other : EventFrame} (one : m.ReceivesEvent input frame)
    (another : m.ReceivesEvent input other) : frame = other := by
  obtain ⟨raw, received, decoded⟩ := one
  obtain ⟨raw', received', decoded'⟩ := another
  cases received.text.symm.trans received'.text
  exact Incoming.event.inj (Except.ok.inj (decoded.symm.trans decoded'))

theorem not_handled_of_unbound {frame : EventFrame} {type : String} {handler : Nat}
    {failure : CallFailure} (unregistered : m.session.processors = [])
    (received : (m.after before).ReceivesEvent input frame)
    (registered : (m.session.binder.registrations before).find? (·.event == frame.name)
      = some ⟨frame.name, type, handler⟩)
    (failed : (m.session.bindPayload (Session.eventBody frame.body) type
      m.session.eventMode).result = .error failure) (other : Nat) (event : Event) :
    .request (.handle other event) ∉ ((m.after before).step input).emitted := by
  intro shown
  obtain ⟨frame', processor, payload, routes, -, bound, -⟩ :=
    (step_stems (m.after before) input _ shown).of_handle
  obtain rfl := routes.received.unique received
  obtain ⟨same, -, -⟩ := registered_of_processor? unregistered routes.routed
  obtain rfl := Option.some.inj (same.symm.trans registered)
  have setup := sameSetup_run m before
  have again := bound
  unfold Session.eventPayload Session.bindPayload at again
  rw [setup.binder, setup.eventMode] at again
  cases failed.symm.trans again

theorem fails_of_unbound {rest : List Input} {body : Json} {type : String} {failure : CallFailure}
    (fresh : m.heldCalls = [])
    (few : (issuedIds (m.emitted (before ++ input :: rest))).length < 2 ^ 64)
    (hears : (m.after before).Hears input call (.ok body)) (asks : call.result = some type)
    (failed : (m.session.bindPayload body type m.session.responseMode).result = .error failure) :
    (∀ given ∈ outcomes call.id (m.emitted (before ++ input :: rest)), given = .error failure) ∧
    ((m.after before).session.isStale call = false →
      ¬ m.Happens (BreaksTelling call.id) (before ++ input :: rest) →
      ¬ (m.after (before ++ input :: rest)).Withholds call.id →
      outcomes call.id (m.emitted (before ++ input :: rest)) = [.error failure]) := by
  rw [← Session.settle_of_unbound asks failed]
  exact ((sequel_of_hears hears rest).append before).outcomes_eq fresh few

end Giving

/-- In any run of a session that is begun with a registry that was built: a callback of success is
run with a reply that shows the body of the response as the type that its command asks for, and a
handler with an event that shows its body as the type of its registration. A body that cannot be
bound is at fault itself: no handler is given it, and its call, when it is answered in time and the
listener does not break down on that response, fails with the error. No type is ever reported to be
unregistered. With the schemas of both dialects, the bodies are members of the frames. -/
theorem deliveries_are_typed {config : Config} {draft : Registry.Draft} {registry : Registry}
    {transcript : Transcript} {m : Machine} (built : draft.build = .ok registry)
    (began : m = initial config registry transcript) :
    (∀ before input id reply,
      .request (.succeed id reply) ∈ ((m.after before).step input).emitted →
      ∃ command call body, m.Happens (fun n i => n.Enters i command call) before ∧
        m.Happens (fun n i => n.Hears i call (.ok body)) (before ++ [input]) ∧ call.id = id ∧
        reply.Carries registry config.responseMode call body) ∧
    (∀ before input handler event,
      .request (.handle handler event) ∈ ((m.after before).step input).emitted →
      ∃ frame type, (m.after before).ReceivesEvent input frame ∧
        (m.session.binder.registrations before).find? (·.event == frame.name)
          = some ⟨frame.name, type, handler⟩ ∧
        event.Carries registry config.eventMode type frame) ∧
    (∀ before input rest call body type failure,
      (issuedIds (m.emitted (before ++ input :: rest))).length < 2 ^ 64 →
      (m.after before).Hears input call (.ok body) → call.result = some type →
      (m.session.bindPayload body type config.responseMode).result = .error failure →
      failure.isOfBinding = true ∧ failure.LiesInValue ∧
      (∀ given ∈ outcomes call.id (m.emitted (before ++ input :: rest)), given = .error failure) ∧
      ((m.after before).session.isStale call = false →
        ¬ m.Happens (BreaksTelling call.id) (before ++ input :: rest) →
        ¬ (m.after (before ++ input :: rest)).Withholds call.id →
        outcomes call.id (m.emitted (before ++ input :: rest)) = [.error failure])) ∧
    (∀ before input frame type handler failure, (m.after before).ReceivesEvent input frame →
      (m.session.binder.registrations before).find? (·.event == frame.name)
        = some ⟨frame.name, type, handler⟩ →
      (m.session.bindPayload (Session.eventBody frame.body) type config.eventMode).result
        = .error failure →
      failure.isOfBinding = true ∧ failure.LiesInValue ∧
      ∀ other event, .request (.handle other event) ∉ ((m.after before).step input).emitted) ∧
    (∀ before input emission failure, emission ∈ ((m.after before).step input).emitted →
      emission.failure? = some failure →
      failure.LiesInValue ∨ failure.IsOfEnvelope config.dialect registry) ∧
    (registry.Extends →
      (∀ failure : CallFailure, ¬ failure.IsOfEnvelope config.dialect registry) ∧
      (∀ before input id error,
        .notice (.unrecognizedFrame id error) ∈ ((m.after before).step input).emitted →
        error.LiesInValue) ∧
      (∀ before input call body, (m.after before).Hears input call (.ok body) →
        ∃ raw, (m.after before).Receives input raw ∧
          body = (raw.get? config.dialect.resultKey).getD .null) ∧
      ∀ before input frame, (m.after before).ReceivesEvent input frame →
        ∃ raw, (m.after before).Receives input raw ∧
          frame.body = (raw.get? config.dialect.paramsKey).getD .null) := by
  have sound : registry.Sound := Registry.Draft.sound_of_build built
  have fresh : m.heldCalls = [] := by rw [began, heldCalls_initial]
  have rested : m.stack = [] := by
    rw [began]
    rfl
  have unregistered : m.session.processors = [] := by
    rw [began]
    rfl
  have known : m.session.binder.registry = registry := by
    rw [began]
    rfl
  have spoken : m.session.dialect = config.dialect := by
    rw [began]
    rfl
  have modes : m.session.responseMode = config.responseMode ∧
      m.session.eventMode = config.eventMode := by
    rw [began]
    exact ⟨rfl, rfl⟩
  rw [← known] at sound
  rw [← known, ← spoken, ← modes.1, ← modes.2]
  refine ⟨?_, ?_, ?_, ?_, ?_, ?_⟩
  · exact fun before input id reply shown => carries_of_succeed rested fresh shown
  · exact fun before input handler event shown => carries_of_handle unregistered shown
  · intro before input rest call body type failure few hears asks failed
    have described := (enters_of_held fresh (held_of_completes (.onReceipt hears))).2 type asks
    obtain ⟨binding, lies⟩ := Session.bindPayload_blames sound described body _ failure failed
    exact ⟨binding, lies, fails_of_unbound fresh few hears asks failed⟩
  · intro before input frame type handler failure received registered failed
    have routed : (m.after before).session.processor? frame.name
        = some ⟨frame.name, type, handler⟩ := by
      rw [processor?_after, unregistered, List.append_nil]
      exact registered
    obtain ⟨-, -, described⟩ := registered_of_processor? unregistered routed
    obtain ⟨binding, lies⟩ := Session.bindPayload_blames sound described _ _ failure failed
    exact ⟨binding, lies, not_handled_of_unbound unregistered received registered failed⟩
  · intro before input emission failure shown tells
    exact reports_blame sound rested fresh unregistered shown tells
  · intro extending
    refine ⟨CallFailure.not_isOfEnvelope extending, ?_, ?_, ?_⟩
    · exact fun before input id error shown => unrecognized_blames sound extending shown
    · intro before input call body hears
      generalize success : (Except.ok body : Except RemoteError Json) = outcome at hears
      obtain ⟨received, decoded, -⟩ := hears
      have setup := sameSetup_run m before
      rw [setup.dialect, setup.binder] at decoded
      exact ⟨_, received, Dialect.body_of_response extending decoded success.symm⟩
    · rintro before input frame ⟨raw, received, decoded⟩
      have setup := sameSetup_run m before
      rw [setup.dialect, setup.binder] at decoded
      exact ⟨raw, received, Dialect.body_of_event extending decoded⟩

def evaluation : Command := ⟨"evaluate", none, some "V8Value"⟩

def evaluatingRun : List Input := [.start (.send evaluation none), .accepted]

def scalarText : String :=
  "\x7b\"type\":\"response\",\"request_seq\":1,\"command\":\"evaluate\",\"success\":true," ++
  "\"body\":\x7b\"type\":\"number\",\"value\":3\x7d\x7d"

theorem deliveries_are_typed_scalar :
    ∃ reply payload variant,
      .request (.succeed 1 reply) ∈ (((initial .default Catalog.registry .off).after
        evaluatingRun).step (.start (.receive scalarText))).emitted ∧
      reply.payload = some payload ∧ payload.variant? = some variant ∧
      variant.base = "V8Value" ∧ variant.type = payload.view.type ∧ payload.view.Decoded := by
  have built : Catalog.draft.build = .ok Catalog.registry := by rfl
  have replied : (outcomes 1 (((initial .default Catalog.registry .off).after
      evaluatingRun).step (.start (.receive scalarText))).emitted).any (·.isOk) = true := by
    decide +kernel
  obtain ⟨outcome, mem, succeeded⟩ := List.any_eq_true.1 replied
  cases outcome with
  | error failure => cases succeeded
  | ok reply =>
    have shown := succeed_of_mem_outcomes mem
    obtain ⟨command, call, body, ⟨earlier, sending, rest, split, enters⟩, -, -, carries⟩ :=
      (deliveries_are_typed built rfl).1 evaluatingRun _ 1 reply shown
    have asks : call.result = some "V8Value" := by
      obtain ⟨⟨token, ⟨operation, dismisses, rfl, sends⟩, -⟩, -, asks⟩ := enters
      have among : Input.start operation ∈ evaluatingRun := split ▸ by simp
      simp only [evaluatingRun, List.mem_cons, List.not_mem_nil, or_false, Input.start.injEq,
        reduceCtorEq] at among
      subst among
      cases sends
      exact asks
    obtain ⟨payload, given, shows⟩ := carries.typed _ asks
    obtain ⟨variant, narrowed, base, own, -⟩ := shows.narrowed _ _ rfl rfl
    exact ⟨reply, payload, variant, shown, given, narrowed, base, own, shows.decoded rfl⟩

end Machine

end DebugLink
