import Mathlib.Data.List.Induction
import DebugLink.Proofs.Session.Identity
import DebugLink.Proofs.Session.Nesting
import DebugLink.Schema.Catalog

/-!
# Every call is completed once

Once nothing is in progress, a call whose send was accepted is still pending, has been completed
by just one outcome, or came too late to its response. The callbacks of a call whose send failed
never run.
-/

set_option autoImplicit false

namespace DebugLink

/-- The call whose response the listener is told of. -/
def Waiting.told? : Waiting → Option PendingCall
  | .announcedResponse call .. | .announcedMalformed call .. => some call
  | _ => none

namespace Machine

def initial (config : Config) (registry : Registry) (transcript : Transcript) : Machine :=
  .ofSession (.initial config registry transcript)

def ListenerCrash (m : Machine) (input : Input) : Prop :=
  input = .crashed ∧ ∃ waiting rest, m.stack = waiting :: rest ∧ waiting.isAnnouncement = true

/-- The listener breaks down when it is told of the response to a call. -/
def BreaksTelling (id : UInt64) (m : Machine) (input : Input) : Prop :=
  input = .crashed ∧ ∃ waiting rest call, m.stack = waiting :: rest ∧
    waiting.told? = some call ∧ call.id = id

def IsAnswered (call : PendingCall) (m : Machine) (input : Input) : Prop :=
  ∃ raw, m.Answers input raw call

/-- In a run, a response addressed to the call of an id was handled while the token of the call
was not current. -/
def HandledLate (m : Machine) (inputs : List Input) (id : UInt64) : Prop :=
  ∃ before input rest call token, inputs = before ++ input :: rest ∧ call.id = id ∧
    call.token = some token ∧ (m.after before).Judges input call ∧
    m.Happens (IsAnswered call) (before ++ [input]) ∧
    (m.after before).session.context.isCurrent token = false

inductive Fate (m : Machine) (inputs : List Input) (id : UInt64) : Prop where
  | waiting (pending : (m.after inputs).session.isPending id = true)
      (silent : outcomes id (m.emitted inputs) = [])
  | succeeded (reply : Reply) (gone : (m.after inputs).session.isPending id = false)
      (once : outcomes id (m.emitted inputs) = [.ok reply])
  | failed (failure : CallFailure) (gone : (m.after inputs).session.isPending id = false)
      (once : outcomes id (m.emitted inputs) = [.error failure])
  | dropped (gone : (m.after inputs).session.isPending id = false)
      (silent : outcomes id (m.emitted inputs) = []) (late : m.HandledLate inputs id)

end Machine

/-! ## Why a call is abandoned -/

namespace Machine

theorem heldCalls_initial (config : Config) (registry : Registry) (transcript : Transcript) :
    (initial config registry transcript).heldCalls = [] := rfl

theorem Hears.isAnswered {m : Machine} {input : Input} {call : PendingCall}
    {outcome : Except RemoteError Json} (hears : m.Hears input call outcome) :
    IsAnswered call m input := by
  obtain ⟨received, decoded, pending⟩ := hears
  have named := (Session.call?_eq_some pending).2
  refine ⟨_, received, ?_, named ▸ pending⟩
  rw [named, Dialect.answeredId?, decoded]

theorem Mishears.isAnswered {m : Machine} {input : Input} {call : PendingCall}
    {failure : CallFailure} (mishears : m.Mishears input call failure) :
    IsAnswered call m input := by
  obtain ⟨received, refused, addressed, -, pending⟩ := mishears
  have named := (Session.call?_eq_some pending).2
  refine ⟨_, received, ?_, named ▸ pending⟩
  rw [named, Dialect.answeredId?, refused]
  exact addressed

/-- What is in a hand stems from a response that was taken in earlier in the run. -/
def Traced (m : Machine) (past : List Input) : Hand → Prop
  | .response call outcome stale =>
    m.Happens (fun n input => n.Hears input call outcome ∧ n.session.isStale call = stale) past
  | .undecodable call failure => m.Happens (fun n input => n.Mishears input call failure) past
  | .nothing | .sent _ | .drained .. => True

theorem Traced.extend {m : Machine} {past : List Input} {hand : Hand} (traced : m.Traced past hand)
    (more : List Input) : m.Traced (past ++ more) hand := by
  cases hand with
  | response call outcome stale =>
    rw [Traced, happens_append]
    exact .inl traced
  | undecodable call failure =>
    rw [Traced, happens_append]
    exact .inl traced
  | nothing | sent | drained => trivial

theorem HandledLate.extend {m : Machine} {inputs : List Input} {id : UInt64}
    (late : m.HandledLate inputs id) (more : List Input) :
    m.HandledLate (inputs ++ more) id := by
  obtain ⟨before, input, rest, call, token, rfl, handled⟩ := late
  exact ⟨before, input, rest ++ more, call, token, by simp, handled⟩

end Machine

theorem Session.isStale_iff {session : Session} {call : PendingCall} :
    session.isStale call = true ↔
      ∃ token, call.token = some token ∧ session.context.isCurrent token = false := by
  unfold Session.isStale ContextTracker.allows
  cases call.token <;> simp

section Abandoning

variable {m : Machine} {before : List Input} {input : Input}

theorem Work.traced {s t : Session} {hand next : Hand} {es : List Emission}
    (work : Work (m.after before) input s hand es t next)
    (known : m.Traced (before ++ [input]) hand) : m.Traced (before ++ [input]) next := by
  cases work with
  | responded received decoded pending =>
    rw [Machine.Traced, Machine.happens_append, Machine.happens_single]
    exact .inr ⟨⟨received, decoded, pending⟩, rfl⟩
  | malformed received refused addressed meant pending =>
    rw [Machine.Traced, Machine.happens_append, Machine.happens_single]
    exact .inr ⟨received, refused, addressed, meant, pending⟩
  | noticed | transcribed | resumed => exact known
  | _ => trivial

theorem Work.handledLate {s t : Session} {hand next : Hand} {es : List Emission} {id : UInt64}
    (work : Work (m.after before) input s hand es t next)
    (waits : ∀ waiting ∈ (m.after before).stack, m.Traced before waiting.hand)
    (known : m.Traced (before ++ [input]) hand) (dropped : id ∈ abandonedIds es) :
    m.HandledLate (before ++ [input]) id := by
  cases work with
  | abandoned =>
    rename_i call outcome
    obtain ⟨early, receipt, late, split, heard, stale⟩ := known
    obtain ⟨raw, answers⟩ := heard.isAnswered
    obtain ⟨token, stamped, dismissed⟩ := Session.isStale_iff.1 stale
    have named : id = call.id := List.mem_singleton.1 dropped
    refine ⟨early, receipt, late, call, token, split, named.symm, stamped, .onReceipt answers,
      ⟨early, receipt, [], rfl, raw, answers⟩, dismissed⟩
  | abandonedMalformed judged stale =>
    rename_i call failure
    obtain ⟨token, stamped, dismissed⟩ := Session.isStale_iff.1 stale
    have named : id = call.id := List.mem_singleton.1 dropped
    refine ⟨before, input, [], call, token, rfl, named.symm, stamped, judged, ?_, dismissed⟩
    cases judged with
    | onReceipt answers => exact Machine.happens_append.2 (.inr (Machine.happens_single.2 ⟨_, answers⟩))
    | onceTold waited =>
      rename_i told after rest
      have traced : m.Happens (fun n input => n.Mishears input call told) before :=
        waits (.announcedMalformed call told after) (by rw [waited]; exact List.mem_cons_self)
      exact Machine.happens_append.2 (.inl (traced.imp fun _ _ mishears => mishears.isAnswered))
  | _ => cases dropped

theorem Ends.traced {s t : Session} {hand : Hand} {es : List Emission} {waiting : Option Waiting}
    (last : Ends (m.after before) input s hand es t waiting)
    (known : m.Traced (before ++ [input]) hand) :
    (∀ wait ∈ waiting, m.Traced (before ++ [input]) wait.hand) ∧
    (∀ id ∈ abandonedIds es, (m.after before).BreaksTelling id input) := by
  cases last with
  | responseBroken broken waited =>
    exact ⟨by simp, fun id dropped =>
      ⟨broken, _, _, _, waited, rfl, (List.mem_singleton.1 dropped).symm⟩⟩
  | malformedBroken broken waited =>
    exact ⟨by simp, fun id dropped =>
      ⟨broken, _, _, _, waited, rfl, (List.mem_singleton.1 dropped).symm⟩⟩
  | announced waiting listener listens announcement =>
    exact ⟨by simpa using known, fun id dropped => absurd dropped List.not_mem_nil⟩
  | completed | failedMalformed | drained =>
    rw [abandonedIds_complete]
    exact ⟨by simp [Waiting.hand, Machine.Traced],
      fun id dropped => absurd dropped List.not_mem_nil⟩
  | _ =>
    exact ⟨by simp [Waiting.hand, Machine.Traced],
      fun id dropped => absurd dropped List.not_mem_nil⟩

/-- What a step leaves to its waits stems from the run, and a call is abandoned only for its
lateness or when the listener breaks down on its response. -/
theorem Works.traced {base : List Waiting} {s : Session} {hand : Hand} {turn : Turn}
    (works : Works (m.after before) input base s hand turn)
    (waits : ∀ waiting ∈ (m.after before).stack, m.Traced before waiting.hand)
    (below : base ⊆ (m.after before).stack) (known : m.Traced (before ++ [input]) hand) :
    (∀ waiting ∈ turn.machine.stack, m.Traced (before ++ [input]) waiting.hand) ∧
    (∀ id ∈ abandonedIds turn.emitted,
      m.HandledLate (before ++ [input]) id ∨ (m.after before).BreaksTelling id input) := by
  induction works with
  | ends last =>
    obtain ⟨left, broken⟩ := last.traced known
    constructor
    · intro waiting mem
      rcases List.mem_append.1 mem with own | other
      · exact left waiting (Option.mem_toList.1 own)
      · exact (waits waiting (below other)).extend [input]
    · intro id dropped
      exact .inr (broken id dropped)
  | work first rest ih =>
    obtain ⟨left, later⟩ := ih (first.traced known)
    refine ⟨left, ?_⟩
    intro id dropped
    simp only [Turn.preceded, abandonedIds_append] at dropped
    rcases List.mem_append.1 dropped with now | afterwards
    · exact .inl (first.handledLate waits known now)
    · exact later id afterwards

end Abandoning

namespace Machine

theorem traced_step {m : Machine} {before : List Input} (input : Input)
    (waits : ∀ waiting ∈ (m.after before).stack, m.Traced before waiting.hand) :
    (∀ waiting ∈ ((m.after before).step input).machine.stack,
      m.Traced (before ++ [input]) waiting.hand) ∧
    (∀ id ∈ abandonedIds ((m.after before).step input).emitted,
      m.HandledLate (before ++ [input]) id ∨ (m.after before).BreaksTelling id input) := by
  rcases step_works (m.after before) input with idle | works
  · rw [idle]
    exact ⟨fun waiting mem => (waits waiting mem).extend [input], by simp [abandonedIds]⟩
  · refine works.traced waits (base_subset _ input) ?_
    rcases hand_cases (m.after before) input with empty | ⟨waiting, mem, same⟩
    · rw [empty]
      trivial
    · rw [same]
      exact (waits waiting mem).extend [input]

theorem traced_run {m : Machine} (rest : m.stack = []) (inputs : List Input) :
    (∀ waiting ∈ (m.after inputs).stack, m.Traced inputs waiting.hand) ∧
    (∀ id ∈ abandonedIds (m.emitted inputs),
      m.HandledLate inputs id ∨ m.Happens (BreaksTelling id) inputs) := by
  -- From the last step back: what a step finds stems from the run before it.
  induction inputs using List.reverseRecOn with
  | nil => exact ⟨by simp [rest], by simp [abandonedIds]⟩
  | append_singleton before input ih =>
    obtain ⟨waits, causes⟩ := ih
    have step := traced_step input waits
    constructor
    · rw [after_concat]
      exact step.1
    · intro id dropped
      rw [emitted_concat, abandonedIds_append] at dropped
      rcases List.mem_append.1 dropped with earlier | now
      · exact (causes id earlier).imp (·.extend [input])
          fun broken => happens_append.2 (.inl broken)
      · exact (step.2 id now).imp_right
          fun broken => happens_append.2 (.inr (happens_single.2 broken))

theorem BreaksTelling.listenerCrash {m : Machine} {input : Input} {id : UInt64}
    (broken : m.BreaksTelling id input) : m.ListenerCrash input := by
  obtain ⟨crashed, waiting, rest, call, stack, told, -⟩ := broken
  refine ⟨crashed, waiting, rest, stack, ?_⟩
  cases waiting with
  | announcedResponse | announcedMalformed => rfl
  | _ => cases told

end Machine

theorem Turn.Spans.goes_on_told {turn : Turn} {base : List Waiting} {body : List Input}
    {waiting : Waiting} {call : PendingCall} (spans : turn.Spans base body)
    (told : waiting.told? = some call) (stack : turn.machine.stack = waiting :: base)
    (sound : ¬ turn.machine.Happens (Machine.BreaksTelling call.id) body) :
    ∃ before rest next, body = before ++ .done :: rest ∧
      (turn.machine.after before).stack = waiting :: base ∧
      Machine.afterDone ⟨(turn.machine.after before).session, base⟩ waiting = some next ∧
      (turn.machine.after before).step .done = next := by
  obtain ⟨before, input, rest, next, split, -, waits, given, taken, -⟩ := spans.goes_on stack
  cases input with
  | done => exact ⟨before, rest, next, split, waits, given, taken⟩
  | crashed =>
    exact absurd ⟨before, .crashed, rest, split, rfl, waiting, base, call, waits, told, rfl⟩ sound
  | start => cases given
  | accepted | refused | pulled => cases waiting <;> cases told <;> cases given

/-! ## Sends that fail -/

theorem Ends.waits_of_issued {m : Machine} {input : Input} {s t : Session} {hand : Hand}
    {es : List Emission} {waiting : Option Waiting} (last : Ends m input s hand es t waiting)
    {id : UInt64} (issued : id ∈ issuedIds es) :
    (∃ operation, input = .start operation) ∧
      ∃ call invalidating, waiting = some (.transmitting call invalidating) ∧ call.id = id := by
  cases last with
  | entered asked sends connected =>
    exact ⟨⟨_, asked⟩, _, _, rfl, (List.mem_singleton.1 issued).symm⟩
  | completed | failedMalformed | drained =>
    rw [issuedIds_complete] at issued
    cases issued
  | _ => cases issued

theorem Works.waits_of_issued {m : Machine} {input : Input} {base : List Waiting} {s : Session}
    {hand : Hand} {turn : Turn} (works : Works m input base s hand turn) {id : UInt64}
    (issued : id ∈ issuedIds turn.emitted) :
    (∃ operation, input = .start operation) ∧
      ∃ call invalidating, turn.machine.stack = .transmitting call invalidating :: base ∧
        call.id = id := by
  induction works with
  | ends last =>
    obtain ⟨asked, call, invalidating, rfl, named⟩ := last.waits_of_issued issued
    exact ⟨asked, call, invalidating, rfl, named⟩
  | work first rest ih =>
    have quiet := first.silent.1
    rw [Turn.preceded, issuedIds_append, quiet, List.nil_append] at issued
    exact ih issued

namespace Machine

theorem waits_of_issued {m : Machine} {input : Input} {id : UInt64}
    (issued : id ∈ issuedIds (m.step input).emitted) :
    (∃ operation, input = .start operation) ∧
      ∃ call invalidating,
        (m.step input).machine.stack = .transmitting call invalidating :: m.base input ∧
        call.id = id := by
  rcases step_works m input with idle | works
  · rw [idle] at issued
    cases issued
  · exact works.waits_of_issued issued

theorem transmitted_stack (n : Machine) (invalidating : Bool) :
    (n.transmitted invalidating).stack = n.stack := by
  cases invalidating <;> rfl

theorem transmitted_calls (n : Machine) (invalidating : Bool) :
    (n.transmitted invalidating).session.calls = n.session.calls := by
  cases invalidating <;> rfl

end Machine

namespace Turn.Concludes

theorem result_of_giveCall {n : Machine} {body : List Input} {result : Result} {id : UInt64}
    (emissions : List Emission)
    (concludes : ((n.giveCall id).preceded emissions).Concludes n.stack body result) :
    result = .call id := by
  rw [Machine.giveCall] at concludes
  rcases n.announce_cases (.announcedCall id) (·.give (.call id)) with direct | ⟨listener, told⟩
  · rw [direct] at concludes
    obtain ⟨-, last⟩ := concludes.ended rfl
    simpa [Turn.preceded, Machine.give] using last.symm
  · rw [told] at concludes
    obtain ⟨_, _, next, -, -, given, -, concludes⟩ := concludes.goes_on_told rfl rfl
    cases given
    obtain ⟨-, last⟩ := concludes.ended rfl
    simpa [Machine.give] using last.symm

/-- A send whose frame was handed over gives its call or, when the frame was refused while the call
was pending, the error of the transport. -/
theorem call_or_refused {turn : Turn} {base : List Waiting} {body : List Input} {result : Result}
    {call : PendingCall} {invalidating : Bool} (concludes : turn.Concludes base body result)
    (waits : turn.machine.stack = .transmitting call invalidating :: base) :
    result = .call call.id ∨
      ∃ before refusal rest, body = before ++ .refused refusal :: rest ∧
        (turn.machine.after before).stack = .transmitting call invalidating :: base ∧
        (turn.machine.after before).session.isPending call.id = true ∧
        result = .failed (.transport refusal) := by
  obtain ⟨before, input, rest, next, split, stack, given, taken, concludes⟩ :=
    concludes.goes_on waits
  cases input with
  | start | done | pulled => cases given
  | crashed =>
    cases given
    obtain ⟨-, last⟩ := concludes.ended rfl
    simp [Machine.afterCrash] at last
  | accepted =>
    cases given
    exact .inl (result_of_giveCall [] (by rw [Machine.transmitted_stack]; exact concludes))
  | refused refusal =>
    cases given
    cases pending : (turn.machine.after before).session.isPending call.id with
    | true =>
      simp only [Machine.refused, pending, if_true] at concludes
      have gives : (After.refuse refusal).result? = some (.failed (.transport refusal)) := rfl
      exact .inr ⟨before, refusal, rest, split, stack, pending,
        result_of_close gives _ (by rw [Machine.transmitted_stack]; exact concludes)⟩
    | false =>
      simp only [Machine.refused, pending] at concludes
      exact .inl (result_of_giveCall _ (by rw [Machine.transmitted_stack]; exact concludes))

theorem refused_of_failed {turn : Turn} {base : List Waiting} {body : List Input}
    {error : SessionError} {call : PendingCall} {invalidating : Bool}
    (concludes : turn.Concludes base body (.failed error))
    (waits : turn.machine.stack = .transmitting call invalidating :: base) :
    ∃ before refusal rest, body = before ++ .refused refusal :: rest ∧
      (turn.machine.after before).stack = .transmitting call invalidating :: base ∧
      (turn.machine.after before).session.isPending call.id = true ∧
      error = .transport refusal := by
  obtain given | ⟨before, refusal, rest, split, stack, pending, given⟩ :=
    concludes.call_or_refused waits
  · cases given
  · cases given
    exact ⟨before, refusal, rest, split, stack, pending, rfl⟩

end Turn.Concludes

namespace Machine

theorem step_of_refused {m : Machine} {call : PendingCall} {invalidating : Bool}
    {base : List Waiting} (refusal : TransportError)
    (waits : m.stack = .transmitting call invalidating :: base)
    (pending : m.session.isPending call.id = true) :
    m.step (.refused refusal)
      = (((modify ⟨m.session, base⟩ (·.removeCall call.id)).transmitted invalidating).close
          ("transport failure: " ++ refusal.message) (.refuse refusal)).noticed
          [.sendFailed call.id refusal] := by
  refine step_of_answer waits ?_
  simp only [answer?, refused, pending, if_true]

theorem held_after_refused {m : Machine} {call : PendingCall} {invalidating : Bool}
    {base : List Waiting} (refusal : TransportError)
    (waits : m.stack = .transmitting call invalidating :: base)
    (pending : m.session.isPending call.id = true) :
    (m.step (.refused refusal)).machine.held call.id
        + (outcomes call.id (m.step (.refused refusal)).emitted).length + 1
      ≤ m.held call.id + (issuedIds (m.step (.refused refusal)).emitted).count call.id := by
  let withdrawn := (modify ⟨m.session, base⟩ (·.removeCall call.id)).transmitted invalidating
  have closed : Works m (.refused refusal) withdrawn.stack withdrawn.session .nothing
      (withdrawn.close ("transport failure: " ++ refusal.message) (.refuse refusal)) :=
    close_works withdrawn _ _
  have told := closed.noticed [.sendFailed call.id refusal]
    (by simp [Notice.isSuspension])
  have step_eq : m.step (.refused refusal)
      = (withdrawn.close ("transport failure: " ++ refusal.message) (.refuse refusal)).noticed
          [.sendFailed call.id refusal] := step_of_refused refusal waits pending
  obtain ⟨others, books, -, -⟩ := told.balance call.id
  obtain ⟨found, pendingCall⟩ := Option.isSome_iff_exists.1 pending
  have removed := Session.copies_removeCall pendingCall call.id
  have named := (Session.call?_eq_some pendingCall).2
  have table : withdrawn.session.calls = (m.session.removeCall call.id).calls :=
    transmitted_calls _ invalidating
  have below : withdrawn.stack = base := transmitted_stack _ invalidating
  have before : m.held call.id
      = copies call.id m.session.calls + copies call.id (base.flatMap (·.hand.calls)) := by
    rw [held, heldCalls, waits, List.flatMap_cons, copies_append]
    rfl
  rw [if_pos named] at removed
  rw [table, below] at books
  have nothing : copies call.id Hand.nothing.calls = 0 := rfl
  rw [step_eq, before]
  omega

theorem outcomes_of_refused {m : Machine} {before rest : List Input} {refusal : TransportError}
    {call : PendingCall} {invalidating : Bool} {base : List Waiting} (fresh : m.heldCalls = [])
    (once : (issuedIds (m.emitted (before ++ .refused refusal :: rest))).count call.id ≤ 1)
    (waits : (m.after before).stack = .transmitting call invalidating :: base)
    (pending : (m.after before).session.isPending call.id = true) :
    outcomes call.id (m.emitted (before ++ .refused refusal :: rest)) = [] := by
  obtain ⟨earlier, books, -, -⟩ := balance_run m before call.id
  have stepBooks := held_after_refused refusal waits pending
  obtain ⟨later, restBooks, -, -⟩ := balance_run
    ((m.after before).step (.refused refusal)).machine rest call.id
  have none : m.held call.id = 0 := by rw [held, fresh, copies_nil]
  have some : 0 < (m.after before).held call.id := by
    have table := Session.isPending_iff_copies.1 pending
    rw [held, heldCalls, copies_append]
    omega
  rw [emitted_append, emitted_cons, issuedIds_append, issuedIds_append, List.count_append,
    List.count_append] at once
  rw [emitted_append, emitted_cons, outcomes_append, outcomes_append]
  apply List.eq_nil_of_length_eq_zero
  rw [List.length_append, List.length_append]
  omega

theorem outcomes_of_failed {m : Machine} {before body rest : List Input} {operation : Operation}
    {error : SessionError} {id : UInt64} (fresh : m.heldCalls = [])
    (few : (issuedIds (m.emitted (before ++ .start operation :: (body ++ rest)))).length < 2 ^ 64)
    (failed : (m.after before).Performs operation body (.failed error))
    (issued : id ∈ issuedIds ((m.after before).step (.start operation)).emitted) :
    outcomes id (m.emitted (before ++ .start operation :: (body ++ rest))) = [] := by
  obtain ⟨-, call, invalidating, waits, named⟩ := waits_of_issued issued
  obtain ⟨early, refusal, late, split, stack, pending, -⟩ := failed.refused_of_failed waits
  rw [← after_cons, ← after_append] at stack pending
  have whole : before ++ .start operation :: (body ++ rest)
      = (before ++ .start operation :: early) ++ .refused refusal :: (late ++ rest) := by
    simp [split]
  rw [whole] at few ⊢
  rw [← named]
  exact outcomes_of_refused fresh (count_issuedIds_le_one few call.id) stack pending

/-! ## What becomes of a call -/

/-- A call whose send was accepted, and which nothing that is in progress holds, is pending,
completed once or dropped for its lateness, provided that no other call had its id. -/
theorem fate_of_unheld {m : Machine} {inputs : List Input} {id : UInt64} (rest : m.stack = [])
    (fresh : m.heldCalls = []) (once : (issuedIds (m.emitted inputs)).count id ≤ 1)
    (sound : ¬ m.Happens ListenerCrash inputs)
    (free : copies id ((m.after inputs).stack.flatMap (·.hand.calls)) = 0)
    (taken : id ∈ acceptedIds (m.emitted inputs)) : m.Fate inputs id := by
  obtain ⟨withdrawn, calls, sends, -⟩ := balance_run m inputs id
  have given := List.count_pos_iff.2 taken
  have none : m.held id = 0 := by rw [held, fresh, copies_nil]
  have idle : m.sends id = 0 := by
    rw [Machine.sends, rest]
    rfl
  have table : (m.after inputs).held id = copies id (m.after inputs).session.calls := by
    rw [held, heldCalls, copies_append, free, Nat.add_zero]
  have gone : copies id (m.after inputs).session.calls = 0 →
      (m.after inputs).session.isPending id = false := by
    intro zero
    rw [← Bool.not_eq_true, Session.isPending_iff_copies]
    omega
  cases seen : outcomes id (m.emitted inputs) with
  | nil =>
    rw [seen, List.length_nil] at calls
    by_cases pending : (m.after inputs).session.isPending id = true
    · exact .waiting pending seen
    · have dropped : id ∈ abandonedIds (m.emitted inputs) := by
        rw [Session.isPending_iff_copies] at pending
        apply List.count_pos_iff.1
        omega
      have late := ((traced_run rest inputs).2 id dropped).resolve_right fun broken =>
        sound (broken.imp fun _ _ => BreaksTelling.listenerCrash)
      exact .dropped (by simpa using pending) seen late
  | cons outcome others =>
    rw [seen, List.length_cons] at calls
    have single : others = [] := List.eq_nil_of_length_eq_zero (by omega)
    rw [single] at seen
    cases outcome with
    | ok reply => exact .succeeded reply (gone (by omega)) seen
    | error failure => exact .failed failure (gone (by omega)) seen

theorem fate_of_accepted {m : Machine} {inputs : List Input} {id : UInt64} (rest : m.stack = [])
    (fresh : m.heldCalls = []) (few : (issuedIds (m.emitted inputs)).length < 2 ^ 64)
    (sound : ¬ m.Happens ListenerCrash inputs) (resting : (m.after inputs).isResting = true)
    (taken : id ∈ acceptedIds (m.emitted inputs)) : m.Fate inputs id := by
  have stack : (m.after inputs).stack = [] := List.isEmpty_iff.1 resting
  exact fate_of_unheld rest fresh (count_issuedIds_le_one few id) sound (by rw [stack]; rfl) taken

/-- As long as ids last and the listener does not break down, a call whose send was accepted is
completed once unless it still waits or came too late, and one whose send failed never is. -/
theorem completes_exactly_once {config : Config} {registry : Registry} {transcript : Transcript}
    {m : Machine} (inputs : List Input) (began : m = initial config registry transcript)
    (few : (issuedIds (m.emitted inputs)).length < 2 ^ 64)
    (sound : ¬ m.Happens ListenerCrash inputs) :
    ((m.after inputs).isResting = true →
      ∀ id ∈ acceptedIds (m.emitted inputs), m.Fate inputs id) ∧
    (∀ before operation body rest error id,
      inputs = before ++ .start operation :: (body ++ rest) →
      (m.after before).Performs operation body (.failed error) →
      id ∈ issuedIds ((m.after before).step (.start operation)).emitted →
      outcomes id (m.emitted inputs) = []) := by
  have fresh : m.heldCalls = [] := by rw [began, heldCalls_initial]
  have rested : m.stack = [] := by
    rw [began]
    rfl
  constructor
  · intro resting id taken
    exact fate_of_accepted rested fresh few sound resting taken
  · rintro before operation body rest error id rfl failed issued
    exact outcomes_of_failed fresh few failed issued

def refusedRun : List Input :=
  [.start (.send ⟨"version", none, none⟩ none), .accepted,
    .start (.send ⟨"scripts", none, none⟩ none), .refused .closed, .done, .done]

/-- The first call is failed by the close that the refusal brings, the second never completed. -/
theorem completes_exactly_once_at_refusal :
    (initial .default Catalog.registry .off).Fate refusedRun 1 ∧
    outcomes 2 ((initial .default Catalog.registry .off).emitted refusedRun) = [] := by
  have few : (issuedIds ((initial .default Catalog.registry .off).emitted refusedRun)).length
      < 2 ^ 64 := by decide
  have sound : ¬ (initial .default Catalog.registry .off).Happens ListenerCrash refusedRun := by
    intro broken
    simpa [refusedRun] using broken.mem fun _ _ broken => broken.1
  have failed : ((initial .default Catalog.registry .off).after (refusedRun.take 2)).Performs
      (.send ⟨"scripts", none, none⟩ none) (refusedRun.drop 3)
      (.failed (.transport .closed)) := by
    refine ⟨?_, by decide, rfl⟩
    intro before input rest split
    match before with
    | [] => decide
    | [first] =>
      cases split
      decide
    | [first, second] =>
      cases split
      decide
    | first :: second :: third :: before => simp [refusedRun] at split
  obtain ⟨fates, silence⟩ :=
    completes_exactly_once refusedRun rfl few sound
  exact ⟨fates (by decide) 1 (by decide), silence _ _ _ [] _ 2 rfl failed (by decide)⟩

end Machine

end DebugLink
