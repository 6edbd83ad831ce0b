import DebugLink.Proofs.Session.Nesting

/-!
# Operations come to their end

For every wait there is an answer, and whatever an operation does on that answer, further answers
see it through. So nothing that is in progress is ever stuck, however deep operations are nested.
-/

set_option autoImplicit false

namespace DebugLink

def Input.isOrderly : Input → Bool
  | .done | .accepted | .pulled _ => true
  | .start _ | .crashed | .refused _ => false

/-- Orderly answers can see an operation through that was begun above the waits `base`. -/
def Turn.Finishes (turn : Turn) (base : List Waiting) : Prop :=
  ∃ answers : List Input,
    (∀ answer ∈ answers, answer.isOrderly = true) ∧ turn.Spans base answers

namespace Turn.Finishes

variable {turn next : Turn} {base : List Waiting}

theorem of_ended (stack : turn.machine.stack = base) : turn.Finishes base :=
  ⟨[], by simp, .of_ended stack⟩

theorem of_answer {waiting : Waiting} (answer : Input) (orderly : answer.isOrderly = true)
    (stack : turn.machine.stack = waiting :: base)
    (given : Machine.answer? ⟨turn.machine.session, base⟩ waiting answer = some next)
    (rest : next.Finishes base) : turn.Finishes base := by
  obtain ⟨answers, all, spans⟩ := rest
  exact ⟨answer :: answers, List.forall_mem_cons.2 ⟨orderly, all⟩, .of_answer stack given spans⟩

theorem preceded (finishes : turn.Finishes base) (emissions : List Emission) :
    (turn.preceded emissions).Finishes base := by
  obtain ⟨answers, all, spans⟩ := finishes
  exact ⟨answers, all, spans.running, spans.finished⟩

theorem noticed (finishes : turn.Finishes base) (notices : List Notice) :
    (turn.noticed notices).Finishes base :=
  finishes.preceded _

end Turn.Finishes

namespace Machine

open Turn

/-! ## The work that several operations share -/

theorem announce_finishes (n : Machine) {waiting : Waiting} {next : Machine → Turn}
    (given : afterDone n waiting = some (next n)) (rest : (next n).Finishes n.stack) :
    (n.announce waiting next).Finishes n.stack := by
  rcases n.announce_cases waiting next with direct | ⟨listener, told⟩
  · rw [direct]
    exact rest
  · rw [told]
    exact .of_answer .done rfl rfl given rest

theorem release_finishes (n : Machine) {after : After}
    (ends : ∀ s, (conclude ⟨s, n.stack⟩ after).Finishes n.stack) :
    (n.release after).Finishes n.stack := by
  refine .of_answer .done rfl rfl rfl ?_
  exact announce_finishes ⟨_, n.stack⟩ rfl (ends _)

theorem drain_finishes (n : Machine) (reason : String) (calls : List PendingCall) {after : After}
    (ends : ∀ s, (conclude ⟨s, n.stack⟩ after).Finishes n.stack) :
    (n.drain reason calls after).Finishes n.stack := by
  induction calls generalizing n with
  | nil => exact release_finishes n ends
  | cons call calls ih => exact .of_answer .done rfl rfl rfl (ih n ends)

theorem transportClosed_finishes (n : Machine) (reason : String) :
    (n.transportClosed reason .finish).Finishes n.stack := by
  have closes : (n.close reason .finish).Finishes n.stack := by
    unfold close
    split
    · exact (drain_finishes (n.modify _) _ _ fun s => .of_ended rfl).noticed _
    · exact .of_ended rfl
  unfold transportClosed
  split
  · exact closes.noticed _
  · exact closes

/-- A reader that goes on may find that its source has ended. -/
theorem conclude_finishes (n : Machine) (after : After) : (n.conclude after).Finishes n.stack := by
  cases after with
  | finish | refuse => exact .of_ended rfl
  | read =>
    simp only [conclude]
    split
    · exact .of_ended rfl
    · exact .of_answer (.pulled .ended) rfl rfl rfl (transportClosed_finishes n _)

theorem giveCall_finishes (n : Machine) (id : UInt64) : (n.giveCall id).Finishes n.stack :=
  announce_finishes n rfl (.of_ended rfl)

theorem await_completing_finishes (n : Machine) (label : String) (request : Request)
    (after : After) : (n.await (.completing label after) request).Finishes n.stack :=
  .of_answer .done rfl rfl rfl (conclude_finishes n after)

theorem completeResponse_finishes (n : Machine) (call : PendingCall)
    (outcome : Except RemoteError Json) (stale : Bool) (after : After) :
    (n.completeResponse call outcome stale after).Finishes n.stack := by
  cases stale with
  | true => exact (conclude_finishes n after).preceded _
  | false =>
    obtain ⟨log, timely⟩ := completeResponse_timely n call outcome after
    rw [timely]
    exact (await_completing_finishes n _ _ after).noticed _

theorem completeMalformed_finishes (n : Machine) (call : PendingCall) (failure : CallFailure)
    (after : After) : (n.completeMalformed call failure after).Finishes n.stack := by
  unfold completeMalformed
  split
  · exact (conclude_finishes n after).preceded _
  · exact (await_completing_finishes n _ _ after).noticed _

/-! ## Every wait can be answered -/

theorem exists_answer (n : Machine) (waiting : Waiting) :
    ∃ answer next, answer.isOrderly = true ∧ n.answer? waiting answer = some next ∧
      next.Finishes n.stack := by
  cases waiting with
  | transmitting call invalidating =>
    refine ⟨.accepted, _, rfl, rfl, ?_⟩
    cases invalidating with
    | true => exact giveCall_finishes (n.modify Session.resume) call.id
    | false => exact giveCall_finishes n call.id
  | announcedCall id => exact ⟨.done, _, rfl, rfl, .of_ended rfl⟩
  | announcedResponse call outcome stale after =>
    exact ⟨.done, _, rfl, rfl, completeResponse_finishes n call outcome stale after⟩
  | announcedMalformed call failure after =>
    exact ⟨.done, _, rfl, rfl, completeMalformed_finishes n call failure after⟩
  | completing label after => exact ⟨.done, _, rfl, rfl, conclude_finishes n after⟩
  | draining label reason rest after =>
    exact ⟨.done, _, rfl, rfl,
      drain_finishes n reason rest fun s => conclude_finishes ⟨s, n.stack⟩ after⟩
  | closingTransport after =>
    exact ⟨.done, _, rfl, rfl, announce_finishes n rfl (conclude_finishes n after)⟩
  | announcedClose after => exact ⟨.done, _, rfl, rfl, conclude_finishes n after⟩
  | pulling => exact ⟨.pulled .ended, _, rfl, rfl, transportClosed_finishes n _⟩

end Machine

/-- Whatever waits above the waits `base` can be seen to its end, from the innermost wait out. -/
theorem Turn.finishes {turn : Turn} {base : List Waiting} (upper : List Waiting)
    (stack : turn.machine.stack = upper ++ base) : turn.Finishes base := by
  induction upper generalizing turn with
  | nil => exact .of_ended stack
  | cons waiting upper ih =>
    obtain ⟨answer, next, orderly, given, answers, all, spans⟩ :=
      Machine.exists_answer ⟨turn.machine.session, upper ++ base⟩ waiting
    have first : turn.Spans (upper ++ base) (answer :: answers) := .of_answer stack given spans
    have left : Turn.Finishes ⟨turn.machine.after (answer :: answers), []⟩ base :=
      ih (first.stack_eq ⟨[waiting], stack⟩)
    obtain ⟨others, every, rest⟩ := left
    refine ⟨(answer :: answers) ++ others, ?_, (first.runs upper).append rest⟩
    exact List.forall_mem_append.2 ⟨List.forall_mem_cons.2 ⟨orderly, all⟩, every⟩

end DebugLink
