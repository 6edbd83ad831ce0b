import DebugLink.Proofs.Session.Identity
import DebugLink.Proofs.Session.Nesting
import DebugLink.Proofs.Wire.Envelope

/-!
# Taking in a response

The step that takes in a response addressed to a pending call takes the call out of the table and
into its hand, and leaves the session as the response makes it; what the listener is told and which
callback runs does not touch the session any more.
-/

set_option autoImplicit false

namespace DebugLink

namespace Machine

/-! ## The session after the step -/

theorem conclude_session (n : Machine) (after : After) :
    (n.conclude after).machine.session = n.session := by
  cases after with
  | finish => rfl
  | refuse error => rfl
  | read =>
    simp only [conclude]
    split <;> rfl

theorem announce_session (n : Machine) (waiting : Waiting) (next : Machine → Turn)
    (kept : (next n).machine.session = n.session) :
    (n.announce waiting next).machine.session = n.session := by
  unfold announce
  split
  · exact kept
  · rfl

theorem completeResponse_session (n : Machine) (call : PendingCall)
    (outcome : Except RemoteError Json) (stale : Bool) (after : After) :
    (n.completeResponse call outcome stale after).machine.session = n.session := by
  unfold completeResponse
  split
  · exact conclude_session n after
  · cases outcome with
    | error error => rfl
    | ok body =>
      dsimp only [Turn.noticed, Turn.preceded]
      split <;> rfl

theorem completeMalformed_session (n : Machine) (call : PendingCall) (failure : CallFailure)
    (after : After) : (n.completeMalformed call failure after).machine.session = n.session := by
  unfold completeMalformed
  split
  · exact conclude_session n after
  · rfl

theorem deliverResponse_session (n : Machine) {frame : ResponseFrame} {call : PendingCall}
    (after : After) (pending : n.session.call? frame.id = some call) :
    (n.deliverResponse frame after).machine.session
      = absorb (n.session.removeCall frame.id) frame (n.session.isStale call) := by
  unfold deliverResponse
  rw [pending]
  exact announce_session _ _ _ (completeResponse_session _ _ _ _ _)

theorem deliverMalformed_session (n : Machine) {id : UInt64} {error : FrameError}
    {failure : CallFailure} {call : PendingCall} (after : After)
    (meant : failureOf? error = some failure) (pending : n.session.call? id = some call) :
    (n.deliverMalformed id error after).machine.session = n.session.removeCall id := by
  unfold deliverMalformed
  simp only [meant, pending]
  exact announce_session _ _ _ (completeMalformed_session _ _ _ _)

/-! ## The step -/

theorem receive_of_response (n : Machine) {text : String} {raw : Json} {frame : ResponseFrame}
    (after : After) (opened : n.session.phase ≠ .closed) (parsed : Json.parse? text = some raw)
    (decoded : (n.session.dialect.classify n.session.binder raw).result = .ok (.response frame)) :
    n.receive text after
      = ((n.deliverResponse frame after).noticed
          ((n.session.dialect.classify n.session.binder raw).run.log.map .ambiguous)).preceded
            (n.transcribe "<-" text) := by
  have value : (n.session.dialect.classify n.session.binder raw).run.value
      = .ok (.response frame) := decoded
  unfold receive
  rw [if_neg opened, parsed]
  simp only [deliver, value]

theorem receive_of_undecodable (n : Machine) {text : String} {raw : Json} {error : FrameError}
    {id : UInt64} (after : After) (opened : n.session.phase ≠ .closed)
    (parsed : Json.parse? text = some raw)
    (refused : (n.session.dialect.classify n.session.binder raw).result = .error error)
    (addressed : n.session.dialect.responseId? raw = some id) :
    n.receive text after
      = ((n.deliverMalformed id error after).noticed
          ((n.session.dialect.classify n.session.binder raw).run.log.map .ambiguous)).preceded
            (n.transcribe "<-" text) := by
  have value : (n.session.dialect.classify n.session.binder raw).run.value = .error error := refused
  unfold receive
  rw [if_neg opened, parsed]
  simp only [deliver, value, addressed]

theorem step_of_incoming {m : Machine} {input : Input} {text : String}
    (incoming : m.incoming? input = some text) :
    ∃ after, m.step input = receive ⟨m.session, m.base input⟩ text after := by
  cases input with
  | start operation =>
    cases operation <;> cases incoming
    exact ⟨.finish, rfl⟩
  | pulled pulled =>
    cases pulled with
    | frame text =>
      simp only [incoming?] at incoming
      split at incoming
      · rename_i rest waited
        cases incoming
        refine ⟨.read, ?_⟩
        simp only [step, base, waited, answer?, afterPull, List.tail_cons]
      · cases incoming
    | _ => cases incoming
  | _ => cases incoming

theorem step_of_receives {m : Machine} {input : Input} {raw : Json}
    (received : m.Receives input raw) :
    ∃ text after, m.incoming? input = some text ∧ Json.parse? text = some raw ∧
      m.step input = receive ⟨m.session, m.base input⟩ text after := by
  obtain ⟨text, incoming, parsed⟩ := Option.bind_eq_some_iff.1 received.text
  obtain ⟨after, taken⟩ := step_of_incoming incoming
  exact ⟨text, after, incoming, parsed, taken⟩

theorem failureOf?_of_addressed {dialect : Dialect} {binder : Binder} {raw : Json}
    {error : FrameError} {id : UInt64} (extending : binder.registry.Extends)
    (refused : (dialect.classify binder raw).result = .error error)
    (addressed : dialect.responseId? raw = some id) :
    ∃ failure, failureOf? error = some failure := by
  rcases Dialect.classify_of_responseId? extending addressed with ⟨frame, decoded, -⟩ | ⟨cause, same⟩
  · cases decoded.symm.trans refused
  · cases same.symm.trans refused
    cases cause <;> exact ⟨_, rfl⟩

inductive Takes (m : Machine) (raw : Json) (call : PendingCall) : Session → Hand → Prop where
  | response {frame : ResponseFrame}
      (decoded : (m.session.dialect.classify m.session.binder raw).result = .ok (.response frame))
      (named : frame.id = call.id) :
      Takes m raw call (absorb (m.session.removeCall call.id) frame (m.session.isStale call))
        (.response call frame.outcome (m.session.isStale call))
  | undecodable {error : FrameError} {failure : CallFailure}
      (refused : (m.session.dialect.classify m.session.binder raw).result = .error error)
      (addressed : m.session.dialect.responseId? raw = some call.id)
      (meant : failureOf? error = some failure) :
      Takes m raw call (m.session.removeCall call.id) (.undecodable call failure)

/-- With the schemas of the catalog, a response addressed to a pending call is always taken in. -/
theorem takes_of_answers {m : Machine} {input : Input} {raw : Json} {call : PendingCall}
    (extending : m.session.binder.registry.Extends) (answers : m.Answers input raw call) :
    ∃ s hand, m.Takes raw call s hand ∧ (m.step input).machine.session = s ∧
      Works m input (m.base input) s hand (m.step input) := by
  obtain ⟨text, after, taken, parsed, step_eq⟩ := step_of_receives answers.receives
  have addressed := answers.addressed
  unfold Dialect.answeredId? at addressed
  rw [step_eq]
  split at addressed
  · rename_i frame decoded
    have named : frame.id = call.id := Option.some.inj addressed
    have pending : m.session.call? frame.id = some call := named ▸ answers.pending
    rw [receive_of_response ⟨m.session, m.base input⟩ after answers.receives.opened parsed decoded]
    refine ⟨_, _, .response decoded named, ?_, ?_⟩
    · rw [← named]
      exact deliverResponse_session ⟨m.session, m.base input⟩ after pending
    · rw [← named]
      exact ((deliverResponse_pending_works after pending).ambiguous _).transcribed _ _ _
  · cases addressed
  · rename_i error refused
    obtain ⟨failure, meant⟩ := failureOf?_of_addressed extending refused addressed
    rw [receive_of_undecodable ⟨m.session, m.base input⟩ after answers.receives.opened parsed
      refused addressed]
    refine ⟨_, _, .undecodable refused addressed meant, ?_, ?_⟩
    · exact deliverMalformed_session ⟨m.session, m.base input⟩ after meant answers.pending
    · have works := deliverMalformed_pending_works (m.base input) after answers.receives
        refused addressed meant answers.pending
      exact (works.ambiguous _).transcribed _ _ _

end Machine

end DebugLink
