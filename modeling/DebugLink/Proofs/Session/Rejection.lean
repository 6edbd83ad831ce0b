import DebugLink.Proofs.Session.Completion

/-!
# Sends that are rejected

A send is rejected when its token is not current, the type of its result is not registered or the
session is not connected. Nothing is handed over then and no user code runs. But a send that is to
dismiss its token dismisses it as soon as it has found it current, and the handles with it.
-/

set_option autoImplicit false

namespace DebugLink

/-- The errors of a send that is refused before its frame is handed over. -/
def SessionError.isRejection : SessionError → Bool
  | .closed | .contextDismissed _ | .unknownType _ => true
  | .transcript | .transport _ => false

namespace Machine

variable {m : Machine} {command : Command} {token : Option ContextToken} {invalidating : Bool}
  {body : List Input} {error : SessionError}

theorem dispatch_of_fault (fault : m.session.sendFault? command = some error) :
    m.dispatch command token invalidating
      = (m.transmitted invalidating).give (.failed error) := by
  simp only [dispatch, fault, transmitted]

theorem dispatch_of_fine (token : Option ContextToken) (invalidating : Bool)
    (fine : m.session.sendFault? command = none) :
    ∃ call, (m.dispatch command token invalidating).machine.stack
      = .transmitting call invalidating :: m.stack := by
  refine ⟨m.session.newCall command token, ?_⟩
  simp only [dispatch, fine]
  rfl

theorem fault_of_rejected
    (concludes : (m.dispatch command token invalidating).Concludes m.stack body (.failed error))
    (rejection : error.isRejection = true) :
    m.session.sendFault? command = some error ∧ body = [] := by
  cases fault : m.session.sendFault? command with
  | some other =>
    rw [dispatch_of_fault fault] at concludes
    obtain ⟨ended, last⟩ := concludes.ended (transmitted_stack m invalidating)
    have same : other = error := by simpa [give] using last
    exact ⟨congrArg some same, ended⟩
  | none =>
    obtain ⟨call, waits⟩ := dispatch_of_fine token invalidating fault
    obtain ⟨_, refusal, _, -, -, -, rfl⟩ := concludes.refused_of_failed waits
    cases rejection

/-- A send that is to dismiss its token and is rejected ends at once and shows nothing but its
error. If the token was not current, nothing has changed. Otherwise the token and the handles are
gone, and nothing else has changed. -/
theorem rejection_dismisses_current_token {token : ContextToken}
    (performs : m.Performs (.sendAndInvalidate command token) body (.failed error))
    (rejection : error.isRejection = true) :
    body = [] ∧
    m.emitted [.start (.sendAndInvalidate command token)] = [.returned (.failed error)] ∧
    ((error = .contextDismissed token ∧ m.session.context.current ≠ some token ∧
        m.after [.start (.sendAndInvalidate command token)] = m) ∨
      (error ≠ .contextDismissed token ∧ m.session.context.current = some token ∧
        m.after [.start (.sendAndInvalidate command token)]
          = { m with session := { m.session with
                context := { m.session.context with current := none }
                handles := .empty } })) := by
  have step_eq : m.step (.start (.sendAndInvalidate command token))
      = m.sendAndInvalidate command token := rfl
  unfold Performs at performs
  by_cases current : m.session.context.isCurrent token = true
  · have dispatched : m.sendAndInvalidate command token = m.dispatch command none true :=
      if_pos current
    rw [step_eq, dispatched] at performs
    obtain ⟨fault, ended⟩ := fault_of_rejected performs rejection
    have rejected : m.step (.start (.sendAndInvalidate command token))
        = (m.modify Session.resume).give (.failed error) := by
      rw [step_eq, dispatched, dispatch_of_fault fault]
      rfl
    have other : error ≠ .contextDismissed token := by
      rintro rfl
      unfold Session.sendFault? at fault
      split at fault
      · cases fault
      · split at fault <;> cases fault
    refine ⟨ended, ?_, .inr ⟨other, eq_of_beq current, ?_⟩⟩
    · rw [emitted_cons, rejected]
      rfl
    · rw [after_cons, rejected]
      rfl
  · have dismissed : m.step (.start (.sendAndInvalidate command token))
        = m.give (.failed (.contextDismissed token)) := by
      rw [step_eq, sendAndInvalidate, if_neg current]
    rw [dismissed] at performs
    obtain ⟨ended, last⟩ := performs.ended rfl
    have same : .contextDismissed token = error := by simpa [give] using last
    refine ⟨ended, ?_, .inl ⟨same.symm, ?_, ?_⟩⟩
    · rw [emitted_cons, dismissed, same]
      rfl
    · exact fun holds => current (beq_iff_eq.2 holds)
    · rw [after_cons, dismissed]
      rfl

def suspendedRun : List Input :=
  [.start .suspend, .start (.putHandles [(5, .null)])]

def unbindable : Command := ⟨"continue", none, some "Missing"⟩

theorem performs_unbindable :
    ((initial .default Catalog.registry .off).after suspendedRun).Performs
      (.sendAndInvalidate unbindable ⟨1⟩) [] (.failed (.unknownType "Missing")) := by
  refine ⟨?_, by decide, rfl⟩
  intro before input rest split
  cases before <;> cases split

theorem rejection_dismisses_current_token_unbindable :
    ((initial .default Catalog.registry .off).after suspendedRun).Performs
      (.sendAndInvalidate unbindable ⟨1⟩) [] (.failed (.unknownType "Missing")) ∧
    ((initial .default Catalog.registry .off).after suspendedRun).emitted
      [.start (.sendAndInvalidate unbindable ⟨1⟩)]
        = [.returned (.failed (.unknownType "Missing"))] :=
  ⟨performs_unbindable, (rejection_dismisses_current_token performs_unbindable rfl).2.1⟩

/-- A send that is rejected for the type of its result leaves neither the token current nor the
handles known. -/
theorem rejection_loses_token_and_handles :
    ((initial .default Catalog.registry .off).after suspendedRun).session.context.current
      = some ⟨1⟩ ∧
    (((initial .default Catalog.registry .off).after suspendedRun).session.handles.get? 5).isSome ∧
    (((initial .default Catalog.registry .off).after suspendedRun).step
      (.start (.sendAndInvalidate unbindable ⟨1⟩))).emitted.getLast?
        = some (.returned (.failed (.unknownType "Missing"))) ∧
    ((initial .default Catalog.registry .off).after (suspendedRun ++
      [.start (.sendAndInvalidate unbindable ⟨1⟩)])).session.context.current = none ∧
    ((initial .default Catalog.registry .off).after (suspendedRun ++
      [.start (.sendAndInvalidate unbindable ⟨1⟩)])).session.handles.get? 5 = none := by
  refine ⟨rfl, rfl, rfl, rfl, rfl⟩

end Machine

end DebugLink
