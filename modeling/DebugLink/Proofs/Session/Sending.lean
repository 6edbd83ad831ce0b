import DebugLink.Proofs.Session.Closure
import DebugLink.Proofs.Session.Frames

/-!
# What a send does as a whole

A send that is rejected leaves no trace. A send whose frame is refused by the transport, while its
call is pending, withdraws the call and ends only when the session is closed and all other calls
have failed. A send that gives an id has handed over the command under this id.
-/

set_option autoImplicit false

namespace DebugLink

theorem mem_outcomes_of_mem_completions {id : UInt64} {outcome : Except CallFailure Reply}
    {emitted : List Emission} (mem : (id, outcome) ∈ completions emitted) :
    outcome ∈ outcomes id emitted := by
  obtain ⟨emission, seen, completes⟩ := List.mem_filterMap.1 mem
  refine List.mem_filterMap.2 ⟨emission, seen, ?_⟩
  unfold Emission.completion? at completes
  split at completes
  · cases completes
    exact if_pos rfl
  · cases completes
    exact if_pos rfl
  · cases completes

/-! ## Sends that are rejected -/

def Session.rejection? (session : Session) (command : Command) (token : Option ContextToken) :
    Option SessionError :=
  match token.filter fun t => !session.context.isCurrent t with
  | some t => some (.contextDismissed t)
  | none => session.sendFault? command

namespace Machine

variable {m : Machine} {command : Command} {token : Option ContextToken} {body : List Input}
  {error : SessionError}

theorem send_of_rejected (rejected : m.session.rejection? command token = some error) :
    m.step (.start (.send command token)) = m.give (.failed error) := by
  change m.send command token = _
  unfold Session.rejection? at rejected
  cases token with
  | none => exact dispatch_of_fault rejected
  | some t =>
    by_cases current : m.session.context.isCurrent t = true
    · simp only [Option.filter, current] at rejected
      exact (if_pos current).trans (dispatch_of_fault rejected)
    · simp only [Option.filter, current] at rejected
      cases rejected
      exact if_neg current

theorem send_of_fine (fine : m.session.rejection? command token = none) :
    m.step (.start (.send command token)) = m.dispatch command token false ∧
      m.session.sendFault? command = none := by
  change m.send command token = _ ∧ _
  unfold Session.rejection? at fine
  cases token with
  | none => exact ⟨rfl, fine⟩
  | some t =>
    by_cases current : m.session.context.isCurrent t = true
    · simp only [Option.filter, current] at fine
      exact ⟨if_pos current, fine⟩
    · simp only [Option.filter, current] at fine
      cases fine

theorem rejection?_eq_contextDismissed {session : Session} {dismissed : ContextToken} :
    session.rejection? command token = some (.contextDismissed dismissed) ↔
      token = some dismissed ∧ session.context.current ≠ some dismissed := by
  have fault : session.sendFault? command ≠ some (.contextDismissed dismissed) := by
    unfold Session.sendFault?
    split
    · simp
    · split <;> simp
  unfold Session.rejection?
  cases token with
  | none => simpa using fault
  | some t =>
    by_cases current : session.context.current = some t
    · have holds : session.context.isCurrent t = true := beq_iff_eq.2 current
      simp only [Option.filter, holds, current]
      exact iff_of_false fault fun ⟨same, other⟩ => other same
    · have gone : session.context.isCurrent t = false := beq_eq_false_iff_ne.2 current
      simp only [Option.filter, gone]
      constructor
      · intro same
        cases same
        exact ⟨rfl, current⟩
      · rintro ⟨same, -⟩
        cases same
        rfl

theorem isRejection_of_rejection? {session : Session}
    (rejected : session.rejection? command token = some error) : error.isRejection = true := by
  unfold Session.rejection? Session.sendFault? at rejected
  split at rejected
  · cases rejected
    rfl
  · split at rejected
    · cases rejected
      rfl
    · split at rejected <;> cases rejected
      rfl

theorem performs_of_rejected (rejected : m.session.rejection? command token = some error) :
    m.Performs (.send command token) [] (.failed error) := by
  unfold Performs
  rw [send_of_rejected rejected]
  exact .of_returned rfl rfl

theorem result_of_rejected {result : Result}
    (rejected : m.session.rejection? command token = some error)
    (performs : m.Performs (.send command token) body result) :
    body = [] ∧ result = .failed error := by
  unfold Performs at performs
  rw [send_of_rejected rejected] at performs
  obtain ⟨ended, last⟩ := performs.ended rfl
  exact ⟨ended, by simpa [give] using last.symm⟩

theorem rejected_of_performs (rejection : error.isRejection = true)
    (performs : m.Performs (.send command token) body (.failed error)) :
    m.session.rejection? command token = some error := by
  cases rejected : m.session.rejection? command token with
  | some other =>
    obtain ⟨-, same⟩ := result_of_rejected rejected performs
    cases same
    rfl
  | none =>
    obtain ⟨dispatched, fine⟩ := send_of_fine rejected
    unfold Performs at performs
    rw [dispatched] at performs
    have fault := (fault_of_rejected performs rejection).1
    rw [fine] at fault
    cases fault

theorem fine_of_performs {result : Result}
    (other : ∀ error, error.isRejection = true → result ≠ .failed error)
    (performs : m.Performs (.send command token) body result) :
    m.session.rejection? command token = none := by
  cases rejected : m.session.rejection? command token with
  | none => rfl
  | some error =>
    have same := (result_of_rejected rejected performs).2
    exact absurd same (other error (isRejection_of_rejection? rejected))

/-! ## Sends whose frame is handed over -/

structure HandsOver (m : Machine) (command : Command) (token : Option ContextToken) : Prop where
  stack : (m.step (.start (.send command token))).machine.stack
    = .transmitting (m.session.newCall command token) false :: m.stack
  asked : asked (m.step (.start (.send command token))).emitted
    = [.transmit m.session.sequence.next
        (m.session.dialect.encode m.session.sequence.next command)]

theorem handsOver_of_fine (fine : m.session.rejection? command token = none) :
    m.HandsOver command token := by
  obtain ⟨dispatched, sendable⟩ := send_of_fine fine
  constructor
  · rw [dispatched]
    simp only [dispatch, sendable]
    rfl
  · rw [dispatched]
    simp only [dispatch, sendable]
    change asked (m.transcribe "->" _ ++ [.request (.transmit _ _)]) = _
    rw [asked_append, asked_transcribe]
    rfl

/-- What the inputs `sent` have brought about when they end with a send that gives `error`: the
transport refused the frame of its call `id`, as the machine was in the state `failing`. All other
calls that were pending then have failed, and the callbacks of this one never run. -/
structure BreaksOff (m : Machine) (sent : List Input) (id : UInt64) (failing : Machine)
    (error : TransportError) : Prop where
  closed : (m.after sent).session.phase = .closed
  gone : (m.after sent).session.isPending id = false
  silent : ∀ later, (issuedIds (m.emitted (sent ++ later))).count id ≤ 1 →
    outcomes id (m.emitted (sent ++ later)) = []
  failed : ∀ call ∈ failing.session.calls, call.id ≠ id →
    ∀ later, (issuedIds (m.emitted (sent ++ later))).count call.id ≤ 1 →
      outcomes call.id (m.emitted (sent ++ later))
        = [.error (.connectionClosed ("transport failure: " ++ error.message))]

theorem mem_removeCall {session : Session} {id : UInt64} {call : PendingCall}
    (mem : call ∈ session.calls) (other : call.id ≠ id) : call ∈ (session.removeCall id).calls :=
  (List.mem_eraseP_of_neg (by simpa using other)).2 mem

/-- Once the frame of a pending call is refused, the rest of its send is a close. -/
theorem closes_of_refused {failing : Machine} {base : List Waiting} {call : PendingCall}
    {invalidating : Bool} {rest : List Input} (refusal : TransportError)
    (waits : failing.stack = .transmitting call invalidating :: base)
    (pending : failing.session.isPending call.id = true)
    (emptied : failing.session.Emptied .nothing failing.stack)
    (spans : (failing.step (.refused refusal)).Spans base rest) :
    (failing.step (.refused refusal)).ClosesWith rest
      (failedBy ("transport failure: " ++ refusal.message)
        (failing.session.removeCall call.id).calls) := by
  let removed := modify ⟨failing.session, base⟩ (·.removeCall call.id)
  let withdrawn := removed.transmitted invalidating
  have connected : failing.session.phase = .connected := by
    by_contra past
    rw [Session.isPending_iff_copies, emptied.table past] at pending
    exact absurd pending (Nat.lt_irrefl _)
  have opened : withdrawn.session.phase = .connected := by
    cases invalidating <;> exact connected
  have below : withdrawn.stack = base := transmitted_stack removed invalidating
  have gives : (After.refuse refusal).result? = some (.failed (.transport refusal)) := rfl
  rw [step_of_refused refusal waits pending] at spans ⊢
  have table : (failing.session.removeCall call.id).calls = withdrawn.session.calls :=
    (transmitted_calls removed invalidating).symm
  rw [table]
  have closing : (withdrawn.close ("transport failure: " ++ refusal.message)
      (.refuse refusal)).Spans withdrawn.stack rest := by
    rw [below]
    exact spans.of_noticed
  exact (closing.closes_of_close gives opened).preceded rfl

/-- The callbacks that a close ran for a call are all that were ever run for it. -/
theorem outcomes_of_failedBy {m : Machine} {sent : List Input} {reason : String}
    {calls : List PendingCall} {call : PendingCall} {before rest : List Input} {input : Input}
    (fresh : m.heldCalls = []) (split : sent = before ++ input :: rest)
    (completed : completions ((m.after before).emitted (input :: rest)) = failedBy reason calls)
    (mem : call ∈ calls) (later : List Input)
    (once : (issuedIds (m.emitted (sent ++ later))).count call.id ≤ 1) :
    outcomes call.id (m.emitted (sent ++ later)) = [.error (.connectionClosed reason)] := by
  have failed : (call.id, .error (.connectionClosed reason))
      ∈ completions ((m.after before).emitted (input :: rest)) := by
    rw [completed]
    exact List.mem_map.2 ⟨call, mem, rfl⟩
  have among : .error (.connectionClosed reason) ∈ outcomes call.id (m.emitted (sent ++ later)) := by
    rw [split, List.append_assoc, emitted_append, emitted_append, outcomes_append, outcomes_append]
    exact List.mem_append_right _ (List.mem_append_left _ (mem_outcomes_of_mem_completions failed))
  have few := held_le_one_of_once fresh once
  obtain ⟨front, back, parted⟩ := List.append_of_mem among
  have lengths := congrArg List.length parted
  rw [List.length_append, List.length_cons] at lengths
  rw [parted, List.eq_nil_of_length_eq_zero (show front.length = 0 by omega),
    List.eq_nil_of_length_eq_zero (show back.length = 0 by omega), List.nil_append]

/-- What a send that gives the error of its transport has gone through, and what it leaves. -/
theorem breaksOff_of_failed {m : Machine} {history body : List Input} {error : TransportError}
    (rested : m.heldCalls = [])
    (emptied : m.session.Emptied .nothing m.stack)
    (performs : (m.after history).Performs (.send command token) body
      (.failed (.transport error))) :
    ∃ before rest failing, body = before ++ .refused error :: rest ∧
      failing = m.after (history ++ .start (.send command token) :: before) ∧
      failing.stack = .transmitting ((m.after history).session.newCall command token) false
        :: (m.after history).stack ∧
      completions (failing.emitted (.refused error :: rest))
        = failedBy ("transport failure: " ++ error.message)
          (failing.session.removeCall (m.after history).session.sequence.next).calls ∧
      m.BreaksOff (history ++ .start (.send command token) :: body)
        (m.after history).session.sequence.next failing error := by
  have fine : (m.after history).session.rejection? command token = none := by
    refine fine_of_performs ?_ performs
    rintro _ rejection ⟨⟩
    cases rejection
  obtain ⟨before, refusal, rest, rfl, stack, pending, same⟩ :=
    performs.refused_of_failed (handsOver_of_fine fine).stack
  cases same
  let sending := history ++ .start (.send command token) :: before
  have reached : ((m.after history).step (.start (.send command token))).machine.after before
      = m.after sending := by
    rw [after_append, after_cons]
  have whole : history ++ .start (.send command token) :: (before ++ .refused error :: rest)
      = sending ++ .refused error :: rest := by
    simp [sending]
  have spans := performs.spans.from_step
  rw [reached] at stack pending spans
  obtain ⟨completed, closed⟩ :=
    closes_of_refused error stack pending (emptied_run sending emptied) spans
  have ended : (m.after (sending ++ .refused error :: rest)).session.phase = .closed := by
    rw [after_append, after_cons]
    exact closed
  have empty := (emptied_run (sending ++ .refused error :: rest) emptied).table (by simp [ended])
  rw [whole]
  refine ⟨before, rest, _, rfl, rfl, stack, completed, ended, ?_, ?_, ?_⟩
  · simp [Session.isPending, Session.call?, empty]
  · intro later once
    rw [List.append_assoc] at once ⊢
    exact outcomes_of_refused rested once stack pending
  · intro call mem other later once
    exact outcomes_of_failedBy rested rfl completed (mem_removeCall mem other) later once

/-- A send that is rejected changes nothing and shows nothing but its error, and it is rejected for
its token just when the token is not current. A send that fails at the transport leaves the session
closed: its own call has no outcome, and every other call that was pending when the transport
refused the frame has failed with the connection, once. (No two calls have one id as long as ids
last.) A send that gives an id has drawn it and handed over the command under it. -/
theorem send_is_atomic {config : Config} {registry : Registry} {transcript : Transcript}
    {m : Machine} (began : m = initial config registry transcript) (history : List Input)
    (command : Command) (token : Option ContextToken) :
    (∀ body error, error.isRejection = true →
      (m.after history).Performs (.send command token) body (.failed error) →
      body = [] ∧ (m.after history).step (.start (.send command token))
        = ⟨m.after history, [.returned (.failed error)]⟩) ∧
    (∀ dismissed, (∃ body, (m.after history).Performs (.send command token) body
        (.failed (.contextDismissed dismissed))) ↔
      token = some dismissed ∧ (m.after history).session.context.current ≠ some dismissed) ∧
    (∀ body error, (m.after history).Performs (.send command token) body (.failed error) →
      error.isRejection = true ∨ ∃ refusal, error = .transport refusal) ∧
    (∀ body error, (m.after history).Performs (.send command token) body
        (.failed (.transport error)) →
      ∃ before rest failing, body = before ++ .refused error :: rest ∧
        failing = m.after (history ++ .start (.send command token) :: before) ∧
        failing.stack = .transmitting ((m.after history).session.newCall command token) false
          :: (m.after history).stack ∧
        completions (failing.emitted (.refused error :: rest))
          = failedBy ("transport failure: " ++ error.message)
            (failing.session.removeCall (m.after history).session.sequence.next).calls ∧
        m.BreaksOff (history ++ .start (.send command token) :: body)
          (m.after history).session.sequence.next failing error) ∧
    (∀ body id, (m.after history).Performs (.send command token) body (.call id) →
      id = (m.after history).session.sequence.next ∧
      asked ((m.after history).step (.start (.send command token))).emitted
        = [.transmit id ((m.after history).session.dialect.encode id command)]) := by
  have rested : m.heldCalls = [] := by rw [began, heldCalls_initial]
  have emptied : m.session.Emptied .nothing m.stack := by
    rw [began]
    exact .initial config registry transcript
  refine ⟨?_, ?_, ?_, ?_, ?_⟩
  · intro body error rejection performs
    have rejected := rejected_of_performs rejection performs
    exact ⟨(result_of_rejected rejected performs).1, send_of_rejected rejected⟩
  · intro dismissed
    rw [← rejection?_eq_contextDismissed]
    constructor
    · rintro ⟨body, performs⟩
      exact rejected_of_performs rfl performs
    · intro rejected
      exact ⟨[], performs_of_rejected rejected⟩
  · intro body error performs
    by_cases rejection : error.isRejection = true
    · exact .inl rejection
    · have fine := fine_of_performs (by rintro _ other ⟨⟩; exact rejection other) performs
      obtain ⟨_, refusal, _, -, -, -, same⟩ :=
        performs.refused_of_failed (handsOver_of_fine fine).stack
      exact .inr ⟨refusal, same⟩
  · intro body error performs
    exact breaksOff_of_failed rested emptied performs
  · intro body id performs
    have handed := handsOver_of_fine (fine_of_performs (by simp) performs)
    obtain given | ⟨_, refusal, _, -, -, -, given⟩ := performs.call_or_refused handed.stack
    · cases given
      exact ⟨rfl, handed.asked⟩
    · cases given

/-- Two calls are pending when the transport refuses a third. Meanwhile the transport puts a handle,
and the callback of the second call breaks down. -/
def refusing : List Input :=
  [.start (.putHandles [(5, .null)]), .refused .closed, .done, .crashed, .done]

theorem performs_refusing :
    ((initial .default Catalog.registry .off).after pendingRun).Performs
      (.send ⟨"evaluate", none, none⟩ none) refusing (.failed (.transport .closed)) := by
  refine ⟨?_, by decide, rfl⟩
  intro before input rest split
  match before with
  | [] => decide
  | [first] =>
    cases split
    decide
  | [first, second] =>
    cases split
    decide
  | [first, second, third] =>
    cases split
    decide
  | [first, second, third, fourth] =>
    cases split
    decide
  | first :: second :: third :: fourth :: fifth :: before => simp [refusing] at split

theorem send_is_atomic_refusing :
    ((initial .default Catalog.registry .off).after pendingRun).Performs
      (.send ⟨"evaluate", none, none⟩ none) refusing (.failed (.transport .closed)) ∧
    ∃ failing, (initial .default Catalog.registry .off).BreaksOff
      (pendingRun ++ .start (.send ⟨"evaluate", none, none⟩ none) :: refusing) 3 failing .closed := by
  obtain ⟨-, -, -, broken, -⟩ :=
    send_is_atomic (rfl : initial .default Catalog.registry .off = _) pendingRun
      ⟨"evaluate", none, none⟩ none
  obtain ⟨_, _, failing, -, -, -, -, breaks⟩ := broken refusing .closed performs_refusing
  exact ⟨performs_refusing, failing, breaks⟩

end Machine

end DebugLink
