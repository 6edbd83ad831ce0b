import DebugLink.Proofs.Session.Closing
import DebugLink.Proofs.Session.Staleness

/-!
# No response is lost

With the schemas of both dialects registered, a frame from which an id can be read always reaches
the call of this id: afterwards the call is not pending, and unless it came too late one of its
callbacks has run with what the response makes of it.
-/

set_option autoImplicit false

namespace DebugLink

/-- What a JSON value that is addressed to a call makes of it. -/
def Session.verdict? (session : Session) (raw : Json) (call : PendingCall) :
    Option (Except CallFailure Reply) :=
  match (session.dialect.classify session.binder raw).result with
  | .ok (.response frame) => some (session.settle call frame.outcome)
  | .ok (.event _) => none
  | .error error => (Machine.failureOf? error).map .error

def Machine.JudgesLate (call : PendingCall) (m : Machine) (input : Input) : Prop :=
  m.Judges input call ∧ m.session.isStale call = true

/-! ## What a response makes of its call -/

namespace Session

theorem bindPayload_ne_connectionClosed (session : Session) (raw : Json) (type : String)
    (mode : Mode) (reason : String) :
    (session.bindPayload raw type mode).result ≠ .error (.connectionClosed reason) := by
  unfold bindPayload
  split
  · rw [Outcome.result_map, Outcome.result_mapError]
    cases (session.binder.bindType type raw mode).result <;> simp [Except.map, Except.mapError]
  · rename_i schema described
    split
    · rw [Outcome.result_map, Outcome.result_mapError]
      cases (session.binder.resolve schema raw mode).result <;> simp [Except.map, Except.mapError]
    · rw [Outcome.result_map, Outcome.result_mapError]
      cases (session.binder.bind schema raw mode).result <;> simp [Except.map, Except.mapError]

theorem settle_ne_connectionClosed (session : Session) (call : PendingCall)
    (outcome : Except RemoteError Json) (reason : String) :
    session.settle call outcome ≠ .error (.connectionClosed reason) := by
  cases outcome with
  | error error => simp [settle]
  | ok body =>
    simp only [settle, reply]
    cases call.result with
    | none => simp
    | some type =>
      intro failed
      rw [Outcome.result_bind] at failed
      cases bound : (session.bindPayload body type session.responseMode).result with
      | ok payload =>
        rw [bound] at failed
        cases failed
      | error failure =>
        rw [bound] at failed
        cases failed
        exact bindPayload_ne_connectionClosed _ _ _ _ reason bound

/-- What a response makes of its call is a reply, the error of the debuggee or a payload that
cannot be bound. -/
theorem verdict?_ne_connectionClosed {session : Session} {raw : Json} {call : PendingCall}
    {verdict : Except CallFailure Reply} (given : session.verdict? raw call = some verdict)
    (reason : String) : verdict ≠ .error (.connectionClosed reason) := by
  unfold verdict? at given
  split at given
  · rename_i frame decoded
    rw [← Option.some.inj given]
    exact settle_ne_connectionClosed session call frame.outcome reason
  · cases given
  · rename_i error refused
    obtain ⟨failure, meant, rfl⟩ := Option.map_eq_some_iff.1 given
    intro closed
    cases closed
    cases error with
    | unrecognized error => cases error <;> cases meant
    | malformed error | missingEnvelope type | invalidId id => cases meant

end Session

namespace Machine

/-! ## Requests in a run -/

theorem mem_outcomes_of_step {m : Machine} (before : List Input) {rest : List Input}
    {input : Input} {id : UInt64} {outcome : Except CallFailure Reply}
    (mem : outcome ∈ outcomes id ((m.after before).step input).emitted) :
    outcome ∈ outcomes id (m.emitted (before ++ input :: rest)) := by
  rw [emitted_append, emitted_cons, outcomes_append, outcomes_append]
  exact List.mem_append_right _ (List.mem_append_left _ mem)

theorem settle_mem_outcomes (n : Machine) (call : PendingCall) (outcome : Except RemoteError Json)
    (after : After) :
    n.session.settle call outcome
      ∈ outcomes call.id (n.completeResponse call outcome false after).emitted := by
  obtain ⟨log, timely⟩ := completeResponse_timely n call outcome after
  rw [timely, Turn.noticed, Turn.preceded, outcomes_append]
  apply List.mem_append_right
  simp only [await]
  rw [outcomes_complete, if_pos rfl]
  exact List.mem_singleton.2 rfl

theorem failure_mem_outcomes {n : Machine} {call : PendingCall} (failure : CallFailure)
    (after : After) (timely : n.session.isStale call = false) :
    .error failure ∈ outcomes call.id (n.completeMalformed call failure after).emitted := by
  have failed : n.completeMalformed call failure after = (n.failCall call failure after).noticed
      [.malformedResponse call.id call.command failure] := by
    simp [completeMalformed, timely]
  rw [failed, Turn.noticed, Turn.preceded, outcomes_append]
  apply List.mem_append_right
  exact List.mem_filterMap.2 ⟨_, List.mem_singleton.2 rfl, by simp [Emission.outcome?]⟩

variable {m : Machine} {text : String} {raw : Json} {body : List Input}

/-! ## Frames for no pending call -/

theorem receive_of_unknown {id : UInt64} (extending : m.session.binder.registry.Extends)
    (parsed : Json.parse? text = some raw) (addressed : m.session.dialect.responseId? raw = some id)
    (unknown : m.session.call? id = none) : (m.receive text .finish).machine = m := by
  by_cases opened : m.session.phase = .closed
  · unfold receive
    rw [if_pos opened]
    rfl
  · rcases Dialect.classify_of_responseId? extending addressed with
      ⟨frame, decoded, named⟩ | ⟨error, refused⟩
    · rw [receive_of_response m .finish opened parsed decoded, deliverResponse, named, unknown]
      rfl
    · rw [receive_of_undecodable m .finish opened parsed refused addressed, deliverMalformed]
      cases failureOf? (.unrecognized error) with
      | none => rfl
      | some failure =>
        simp only [unknown]
        rfl

/-! ## Frames for a pending call -/

theorem step_of_hears {input : Input} {call : PendingCall} {outcome : Except RemoteError Json}
    (hears : m.Hears input call outcome) :
    ∃ (absorbed : Machine) (after : After) (emissions : List Emission),
      m.session.SameSetup absorbed.session ∧
      absorbed.stack = m.base input ∧
      m.step input
        = (absorbed.announce (.announcedResponse call outcome (m.session.isStale call) after)
            (·.completeResponse call outcome (m.session.isStale call) after)).preceded emissions := by
  obtain ⟨received, decoded, pending⟩ := hears
  rename_i raw frame
  obtain ⟨text, after, -, parsed, taken⟩ := step_of_receives received
  rw [receive_of_response ⟨m.session, m.base input⟩ after received.opened parsed decoded] at taken
  simp only [deliverResponse, pending, Turn.noticed, Turn.preceded, ← List.append_assoc] at taken
  refine ⟨modify ⟨m.session, m.base input⟩ fun session =>
    absorb (session.removeCall frame.id) frame (m.session.isStale call), after, _, ?_, rfl, taken⟩
  obtain ⟨context, handles, absorbed, -⟩ :=
    absorb_eq (m.session.removeCall frame.id) frame (m.session.isStale call)
  simp only [modify, absorbed]
  exact ⟨rfl, rfl, rfl, rfl⟩

theorem settled_of_response {outcome : Except RemoteError Json} {call : PendingCall}
    (hears : m.Hears (.start (.receive text)) call outcome) (spans : m.Spans (.receive text) body)
    (timely : m.session.isStale call = false)
    (sound : ¬ m.Happens (BreaksTelling call.id) (.start (.receive text) :: body)) :
    m.session.settle call outcome
      ∈ outcomes call.id (m.emitted (.start (.receive text) :: body)) := by
  obtain ⟨absorbed, after, emissions, same, below, step_eq⟩ := step_of_hears hears
  rw [timely] at step_eq
  rcases announce_cases absorbed (.announcedResponse call outcome false after)
    (·.completeResponse call outcome false after) with direct | ⟨listener, told⟩
  · apply mem_outcomes_of_step []
    rw [after_nil, step_eq, direct, Turn.preceded, outcomes_append, ← same.settle]
    exact List.mem_append_right _ (settle_mem_outcomes absorbed call outcome after)
  · rw [told] at step_eq
    unfold Machine.Spans at spans
    have stack : (m.step (.start (.receive text))).machine.stack
        = .announcedResponse call outcome false after :: m.stack := by
      rw [step_eq]
      exact congrArg (.announcedResponse call outcome false after :: ·) below
    rw [happens_cons, not_or] at sound
    obtain ⟨before, rest, next, rfl, -, given, taken⟩ := spans.goes_on_told rfl stack sound.2
    have setup := sameSetup_run m (.start (.receive text) :: before)
    apply mem_outcomes_of_step (.start (.receive text) :: before)
    rw [after_cons, taken, ← setup.settle]
    cases given
    exact settle_mem_outcomes ⟨_, _⟩ call outcome after

theorem failed_of_undecodable {error : FrameError} {failure : CallFailure} {call : PendingCall}
    (answers : m.Answers (.start (.receive text)) raw call)
    (refused : (m.session.dialect.classify m.session.binder raw).result = .error error)
    (addressed : m.session.dialect.responseId? raw = some call.id)
    (meant : failureOf? error = some failure) (spans : m.Spans (.receive text) body)
    (timely : ¬ m.Happens (JudgesLate call) (.start (.receive text) :: body))
    (sound : ¬ m.Happens (BreaksTelling call.id) (.start (.receive text) :: body)) :
    .error failure ∈ outcomes call.id (m.emitted (.start (.receive text) :: body)) := by
  let removed := m.modify (·.removeCall call.id)
  obtain ⟨emissions, step_eq⟩ : ∃ emissions, m.step (.start (.receive text))
      = (removed.announce (.announcedMalformed call failure .finish)
          (·.completeMalformed call failure .finish)).preceded emissions := by
    have received := receive_of_undecodable m .finish answers.receives.opened
      answers.receives.text refused addressed
    simp only [deliverMalformed, meant, answers.pending] at received
    simp only [Turn.noticed, Turn.preceded, ← List.append_assoc] at received
    exact ⟨_, received⟩
  rcases announce_cases removed (.announcedMalformed call failure .finish)
    (·.completeMalformed call failure .finish) with direct | ⟨listener, told⟩
  · have fresh : m.session.isStale call = false := by
      by_contra stale
      exact timely (happens_cons.2 (.inl ⟨.onReceipt answers, by simpa using stale⟩))
    apply mem_outcomes_of_step []
    rw [after_nil, step_eq, direct, Turn.preceded, outcomes_append]
    exact List.mem_append_right _ (failure_mem_outcomes (n := removed) failure .finish fresh)
  · rw [told] at step_eq
    unfold Machine.Spans at spans
    have stack : (m.step (.start (.receive text))).machine.stack
        = .announcedMalformed call failure .finish :: m.stack := by
      rw [step_eq]
      rfl
    rw [happens_cons, not_or] at sound
    obtain ⟨before, rest, next, rfl, waits, given, taken⟩ := spans.goes_on_told rfl stack sound.2
    have fresh : ((m.step (.start (.receive text))).machine.after before).session.isStale call
        = false := by
      by_contra stale
      exact timely (happens_cons.2 (.inr ⟨before, .done, rest, rfl, .onceTold waits,
        by simpa using stale⟩))
    apply mem_outcomes_of_step (.start (.receive text) :: before)
    rw [after_cons, taken]
    cases given
    exact failure_mem_outcomes (n := ⟨_, _⟩) failure .finish fresh

/-- Taking in a response runs a callback of its call with what the response makes of it. -/
theorem verdict_of_answers {call : PendingCall} (extending : m.session.binder.registry.Extends)
    (answers : m.Answers (.start (.receive text)) raw call) (spans : m.Spans (.receive text) body)
    (timely : ¬ m.Happens (JudgesLate call) (.start (.receive text) :: body))
    (sound : ¬ m.Happens (BreaksTelling call.id) (.start (.receive text) :: body)) :
    ∃ verdict, m.session.verdict? raw call = some verdict ∧
      verdict ∈ outcomes call.id (m.emitted (.start (.receive text) :: body)) := by
  have addressed := answers.addressed
  unfold Dialect.answeredId? at addressed
  unfold Session.verdict?
  cases classified : (m.session.dialect.classify m.session.binder raw).result with
  | ok incoming =>
    rw [classified] at addressed
    cases incoming with
    | response frame =>
      have fresh : m.session.isStale call = false := by
        by_contra stale
        exact timely (happens_cons.2 (.inl ⟨.onReceipt answers, by simpa using stale⟩))
      have named : frame.id = call.id := Option.some.inj addressed
      have hears : m.Hears (.start (.receive text)) call frame.outcome :=
        ⟨answers.receives, classified, named ▸ answers.pending⟩
      exact ⟨_, rfl, settled_of_response hears spans fresh sound⟩
    | event frame => cases addressed
  | error error =>
    rw [classified] at addressed
    obtain ⟨failure, meant⟩ := failureOf?_of_addressed extending classified addressed
    simp only [meant]
    exact ⟨_, rfl, failed_of_undecodable answers classified addressed meant spans timely sound⟩

/-! ## Over whole runs -/

theorem answers_of_pending {id : UInt64} {call : PendingCall}
    (extending : m.session.binder.registry.Extends) (opened : m.session.phase ≠ .closed)
    (parsed : Json.parse? text = some raw) (addressed : m.session.dialect.responseId? raw = some id)
    (pending : m.session.call? id = some call) :
    m.Answers (.start (.receive text)) raw call := by
  have named := (Session.call?_eq_some pending).2
  refine ⟨⟨parsed, opened⟩, ?_, named ▸ pending⟩
  rw [Dialect.answeredId?, named]
  rcases Dialect.classify_of_responseId? extending addressed with
    ⟨frame, decoded, same⟩ | ⟨error, refused⟩
  · rw [decoded]
    exact congrArg some same
  · rw [refused]
    exact addressed

/-- A JSON value from which an id can be read is a response with this id or is not recognized. Once
a frame of such a value has been taken in, the call of the id is not pending; and if it was, and its
response is not found to be too late, one of its callbacks has run, once, with what the response
makes of it, unless the listener breaks down when it is told of that response. -/
theorem responses_reach_their_calls {config : Config} {extra : List Schema} {registry : Registry}
    {transcript : Transcript} {m : Machine}
    (built : (Catalog.draft.registerAll extra).1.build = .ok registry)
    (began : m = initial config registry transcript) :
    (∀ (dialect : Dialect) (ambiguity : AmbiguityPolicy) (raw : Json) (id : UInt64),
      dialect.responseId? raw = some id →
      (∃ frame, (dialect.classify ⟨registry, ambiguity⟩ raw).result = .ok (.response frame) ∧
          frame.id = id) ∨
        ∃ error, (dialect.classify ⟨registry, ambiguity⟩ raw).result
          = .error (.unrecognized error)) ∧
    (∀ history text body raw id,
      (issuedIds (m.emitted (history ++ .start (.receive text) :: body))).length < 2 ^ 64 →
      Json.parse? text = some raw → config.dialect.responseId? raw = some id →
      (m.after history).Spans (.receive text) body →
      (m.after (history ++ .start (.receive text) :: body)).session.isPending id = false ∧
      ∀ call, (m.after history).session.call? id = some call →
        ¬ (m.after history).Happens (JudgesLate call) (.start (.receive text) :: body) →
        ¬ (m.after history).Happens (BreaksTelling id) (.start (.receive text) :: body) →
        ∃ verdict, (m.after history).session.verdict? raw call = some verdict ∧
          (∀ reason, verdict ≠ .error (.connectionClosed reason)) ∧
          outcomes id ((m.after history).emitted (.start (.receive text) :: body)) = [verdict]) := by
  have fresh : m.heldCalls = [] := by rw [began, heldCalls_initial]
  have registered : registry.Extends := Registry.extends_of_build built
  constructor
  · intro dialect ambiguity raw id holds
    exact Dialect.classify_of_responseId? registered holds
  · intro history text body raw id few parsed addressed spans
    have setup := sameSetup_run m history
    have extending : (m.after history).session.binder.registry.Extends := by
      rw [setup.binder, began]
      exact registered
    have holds : (m.after history).session.dialect.responseId? raw = some id := by
      rw [setup.dialect, began]
      exact addressed
    cases pending : (m.after history).session.call? id with
    | none =>
      have same : ((m.after history).step (.start (.receive text))).machine = m.after history :=
        receive_of_unknown extending parsed holds pending
      obtain rfl : body = [] := Turn.Spans.ended spans (congrArg stack same)
      rw [after_concat, same]
      exact ⟨by simp [Session.isPending, pending], by simp⟩
    | some call =>
      have named := (Session.call?_eq_some pending).2
      have emptied := emptied_run history (m := m) (by rw [began]; exact .initial ..)
      have opened : (m.after history).session.phase ≠ .closed := by
        intro closed
        have empty := emptied.table (by simp [closed])
        rw [Session.call?, empty] at pending
        cases pending
      have answers := answers_of_pending extending opened parsed holds pending
      have unpending := not_pending_of_answers fresh (by rw [began]; exact registered) few answers
      rw [named] at unpending
      refine ⟨unpending, ?_⟩
      rintro other found timely sound
      cases found
      rw [← named] at sound
      obtain ⟨verdict, given, mem⟩ := verdict_of_answers extending answers spans timely sound
      refine ⟨verdict, given, Session.verdict?_ne_connectionClosed given, ?_⟩
      have once := held_le_one fresh few id
      rw [emitted_append, outcomes_append, List.length_append] at once
      rw [named] at mem
      have some := List.length_pos_of_mem mem
      obtain ⟨only, single⟩ := List.length_eq_one_iff.1 (Nat.le_antisymm (by omega) some)
      rw [single] at mem ⊢
      rw [List.mem_singleton.1 mem]

def askingRun : List Input :=
  [.start (.send ⟨"version", none, none⟩ none), .accepted]

def versionText : String :=
  "\x7b\"command\":\"version\",\"request_seq\":1,\"success\":true,\"type\":\"response\"\x7d"

theorem responses_reach_their_calls_version :
    ((initial .default Catalog.registry .off).after
      (askingRun ++ [.start (.receive versionText), .done])).session.isPending 1 = false ∧
    (outcomes 1 (((initial .default Catalog.registry .off).after askingRun).emitted
      [.start (.receive versionText), .done])).length = 1 := by
  have built : (Catalog.draft.registerAll []).1.build = .ok Catalog.registry := by rfl
  have few : (issuedIds ((initial .default Catalog.registry .off).emitted
      (askingRun ++ [.start (.receive versionText), .done]))).length < 2 ^ 64 := by decide +kernel
  have parsed : Json.parse? versionText = some (.object [("command", .string "version"),
      ("request_seq", .ofUInt64 1), ("success", .bool true), ("type", .string "response")]) := by
    rfl
  have spans : Turn.Spans (((initial .default Catalog.registry .off).after askingRun).step
      (.start (.receive versionText)))
      ((initial .default Catalog.registry .off).after askingRun).stack [.done] := by decide +kernel
  obtain ⟨unpending, completed⟩ := (responses_reach_their_calls built rfl).2 askingRun versionText
    [.done] _ 1 few parsed (by decide +kernel) spans
  have timely : ¬ ((initial .default Catalog.registry .off).after askingRun).Happens
      (JudgesLate ⟨1, "version", none, none⟩) [.start (.receive versionText), .done] := by
    rintro ⟨before, input, rest, split, -, stale⟩
    cases stale
  have sound : ¬ ((initial .default Catalog.registry .off).after askingRun).Happens
      (BreaksTelling 1) [.start (.receive versionText), .done] := by
    intro broken
    simpa using broken.mem fun _ _ broken => broken.1
  obtain ⟨verdict, -, -, once⟩ :=
    completed ⟨1, "version", none, none⟩ (by decide +kernel) timely sound
  exact ⟨unpending, by rw [once]; rfl⟩

def bareText : String := "\x7b\"request_seq\":1,\"type\":\"response\"\x7d"

/-- A session whose listener is told of what becomes of its only call, which is tied to the current
token. -/
def watched : Machine :=
  (initial .default Catalog.registry .off).after
    [.start (.listen 0), .start .suspend, .start (.send evaluate (some ⟨1⟩)), .accepted, .done]

/-- On being told of a response that cannot be decoded, the listener resumes the program. -/
def resumingRun : List Input := [.start (.receive bareText), .start .resume, .done]

/-- A call that is pending and not stale runs no callback for its response when the listener resumes
the program meanwhile or breaks down; and without the schemas of the frames it stays pending. -/
theorem responses_lost_by_listener_or_registry :
    (Json.parse? bareText = some bareResponse ∧
      Dialect.responseId? watched.session.dialect bareResponse = some 1 ∧
      watched.session.call? 1 = some ⟨1, "Runtime.evaluate", none, some ⟨1⟩⟩ ∧
      watched.session.isStale ⟨1, "Runtime.evaluate", none, some ⟨1⟩⟩ = false) ∧
    (watched.Performs (.receive bareText) (resumingRun.drop 1) .unit ∧
      outcomes 1 (watched.emitted resumingRun) = []) ∧
    ((watched.after [.start (.receive bareText), .crashed]).isResting = true ∧
      outcomes 1 (watched.emitted [.start (.receive bareText), .crashed]) = []) ∧
    ∃ registry, Registry.Draft.empty.build = .ok registry ∧
      ((initial .default registry .off).after askingRun).Performs (.receive versionText) [] .unit ∧
      ((initial .default registry .off).after
        (askingRun ++ [.start (.receive versionText)])).session.isPending 1 = true := by
  refine ⟨⟨rfl, by decide +kernel, by decide +kernel, by decide +kernel⟩, ⟨?_, ?_⟩, ⟨?_, ?_⟩,
    ⟨[Registry.openRecord]⟩, rfl, ?_, by decide +kernel⟩
  · exact .of_endsPlainly (by decide +kernel) (by decide +kernel)
  · exact List.isEmpty_iff.1 (by decide +kernel)
  · decide +kernel
  · exact List.isEmpty_iff.1 (by decide +kernel)
  · exact .of_endsPlainly (by decide +kernel) (by decide +kernel)

end Machine

end DebugLink
