import DebugLink.Proofs.Session.Arrival
import DebugLink.Proofs.Session.Course
import DebugLink.Proofs.Session.Origin

/-!
# What callbacks and handlers find

The step that takes in a response finishes with it, the listener included, before a callback of the
call may run, and the step that takes in an event makes its change of state before the handler runs.
Between the listener and the callback nothing is done, unless the listener starts an operation
itself. So a callback finds the session as the response has left it.
-/

set_option autoImplicit false

namespace DebugLink

/-- The session `now` knows of the program what the response `raw` has left of what `s` knew. -/
structure Session.Absorbed (s : Session) (raw : Json) (now : Session) : Prop where
  resumed : ∀ frame, (s.dialect.classify s.binder raw).result = .ok (.response frame) →
    frame.running = some true → now.context.current = none ∧ now.handles = .empty
  noted : ∀ frame, (s.dialect.classify s.binder raw).result = .ok (.response frame) →
    frame.running ≠ some true → now.context = s.context ∧
      ∀ handle entry, frame.refs.reverse.lookup handle = some entry →
        now.handles.get? handle = some entry
  undecoded : ∀ error, (s.dialect.classify s.binder raw).result = .error error →
    now.context = s.context ∧ now.handles = s.handles

def Hand.due? : Hand → Option PendingCall
  | .response call _ false | .undecodable call _ => some call
  | _ => none

/-- A turn that tells the listener, if there is one, before a callback runs, and that runs none for
a response that comes too late. -/
structure Turn.Prompts (turn : Turn) (stale : Bool) : Prop where
  told : ∀ listener, turn.machine.session.listener = some listener →
    .request (.status listener turn.machine.session.busyStatus) ∈ turn.emitted ∧
      ∀ id, outcomes id turn.emitted = []
  dropped : stale = true → ∀ id, outcomes id turn.emitted = []

namespace Machine

/-- The listener to status changes starts an operation while it runs. -/
def Meddles (m : Machine) : Input → Prop
  | .start _ => m.stack.head?.any (·.isAnnouncement) = true
  | _ => False

instance (m : Machine) (input : Input) : Decidable (m.Meddles input) :=
  match input with
  | .start _ => inferInstanceAs (Decidable (_ = true))
  | .done | .crashed | .accepted | .refused _ | .pulled _ => inferInstanceAs (Decidable False)

structure Attends (m : Machine) (input : Input) (call : PendingCall) : Prop where
  absorbed : ∃ raw, m.Answers input raw call ∧
    m.session.Absorbed raw (m.step input).machine.session
  told : ∀ listener, (m.step input).machine.session.listener = some listener →
    .request (.status listener (m.step input).machine.session.busyStatus) ∈ (m.step input).emitted

/-- The last step of a run that has done anything was of a kind. -/
def Latest (kind : Machine → Input → Prop) (m : Machine) (past : List Input) : Prop :=
  ∃ front taken since, past = front ++ taken :: since ∧ kind (m.after front) taken ∧
    m.after past = ((m.after front).step taken).machine

/-- An announcement is only ever the innermost wait, and if it is of a response, then nothing has
been done since the response was taken in. -/
structure Poised (m : Machine) (past : List Input) : Prop where
  alone : ∀ waiting ∈ (m.after past).stack.tail, waiting.isAnnouncement = false
  attended : ∀ waiting ∈ (m.after past).stack.head?, ∀ call, waiting.hand.due? = some call →
    m.Latest (fun n input => n.Attends input call) past

/-- A response to a call is taken in by the first of the inputs `since` and `input`, and before the
last of them the listener, if there is one, is told the status that `now` has without the call. -/
structure Finished (m : Machine) (since : List Input) (input : Input) (id : UInt64)
    (now : Session) : Prop where
  absorbed : ∃ taken raw call, (since ++ [input]).head? = some taken ∧ m.Answers taken raw call ∧
    call.id = id ∧ m.session.Absorbed raw now
  gone : now.isPending id = false
  told : ∀ listener, now.listener = some listener →
    .request (.status listener now.busyStatus) ∈ m.emitted since

end Machine

namespace Session.Absorbed

variable {s now : Session} {raw : Json}

theorem of_refused {error : FrameError}
    (refused : (s.dialect.classify s.binder raw).result = .error error)
    (same : now.standing = s.standing) : s.Absorbed raw now where
  resumed frame decoded := by cases decoded.symm.trans refused
  noted frame decoded := by cases decoded.symm.trans refused
  undecoded _ _ := ⟨congrArg Standing.context same, congrArg Standing.handles same⟩

theorem of_response {frame : ResponseFrame}
    (decoded : (s.dialect.classify s.binder raw).result = .ok (.response frame))
    (brought : now.standing = s.standing.follow (s.dialect.responseChanges frame false)) :
    s.Absorbed raw now where
  undecoded error refused := by cases decoded.symm.trans refused
  resumed other same running := by
    cases same.symm.trans decoded
    cases dialect : s.dialect with
    | wip =>
      rw [dialect] at decoded
      rw [(Dialect.wip_tells_nothing decoded).2] at running
      cases running
    | v8 =>
      simp only [dialect, Dialect.responseChanges, running, if_true] at brought
      exact ⟨congrArg (·.context.current) brought, congrArg Standing.handles brought⟩
  noted other same stopped := by
    cases same.symm.trans decoded
    cases dialect : s.dialect with
    | wip =>
      rw [dialect] at decoded brought
      refine ⟨congrArg Standing.context brought, fun handle entry listed => ?_⟩
      rw [(Dialect.wip_tells_nothing decoded).1] at listed
      cases listed
    | v8 =>
      simp only [dialect, Dialect.responseChanges, if_neg stopped] at brought
      refine ⟨congrArg Standing.context brought, fun handle entry listed => ?_⟩
      have handles : now.handles = s.handles.putAll frame.refs := congrArg Standing.handles brought
      rw [handles, HandleTable.get?_putAll, listed, Option.some_or]

end Session.Absorbed

theorem outcomes_of_unasked {emissions : List Emission} (unasked : asked emissions = [])
    (id : UInt64) : outcomes id emissions = [] := by
  rw [Machine.outcomes_eq_of_asked, unasked]
  rfl

theorem Machine.conclude_runs_none (n : Machine) (after : After) (id : UInt64) :
    outcomes id (n.conclude after).emitted = [] := by
  cases after with
  | finish | refuse => rfl
  | read =>
    simp only [conclude]
    split <;> rfl

/-! ## The step that takes in a response -/

namespace Turn.Prompts

variable {turn : Turn} {stale : Bool}

theorem preceded (prompts : turn.Prompts stale) {emissions : List Emission}
    (unasked : asked emissions = []) : (turn.preceded emissions).Prompts stale := by
  have same : ∀ id, outcomes id (turn.preceded emissions).emitted = outcomes id turn.emitted := by
    intro id
    rw [Turn.preceded, outcomes_append, outcomes_of_unasked unasked, List.nil_append]
  constructor
  · intro listener listens
    obtain ⟨told, silent⟩ := prompts.told listener listens
    exact ⟨List.mem_append_right _ told, fun id => (same id).trans (silent id)⟩
  · intro late id
    exact (same id).trans (prompts.dropped late id)

theorem noticed (prompts : turn.Prompts stale) (notices : List Notice) :
    (turn.noticed notices).Prompts stale :=
  prompts.preceded (asked_notices notices)

theorem announce {n : Machine} {next : Machine → Turn} (waiting : Waiting)
    (kept : (next n).machine.session = n.session)
    (dropped : stale = true → ∀ id, outcomes id (next n).emitted = []) :
    (n.announce waiting next).Prompts stale := by
  unfold Machine.announce
  cases listens : n.session.listener with
  | none =>
    refine ⟨fun listener some => ?_, dropped⟩
    rw [kept, listens] at some
    cases some
  | some listener =>
    refine ⟨fun other same => ?_, fun _ _ => rfl⟩
    obtain rfl : listener = other := Option.some.inj (listens.symm.trans same)
    exact ⟨List.mem_singleton.2 rfl, fun _ => rfl⟩

end Turn.Prompts

namespace Machine

variable {m : Machine} {input : Input} {raw : Json} {call : PendingCall}
  {outcome : Except RemoteError Json} {failure : CallFailure}

theorem Hears.prompts (hears : m.Hears input call outcome) :
    (m.step input).Prompts (m.session.isStale call) := by
  obtain ⟨received, decoded, pending⟩ := hears
  obtain ⟨text, after, -, parsed, taken⟩ := step_of_receives received
  rw [taken, receive_of_response ⟨m.session, m.base input⟩ after received.opened parsed decoded]
  refine Turn.Prompts.preceded (.noticed ?_ _) (asked_transcribe _ _ _)
  simp only [deliverResponse, pending]
  refine .noticed (.announce _ (completeResponse_session _ _ _ _ _) fun late id => ?_) _
  rw [late]
  exact conclude_runs_none _ after id

theorem Mishears.prompts (mishears : m.Mishears input call failure) :
    (m.step input).Prompts false := by
  obtain ⟨received, refused, addressed, meant, pending⟩ := mishears
  obtain ⟨text, after, -, parsed, taken⟩ := step_of_receives received
  rw [taken, receive_of_undecodable ⟨m.session, m.base input⟩ after received.opened parsed refused
    addressed]
  refine Turn.Prompts.preceded (.noticed ?_ _) (asked_transcribe _ _ _)
  simp only [deliverMalformed, meant, pending]
  exact .announce _ (completeMalformed_session _ _ _ _) fun late => absurd late Bool.false_ne_true

theorem Answers.absorbed (answers : m.Answers input raw call)
    (timely : ∀ frame, (m.session.dialect.classify m.session.binder raw).result
      = .ok (.response frame) → m.session.isStale call = false) :
    m.session.Absorbed raw (m.step input).machine.session := by
  obtain ⟨text, after, -, parsed, taken⟩ := step_of_receives answers.receives
  have standing := (receive_brings ⟨m.session, m.base input⟩ text after).2
  rw [← taken, Session.changesOf, if_neg answers.receives.opened, parsed] at standing
  have addressed := answers.addressed
  unfold Dialect.answeredId? at addressed
  cases decoded : (m.session.dialect.classify m.session.binder raw).result with
  | error error =>
    simp only [decoded] at standing
    exact .of_refused decoded standing
  | ok incoming =>
    cases incoming with
    | event frame => simp [decoded] at addressed
    | response frame =>
      have named : frame.id = call.id := by simpa [decoded] using addressed
      simp only [decoded, named, answers.pending, timely frame decoded] at standing
      exact .of_response decoded standing

theorem Hears.attends (hears : m.Hears input call outcome)
    (timely : m.session.isStale call = false) : m.Attends input call := by
  obtain ⟨raw, answers⟩ := hears.isAnswered
  refine ⟨⟨raw, answers, answers.absorbed fun _ _ => timely⟩, fun listener listens => ?_⟩
  exact (hears.prompts.told listener listens).1

theorem Mishears.attends (mishears : m.Mishears input call failure) : m.Attends input call := by
  obtain ⟨raw, answers⟩ := mishears.isAnswered
  refine ⟨⟨raw, answers, answers.absorbed fun frame decoded => ?_⟩, fun listener listens =>
    (mishears.prompts.told listener listens).1⟩
  obtain ⟨received, refused, -, -, -⟩ := mishears
  obtain rfl := Option.some.inj (received.text.symm.trans answers.receives.text)
  cases decoded.symm.trans refused

/-! ## From the listener to the callback -/

theorem Latest.now {kind : Machine → Input → Prop} {past : List Input}
    (holds : kind (m.after past) input) : m.Latest kind (past ++ [input]) :=
  ⟨past, input, [], rfl, holds, m.after_concat past input⟩

theorem Latest.idle {kind : Machine → Input → Prop} {past : List Input}
    (latest : m.Latest kind past) (idle : (m.after past).step input = ⟨m.after past, []⟩) :
    m.Latest kind (past ++ [input]) := by
  obtain ⟨front, taken, since, rfl, holds, same⟩ := latest
  refine ⟨front, taken, since ++ [input], by simp, holds, ?_⟩
  rw [after_concat, idle, same]

/-- A call that is due for what a step has taken into the hand was attended to by this step. -/
theorem attends_of_traced {hand : Hand} (traced : m.Traced [input] hand)
    (due : hand.due? = some call) : m.Attends input call := by
  cases hand with
  | nothing | sent | drained => cases due
  | response other outcome stale =>
    rw [Traced, happens_single] at traced
    obtain ⟨hears, timely⟩ := traced
    cases stale with
    | true => cases due
    | false =>
      cases due
      exact hears.attends timely
  | undecodable other failure =>
    rw [Traced, happens_single] at traced
    cases due
    exact traced.attends

end Machine

theorem Waiting.due?_of_unannounced {waiting : Waiting} (other : waiting.isAnnouncement = false) :
    waiting.hand.due? = none := by
  cases waiting <;> first | rfl | cases other

theorem Works.added_traced {m : Machine} {input : Input} {base : List Waiting} {s : Session}
    {hand : Hand} {turn : Turn} (works : Works m input base s hand turn)
    (known : m.Traced [input] hand) :
    ∃ added : Option Waiting, turn.machine.stack = added.toList ++ base ∧
      ∀ waiting ∈ added, m.Traced [input] waiting.hand := by
  induction works with
  | ends last => exact ⟨_, rfl, (@Ends.traced m [] input _ _ _ _ _ last known).1⟩
  | work first rest ih => exact ih (@Work.traced m [] input _ _ _ _ _ first known)

namespace Machine

variable {m : Machine} {input : Input} {waiting : Waiting} {rest : List Waiting}

theorem conclude_adds (n : Machine) (after : After) :
    ∃ added : Option Waiting, (n.conclude after).machine.stack = added.toList ++ n.stack ∧
      ∀ waiting ∈ added, waiting.isAnnouncement = false := by
  cases after with
  | finish | refuse => exact ⟨none, rfl, by simp⟩
  | read =>
    simp only [conclude]
    split
    · exact ⟨none, rfl, by simp⟩
    · exact ⟨some .pulling, rfl, by simp [Waiting.isAnnouncement]⟩

/-- The listener having been told, the session stays as it is and the listener is told nothing
more in this step. -/
theorem answer_of_announcement {n : Machine} {turn : Turn}
    (announcement : waiting.isAnnouncement = true)
    (given : n.answer? waiting input = some turn) :
    turn.machine.session = n.session ∧
      ∃ added : Option Waiting, turn.machine.stack = added.toList ++ n.stack ∧
        ∀ waiting ∈ added, waiting.isAnnouncement = false := by
  cases input with
  | start operation => cases given
  | accepted | refused | pulled => cases waiting <;> cases announcement <;> cases given
  | crashed =>
    cases given
    obtain ⟨emissions, broken⟩ := n.afterCrash_of_announcement announcement
    rw [broken]
    exact ⟨rfl, none, rfl, by simp⟩
  | done =>
    cases waiting with
    | transmitting | completing | draining | closingTransport | pulling => cases announcement
    | announcedCall id =>
      cases given
      exact ⟨rfl, none, rfl, by simp⟩
    | announcedClose after =>
      cases given
      exact ⟨conclude_session n after, conclude_adds n after⟩
    | announcedResponse call outcome stale after =>
      cases given
      refine ⟨completeResponse_session n call outcome stale after, ?_⟩
      cases stale with
      | true => exact conclude_adds n after
      | false =>
        obtain ⟨log, timely⟩ := completeResponse_timely n call outcome after
        rw [timely]
        exact ⟨some (.completing call.command after), rfl, by simp [Waiting.isAnnouncement]⟩
    | announcedMalformed call failure after =>
      cases given
      refine ⟨completeMalformed_session n call failure after, ?_⟩
      unfold completeMalformed
      split
      · exact conclude_adds n after
      · exact ⟨some (.completing call.command after), rfl, by simp [Waiting.isAnnouncement]⟩

theorem step_of_announcement (waited : m.stack = waiting :: rest)
    (announcement : waiting.isAnnouncement = true) (aloof : ¬ m.Meddles input) :
    m.step input = ⟨m, []⟩ ∨ (m.step input).machine.session = m.session ∧
      ∃ added : Option Waiting, (m.step input).machine.stack = added.toList ++ rest ∧
        ∀ waiting ∈ added, waiting.isAnnouncement = false := by
  cases input with
  | start operation =>
    refine absurd ?_ aloof
    simpa only [Meddles, waited, List.head?_cons, Option.any_some] using announcement
  | _ =>
    simp only [step, waited]
    split
    · rename_i turn given
      exact .inr (answer_of_announcement announcement given)
    · exact .inl rfl

theorem traced_hand (silent : ∀ waiting ∈ m.stack, waiting.isAnnouncement = false)
    (input : Input) : m.Traced [input] (m.hand input) := by
  rcases hand_cases m input with empty | ⟨waiting, mem, same⟩
  · rw [empty]
    trivial
  · rw [same]
    have other := silent waiting mem
    cases waiting <;> trivial

/-- Unless the listener meddles, a step that does anything leaves at most one wait of its own above
waits that are no announcements, and what is due then was taken in by this step. -/
theorem step_adds (alone : ∀ waiting ∈ m.stack.tail, waiting.isAnnouncement = false)
    (aloof : ¬ m.Meddles input) :
    m.step input = ⟨m, []⟩ ∨ ∃ (added : Option Waiting) (base : List Waiting),
      (m.step input).machine.stack = added.toList ++ base ∧
      (∀ waiting ∈ base, waiting.isAnnouncement = false) ∧
      ∀ waiting ∈ added, ∀ call, waiting.hand.due? = some call → m.Attends input call := by
  by_cases told : ∃ waiting rest, m.stack = waiting :: rest ∧ waiting.isAnnouncement = true
  · obtain ⟨waiting, rest, waited, announcement⟩ := told
    rw [waited] at alone
    rcases step_of_announcement waited announcement aloof with idle | ⟨-, added, stack, others⟩
    · exact .inl idle
    · refine .inr ⟨added, rest, stack, alone, fun waiting own call due => ?_⟩
      rw [Waiting.due?_of_unannounced (others waiting own)] at due
      cases due
  · have silent : ∀ waiting ∈ m.stack, waiting.isAnnouncement = false := by
      cases waited : m.stack with
      | nil => simp
      | cons first rest =>
        rw [waited] at alone
        refine List.forall_mem_cons.2 ⟨?_, alone⟩
        exact Bool.eq_false_iff.2 fun announcement => told ⟨first, rest, waited, announcement⟩
    rcases step_works m input with idle | works
    · exact .inl idle
    · obtain ⟨added, stack, traced⟩ := works.added_traced (traced_hand silent input)
      refine .inr ⟨added, m.base input, stack, ?_, ?_⟩
      · exact fun waiting mem => silent waiting (base_subset m input mem)
      · exact fun waiting own call => attends_of_traced (traced waiting own)

theorem Poised.step {past : List Input} (poised : m.Poised past)
    (aloof : ¬ (m.after past).Meddles input) : m.Poised (past ++ [input]) := by
  rcases step_adds poised.alone aloof with idle | ⟨added, base, stack, silent, attends⟩
  · have same : m.after (past ++ [input]) = m.after past := by rw [after_concat, idle]
    refine ⟨same ▸ poised.alone, fun waiting head call due => ?_⟩
    exact (poised.attended waiting (same ▸ head) call due).idle idle
  · rw [← after_concat] at stack
    cases added with
    | none =>
      replace stack : (m.after (past ++ [input])).stack = base := stack
      constructor
      · intro waiting mem
        exact silent waiting (stack ▸ List.mem_of_mem_tail mem)
      · intro waiting head call due
        have other := silent waiting (stack ▸ List.mem_of_mem_head? head)
        rw [Waiting.due?_of_unannounced other] at due
        cases due
    | some own =>
      replace stack : (m.after (past ++ [input])).stack = own :: base := stack
      constructor
      · rw [stack]
        exact silent
      · intro waiting head call due
        rw [stack] at head
        obtain rfl : own = waiting := Option.some.inj head
        exact .now (attends own rfl call due)

theorem poised_run {inputs : List Input} (rested : m.stack = [])
    (aloof : ¬ m.Happens Meddles inputs) : m.Poised inputs := by
  induction inputs using List.reverseRecOn with
  | nil => exact ⟨by simp [rested], by simp [rested]⟩
  | append_singleton before input ih =>
    rw [happens_append, happens_single, not_or] at aloof
    exact (ih aloof.1).step aloof.2

/-! ## Callbacks -/

end Machine

theorem Turn.Prompts.of_outcome {turn : Turn} {stale : Bool} {id : UInt64}
    {outcome : Except CallFailure Reply} (prompts : turn.Prompts stale)
    (shown : outcome ∈ outcomes id turn.emitted) :
    stale = false ∧ ∀ listener, turn.machine.session.listener ≠ some listener := by
  constructor
  · cases stale with
    | false => rfl
    | true =>
      rw [prompts.dropped rfl id] at shown
      cases shown
  · intro listener listens
    rw [(prompts.told listener listens).2 id] at shown
    cases shown

theorem Emission.outcome?_of_isPlain {emission : Emission} (plain : emission.isPlain = true)
    (id : UInt64) : emission.outcome? id = none := by
  unfold Emission.outcome?
  split <;> first | cases plain | rfl

namespace Machine

variable {m : Machine} {input : Input} {before : List Input} {call : PendingCall} {id : UInt64}
  {outcome : Except CallFailure Reply}

theorem cause_of_outcome (shown : outcome ∈ outcomes id (m.step input).emitted)
    (opened : ∀ reason, outcome ≠ .error (.connectionClosed reason)) :
    (∃ call outcome, m.Completes input call outcome ∧ call.id = id) ∨
      ∃ call failure, m.Fails input call failure ∧ call.id = id := by
  obtain ⟨emission, seen, given⟩ := List.mem_filterMap.1 shown
  cases step_stems m input emission seen with
  | plain plain =>
    rw [Emission.outcome?_of_isPlain plain] at given
    cases given
  | completed completes =>
    rename_i call outcome
    refine .inl ⟨call, outcome, completes, ?_⟩
    cases settled : m.session.settle call outcome <;> rw [settled] at given <;>
      exact (Option.ite_none_right_eq_some.1 given).1
  | failed fails => exact .inr ⟨_, _, fails, (Option.ite_none_right_eq_some.1 given).1⟩
  | drained other reason =>
    exact absurd (Option.some.inj (Option.ite_none_right_eq_some.1 given).2).symm (opened reason)
  | _ => cases given

theorem finished_at_once (attends : (m.after before).Attends input call)
    (untold : ∀ listener, ((m.after before).step input).machine.session.listener ≠ some listener)
    (gone : ((m.after before).step input).machine.session.isPending call.id = false) :
    ∃ front since, before = front ++ since ∧
      (m.after front).Finished since input call.id ((m.after before).step input).machine.session := by
  obtain ⟨raw, answers, absorbed⟩ := attends.absorbed
  refine ⟨before, [], (List.append_nil before).symm, ?_⟩
  exact ⟨⟨input, raw, call, rfl, answers, rfl, absorbed⟩, gone,
    fun listener listens => absurd listens (untold listener)⟩

theorem finished_once_told {waiting : Waiting} {rest : List Waiting}
    (poised : m.Poised before) (aloof : ¬ (m.after before).Meddles input)
    (waited : (m.after before).stack = waiting :: rest) (due : waiting.hand.due? = some call)
    (gone : ((m.after before).step input).machine.session.isPending call.id = false) :
    ∃ front since, before = front ++ since ∧
      (m.after front).Finished since input call.id ((m.after before).step input).machine.session := by
  have announcement : waiting.isAnnouncement = true := by
    cases waiting <;> first | rfl | cases due
  have kept : ((m.after before).step input).machine.session = (m.after before).session := by
    rcases step_of_announcement waited announcement aloof with idle | ⟨same, -⟩
    · rw [idle]
    · exact same
  obtain ⟨front, taken, since, rfl, attends, stays⟩ :=
    poised.attended waiting (waited ▸ rfl) call due
  rw [kept, stays] at gone ⊢
  obtain ⟨raw, answers, absorbed⟩ := attends.absorbed
  refine ⟨front, taken :: since, rfl, ⟨taken, raw, call, rfl, answers, rfl, absorbed⟩, gone, ?_⟩
  intro listener listens
  rw [emitted_cons]
  exact List.mem_append_left _ (attends.told listener listens)

theorem finished_of_outcome (rested : m.stack = [])
    (aloof : ¬ m.Happens Meddles (before ++ [input]))
    (shown : outcome ∈ outcomes id ((m.after before).step input).emitted)
    (opened : ∀ reason, outcome ≠ .error (.connectionClosed reason))
    (gone : ((m.after before).step input).machine.session.isPending id = false) :
    ∃ front since, before = front ++ since ∧
      (m.after front).Finished since input id ((m.after before).step input).machine.session := by
  rw [happens_append, happens_single, not_or] at aloof
  have poised := poised_run rested aloof.1
  rcases cause_of_outcome shown opened with
    ⟨call, heard, completes, rfl⟩ | ⟨call, failure, fails, rfl⟩
  · cases completes with
    | onReceipt hears =>
      obtain ⟨timely, untold⟩ := hears.prompts.of_outcome shown
      exact finished_at_once (hears.attends timely) untold gone
    | onceTold waited => exact finished_once_told poised aloof.2 waited rfl gone
  · cases fails with
    | onReceipt mishears =>
      exact finished_at_once mishears.attends (mishears.prompts.of_outcome shown).2 gone
    | onceTold waited => exact finished_once_told poised aloof.2 waited rfl gone

/-! ## Handlers -/

theorem receive_of_event (n : Machine) {text : String} {raw : Json} {frame : EventFrame}
    (after : After) (opened : n.session.phase ≠ .closed) (parsed : Json.parse? text = some raw)
    (decoded : (n.session.dialect.classify n.session.binder raw).result = .ok (.event frame)) :
    n.receive text after
      = ((n.deliverEvent frame after).noticed
          ((n.session.dialect.classify n.session.binder raw).run.log.map .ambiguous)).preceded
            (n.transcribe "<-" text) := by
  have value : (n.session.dialect.classify n.session.binder raw).run.value = .ok (.event frame) :=
    decoded
  unfold receive
  rw [if_neg opened, parsed]
  simp only [deliver, value]

theorem step_of_event {frame : EventFrame} (received : m.ReceivesEvent input frame) :
    (m.step input).machine.session = (applyEvent m.session frame.name).1 ∧
      ∀ notice ∈ (applyEvent m.session frame.name).2, .notice notice ∈ (m.step input).emitted := by
  obtain ⟨raw, received, decoded⟩ := received
  obtain ⟨text, after, -, parsed, taken⟩ := step_of_receives received
  rw [taken, receive_of_event ⟨m.session, m.base input⟩ after received.opened parsed decoded]
  constructor
  · exact routeEvent_session ⟨(applyEvent m.session frame.name).1, m.base input⟩ frame after
  · intro notice reported
    refine List.mem_append_right _ (List.mem_append_right _ (List.mem_append_left _ ?_))
    exact List.mem_map_of_mem reported

end Machine

/-! ## When user code starts -/

theorem Work.asks_nothing {m : Machine} {input : Input} {s t : Session} {hand next : Hand}
    {es : List Emission} (work : Work m input s hand es t next) (request : Request) :
    .request request ∉ es := by
  cases work <;> simp

theorem Ends.asks_last {m : Machine} {input : Input} {s t : Session} {hand : Hand}
    {es : List Emission} {waiting : Option Waiting} (last : Ends m input s hand es t waiting)
    {request : Request} (asked : .request request ∈ es) : es.getLast? = some (.request request) := by
  cases last <;> simp_all

theorem Works.asks_last {m : Machine} {input : Input} {base : List Waiting} {s : Session}
    {hand : Hand} {turn : Turn} (works : Works m input base s hand turn) {request : Request}
    (asked : .request request ∈ turn.emitted) :
    turn.emitted.getLast? = some (.request request) := by
  induction works with
  | ends last => exact last.asks_last asked
  | work first rest ih =>
    rcases List.mem_append.1 asked with early | late
    · exact absurd early (first.asks_nothing request)
    · rw [Turn.preceded, List.getLast?_append, ih late, Option.some_or]

namespace Machine

/-- A step asks for something last of all, so the session that it leaves is the one that is found by
what it asks for. -/
theorem step_asks_last {m : Machine} {input : Input} {request : Request}
    (asked : .request request ∈ (m.step input).emitted) :
    (m.step input).emitted.getLast? = some (.request request) := by
  rcases step_works m input with idle | works
  · rw [idle] at asked
    cases asked
  · exact works.asks_last asked

/-- In every run in which the listener leaves the session alone, user code is the last thing that a
step asks for, and finds a finished change of state. A callback that does not run for a close finds
that the response has been taken in, that its call is not pending and that the listener has been
told so. A handler finds that its event has been applied. -/
theorem callbacks_find_transition_finished {config : Config} {registry : Registry}
    {transcript : Transcript} {m : Machine} {before : List Input} {input : Input}
    (began : m = initial config registry transcript)
    (few : (issuedIds (m.emitted (before ++ [input]))).length < 2 ^ 64)
    (aloof : ¬ m.Happens Meddles (before ++ [input])) :
    (∀ request, .request request ∈ ((m.after before).step input).emitted →
      ((m.after before).step input).emitted.getLast? = some (.request request)) ∧
    (∀ id outcome, outcome ∈ outcomes id ((m.after before).step input).emitted →
      (∀ reason, outcome ≠ .error (.connectionClosed reason)) →
      ∃ front since, before = front ++ since ∧ (m.after front).Finished since input id
        ((m.after before).step input).machine.session) ∧
    (∀ handler event, .request (.handle handler event) ∈ ((m.after before).step input).emitted →
      ∃ frame, (m.after before).ReceivesEvent input frame ∧ frame.name = event.name ∧
        (config.dialect.eventLifecycle? event.name = some .suspend →
          ∃ token ∈ mintedTokens ((m.after before).step input).emitted,
            ((m.after before).step input).machine.session.context.current = some token) ∧
        (config.dialect.eventLifecycle? event.name = some .resume →
          ((m.after before).step input).machine.session.context.current = none ∧
          ((m.after before).step input).machine.session.handles = .empty)) := by
  have rested : m.stack = [] := by rw [began]; rfl
  have fresh : m.heldCalls = [] := by rw [began, heldCalls_initial]
  refine ⟨fun request => step_asks_last, ?_, ?_⟩
  · intro id outcome shown opened
    apply finished_of_outcome rested aloof shown opened
    -- All that was ever held under the id has gone into this one outcome.
    have once := held_le_one fresh few id
    have mem : outcome ∈ outcomes id (m.emitted (before ++ [input])) :=
      mem_outcomes_of_step before shown
    have some := List.length_pos_of_mem mem
    rw [← Bool.not_eq_true, ← after_concat, Session.isPending_iff_copies]
    rw [held, heldCalls, copies_append] at once
    omega
  · intro handler event shown
    obtain ⟨frame, processor, payload, routes, -, -, rfl⟩ :=
      (step_stems (m.after before) input _ shown).of_handle
    have dialect : (m.after before).session.dialect = config.dialect := by
      rw [(sameSetup_run m before).dialect, began]
      rfl
    obtain ⟨session, reported⟩ := step_of_event routes.received
    rw [session, ← dialect]
    refine ⟨frame, routes.received, rfl, fun suspends => ?_, fun resumes => ?_⟩
    · simp only [applyEvent, suspends] at reported ⊢
      refine ⟨_, ?_, rfl⟩
      exact List.mem_filterMap.2 ⟨_, reported _ (List.mem_singleton.2 rfl), rfl⟩
    · simp only [applyEvent, resumes]
      exact ⟨rfl, rfl⟩

def listeningRun : List Input :=
  [.start (.listen 3), .start (.onEvent "break" "V8BreakBody" 5),
    .start (.send ⟨"version", none, none⟩ none), .accepted, .done, .start (.receive versionText),
    .done, .done, .start (.receive breakText)]

def handledName? : Emission → Option String
  | .request (.handle _ event) => some event.name
  | _ => none

theorem callbacks_find_transition_finished_stopped :
    (∃ front since, listeningRun.take 6 = front ++ since ∧
      ((initial .default Catalog.registry .off).after front).Finished since .done 1
        (((initial .default Catalog.registry .off).after (listeningRun.take 6)).step
          .done).machine.session) ∧
    ∃ token ∈ mintedTokens (((initial .default Catalog.registry .off).after
        (listeningRun.take 8)).step (.start (.receive breakText))).emitted,
      (((initial .default Catalog.registry .off).after (listeningRun.take 8)).step
        (.start (.receive breakText))).machine.session.context.current = some token := by
  have replied : (outcomes 1 (((initial .default Catalog.registry .off).after
      (listeningRun.take 6)).step .done).emitted).any (·.toOption.isSome) = true := by
    decide +kernel
  have handled : "break" ∈ (((initial .default Catalog.registry .off).after
      (listeningRun.take 8)).step (.start (.receive breakText))).emitted.filterMap handledName? := by
    decide +kernel
  constructor
  · obtain ⟨outcome, shown, reply⟩ := List.any_eq_true.1 replied
    obtain ⟨-, finished, -⟩ := @callbacks_find_transition_finished .default Catalog.registry .off _
      (listeningRun.take 6) .done rfl (by decide +kernel) (by decide +kernel)
    refine finished 1 outcome shown ?_
    rintro reason rfl
    cases reply
  · obtain ⟨emission, asked, named⟩ := List.mem_filterMap.1 handled
    obtain ⟨-, -, applied⟩ := @callbacks_find_transition_finished .default Catalog.registry .off _
      (listeningRun.take 8) (.start (.receive breakText)) rfl (by decide +kernel) (by decide +kernel)
    unfold handledName? at named
    split at named
    · rename_i handler event
      obtain ⟨-, -, -, suspends, -⟩ := applied handler event asked
      refine suspends ?_
      rw [Option.some.inj named]
      rfl
    · cases named

end Machine

end DebugLink
