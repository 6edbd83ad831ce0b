import DebugLink.Proofs.Session.Course
import DebugLink.Proofs.Session.Rejection
import DebugLink.Proofs.Session.Table

/-!
# A close from its start to its end

A close fails the calls that were pending, one after the other, whatever user code does meanwhile:
a session that is closing or closed takes no new calls and completes no others, so all that is run
on top of the close leaves its list alone. Then the transport is released and the token and the
handles are gone. Once a session is closed, further closes and frames do nothing.
-/

set_option autoImplicit false

namespace DebugLink

/-! ## Completions in order -/

def Emission.completion? : Emission → Option (UInt64 × Except CallFailure Reply)
  | .request (.succeed id reply) => some (id, .ok reply)
  | .request (.fail id failure) => some (id, .error failure)
  | _ => none

def completions (emitted : List Emission) : List (UInt64 × Except CallFailure Reply) :=
  emitted.filterMap Emission.completion?

theorem completions_append (xs ys : List Emission) :
    completions (xs ++ ys) = completions xs ++ completions ys :=
  List.filterMap_append

theorem completions_notices (notices : List Notice) : completions (notices.map .notice) = [] := by
  induction notices with
  | nil => rfl
  | cons notice notices ih => exact ih

def failedBy (reason : String) (calls : List PendingCall) :
    List (UInt64 × Except CallFailure Reply) :=
  calls.map fun call => (call.id, .error (.connectionClosed reason))

/-! ## What is done on top of a close -/

structure Session.Past (s : Session) : Prop where
  phase : s.phase ≠ .connected
  calls : s.calls = []

theorem Session.Past.call? {s : Session} (past : s.Past) (id : UInt64) : s.call? id = none := by
  rw [Session.call?, past.calls]
  rfl

section Quiet

variable {m : Machine} {input : Input} {base : List Waiting} {s t : Session} {hand next : Hand}
  {es : List Emission} {waiting : Option Waiting} {turn : Turn}

theorem Work.quiet (work : Work m input s hand es t next) (whole : m.session.Past) (past : s.Past)
    (free : hand = .nothing) :
    next = .nothing ∧ t.Past ∧ t.phase = s.phase ∧ completions es = [] := by
  cases work with
  | responded received decoded pending => cases (whole.call? _).symm.trans pending
  | malformed received refused addressed meant pending =>
    cases (whole.call? _).symm.trans pending
  | closing reason connected => exact absurd connected past.phase
  | withdrawn | abandoned | abandonedMalformed => cases free
  | _ => exact ⟨free, ⟨past.phase, past.calls⟩, rfl, rfl⟩

theorem Ends.quiet (last : Ends m input s hand es t waiting) (whole : m.session.Past)
    (past : s.Past) (free : hand = .nothing) :
    t.Past ∧ t.phase = s.phase ∧ completions es = [] ∧ ∀ wait ∈ waiting, wait.hand = .nothing := by
  cases last with
  | entered asked sends connected => exact absurd connected whole.phase
  | announced waiting listener listens announcement =>
    exact ⟨past, rfl, rfl, by simpa using free⟩
  | accepted | sendBroken | responseBroken | malformedBroken | completed | failedMalformed
  | drained | released => cases free
  | returned | brokenDown => exact ⟨past, rfl, rfl, by simp⟩
  | handled | pulled => exact ⟨past, rfl, rfl, by simp [Waiting.hand]⟩

theorem Works.quiet (works : Works m input base s hand turn) (whole : m.session.Past)
    (past : s.Past) (free : hand = .nothing) :
    turn.machine.session.Past ∧ turn.machine.session.phase = s.phase ∧
      completions turn.emitted = [] ∧
      ∃ waiting : Option Waiting, turn.machine.stack = waiting.toList ++ base ∧
        ∀ wait ∈ waiting, wait.hand = .nothing := by
  induction works with
  | ends last =>
    obtain ⟨own, phase, silent, waits⟩ := last.quiet whole past free
    exact ⟨own, phase, silent, _, rfl, waits⟩
  | work first rest ih =>
    obtain ⟨empty, own, phase, silent⟩ := first.quiet whole past free
    obtain ⟨left, same, silence, waits⟩ := ih own empty
    refine ⟨left, same.trans phase, ?_, waits⟩
    rw [Turn.preceded, completions_append, silent, silence, List.nil_append]

end Quiet

namespace Machine

/-- What waits above `below` has no call in its hand, and none can get there. -/
structure Quiet (below : List Waiting) (m : Machine) : Prop where
  past : m.session.Past
  waits : ∃ upper, m.stack = upper ++ below ∧ ∀ waiting ∈ upper, waiting.hand = .nothing

variable {m : Machine} {below : List Waiting} {input : Input} {inputs : List Input}

theorem Quiet.begins (quiet : m.Quiet below) {upper : List Waiting}
    (kept : m.base input = upper ++ below) :
    m.hand input = .nothing ∧ ∀ waiting ∈ upper, waiting.hand = .nothing := by
  obtain ⟨waits, stack, free⟩ := quiet.waits
  cases input with
  | start operation =>
    have same : waits = upper := List.append_cancel_right (stack.symm.trans kept)
    exact ⟨rfl, same ▸ free⟩
  | _ =>
    simp only [base, stack] at kept
    cases waits with
    | nil =>
      -- The step answers a wait, so it is one of the upper waits unless nothing waits at all.
      cases below with
      | nil =>
        have none : upper = [] := by simpa using kept.symm
        simp [hand, stack, none]
      | cons first below =>
        have lengths := congrArg List.length kept
        simp only [List.nil_append, List.tail_cons, List.length_append, List.length_cons] at lengths
        omega
    | cons first waits =>
      have same : waits = upper := List.append_cancel_right kept
      subst same
      refine ⟨?_, fun waiting mem => free waiting (List.mem_cons_of_mem _ mem)⟩
      simp [hand, stack, free first List.mem_cons_self]

theorem Quiet.step (quiet : m.Quiet below) (leaves : m.Leaves below input) :
    (m.step input).machine.Quiet below ∧
      (m.step input).machine.session.phase = m.session.phase ∧
      completions (m.step input).emitted = [] := by
  have unchanged : m.step input = ⟨m, []⟩ → (m.step input).machine.Quiet below ∧
      (m.step input).machine.session.phase = m.session.phase ∧
      completions (m.step input).emitted = [] := by
    intro idle
    rw [idle]
    exact ⟨quiet, rfl, rfl⟩
  rcases leaves with idle | ⟨upper, kept⟩
  · exact unchanged idle
  · rcases step_works m input with idle | works
    · exact unchanged idle
    · obtain ⟨free, others⟩ := quiet.begins kept
      obtain ⟨past, phase, silent, added, stack, own⟩ := works.quiet quiet.past quiet.past free
      refine ⟨⟨past, added.toList ++ upper, by rw [stack, kept, List.append_assoc], ?_⟩, phase,
        silent⟩
      intro waiting mem
      rcases List.mem_append.1 mem with new | old
      · exact own waiting (Option.mem_toList.1 new)
      · exact others waiting old

theorem Quiet.run (quiet : m.Quiet below) (aside : Aside below m inputs) :
    (m.after inputs).Quiet below ∧ (m.after inputs).session.phase = m.session.phase ∧
      completions (m.emitted inputs) = [] := by
  induction aside with
  | nil m => exact ⟨quiet, rfl, rfl⟩
  | cons leaves rest ih =>
    obtain ⟨kept, phase, silent⟩ := quiet.step leaves
    obtain ⟨last, same, silence⟩ := ih kept
    refine ⟨last, same.trans phase, ?_⟩
    rw [emitted_cons, completions_append, silent, silence, List.nil_append]

end Machine

/-! ## The calls that a close fails -/

/-- A close that has ended: the callbacks that were run, and that the session is closed. -/
def Turn.ClosesWith (turn : Turn) (body : List Input)
    (done : List (UInt64 × Except CallFailure Reply)) : Prop :=
  completions (turn.emitted ++ turn.machine.emitted body) = done ∧
    (turn.machine.after body).session.phase = .closed

theorem Turn.ClosesWith.preceded {turn : Turn} {body : List Input}
    {done : List (UInt64 × Except CallFailure Reply)} {emissions : List Emission}
    (closes : turn.ClosesWith body done) (silent : completions emissions = []) :
    (turn.preceded emissions).ClosesWith body done := by
  refine ⟨?_, closes.2⟩
  simp only [Turn.preceded, List.append_assoc]
  rw [completions_append, silent, List.nil_append]
  exact closes.1

namespace Turn.Spans

variable {turn : Turn} {base : List Waiting} {body : List Input} {n : Machine} {after : After}
  {expected : Result} {done : List (UInt64 × Except CallFailure Reply)}

theorem closes_of_ended (spans : turn.Spans base body) (stack : turn.machine.stack = base)
    (closed : turn.machine.session.phase = .closed) (silent : completions turn.emitted = []) :
    turn.ClosesWith body [] := by
  obtain rfl := spans.ended stack
  refine ⟨?_, closed⟩
  rw [Machine.emitted_nil, List.append_nil, silent]

/-- A close that waits ends as each answer to its wait makes it end; until then no callback is
run. -/
theorem closes_of_answers {waiting : Waiting} (spans : turn.Spans base body)
    (stack : turn.machine.stack = waiting :: base) (past : turn.machine.session.Past)
    (answered : ∀ s input next rest, s.Past → s.phase = turn.machine.session.phase →
      Machine.answer? ⟨s, base⟩ waiting input = some next → next.Spans base rest →
      next.ClosesWith rest done) :
    turn.ClosesWith body (completions turn.emitted ++ done) := by
  obtain ⟨before, input, rest, next, rfl, aside, waits, given, taken, spans⟩ := spans.goes_on stack
  have quiet : turn.machine.Quiet (waiting :: base) := ⟨past, [], stack, by simp⟩
  obtain ⟨kept, phase, silent⟩ := quiet.run aside
  obtain ⟨completed, closed⟩ := answered _ input next rest kept.past phase given spans
  refine ⟨?_, ?_⟩
  · rw [Machine.emitted_append, Machine.emitted_cons, taken, completions_append,
      completions_append, silent, List.nil_append, completed]
  · rw [Machine.after_append, Machine.after_cons, taken]
    exact closed

theorem closes_of_conclude (spans : (n.conclude after).Spans n.stack body)
    (gives : after.result? = some expected) (closed : n.session.phase = .closed) :
    (n.conclude after).ClosesWith body [] := by
  rw [After.conclude_of_result? gives] at spans ⊢
  exact spans.closes_of_ended rfl closed rfl

theorem closes_of_release (spans : (n.release after).Spans n.stack body)
    (gives : after.result? = some expected) (past : n.session.Past) :
    (n.release after).ClosesWith body [] := by
  have silent : completions (n.release after).emitted = [] := by
    change completions (n.session.resumeNotices.map .notice ++ [.request .closeTransport]) = []
    rw [completions_append, completions_notices]
    rfl
  have last : ∀ s input next rest, s.Past → s.phase = .closed →
      Machine.answer? ⟨s, n.stack⟩ (.announcedClose after) input = some next →
      next.Spans n.stack rest → next.ClosesWith rest [] := by
    intro s input next rest _ closed given spans
    cases input with
    | start | accepted | refused | pulled => cases given
    | crashed =>
      cases given
      exact spans.closes_of_ended rfl closed rfl
    | done =>
      cases given
      exact closes_of_conclude (n := ⟨s, n.stack⟩) spans gives closed
  have phase : (n.release after).machine.session.phase = .closed := rfl
  have released : (n.release after).machine.session.Past := ⟨by rw [phase]; simp, past.calls⟩
  have closes : (n.release after).ClosesWith body (completions (n.release after).emitted ++ []) :=
    spans.closes_of_answers rfl released fun s input next rest past closed given spans => ?_
  · rwa [silent, List.nil_append] at closes
  · cases input with
    | start | accepted | refused | pulled => cases given
    | crashed =>
      cases given
      exact spans.closes_of_ended rfl closed rfl
    | done =>
      cases given
      rcases Machine.announce_cases ⟨s, n.stack⟩ (.announcedClose after) (·.conclude after) with
        direct | ⟨listener, told⟩
      · rw [direct] at spans ⊢
        exact closes_of_conclude (n := ⟨s, n.stack⟩) spans gives closed
      · rw [told] at spans ⊢
        exact spans.closes_of_answers rfl past fun other input next rest past same given spans =>
          last other input next rest past (same.trans closed) given spans

theorem closes_of_drain {reason : String} {calls : List PendingCall}
    (spans : (n.drain reason calls after).Spans n.stack body)
    (gives : after.result? = some expected) (past : n.session.Past) :
    (n.drain reason calls after).ClosesWith body (failedBy reason calls) := by
  induction calls generalizing n body with
  | nil => exact spans.closes_of_release gives past
  | cons call calls ih =>
    refine spans.closes_of_answers rfl past
      fun s input next rest past _ given spans => ?_
    cases input with
    | start | accepted | refused | pulled => cases given
    | done =>
      cases given
      exact ih spans past
    | crashed =>
      cases given
      exact (ih spans.of_noticed past).preceded rfl

theorem closes_of_close {reason : String} (spans : (n.close reason after).Spans n.stack body)
    (gives : after.result? = some expected) (connected : n.session.phase = .connected) :
    (n.close reason after).ClosesWith body (failedBy reason n.session.calls) := by
  unfold Machine.close at spans ⊢
  rw [if_pos connected] at spans ⊢
  let closing := n.modify fun session => { session with phase := .closing, calls := [] }
  have past : closing.session.Past := ⟨by simp [closing, Machine.modify], rfl⟩
  have drained : (closing.drain reason n.session.calls after).Spans closing.stack body :=
    spans.of_noticed
  exact (drained.closes_of_drain gives past).preceded rfl

end Turn.Spans

/-! ## A close that nothing interferes with -/

def Session.closingAnswers (s : Session) : List Input :=
  .done :: s.listener.toList.map fun _ => .done

namespace Turn.Concludes

variable {n : Machine} {after : After} {expected : Result}

theorem conclude (gives : after.result? = some expected) :
    (n.conclude after).Concludes n.stack [] expected := by
  rw [After.conclude_of_result? gives]
  exact .of_returned rfl rfl

theorem release (gives : after.result? = some expected) :
    (n.release after).Concludes n.stack n.session.closingAnswers expected := by
  refine .of_answer rfl rfl ?_
  let closed : Machine := ⟨(n.release after).machine.session, n.stack⟩
  have ends : (closed.conclude after).Concludes closed.stack [] expected := conclude gives
  have same : closed.session.listener = n.session.listener := rfl
  change (closed.announce (.announcedClose after) (·.conclude after)).Concludes closed.stack _ _
  unfold Machine.announce
  rw [same]
  cases n.session.listener with
  | none => exact ends
  | some listener => exact .of_answer rfl rfl ends

theorem drain {reason : String} {calls : List PendingCall} {answers : List Input}
    (gives : after.result? = some expected) (each : answers.length = calls.length)
    (ends : ∀ answer ∈ answers, answer = .done ∨ answer = .crashed) :
    (n.drain reason calls after).Concludes n.stack (answers ++ n.session.closingAnswers)
      expected := by
  induction calls generalizing answers with
  | nil =>
    obtain rfl := List.eq_nil_of_length_eq_zero each
    exact .release gives
  | cons call calls ih =>
    cases answers with
    | nil => cases each
    | cons answer answers =>
      have rest := ih (Nat.succ.inj each) fun other mem => ends other (List.mem_cons_of_mem _ mem)
      rcases ends answer List.mem_cons_self with rfl | rfl
      · exact .of_answer rfl rfl rest
      · exact .of_answer rfl rfl
          (rest.preceded _)

theorem close {reason : String} {answers : List Input} (gives : after.result? = some expected)
    (connected : n.session.phase = .connected)
    (each : answers.length = n.session.calls.length)
    (ends : ∀ answer ∈ answers, answer = .done ∨ answer = .crashed) :
    (n.close reason after).Concludes n.stack (answers ++ n.session.closingAnswers) expected := by
  unfold Machine.close
  rw [if_pos connected]
  exact (Turn.Concludes.drain (n := n.modify fun session =>
    { session with phase := .closing, calls := [] }) gives each ends).preceded _

end Turn.Concludes

/-! ## What is left of the token and the handles -/

namespace Standing

variable {standing : Standing} {changes : List Change}

theorem current_follow (free : standing.context.current = none)
    (running : Change.suspended ∉ changes) :
    (standing.follow changes).context.current = none := by
  induction changes using List.reverseRecOn with
  | nil => exact free
  | append_singleton changes change ih =>
    rw [List.mem_append, not_or, List.mem_singleton] at running
    rw [follow_concat]
    cases change with
    | suspended => exact absurd rfl running.2
    | resumed => rfl
    | noted | forgotten => exact ih running.1

theorem handles_follow (empty : standing.handles = .empty)
    (silent : ∀ entries, Change.noted entries ∉ changes) :
    (standing.follow changes).handles = .empty := by
  induction changes using List.reverseRecOn with
  | nil => exact empty
  | append_singleton changes change ih =>
    rw [follow_concat]
    cases change with
    | noted entries => exact absurd (List.mem_append_right _ List.mem_cons_self) (silent entries)
    | resumed | forgotten => rfl
    | suspended => exact ih fun entries mem => silent entries (List.mem_append_left _ mem)

end Standing

namespace Machine

variable {m : Machine} {input : Input} {inputs : List Input}

theorem start_suspend_of_mem (asked : Change.suspended ∈ m.askedChanges input) :
    input = .start .suspend := by
  unfold askedChanges at asked
  split at asked
  · rfl
  · simp at asked
  · simp at asked
  · simp at asked
  · split at asked <;> simp at asked
  · split at asked <;> simp at asked
  · split at asked <;> simp at asked
  · simp at asked

theorem start_putHandles_of_mem {entries : List (Int × Json)}
    (asked : Change.noted entries ∈ m.askedChanges input) :
    input = .start (.putHandles entries) := by
  unfold askedChanges at asked
  split at asked
  · simp at asked
  · simp at asked
  · rw [Change.noted.inj (List.mem_singleton.1 asked)]
  · simp at asked
  · split at asked <;> simp at asked
  · split at asked <;> simp at asked
  · split at asked <;> simp at asked
  · simp at asked

theorem changes_of_closed (closed : m.session.phase = .closed) (input : Input) :
    m.changes input = m.askedChanges input := by
  have deaf : ∀ text, m.session.changesOf text = [] := fun text => if_pos closed
  have effect : m.session.phase.changesTo (m.step input).machine.session.phase = [] :=
    if_neg fun both => both.1 closed
  unfold changes
  rw [effect, List.append_nil]
  cases m.incoming? input with
  | none => exact List.append_nil _
  | some text => rw [Option.map_some, Option.getD_some, deaf, List.append_nil]

theorem changes_of_closing (opened : m.session.phase ≠ .closed)
    (closed : (m.step input).machine.session.phase = .closed) :
    ∃ earlier, m.changes input = earlier ++ [.resumed] := by
  have effect : m.session.phase.changesTo (m.step input).machine.session.phase = [.resumed] :=
    if_pos ⟨opened, closed⟩
  exact ⟨_, by rw [changes, effect]⟩

theorem closed_step (drains : m.Drains) (closed : m.session.phase = .closed) (input : Input) :
    (m.step input).machine.session.phase = .closed := by
  have balance := (drains_step input drains).2
  rw [closed, Phase.isClosed] at balance
  by_contra opened
  rw [Phase.isClosed_eq_zero opened] at balance
  omega

theorem closed_run (drains : m.Drains) (closed : m.session.phase = .closed)
    (inputs : List Input) : (m.after inputs).session.phase = .closed := by
  induction inputs generalizing m with
  | nil => exact closed
  | cons input inputs ih => exact ih (drains_step input drains).1 (closed_step drains closed input)

def SuspendsClosed (m : Machine) (input : Input) : Prop :=
  m.session.phase = .closed ∧ input = .start .suspend

def PutsClosed (m : Machine) (input : Input) : Prop :=
  m.session.phase = .closed ∧ ∃ entries, input = .start (.putHandles entries)

theorem current_of_closed (drains : m.Drains) (closed : m.session.phase = .closed)
    (free : m.session.context.current = none) (running : ¬ m.Happens SuspendsClosed inputs) :
    (m.after inputs).session.context.current = none := by
  induction inputs generalizing m with
  | nil => exact free
  | cons input inputs ih =>
    rw [happens_cons, not_or] at running
    refine ih (drains_step input drains).1 (closed_step drains closed input) ?_ running.2
    change (m.step input).machine.session.standing.context.current = none
    rw [standing_step input drains, changes_of_closed closed]
    exact Standing.current_follow free fun asked =>
      running.1 ⟨closed, start_suspend_of_mem asked⟩

theorem handles_of_closed (drains : m.Drains) (closed : m.session.phase = .closed)
    (empty : m.session.handles = .empty) (silent : ¬ m.Happens PutsClosed inputs) :
    (m.after inputs).session.handles = .empty := by
  induction inputs generalizing m with
  | nil => exact empty
  | cons input inputs ih =>
    rw [happens_cons, not_or] at silent
    refine ih (drains_step input drains).1 (closed_step drains closed input) ?_ silent.2
    change (m.step input).machine.session.standing.handles = .empty
    rw [standing_step input drains, changes_of_closed closed]
    exact Standing.handles_follow empty fun entries asked =>
      silent.1 ⟨closed, entries, start_putHandles_of_mem asked⟩

theorem standing_of_close (drains : m.Drains) (opened : m.session.phase ≠ .closed)
    (closed : (m.after inputs).session.phase = .closed) :
    (¬ m.Happens SuspendsClosed inputs → (m.after inputs).session.context.current = none) ∧
    (¬ m.Happens PutsClosed inputs → (m.after inputs).session.handles = .empty) := by
  induction inputs generalizing m with
  | nil => exact absurd closed opened
  | cons input inputs ih =>
    rw [happens_cons, happens_cons, not_or, not_or, after_cons]
    have kept := (drains_step input drains).1
    by_cases now : (m.step input).machine.session.phase = .closed
    · obtain ⟨earlier, last⟩ := changes_of_closing opened now
      have cleared : (m.step input).machine.session.standing
          = (m.session.standing.follow earlier).apply .resumed := by
        rw [standing_step input drains, last, Standing.follow_concat]
      constructor
      · intro running
        exact current_of_closed kept now (congrArg (·.context.current) cleared) running.2
      · intro silent
        exact handles_of_closed kept now (congrArg Standing.handles cleared) silent.2
    · obtain ⟨free, empty⟩ := ih kept now closed
      exact ⟨fun running => free running.2, fun silent => empty silent.2⟩

end Machine

/-! ## What a session that is closing or closed refuses -/

def Session.refusal (session : Session) (command : Command) (token : Option ContextToken) :
    SessionError :=
  match token.filter fun t => !session.context.isCurrent t with
  | some t => .contextDismissed t
  | none =>
    match command.result.filter fun type => (session.binder.describe? type).isNone with
    | some type => .unknownType type
    | none => .closed

namespace Machine

/-- Commands are rejected, and neither they nor further closes change anything. A command that is to
dismiss its token is rejected likewise. -/
structure Refuses (m : Machine) : Prop where
  sends : ∀ command token, m.step (.start (.send command token))
    = ⟨m, [.returned (.failed (m.session.refusal command token))]⟩
  dismissals : ∀ command token, (m.step (.start (.sendAndInvalidate command token))).emitted
    = [.returned (.failed (m.session.refusal command (some token)))]
  closes : ∀ reason, m.step (.start (.close reason)) = ⟨m, [.returned .unit]⟩
  transportCloses : ∀ reason, m.step (.start (.transportClosed reason)) = ⟨m, [.returned .unit]⟩

variable {m : Machine}

theorem sendFault?_of_past (past : m.session.phase ≠ .connected) (command : Command) :
    m.session.sendFault? command = some (m.session.refusal command none) := by
  unfold Session.sendFault? Session.refusal
  simp only [Option.filter_none, if_neg past]
  cases command.result.filter fun type => (m.session.binder.describe? type).isNone <;> rfl

theorem refusal_of_current {session : Session} {token : ContextToken}
    (current : session.context.isCurrent token = true) (command : Command) :
    session.refusal command (some token) = session.refusal command none := by
  simp only [Session.refusal, Option.filter, current]
  rfl

theorem refusal_of_dismissed {session : Session} {token : ContextToken}
    (dismissed : session.context.isCurrent token ≠ true) (command : Command) :
    session.refusal command (some token) = .contextDismissed token := by
  simp only [Session.refusal, Option.filter, dismissed]
  rfl

theorem refuses_of_past (past : m.session.phase ≠ .connected) : m.Refuses := by
  have fault := sendFault?_of_past past
  refine ⟨?_, ?_, fun reason => if_neg past, fun reason => transportClosed_of_past past reason _⟩
  · intro command token
    cases token with
    | none => exact dispatch_of_fault (fault command)
    | some token =>
      by_cases current : m.session.context.isCurrent token = true
      · rw [refusal_of_current current]
        exact (if_pos current).trans (dispatch_of_fault (fault command))
      · rw [refusal_of_dismissed current]
        exact if_neg current
  · intro command token
    by_cases current : m.session.context.isCurrent token = true
    · have dispatched : m.sendAndInvalidate command token = m.dispatch command none true :=
        if_pos current
      change (m.sendAndInvalidate command token).emitted = _
      rw [refusal_of_current current, dispatched, dispatch_of_fault (fault command)]
      rfl
    · rw [refusal_of_dismissed current]
      exact congrArg Turn.emitted (if_neg current)

structure Deaf (m : Machine) : Prop where
  refuses : m.Refuses
  frames : ∀ text, m.step (.start (.receive text))
    = ⟨m, [.notice .frameAfterClose, .returned .unit]⟩
  pulls : ∀ rest pulled, m.stack = .pulling :: rest → ∃ notices : List Notice,
    m.step (.pulled pulled) = ⟨⟨m.session, rest⟩, notices.map .notice ++ [.returned .unit]⟩

theorem deaf_of_closed (closed : m.session.phase = .closed) : m.Deaf := by
  refine ⟨refuses_of_past (by rw [closed]; simp), fun text => if_pos closed, ?_⟩
  intro rest pulled waited
  have taken : m.step (.pulled pulled) = afterPull ⟨m.session, rest⟩ pulled := by
    simp only [step, waited, answer?]
  have past : m.session.phase ≠ .connected := by rw [closed]; simp
  have ends : ∀ reason, transportClosed ⟨m.session, rest⟩ reason .finish
      = ⟨⟨m.session, rest⟩, [.returned .unit]⟩ :=
    fun reason => transportClosed_of_past (n := ⟨m.session, rest⟩) past reason .finish
  rw [taken]
  cases pulled with
  | frame text =>
    refine ⟨[.frameAfterClose], (if_pos closed).trans ?_⟩
    simp only [conclude, closed, if_true]
    rfl
  | ended => exact ⟨[], ends _⟩
  | failed error =>
    refine ⟨[.readFailed error], ?_⟩
    simp only [afterPull, ends]
    rfl
  | broken =>
    refine ⟨[.sourceBroken], ?_⟩
    simp only [afterPull, ends]
    rfl

/-! ## A close as a whole -/

structure Closes (m : Machine) (operation : Operation) (reason : String) (body : List Input) :
    Prop where
  completed : completions (m.emitted (.start operation :: body))
    = failedBy reason m.session.calls
  closed : (m.after (.start operation :: body)).session.phase = .closed
  empty : (m.after (.start operation :: body)).session.calls = []
  dismissed : ¬ m.Happens SuspendsClosed (.start operation :: body) →
    (m.after (.start operation :: body)).session.context.current = none
  forgotten : ¬ m.Happens PutsClosed (.start operation :: body) →
    (m.after (.start operation :: body)).session.handles = .empty
  /-- From the first callback on. -/
  refuses : ∀ before rest, body = before ++ rest → (m.after (.start operation :: before)).Refuses

theorem step_of_close {operation : Operation} {reason : String}
    (asked : operation = .close reason ∨ operation = .transportClosed reason)
    (connected : m.session.phase = .connected) :
    ∃ notices : List Notice,
      m.step (.start operation) = (m.close reason .finish).noticed notices := by
  rcases asked with rfl | rfl
  · exact ⟨[], rfl⟩
  · exact ⟨[.transportClosed reason], transportClosed_of_connected connected reason .finish⟩

theorem past_of_close (n : Machine) (reason : String) (after : After)
    (connected : n.session.phase = .connected) :
    (n.close reason after).machine.session.phase ≠ .connected := by
  unfold close
  rw [if_pos connected]
  cases n.session.calls with
  | nil => exact fun same => Phase.noConfusion same
  | cons call calls => exact fun same => Phase.noConfusion same

theorem closes_of_spans {operation : Operation} {reason : String} {body : List Input}
    (asked : operation = .close reason ∨ operation = .transportClosed reason)
    (connected : m.session.phase = .connected) (drains : m.Drains)
    (emptied : m.session.Emptied .nothing m.stack) (spans : m.Spans operation body) :
    m.Closes operation reason body := by
  obtain ⟨notices, begun⟩ := step_of_close asked connected
  have gives : After.finish.result? = some .unit := rfl
  unfold Spans at spans
  rw [begun] at spans
  obtain ⟨completed, closed⟩ := (spans.of_noticed.closes_of_close gives connected).preceded
    (completions_notices notices)
  have ended : (m.after (.start operation :: body)).session.phase = .closed := by
    rw [after_cons, begun]
    exact closed
  have left := emptied_run (.start operation :: body) emptied
  obtain ⟨free, empty⟩ := standing_of_close drains (by rw [connected]; simp) ended
  refine ⟨?_, ended, left.table (by rw [ended]; simp), free, empty, ?_⟩
  · rw [emitted_cons, begun]
    exact completed
  · intro before rest _
    apply refuses_of_past
    have reaches := phase_run (emptied_step (.start operation) emptied) before
    exact reaches.ne_connected (by rw [begun]; exact past_of_close m reason .finish connected)

theorem performs_close {operation : Operation} {reason : String} {answers : List Input}
    (asked : operation = .close reason ∨ operation = .transportClosed reason)
    (connected : m.session.phase = .connected) (each : answers.length = m.session.calls.length)
    (ends : ∀ answer ∈ answers, answer = .done ∨ answer = .crashed) :
    m.Performs operation (answers ++ m.session.closingAnswers) .unit := by
  obtain ⟨notices, begun⟩ := step_of_close asked connected
  have gives : After.finish.result? = some .unit := rfl
  unfold Performs
  rw [begun]
  exact (Turn.Concludes.close gives connected each ends).preceded _

/-- A close of a connected session, seen through to its end, fails the pending calls once each in
the order of their ids, whatever the callbacks do, and leaves the session closed; callbacks that
return or break down always see it through. In every run the transport is released just once if the
session becomes closed, and a session that is closed stays so and does nothing any more. -/
theorem close_fails_each_pending_call {config : Config} {registry : Registry}
    {transcript : Transcript} {m : Machine} (began : m = initial config registry transcript)
    {history : List Input} (connected : (m.after history).session.phase = .connected)
    {operation : Operation} {reason : String}
    (asked : operation = .close reason ∨ operation = .transportClosed reason) :
    (∀ body, (m.after history).Spans operation body →
      (m.after history).Closes operation reason body) ∧
    ((issuedIds (m.emitted history)).length < 2 ^ 64 →
      (m.after history).session.calls.Pairwise (·.id < ·.id)) ∧
    (∀ answers : List Input, answers.length = (m.after history).session.calls.length →
      (∀ answer ∈ answers, answer = .done ∨ answer = .crashed) →
      (m.after history).Performs operation
        (answers ++ (m.after history).session.closingAnswers) .unit) ∧
    (∀ inputs, releases (m.emitted inputs)
      = if (m.after inputs).session.phase = .closed then 1 else 0) ∧
    (∀ inputs more, (m.after inputs).session.phase = .closed →
      (m.after (inputs ++ more)).session.phase = .closed ∧ (m.after (inputs ++ more)).Deaf) := by
  have drains : m.Drains := by rw [began]; rfl
  have emptied : m.session.Emptied .nothing m.stack := by
    rw [began]
    exact .initial config registry transcript
  refine ⟨?_, ?_, ?_, ?_, ?_⟩
  · intro body spans
    exact closes_of_spans asked connected (drains_run history drains).1
      (emptied_run history emptied) spans
  · intro few
    have inOrder : m.session.InOrder 0 := by
      rw [began]
      exact ⟨.nil, by simp [initial, ofSession, Session.initial]⟩
    have count : m.session.sequence.Drawn 0 := by rw [began]; rfl
    exact (inOrder_run inOrder count history (by omega)).increasing
  · intro answers each ends
    exact performs_close asked connected each ends
  · intro inputs
    have balance := (drains_run inputs drains).2
    have opened : m.session.phase = .connected := by rw [began]; rfl
    rw [opened, Phase.isClosed, Nat.add_zero] at balance
    rw [balance]
    cases (m.after inputs).session.phase <;> rfl
  · intro inputs more closed
    have ended : (m.after (inputs ++ more)).session.phase = .closed := by
      rw [after_append]
      exact closed_run (drains_run inputs drains).1 closed more
    exact ⟨ended, deaf_of_closed ended⟩

def pendingRun : List Input :=
  [.start (.send ⟨"version", none, none⟩ none), .accepted,
    .start (.send ⟨"scripts", none, none⟩ none), .accepted]

theorem close_fails_each_pending_call_twice :
    ((initial .default Catalog.registry .off).after pendingRun).session.phase = .connected ∧
    ((initial .default Catalog.registry .off).after pendingRun).Closes (.close "done") "done"
      [.start (.close "again"), .crashed, .done, .done] := by
  have connected : ((initial .default Catalog.registry .off).after pendingRun).session.phase
      = .connected := rfl
  refine ⟨connected, (close_fails_each_pending_call rfl connected (.inl rfl)).1 _ ⟨?_, by decide⟩⟩
  intro before input rest split
  match before with
  | [] => decide
  | [first] =>
    cases split
    decide
  | [first, second] =>
    cases split
    decide
  | [first, second, third] =>
    cases split
    decide
  | first :: second :: third :: fourth :: before => simp at split

/-- A command whose result type is not registered is rejected for that, also from a callback that a
close runs; and once the session is closed the listener can fill the table of handles without
touching the token. -/
theorem close_not_the_only_refusal :
    (((initial .default Catalog.registry .off).after
      (pendingRun ++ [.start (.close "done")])).step
        (.start (.send ⟨"version", none, some "Missing"⟩ none))).emitted
      = [.returned (.failed (.unknownType "Missing"))] ∧
    ((initial .default Catalog.registry .off).after
      [.start (.listen 1), .start (.close "done"), .done, .start (.putHandles [(5, .null)]),
        .done]).session.handles.get? 5 = some .null :=
  ⟨rfl, rfl⟩

end Machine

end DebugLink
