import Mathlib.Data.List.Induction
import DebugLink.Proofs.Session.Work

/-!
# Operations within operations

While an operation waits, user code may start others on top of it. The waits of an operation lie
above those of the operation that it interrupts, and stay where they are until they are answered.
So an operation that has ended went from one of its own waits to the next, whatever was done on
top of it meanwhile.
-/

set_option autoImplicit false

namespace DebugLink

/-- A turn in the midst of an operation begun above the waits `base`: the inputs `body` see it
through to its end, where it gives `result`. -/
structure Turn.Concludes (turn : Turn) (base : List Waiting) (body : List Input)
    (result : Result) : Prop where
  running : ∀ before input rest, body = before ++ input :: rest →
    base.length < (turn.machine.after before).stack.length
  finished : (turn.machine.after body).stack.length ≤ base.length
  result : (turn.emitted ++ turn.machine.emitted body).getLast? = some (.returned result)

/-- An operation that is started runs to its end, with `body` as the inputs after its start, and
gives `result`. -/
def Machine.Performs (m : Machine) (operation : Operation) (body : List Input)
    (result : Result) : Prop :=
  (m.step (.start operation)).Concludes m.stack body result

/-- The inputs do not go beyond the end of an operation begun above the waits `base`. -/
def Turn.Runs (turn : Turn) (base : List Waiting) (inputs : List Input) : Prop :=
  ∀ before input rest, inputs = before ++ input :: rest →
    base.length < (turn.machine.after before).stack.length

/-- Like `Turn.Concludes`, for an operation that may also break down. -/
structure Turn.Spans (turn : Turn) (base : List Waiting) (body : List Input) : Prop where
  running : turn.Runs base body
  finished : (turn.machine.after body).stack.length ≤ base.length

def Machine.Spans (m : Machine) (operation : Operation) (body : List Input) : Prop :=
  (m.step (.start operation)).Spans m.stack body

theorem Turn.Concludes.spans {turn : Turn} {base : List Waiting} {body : List Input}
    {result : Result} (concludes : turn.Concludes base body result) : turn.Spans base body :=
  ⟨concludes.running, concludes.finished⟩

variable {m : Machine} {input : Input}

theorem Ends.emitted_ne_nil {s t : Session} {hand : Hand} {es : List Emission}
    {waiting : Option Waiting} (last : Ends m input s hand es t waiting) : es ≠ [] := by
  cases last <;> simp

namespace Works

variable {base : List Waiting} {s : Session} {hand : Hand} {turn : Turn}

theorem emitted_ne_nil (works : Works m input base s hand turn) : turn.emitted ≠ [] := by
  induction works with
  | ends last => exact last.emitted_ne_nil
  | work first rest ih => exact List.append_ne_nil_of_right_ne_nil _ ih

theorem stack_eq (works : Works m input base s hand turn) :
    ∃ waiting : Option Waiting, turn.machine.stack = waiting.toList ++ base := by
  induction works with
  | ends last => exact ⟨_, rfl⟩
  | work first rest ih => exact ih

end Works

namespace Machine

theorem step_of_answer {m : Machine} {input : Input} {waiting : Waiting} {rest : List Waiting}
    {turn : Turn} (waited : m.stack = waiting :: rest)
    (given : answer? ⟨m.session, rest⟩ waiting input = some turn) : m.step input = turn := by
  cases input with
  | start operation => cases given
  | _ => simp only [step, waited, given]

theorem afterCrash_of_announcement (n : Machine) {waiting : Waiting}
    (announcement : waiting.isAnnouncement = true) :
    ∃ emissions, n.afterCrash waiting = ⟨n, emissions ++ [.unwound]⟩ := by
  cases waiting with
  | announcedCall | announcedClose => exact ⟨[], rfl⟩
  | announcedResponse call | announcedMalformed call => exact ⟨[.abandoned call.id], rfl⟩
  | transmitting | completing | draining | closingTransport | pulling => cases announcement

theorem base_append {m : Machine} (input : Input) {first : Waiting} {upper below : List Waiting}
    (stack : m.stack = first :: upper ++ below) : ∃ upper', m.base input = upper' ++ below := by
  cases input with
  | start operation => exact ⟨first :: upper, stack⟩
  | _ => exact ⟨upper, congrArg List.tail stack⟩

def Leaves (m : Machine) (below : List Waiting) (input : Input) : Prop :=
  m.step input = ⟨m, []⟩ ∨ ∃ upper, m.base input = upper ++ below

inductive Aside (below : List Waiting) : Machine → List Input → Prop where
  | nil (m : Machine) : Aside below m []
  | cons {m : Machine} {input : Input} {inputs : List Input} (leaves : m.Leaves below input)
      (rest : Aside below (m.step input).machine inputs) : Aside below m (input :: inputs)

theorem wait_stays {m : Machine} (input : Input) {upper base : List Waiting} {waiting : Waiting}
    (waits : m.stack = upper ++ waiting :: base) :
    (m.Leaves (waiting :: base) input ∧
        ∃ upper', (m.step input).machine.stack = upper' ++ waiting :: base) ∨
      upper = [] ∧ ∃ turn, answer? ⟨m.session, base⟩ waiting input = some turn := by
  rcases step_works m input with idle | works
  · exact .inl ⟨.inl idle, upper, by rw [idle, waits]⟩
  · obtain ⟨added, stack⟩ := works.stack_eq
    -- A step takes one wait at most, the first, and puts one in its place at most.
    cases upper with
    | cons first upper =>
      obtain ⟨upper', same⟩ := base_append input waits
      exact .inl ⟨.inr ⟨upper', same⟩, added.toList ++ upper', by
        rw [stack, same, List.append_assoc]⟩
    | nil =>
      cases given : answer? ⟨m.session, base⟩ waiting input with
      | some turn => exact .inr ⟨rfl, turn, rfl⟩
      | none =>
        left
        cases input with
        | start operation => exact ⟨.inr ⟨[], waits⟩, added.toList, stack.trans (congrArg _ waits)⟩
        | _ =>
          have idle : ∀ other, m.step other = ⟨m, []⟩ → m.Leaves (waiting :: base) other ∧
              ∃ upper', (m.step other).machine.stack = upper' ++ waiting :: base :=
            fun other same => ⟨.inl same, [], by rw [same, waits]⟩
          exact idle _ (by simp only [step, waits, List.nil_append, given])

/-- In a run a wait stays where it is, or it is answered at some step at which it is the
innermost. -/
theorem stays_or_answered {m : Machine} (upper : List Waiting) {base : List Waiting}
    {waiting : Waiting} (waits : m.stack = upper ++ waiting :: base) (inputs : List Input) :
    (Aside (waiting :: base) m inputs ∧
        ∃ upper', (m.after inputs).stack = upper' ++ waiting :: base) ∨
      ∃ before input rest turn, inputs = before ++ input :: rest ∧
        Aside (waiting :: base) m before ∧ (m.after before).stack = waiting :: base ∧
        answer? ⟨(m.after before).session, base⟩ waiting input = some turn := by
  induction inputs generalizing m upper with
  | nil => exact .inl ⟨.nil m, upper, waits⟩
  | cons input inputs ih =>
    -- A step that does not answer the wait leaves it below whatever it adds.
    rcases wait_stays input waits with ⟨leaves, upper', stays⟩ | ⟨rfl, turn, given⟩
    · rcases ih upper' stays with
        ⟨aside, left⟩ | ⟨before, other, rest, turn, split, aside, stack, given⟩
      · exact .inl ⟨.cons leaves aside, left⟩
      · exact .inr ⟨input :: before, other, rest, turn, congrArg (input :: ·) split,
          .cons leaves aside, stack, given⟩
    · exact .inr ⟨[], input, inputs, turn, rfl, .nil m, waits, given⟩

theorem answered_of_gone {m : Machine} (upper : List Waiting) {base : List Waiting}
    {waiting : Waiting} {body : List Input} (waits : m.stack = upper ++ waiting :: base)
    (gone : (m.after body).stack.length ≤ base.length) :
    ∃ before input rest turn, body = before ++ input :: rest ∧
      Aside (waiting :: base) m before ∧ (m.after before).stack = waiting :: base ∧
      answer? ⟨(m.after before).session, base⟩ waiting input = some turn := by
  refine (stays_or_answered upper waits body).resolve_left ?_
  rintro ⟨-, upper', left⟩
  rw [left, List.length_append, List.length_cons] at gone
  omega

theorem answer?_of_leaves {m : Machine} {input : Input} {waiting other : Waiting}
    {base rest : List Waiting} (leaves : m.Leaves (waiting :: base) input)
    (stack : m.stack = other :: rest) (same : rest.length = base.length) :
    answer? ⟨m.session, rest⟩ other input = none := by
  cases given : answer? ⟨m.session, rest⟩ other input with
  | none => rfl
  | some turn =>
    rcases leaves with idle | ⟨upper, kept⟩
    · have spoken := (answer_works stack given).emitted_ne_nil
      rw [← step_of_answer stack given, idle] at spoken
      exact absurd rfl spoken
    · have tail : m.base input = rest := by
        cases input with
        | start operation => cases given
        | _ => exact congrArg List.tail stack
      have lengths := congrArg List.length (tail.symm.trans kept)
      rw [List.length_append, List.length_cons] at lengths
      omega

end Machine

namespace Turn.Runs

variable {turn : Turn} {base : List Waiting}

theorem front {xs ys : List Input} (runs : turn.Runs base (xs ++ ys)) : turn.Runs base xs := by
  rintro before input rest rfl
  exact runs before input (rest ++ ys) (by simp)

theorem ended {inputs : List Input} (runs : turn.Runs base inputs)
    (stack : turn.machine.stack = base) : inputs = [] := by
  cases inputs with
  | nil => rfl
  | cons input inputs =>
    have running := runs [] input inputs rfl
    rw [Machine.after_nil, stack] at running
    exact absurd running (Nat.lt_irrefl _)

theorem from_step {before rest : List Input} {input : Input}
    (runs : turn.Runs base (before ++ input :: rest)) :
    ((turn.machine.after before).step input).Runs base rest := by
  intro early other late later
  have running := runs (before ++ input :: early) other late (by simp [later])
  rwa [Machine.after_append, Machine.after_cons] at running

theorem above {inputs : List Input} (runs : turn.Runs base inputs)
    (begun : ∃ upper, turn.machine.stack = upper ++ base) :
    ∃ upper, (turn.machine.after inputs).stack = upper ++ base := by
  induction inputs using List.reverseRecOn with
  | nil => exact begun
  | append_singleton before input ih =>
    obtain ⟨upper, stack⟩ := ih runs.front
    have running := runs before input [] rfl
    rw [Machine.after_concat]
    rcases Machine.step_works (turn.machine.after before) input with idle | works
    · exact ⟨upper, by rw [idle, stack]⟩
    · obtain ⟨added, left⟩ := works.stack_eq
      cases upper with
      | nil =>
        rw [stack] at running
        exact absurd running (Nat.lt_irrefl _)
      | cons first upper =>
        obtain ⟨upper', kept⟩ := Machine.base_append input stack
        exact ⟨added.toList ++ upper', by rw [left, kept, List.append_assoc]⟩

end Turn.Runs

namespace Turn.Spans

variable {turn : Turn} {base : List Waiting} {body : List Input}

theorem of_preceded {emissions : List Emission}
    (spans : (turn.preceded emissions).Spans base body) : turn.Spans base body :=
  ⟨spans.running, spans.finished⟩

theorem of_noticed {notices : List Notice} (spans : (turn.noticed notices).Spans base body) :
    turn.Spans base body :=
  spans.of_preceded

theorem ended (spans : turn.Spans base body) (stack : turn.machine.stack = base) : body = [] :=
  spans.running.ended stack

theorem from_step {before rest : List Input} {input : Input}
    (spans : turn.Spans base (before ++ input :: rest)) :
    ((turn.machine.after before).step input).Spans base rest := by
  refine ⟨spans.running.from_step, ?_⟩
  have finished := spans.finished
  rwa [Machine.after_append, Machine.after_cons] at finished

/-- An operation that waits goes on with an answer to that wait; what is done on top of it until
then leaves the wait alone. -/
theorem goes_on {waiting : Waiting} (spans : turn.Spans base body)
    (stack : turn.machine.stack = waiting :: base) :
    ∃ before input rest next, body = before ++ input :: rest ∧
      Machine.Aside (waiting :: base) turn.machine before ∧
      (turn.machine.after before).stack = waiting :: base ∧
      Machine.answer? ⟨(turn.machine.after before).session, base⟩ waiting input = some next ∧
      (turn.machine.after before).step input = next ∧ next.Spans base rest := by
  obtain ⟨before, input, rest, next, rfl, aside, waits, given⟩ :=
    Machine.answered_of_gone [] stack spans.finished
  have taken := Machine.step_of_answer waits given
  exact ⟨before, input, rest, next, rfl, aside, waits, given, taken, taken ▸ spans.from_step⟩

theorem above {before rest : List Input} (spans : turn.Spans base (before ++ rest))
    (begun : ∃ upper, turn.machine.stack = upper ++ base) :
    ∃ upper, (turn.machine.after before).stack = upper ++ base :=
  spans.running.front.above begun

theorem stack_eq (spans : turn.Spans base body)
    (begun : ∃ upper, turn.machine.stack = upper ++ base) :
    (turn.machine.after body).stack = base := by
  have whole : turn.Spans base (body ++ []) := by rwa [List.append_nil]
  obtain ⟨upper, stack⟩ := whole.above begun
  have finished := spans.finished
  rw [stack, List.length_append] at finished
  rw [stack, List.eq_nil_of_length_eq_zero (show upper.length = 0 by omega), List.nil_append]

theorem of_ended (stack : turn.machine.stack = base) : turn.Spans base [] := by
  refine ⟨?_, Nat.le_of_eq (congrArg List.length stack)⟩
  intro before input rest split
  cases before <;> cases split

theorem of_answer {next : Turn} {waiting : Waiting} {input : Input}
    (stack : turn.machine.stack = waiting :: base)
    (given : Machine.answer? ⟨turn.machine.session, base⟩ waiting input = some next)
    (rest : next.Spans base body) : turn.Spans base (input :: body) := by
  have taken := Machine.step_of_answer stack given
  constructor
  · intro before other later split
    cases before with
    | nil =>
      rw [Machine.after_nil, stack, List.length_cons]
      omega
    | cons first before =>
      obtain ⟨rfl, rfl⟩ := List.cons.inj split
      rw [Machine.after_cons, taken]
      exact rest.running before other later rfl
  · rw [Machine.after_cons, taken]
    exact rest.finished

theorem runs (upper : List Waiting) (spans : turn.Spans (upper ++ base) body) :
    turn.Runs base body := by
  intro before input rest split
  have deeper := spans.running before input rest split
  rw [List.length_append] at deeper
  omega

end Turn.Spans

theorem Turn.runs_iff {turn : Turn} {base : List Waiting} {inputs : List Input} :
    turn.Runs base inputs ↔
      ∀ k < inputs.length, base.length < (turn.machine.after (inputs.take k)).stack.length := by
  constructor
  · intro runs k inside
    exact runs _ inputs[k] (inputs.drop (k + 1)) (by simp)
  · rintro shorter before input rest rfl
    simpa using shorter before.length (by simp)

instance (turn : Turn) (base : List Waiting) (inputs : List Input) :
    Decidable (turn.Runs base inputs) :=
  decidable_of_iff _ Turn.runs_iff.symm

theorem Turn.spans_iff {turn : Turn} {base : List Waiting} {body : List Input} :
    turn.Spans base body ↔
      turn.Runs base body ∧ (turn.machine.after body).stack.length ≤ base.length :=
  ⟨fun spans => ⟨spans.running, spans.finished⟩, fun spans => ⟨spans.1, spans.2⟩⟩

instance (turn : Turn) (base : List Waiting) (body : List Input) :
    Decidable (turn.Spans base body) :=
  decidable_of_iff _ Turn.spans_iff.symm

theorem Turn.Runs.append {turn : Turn} {base : List Waiting} {xs ys : List Input}
    {emissions : List Emission} (runs : turn.Runs base xs)
    (rest : Turn.Spans ⟨turn.machine.after xs, emissions⟩ base ys) :
    turn.Spans base (xs ++ ys) := by
  constructor
  · intro before input later split
    rcases List.append_eq_append_iff.1 split with ⟨late, rfl, tail⟩ | ⟨late, rfl, tail⟩
    · rw [Machine.after_append]
      exact rest.running late input later tail
    · cases late with
      | nil =>
        rw [List.append_nil] at rest
        exact rest.running [] input later tail.symm
      | cons other late =>
        obtain ⟨rfl, -⟩ := List.cons.inj tail
        exact runs before input late rfl
  · rw [Machine.after_append]
    exact rest.finished

namespace Turn.Concludes

variable {turn : Turn} {base : List Waiting} {body : List Input} {result : Result}

theorem ended (concludes : turn.Concludes base body result) (stack : turn.machine.stack = base) :
    body = [] ∧ turn.emitted.getLast? = some (.returned result) := by
  obtain rfl := concludes.spans.ended stack
  exact ⟨rfl, by simpa using concludes.result⟩

theorem goes_on {waiting : Waiting} (concludes : turn.Concludes base body result)
    (stack : turn.machine.stack = waiting :: base) :
    ∃ before input rest next, body = before ++ input :: rest ∧
      (turn.machine.after before).stack = waiting :: base ∧
      Machine.answer? ⟨(turn.machine.after before).session, base⟩ waiting input = some next ∧
      (turn.machine.after before).step input = next ∧ next.Concludes base rest result := by
  obtain ⟨before, input, rest, next, split, -, waits, given, taken, spans⟩ :=
    concludes.spans.goes_on stack
  refine ⟨before, input, rest, next, split, waits, given, taken, spans.running, spans.finished, ?_⟩
  have last := concludes.result
  have spoken : next.emitted ++ next.machine.emitted rest ≠ [] :=
    List.append_ne_nil_of_left_ne_nil (Machine.answer_works waits given).emitted_ne_nil _
  rw [split, Machine.emitted_append, Machine.emitted_cons, taken, List.getLast?_append,
    List.getLast?_append] at last
  rw [List.getLast?_eq_some_getLast spoken] at last ⊢
  simpa using last

theorem of_later {next : Turn} {before rest : List Input} {input : Input}
    (spans : turn.Spans base (before ++ input :: rest))
    (taken : (turn.machine.after before).step input = next)
    (concludes : next.Concludes base rest result) :
    turn.Concludes base (before ++ input :: rest) result := by
  refine ⟨spans.running, spans.finished, ?_⟩
  rw [Machine.emitted_append, Machine.emitted_cons, taken, List.getLast?_append,
    List.getLast?_append, concludes.result, Option.some_or, Option.some_or]

/-- The listener that breaks down takes the operation with it, so an operation that ends after it
has told the listener something was told that this is done. -/
theorem goes_on_told {waiting : Waiting} (concludes : turn.Concludes base body result)
    (announcement : waiting.isAnnouncement = true)
    (stack : turn.machine.stack = waiting :: base) :
    ∃ before rest next, body = before ++ .done :: rest ∧
      (turn.machine.after before).stack = waiting :: base ∧
      Machine.afterDone ⟨(turn.machine.after before).session, base⟩ waiting = some next ∧
      (turn.machine.after before).step .done = next ∧ next.Concludes base rest result := by
  obtain ⟨before, input, rest, next, split, waits, given, taken, concludes⟩ :=
    concludes.goes_on stack
  cases input with
  | done => exact ⟨before, rest, next, split, waits, given, taken, concludes⟩
  | crashed =>
    cases given
    obtain ⟨emissions, broken⟩ :=
      Machine.afterCrash_of_announcement ⟨(turn.machine.after before).session, base⟩ announcement
    rw [broken] at concludes
    obtain ⟨-, last⟩ := concludes.ended rfl
    simp at last
  | start => cases given
  | accepted | refused | pulled => cases waiting <;> cases announcement <;> cases given

end Turn.Concludes

namespace Turn.Concludes

variable {turn next : Turn} {base : List Waiting} {body : List Input} {result : Result}

theorem of_returned (stack : turn.machine.stack = base)
    (last : turn.emitted.getLast? = some (.returned result)) : turn.Concludes base [] result := by
  obtain ⟨running, finished⟩ := Spans.of_ended stack
  exact ⟨running, finished, by simpa using last⟩

theorem of_answer {waiting : Waiting} {input : Input}
    (stack : turn.machine.stack = waiting :: base)
    (given : Machine.answer? ⟨turn.machine.session, base⟩ waiting input = some next)
    (rest : next.Concludes base body result) : turn.Concludes base (input :: body) result := by
  obtain ⟨running, finished⟩ := Spans.of_answer stack given rest.spans
  refine ⟨running, finished, ?_⟩
  rw [Machine.emitted_cons, Machine.step_of_answer stack given, List.getLast?_append, rest.result,
    Option.some_or]

theorem of_endsPlainly (spans : turn.Spans base body)
    (plain : (turn.emitted ++ turn.machine.emitted body).getLast?.any Emission.endsPlainly = true) :
    turn.Concludes base body .unit := by
  obtain ⟨emission, last, ends⟩ := (Option.any_eq_true _ _).1 plain
  exact ⟨spans.running, spans.finished, by rw [last, Emission.eq_of_endsPlainly ends]⟩

theorem preceded (concludes : turn.Concludes base body result) (emissions : List Emission) :
    (turn.preceded emissions).Concludes base body result := by
  refine ⟨concludes.running, concludes.finished, ?_⟩
  rw [Turn.preceded, List.append_assoc, List.getLast?_append, concludes.result, Option.some_or]

end Turn.Concludes

/-! ## How operations end -/

theorem Turn.preceded_preceded (turn : Turn) (later earlier : List Emission) :
    (turn.preceded later).preceded earlier = turn.preceded (earlier ++ later) := by
  simp only [preceded, List.append_assoc]

theorem Machine.transportClosed_of_connected {n : Machine}
    (connected : n.session.phase = .connected) (reason : String) (after : After) :
    n.transportClosed reason after = (n.close reason after).noticed [.transportClosed reason] :=
  if_pos connected

theorem Machine.transportClosed_of_past {n : Machine} (past : n.session.phase ≠ .connected)
    (reason : String) (after : After) : n.transportClosed reason after = n.conclude after :=
  (if_neg past).trans (if_neg past)

theorem Machine.announce_cases (n : Machine) (waiting : Waiting) (next : Machine → Turn) :
    n.announce waiting next = next n ∨
      ∃ listener, n.announce waiting next
        = n.await waiting (.status listener n.session.busyStatus) := by
  unfold announce
  cases n.session.listener with
  | none => exact .inl rfl
  | some listener => exact .inr ⟨listener, rfl⟩

/-- What an operation gives once the work that it shares with others is done. A reader goes on. -/
def After.result? : After → Option Result
  | .finish => some .unit
  | .refuse error => some (.failed (.transport error))
  | .read => none

theorem After.conclude_of_result? {after : After} {expected : Result}
    (gives : after.result? = some expected) (n : Machine) : n.conclude after = n.give expected := by
  cases after <;> cases gives <;> rfl

namespace Turn.Concludes

variable {n : Machine} {body : List Input} {result expected : Result} {after : After}

theorem result_of_conclude (gives : after.result? = some expected) (emissions : List Emission)
    (concludes : ((n.conclude after).preceded emissions).Concludes n.stack body result) :
    result = expected := by
  rw [After.conclude_of_result? gives] at concludes
  obtain ⟨-, last⟩ := concludes.ended rfl
  simpa [Turn.preceded, Machine.give] using last.symm

theorem result_of_release (gives : after.result? = some expected) (emissions : List Emission)
    (concludes : ((n.release after).preceded emissions).Concludes n.stack body result) :
    result = expected := by
  have waits : ((n.release after).preceded emissions).machine.stack
      = .closingTransport after :: n.stack := rfl
  obtain ⟨before, input, rest, next, -, -, given, -, concludes⟩ := concludes.goes_on waits
  cases input with
  | start | accepted | refused | pulled => cases given
  | crashed =>
    cases given
    obtain ⟨-, last⟩ := concludes.ended rfl
    simp [Machine.afterCrash] at last
  | done =>
    cases given
    rcases Machine.announce_cases ⟨_, n.stack⟩ (.announcedClose after) (·.conclude after) with
      direct | ⟨listener, told⟩
    · rw [direct] at concludes
      exact result_of_conclude gives [] concludes
    · rw [told] at concludes
      obtain ⟨_, _, next, -, -, given, -, concludes⟩ := concludes.goes_on_told rfl rfl
      cases given
      exact result_of_conclude gives [] concludes

/-- Whatever user code does while pending calls are failed, a close ends as it was to end. -/
theorem result_of_drain {reason : String} {calls : List PendingCall}
    (gives : after.result? = some expected) (emissions : List Emission)
    (concludes : ((n.drain reason calls after).preceded emissions).Concludes n.stack body result) :
    result = expected := by
  induction calls generalizing n emissions body with
  | nil => exact result_of_release gives emissions concludes
  | cons call calls ih =>
    have waits : ((n.drain reason (call :: calls) after).preceded emissions).machine.stack
        = .draining call.command reason calls after :: n.stack := rfl
    obtain ⟨before, input, rest, next, -, -, given, -, concludes⟩ := concludes.goes_on waits
    cases input with
    | start | accepted | refused | pulled => cases given
    | done =>
      cases given
      exact ih [] concludes
    | crashed =>
      cases given
      exact ih _ concludes

theorem result_of_close {reason : String} (gives : after.result? = some expected)
    (emissions : List Emission)
    (concludes : ((n.close reason after).preceded emissions).Concludes n.stack body result) :
    result = expected := by
  unfold Machine.close at concludes
  split at concludes
  · dsimp only [Turn.noticed] at concludes
    rw [preceded_preceded] at concludes
    exact result_of_drain gives _ concludes
  · exact result_of_conclude gives emissions concludes

end Turn.Concludes

end DebugLink
