import DebugLink.Proofs.Session.Closure
import DebugLink.Proofs.Session.Progress
import DebugLink.Proofs.Session.Source
import DebugLink.Proofs.Session.Staleness

/-!
# The reader from its start to its end

A reader asks its source for a frame, handles it, and asks again unless the session is closed by
then; at the end of the source it closes the session. So it takes the frames in order up to the
first one after which the session is closed, and when it stops no call is left pending.
-/

set_option autoImplicit false

namespace DebugLink

/-! ## Where a reader stands -/

namespace Machine

/-- A reader that was begun above the waits `base` has been given so much of its source: it reads
on, or closes the session at the end of the source, or has stopped after a frame or after the
end. -/
inductive Stands (base : List Waiting) (frames : List String) (ending : SourceEnd)
    (given : List Pulled) (m : Machine) : Prop where
  | reading (upper : List Waiting) (waiting : Waiting) (left k : Nat)
      (stack : m.stack = upper ++ waiting :: base) (answers : waiting.reads? = some left)
      (inside : k ≤ frames.length) (taken : given = (frames.take k).map .frame)
      (fed : left = 0 ∨ 0 < k)
  | closing (upper : List Waiting) (waiting : Waiting) (stack : m.stack = upper ++ waiting :: base)
      (closes : waiting.closes = true) (taken : given = sourceOf frames ending)
      (past : m.session.phase ≠ .connected)
  | stopped (k : Nat) (stack : m.stack = base) (inside : k < frames.length)
      (taken : given = (frames.take (k + 1)).map .frame) (closed : m.session.phase = .closed)
  | exhausted (stack : m.stack = base) (taken : given = sourceOf frames ending)
      (past : m.session.phase ≠ .connected)

variable {m : Machine} {base : List Waiting} {frames : List String} {ending : SourceEnd}
  {given : List Pulled} {input : Input}

theorem stands_of_reads {turn : Turn} {limit k : Nat} (reads : turn.Reads base limit)
    (fed : 0 < k) (inside : k ≤ frames.length) :
    turn.machine.Stands base frames ending ((frames.take k).map .frame) := by
  rcases reads with ⟨stack, closed⟩ | ⟨waiting, left, stack, answers, -⟩
  · obtain ⟨k, rfl⟩ := Nat.exists_eq_succ_of_ne_zero (Nat.ne_of_gt fed)
    exact .stopped k stack inside rfl closed
  · exact .reading [] waiting left k stack answers inside rfl (.inr fed)

theorem stands_of_closing {turn : Turn} (closing : turn.Closing base)
    (past : turn.machine.session.phase ≠ .connected) :
    turn.machine.Stands base frames ending (sourceOf frames ending) := by
  rcases closing with stack | ⟨waiting, stack, closes⟩
  · exact .exhausted stack rfl past
  · exact .closing [] waiting stack closes rfl past

theorem past_of_transportClosed (n : Machine) (reason : String) :
    (n.transportClosed reason .finish).machine.session.phase ≠ .connected := by
  by_cases connected : n.session.phase = .connected
  · rw [transportClosed_of_connected connected]
    exact past_of_close n reason .finish connected
  · rw [transportClosed_of_past connected]
    exact connected

theorem Stands.step (stands : m.Stands base frames ending given)
    (emptied : m.session.Emptied .nothing m.stack) (running : base.length < m.stack.length)
    (sound : ¬ m.ListenerCrash input)
    (gives : GivenBy (sourceOf frames ending)
      (given ++ (m.pulledAt? base.length input).toList)) :
    (m.step input).machine.Stands base frames ending
      (given ++ (m.pulledAt? base.length input).toList) := by
  cases stands with
  | stopped k stack | exhausted stack =>
    rw [stack] at running
    exact absurd running (Nat.lt_irrefl _)
  | closing upper waiting stack closes taken past =>
    have later : (m.step input).machine.session.phase ≠ .connected :=
      (phase_step emptied input).ne_connected past
    rcases wait_stays input stack with ⟨leaves, upper', stays⟩ | ⟨rfl, next, answer⟩
    · rw [pulledAt?_of_leaves leaves, Option.toList_none, List.append_nil]
      exact .closing upper' waiting stays closes taken later
    · rw [pulledAt?_of_other stack (Waiting.ne_pulling_of_closes closes), Option.toList_none,
        List.append_nil, taken]
      rw [step_of_answer stack answer] at later ⊢
      exact stands_of_closing (.of_answer closes answer) later
  | reading upper waiting left k stack answers inside taken fed =>
    rcases wait_stays input stack with ⟨leaves, upper', stays⟩ | ⟨rfl, next, answer⟩
    · rw [pulledAt?_of_leaves leaves, Option.toList_none, List.append_nil]
      exact .reading upper' waiting left k stays answers inside taken fed
    · rw [List.nil_append] at stack
      -- The answer goes on with the frame that is being handled, or it is the next pull.
      cases left with
      | succ left =>
        have soft : ¬ (input = .crashed ∧ waiting.isAnnouncement = true) :=
          fun crash => sound ⟨crash.1, waiting, base, stack, crash.2⟩
        rw [pulledAt?_of_other stack (Turn.Reads.ne_pulling answers), Option.toList_none,
          List.append_nil, taken, step_of_answer stack answer]
        exact stands_of_reads (.of_answer answers answer soft) (by omega) inside
      | zero =>
        obtain rfl := Turn.Reads.eq_pulling answers
        obtain ⟨pulled, same, rfl⟩ := pulled?_of_answer answer
        rw [pulledAt?_of_pulling stack, same, Option.toList_some, taken] at gives ⊢
        rw [step_of_answer stack answer]
        rcases gives.next inside with ⟨text, rfl, more, taken⟩ | ⟨rfl, taken⟩
        · rw [taken]
          exact stands_of_reads (Turn.Reads.receive ⟨m.session, base⟩ text) (Nat.succ_pos k) more
        · rw [taken]
          obtain ⟨notices, closes⟩ := ending.afterPull_eq ⟨m.session, base⟩
          rw [closes]
          exact stands_of_closing (Turn.Closing.transportClosed ⟨m.session, base⟩ ending.reason)
            (past_of_transportClosed ⟨m.session, base⟩ ending.reason)

theorem Stands.run {turn : Turn} {inputs : List Input}
    (begun : turn.machine.Stands base frames ending [])
    (emptied : turn.machine.session.Emptied .nothing turn.machine.stack)
    (runs : turn.Runs base inputs) (sound : ¬ turn.machine.Happens ListenerCrash inputs)
    (gives : GivenBy (sourceOf frames ending) (turn.machine.pulls base.length inputs)) :
    (turn.machine.after inputs).Stands base frames ending
      (turn.machine.pulls base.length inputs) := by
  -- From the last step back: what is given up to there is again what the source gives.
  induction inputs using List.reverseRecOn with
  | nil => exact begun
  | append_singleton inputs input ih =>
    rw [happens_append, happens_single, not_or] at sound
    rw [pulls_concat] at gives ⊢
    have earlier : turn.Runs base inputs := by
      rintro before other rest rfl
      exact runs before other (rest ++ [input]) (by simp)
    rw [after_concat]
    exact (ih earlier sound.1 gives.front).step (emptied_run inputs emptied)
      (runs inputs input [] rfl) sound.2 gives

end Machine

/-! ## A reader comes to its end -/

theorem Waiting.exists_answer_of_reads {waiting : Waiting} {left : Nat}
    (answers : waiting.reads? = some (left + 1)) (n : Machine) :
    ∃ next, n.answer? waiting .done = some next := by
  cases waiting with
  | completing | announcedResponse | announcedMalformed => exact ⟨_, rfl⟩
  | transmitting | announcedCall | draining | closingTransport | announcedClose | pulling =>
    cases answers

namespace Turn

variable {base : List Waiting} {ending : SourceEnd}

def FinishesOn (turn : Turn) (base : List Waiting) (source : List Pulled) : Prop :=
  ∃ answers : List Input, (∀ answer ∈ answers, answer.isOrderly = true) ∧
    turn.Spans base answers ∧ GivenBy source (turn.machine.pulls base.length answers)

theorem FinishesOn.of_answer {turn next : Turn} {waiting : Waiting} (answer : Input)
    {source : List Pulled} (orderly : answer.isOrderly = true)
    (stack : turn.machine.stack = waiting :: base)
    (given : Machine.answer? ⟨turn.machine.session, base⟩ waiting answer = some next)
    (rest : next.FinishesOn base source) :
    turn.FinishesOn base
      ((turn.machine.pulledAt? base.length answer).toList ++ source) := by
  obtain ⟨answers, all, spans, gives⟩ := rest
  refine ⟨answer :: answers, List.forall_mem_cons.2 ⟨orderly, all⟩,
    .of_answer stack given spans, ?_⟩
  rw [Machine.pulls, Machine.step_of_answer stack given]
  exact gives.imp (List.prefix_append_right_inj _).2 (List.prefix_append_right_inj _).2

theorem Reads.finishes_of_pulling {turn : Turn} {limit : Nat} {source : List Pulled}
    (asks : ∀ turn : Turn, turn.machine.stack = .pulling :: base → turn.FinishesOn base source)
    (reads : turn.Reads base limit) : turn.FinishesOn base source := by
  induction limit using Nat.strongRecOn generalizing turn with
  | ind limit ih =>
    rcases reads with ⟨stack, -⟩ | ⟨waiting, left, stack, answers, few⟩
    · exact ⟨[], by simp, .of_ended stack, .inl List.nil_prefix⟩
    · cases left with
      | zero =>
        obtain rfl := eq_pulling answers
        exact asks turn stack
      | succ left =>
        obtain ⟨next, given⟩ :=
          waiting.exists_answer_of_reads answers ⟨turn.machine.session, base⟩
        have rest := ih left few (of_answer answers given (by simp))
        have whole := FinishesOn.of_answer .done rfl stack given rest
        rwa [Machine.pulledAt?_of_other stack (ne_pulling answers), Option.toList_none,
          List.nil_append] at whole

theorem Reads.finishes {turn : Turn} {limit : Nat} (reads : turn.Reads base limit)
    (frames : List String) : turn.FinishesOn base (sourceOf frames ending) := by
  induction frames generalizing turn limit with
  | nil =>
    refine reads.finishes_of_pulling fun turn stack => ?_
    obtain ⟨notices, closes⟩ := ending.afterPull_eq ⟨turn.machine.session, base⟩
    have ends : (Machine.afterPull ⟨turn.machine.session, base⟩ ending.pulled).Finishes base := by
      rw [closes]
      exact (Machine.transportClosed_finishes ⟨turn.machine.session, base⟩ _).noticed notices
    obtain ⟨answers, all, spans⟩ := ends
    have rest : FinishesOn _ base [] := ⟨answers, all, spans, .inr List.nil_prefix⟩
    have whole := FinishesOn.of_answer (.pulled ending.pulled) rfl stack rfl rest
    rwa [Machine.pulledAt?_of_pulling stack] at whole
  | cons text frames ih =>
    refine reads.finishes_of_pulling fun turn stack => ?_
    have rest := ih (receive ⟨turn.machine.session, base⟩ text)
    have whole := FinishesOn.of_answer (.pulled (.frame text)) rfl stack rfl rest
    rwa [Machine.pulledAt?_of_pulling stack] at whole

end Turn

namespace Machine

variable {m : Machine} {base : List Waiting} {frames : List String} {ending : SourceEnd}
  {given : List Pulled}

theorem Stands.finishes (stands : m.Stands base frames ending given) :
    ∃ answers : List Input, (∀ answer ∈ answers, answer.isOrderly = true) ∧
      Turn.Spans ⟨m, []⟩ base answers ∧
      GivenBy (sourceOf frames ending) (given ++ m.pulls base.length answers) := by
  cases stands with
  | stopped k stack inside taken closed =>
    exact ⟨[], by simp, .of_ended stack,
      .inl (by rw [taken, pulls, List.append_nil]; exact taken_prefix frames ending _)⟩
  | exhausted stack taken past =>
    exact ⟨[], by simp, .of_ended stack, .inr (taken ▸ List.prefix_append _ _)⟩
  | closing upper waiting stack closes taken past =>
    have ends : Turn.Finishes ⟨m, []⟩ base :=
      Turn.finishes (upper ++ [waiting]) (by rw [List.append_assoc]; exact stack)
    obtain ⟨answers, all, spans⟩ := ends
    exact ⟨answers, all, spans, .inr (taken ▸ List.prefix_append _ _)⟩
  | reading upper waiting left k stack answers inside taken fed =>
    -- First what waits on top of the reader, which is given nothing by that, then the reader.
    have above : Turn.Finishes ⟨m, []⟩ (waiting :: base) := Turn.finishes upper stack
    obtain ⟨first, all, spans⟩ := above
    have reads : Turn.Reads ⟨m.after first, []⟩ base left :=
      .inr ⟨waiting, left, spans.stack_eq ⟨upper, stack⟩, answers, Nat.le_refl _⟩
    obtain ⟨second, every, rest, gives⟩ := reads.finishes (frames.drop k)
    have runs : Turn.Runs ⟨m, []⟩ base first := Turn.Spans.runs [waiting] spans
    refine ⟨first ++ second, List.forall_mem_append.2 ⟨all, every⟩, runs.append rest, ?_⟩
    have silent : m.pulls base.length first = [] := pulls_eq_nil spans.running
    rw [taken, pulls_append, silent, List.nil_append]
    exact givenBy_taken gives

end Machine

/-! ## What a reader asks for, and how it ends -/

theorem Request.complete_ne_pull (id : UInt64) (outcome : Except CallFailure Reply) :
    Request.complete id outcome ≠ .pull := by
  cases outcome <;> exact Request.noConfusion

theorem Works.asks {m : Machine} {input : Input} {base : List Waiting} {s : Session} {hand : Hand}
    {turn : Turn} (works : Works m input base s hand turn)
    (asked : turn.emitted.getLast? = some (.request .pull)) :
    input = .start .read ∨ turn.machine.session.phase ≠ .closed := by
  induction works with
  | ends last =>
    cases last with
    | pulled cause => exact cause
    | completed call outcome | failedMalformed call outcome | drained reason call =>
      exact absurd (Emission.request.inj (Option.some.inj asked)) (Request.complete_ne_pull _ _)
    | _ => simp at asked
  | work first rest ih =>
    rw [Turn.preceded, List.getLast?_append, Option.or_eq_some_iff] at asked
    rcases asked with asked | ⟨none, -⟩
    · exact ih asked
    · exact absurd (List.getLast?_eq_none_iff.1 none) rest.emitted_ne_nil

/-- The end of its source makes a reader fail all calls that are pending, unless the session is
closed already. -/
theorem Turn.Spans.failed_of_ending {n : Machine} {ending : SourceEnd} {body : List Input}
    (spans : (n.afterPull ending.pulled).Spans n.stack body)
    (opened : n.session.phase ≠ .closed)
    (calm : ((n.afterPull ending.pulled).machine.after body).session.phase ≠ .closing) :
    completions ((n.afterPull ending.pulled).emitted
        ++ (n.afterPull ending.pulled).machine.emitted body)
      = failedBy ending.reason n.session.calls := by
  obtain ⟨notices, closes⟩ := ending.afterPull_eq n
  rw [closes] at spans calm ⊢
  by_cases connected : n.session.phase = .connected
  · rw [Machine.transportClosed_of_connected connected] at spans ⊢
    have gives : After.finish.result? = some .unit := rfl
    have ends := spans.of_noticed.of_noticed.closes_of_close gives connected
    exact ((ends.preceded rfl).preceded (completions_notices notices)).1
  · -- Only a close that began before the end could have left the session neither open nor closed.
    rw [Machine.transportClosed_of_past connected] at spans calm
    obtain rfl := spans.ended rfl
    change n.session.phase ≠ .closing at calm
    cases phase : n.session.phase with
    | connected => exact absurd phase connected
    | closing => exact absurd phase calm
    | closed => exact absurd phase opened

namespace Machine

/-- A reader is begun and given frames by a source that ends in a certain way, and the inputs do not
go beyond its end. The listener does not break down. -/
structure Reading (m : Machine) (frames : List String) (ending : SourceEnd) (inputs : List Input) :
    Prop where
  runs : (m.step (.start .read)).Runs m.stack inputs
  given : GivenBy (sourceOf frames ending) (m.pulls m.stack.length (.start .read :: inputs))
  sound : ¬ m.Happens ListenerCrash (.start .read :: inputs)

structure ReadsThrough (m : Machine) (frames : List String) (ending : SourceEnd)
    (body : List Input) : Prop where
  /-- It has handled some first frames of its source, or all of them and the end. -/
  taken : m.pulls m.stack.length (.start .read :: body) = sourceOf frames ending ∨
    ∃ k < frames.length,
      m.pulls m.stack.length (.start .read :: body) = (frames.take (k + 1)).map .frame
  /-- Each frame has been handled as one that the session receives. -/
  handled : ∀ before input rest text, body = before ++ input :: rest →
    (m.after (.start .read :: before)).pulledAt? m.stack.length input = some (.frame text) →
    (m.after (.start .read :: before)).step input
      = receive ⟨(m.after (.start .read :: before)).session, m.stack⟩ text .read
  /-- It has asked for a further frame only while the session was not closed. -/
  onward : ∀ before input rest, body = before ++ input :: rest →
    (m.after (.start .read :: before)).AsksAt m.stack.length input →
    (m.after (.start .read :: (before ++ [input]))).session.phase ≠ .closed
  closed : (m.after (.start .read :: body)).session.phase = .closed
  empty : (m.after (.start .read :: body)).session.calls = []
  /-- The end of the source fails all calls that were still pending. -/
  failed : ∀ before input rest, body = before ++ input :: rest →
    (m.after (.start .read :: before)).pulledAt? m.stack.length input = some ending.pulled →
    (m.after (.start .read :: before)).session.phase ≠ .closed →
    completions ((m.after (.start .read :: before)).emitted (input :: rest))
      = failedBy ending.reason (m.after (.start .read :: before)).session.calls

/-- The callbacks of a call have been run with just one outcome, or its response came too late. -/
def Settled (m : Machine) (inputs : List Input) (id : UInt64) : Prop :=
  (∃ outcome, outcomes id (m.emitted inputs) = [outcome]) ∨
    (outcomes id (m.emitted inputs) = [] ∧ m.HandledLate inputs id)

variable {m : Machine} {frames : List String} {ending : SourceEnd} {body : List Input}

theorem step_of_pull {before rest : List Input} {input : Input} {given : Pulled}
    (spans : m.Spans .read (before ++ input :: rest))
    (pull : (m.after (.start .read :: before)).pulledAt? m.stack.length input = some given) :
    (m.after (.start .read :: before)).step input
      = afterPull ⟨(m.after (.start .read :: before)).session, m.stack⟩ given := by
  obtain ⟨below, stack, same, answer⟩ := pulledAt?_eq_some.1 pull
  obtain ⟨upper, above⟩ := Turn.Spans.above spans ⟨[.pulling], rfl⟩
  have split : [.pulling] ++ below = upper ++ m.stack := stack.symm.trans above
  obtain rfl : below = m.stack := (List.append_inj' split same).2
  exact step_of_answer stack (answer?_of_pulled? answer _)

theorem stands_at_start (m : Machine) (frames : List String) (ending : SourceEnd) :
    (m.step (.start .read)).machine.Stands m.stack frames ending [] :=
  .reading [] .pulling 0 0 rfl rfl (Nat.zero_le _) rfl (.inl rfl)

theorem Reading.stands {inputs : List Input} (reading : m.Reading frames ending inputs)
    (emptied : m.session.Emptied .nothing m.stack) :
    (m.after (.start .read :: inputs)).Stands m.stack frames ending
      (m.pulls m.stack.length (.start .read :: inputs)) := by
  obtain ⟨runs, given, sound⟩ := reading
  rw [happens_cons, not_or] at sound
  rw [pulls_start] at given ⊢
  exact (stands_at_start m frames ending).run (emptied_step _ emptied) runs sound.2 given

theorem stack_of_spans (spans : m.Spans .read body) :
    (m.after (.start .read :: body)).stack = m.stack :=
  Turn.Spans.stack_eq spans ⟨[.pulling], rfl⟩

theorem Reading.stopped (reading : m.Reading frames ending body)
    (emptied : m.session.Emptied .nothing m.stack) (spans : m.Spans .read body)
    (calm : (m.after (.start .read :: body)).session.phase ≠ .closing) :
    (m.pulls m.stack.length (.start .read :: body) = sourceOf frames ending ∨
      ∃ k < frames.length,
        m.pulls m.stack.length (.start .read :: body) = (frames.take (k + 1)).map .frame) ∧
      (m.after (.start .read :: body)).session.phase = .closed := by
  have ended := stack_of_spans spans
  cases reading.stands emptied with
  | reading upper waiting _ _ stack | closing upper waiting stack =>
    rw [ended] at stack
    have lengths := congrArg List.length stack
    rw [List.length_append, List.length_cons] at lengths
    omega
  | stopped k _ inside taken closed => exact ⟨.inr ⟨k, inside, taken⟩, closed⟩
  | exhausted _ taken past =>
    refine ⟨.inl taken, ?_⟩
    cases phase : (m.after (.start .read :: body)).session.phase with
    | connected => exact absurd phase past
    | closing => exact absurd phase calm
    | closed => rfl

theorem opened_of_asks {before : List Input} {input : Input}
    (running : m.stack.length < (m.after (.start .read :: before)).stack.length)
    (asks : (m.after (.start .read :: before)).AsksAt m.stack.length input) :
    (m.after (.start .read :: (before ++ [input]))).session.phase ≠ .closed := by
  obtain ⟨⟨below, stack, same⟩, asked⟩ := asks
  rw [after_cons, after_concat]
  rcases step_works (m.after (.start .read :: before)) input with idle | works
  · rw [idle] at asked
    cases asked
  · refine (works.asks asked).resolve_left ?_
    rintro rfl
    obtain rfl : (m.after (.start .read :: before)).stack = below := (List.cons.inj stack).2
    exact absurd running (Nat.not_lt_of_le (Nat.le_of_eq same))

theorem failed_of_pull {before rest : List Input} {input : Input}
    (spans : m.Spans .read (before ++ input :: rest))
    (pull : (m.after (.start .read :: before)).pulledAt? m.stack.length input
      = some ending.pulled)
    (opened : (m.after (.start .read :: before)).session.phase ≠ .closed)
    (calm : (m.after (.start .read :: (before ++ input :: rest))).session.phase ≠ .closing) :
    completions ((m.after (.start .read :: before)).emitted (input :: rest))
      = failedBy ending.reason (m.after (.start .read :: before)).session.calls := by
  have step := step_of_pull spans pull
  have last : ((m.after (.start .read :: before)).step input).Spans m.stack rest :=
    Turn.Spans.from_step spans
  rw [← List.cons_append, after_append, after_cons] at calm
  rw [step] at last calm
  rw [emitted_cons, step]
  exact last.failed_of_ending opened calm

theorem Reading.through (reading : m.Reading frames ending body)
    (emptied : m.session.Emptied .nothing m.stack) (spans : m.Spans .read body)
    (calm : (m.after (.start .read :: body)).session.phase ≠ .closing) :
    m.ReadsThrough frames ending body := by
  obtain ⟨taken, closed⟩ := reading.stopped emptied spans calm
  refine ⟨taken, ?_, ?_, closed, ?_, ?_⟩
  · rintro before input rest text rfl pull
    exact step_of_pull spans pull
  · rintro before input rest rfl asks
    exact opened_of_asks (spans.running before input rest rfl) asks
  · exact (emptied_run _ emptied).table (by rw [closed]; simp)
  · rintro before input rest rfl pull opened
    exact failed_of_pull spans pull opened calm

theorem Reading.finishes {before : List Input} (reading : m.Reading frames ending before)
    (emptied : m.session.Emptied .nothing m.stack) (drains : m.Drains)
    (idle : m.session.phase ≠ .closing) :
    ∃ answers : List Input, (∀ answer ∈ answers, answer.isOrderly = true) ∧
      m.Reading frames ending (before ++ answers) ∧ m.Spans .read (before ++ answers) ∧
      (m.after (.start .read :: (before ++ answers))).session.phase ≠ .closing := by
  obtain ⟨answers, orderly, rest, gives⟩ := (reading.stands emptied).finishes
  have spans : m.Spans .read (before ++ answers) := reading.runs.append rest
  refine ⟨answers, orderly, ⟨spans.running, ?_, ?_⟩, spans, ?_⟩
  · rw [pulls_start] at gives ⊢
    rw [pulls_append]
    exact gives
  · rw [← List.cons_append, happens_append]
    rintro (crash | ⟨early, input, late, rfl, rfl, -⟩)
    · exact reading.sound crash
    · exact Bool.noConfusion (orderly .crashed (by simp))
  · -- The reader leaves the waits that it found, and none of them belongs to a close.
    have left := (drains_run (.start .read :: (before ++ answers)) drains).1
    rw [Drains, Session.Drains, stack_of_spans spans] at left
    rw [Drains, Session.Drains] at drains
    intro closing
    rw [closing, drains] at left
    cases phase : m.session.phase with
    | closing => exact idle phase
    | connected | closed =>
      rw [phase] at left
      cases left

theorem settled_of_closed {m : Machine} {inputs : List Input} {id : UInt64} (rested : m.stack = [])
    (fresh : m.heldCalls = []) (emptied : m.session.Emptied .nothing m.stack)
    (closed : (m.after inputs).session.phase = .closed)
    (once : (issuedIds (m.emitted inputs)).count id ≤ 1)
    (sound : ¬ m.Happens ListenerCrash inputs) (free : ¬ (m.after inputs).Withholds id)
    (taken : id ∈ acceptedIds (m.emitted inputs)) : m.Settled inputs id := by
  cases fate_of_unheld rested fresh once sound (copies_of_not_withholds free) taken with
  | waiting pending =>
    have empty := (emptied_run inputs emptied).table (by rw [closed]; simp)
    rw [Session.isPending_iff_copies, empty] at pending
    exact absurd pending (Nat.lt_irrefl _)
  | succeeded reply gone once => exact .inl ⟨.ok reply, once⟩
  | failed failure gone once => exact .inl ⟨.error failure, once⟩
  | dropped gone silent late => exact .inr ⟨silent, late⟩

/-- A reader that is begun in any run takes its source up to the first frame after which the
session is closed, and leaves the session closed and without calls. Every call whose send was
accepted has then been completed once or came too late to its response; one whose response an
operation around the reader holds in its hand, once that operation is through. (No two calls have
one id as long as ids last.) And wherever a reader stands, answers see it to its end. -/
theorem reader_settles_every_call {config : Config} {registry : Registry}
    {transcript : Transcript} {m : Machine} (began : m = initial config registry transcript)
    (history : List Input) (frames : List String) (ending : SourceEnd) :
    (∀ body, (m.after history).Reading frames ending body → (m.after history).Spans .read body →
      (m.after (history ++ .start .read :: body)).session.phase ≠ .closing →
      (m.after history).ReadsThrough frames ending body ∧
      ∀ later id, ¬ m.Happens ListenerCrash (history ++ .start .read :: (body ++ later)) →
        (issuedIds (m.emitted (history ++ .start .read :: (body ++ later)))).count id ≤ 1 →
        ¬ (m.after (history ++ .start .read :: (body ++ later))).Withholds id →
        id ∈ acceptedIds (m.emitted (history ++ .start .read :: (body ++ later))) →
        m.Settled (history ++ .start .read :: (body ++ later)) id) ∧
    ((m.after history).session.phase ≠ .closing →
      ∀ before, (m.after history).Reading frames ending before →
        ∃ answers : List Input, (∀ answer ∈ answers, answer.isOrderly = true) ∧
          (m.after history).Reading frames ending (before ++ answers) ∧
          (m.after history).Spans .read (before ++ answers) ∧
          (m.after (history ++ .start .read :: (before ++ answers))).session.phase
            ≠ .closing) := by
  have drains : m.Drains := by rw [began]; rfl
  have emptied : m.session.Emptied .nothing m.stack := by
    rw [began]
    exact .initial config registry transcript
  have begun := emptied_run history emptied
  constructor
  · intro body reading spans calm
    rw [after_append] at calm
    have through := reading.through begun spans calm
    refine ⟨through, ?_⟩
    intro later id sound once free taken
    have closed : (m.after (history ++ .start .read :: (body ++ later))).session.phase = .closed := by
      have whole : history ++ .start .read :: (body ++ later)
          = (history ++ .start .read :: body) ++ later := by simp
      rw [whole, after_append]
      exact closed_run (drains_run _ drains).1 (by rw [after_append]; exact through.closed) later
    exact settled_of_closed (by rw [began]; rfl) (by rw [began, heldCalls_initial]) emptied closed
      once sound free taken
  · intro idle before reading
    obtain ⟨answers, orderly, more, spans, calm⟩ :=
      reading.finishes begun (drains_run history drains).1 idle
    exact ⟨answers, orderly, more, spans, by rwa [after_append]⟩

def endingRun : List Input :=
  [.pulled (.frame "x"), .pulled .ended, .done, .done, .done]

theorem reader_settles_every_call_at_end :
    ((initial .default Catalog.registry .off).after pendingRun).ReadsThrough ["x"] .ended
      endingRun ∧
    (initial .default Catalog.registry .off).Settled
      (pendingRun ++ .start .read :: (endingRun ++ [])) 2 := by
  have runs : (((initial .default Catalog.registry .off).after pendingRun).step
      (.start .read)).Runs ((initial .default Catalog.registry .off).after pendingRun).stack
        endingRun := by
    intro before input rest split
    match before with
    | [] => decide +kernel
    | [first] =>
      cases split
      decide +kernel
    | [first, second] =>
      cases split
      decide +kernel
    | [first, second, third] =>
      cases split
      decide +kernel
    | [first, second, third, fourth] =>
      cases split
      decide +kernel
    | first :: second :: third :: fourth :: fifth :: before => simp [endingRun] at split
  have ended : (((initial .default Catalog.registry .off).after pendingRun).after
      (.start .read :: endingRun)).stack.length = 0 := by decide +kernel
  have unbroken : ∀ inputs : List Input, .crashed ∉ inputs →
      ∀ m : Machine, ¬ m.Happens ListenerCrash inputs :=
    fun inputs quiet m broken => quiet (broken.mem fun _ _ broken => broken.1)
  have given : GivenBy (sourceOf ["x"] .ended)
      (((initial .default Catalog.registry .off).after pendingRun).pulls 0
        (.start .read :: endingRun)) := .inl ⟨[], rfl⟩
  obtain ⟨through, settled⟩ := (reader_settles_every_call rfl pendingRun ["x"] .ended).1 endingRun
    ⟨runs, given, unbroken _ (by simp [endingRun]) _⟩
    ⟨runs, Nat.le_of_eq ended⟩ (by decide +kernel)
  refine ⟨through, settled [] 2 (unbroken _ (by simp [pendingRun, endingRun]) _)
    (by decide +kernel) ?_ (by decide +kernel)⟩
  have empty : ((initial .default Catalog.registry .off).after
      (pendingRun ++ .start .read :: (endingRun ++ []))).stack = [] :=
    List.eq_nil_of_length_eq_zero (by decide +kernel)
  rintro ⟨waiting, mem, -⟩
  rw [empty] at mem
  cases mem

end Machine

end DebugLink
