import DebugLink.Proofs.Session.Progress
import DebugLink.Proofs.Session.Source

/-!
# User code that breaks down

Callbacks, handlers and the listener may break down whenever they run. What an operation shares
with others, from the frame or the close that it begins with to its end, is followed here from wait
to wait (`Turn.Shares`): each answer brings the operation closer to its end, whether the user code
ended or broke down. Only the listener, and a transport that breaks down while it is closed, take
an operation with them (`Machine.BreaksAt`).
-/

set_option autoImplicit false

namespace DebugLink

namespace Waiting

/-- What an operation goes on with after the part of its work in which it waits so. -/
def after? : Waiting → Option After
  | .announcedResponse _ _ _ after | .announcedMalformed _ _ after | .completing _ after
  | .draining _ _ _ after | .closingTransport after | .announcedClose after => some after
  | .transmitting .. | .announcedCall _ | .pulling => none

/-- How many answers are needed at most until an operation that waits so goes on. -/
def left : Waiting → Nat
  | .draining _ _ rest _ => rest.length + 3
  | .announcedResponse .. | .announcedMalformed .. | .closingTransport _ => 2
  | .completing .. | .announcedClose _ => 1
  | .transmitting .. | .announcedCall _ | .pulling => 0

/-- Whether an operation goes on when what it waits for breaks down. -/
def isContained : Waiting → Bool
  | .completing .. | .draining .. | .pulling => true
  | .transmitting .. | .announcedCall _ | .announcedResponse .. | .announcedMalformed ..
  | .closingTransport _ | .announcedClose _ => false

theorem left_pos {waiting : Waiting} {after : After} (shared : waiting.after? = some after) :
    0 < waiting.left := by
  cases waiting <;> cases shared <;> simp [left]

end Waiting

/-! ## The work that operations share -/

/-- A turn in the midst of work after which an operation begun above the waits `base` goes on: it
goes on already, or it waits and needs few answers. -/
def Turn.Shares (turn : Turn) (base : List Waiting) (after : After) (limit : Nat) : Prop :=
  (∃ s emissions, turn = (Machine.conclude ⟨s, base⟩ after).preceded emissions) ∨
    ∃ waiting, turn.machine.stack = waiting :: base ∧ waiting.after? = some after ∧
      waiting.left ≤ limit

namespace Turn.Shares

variable {turn : Turn} {base : List Waiting} {after : After} {limit : Nat}

theorem mono {more : Nat} (shares : turn.Shares base after limit) (le : limit ≤ more) :
    turn.Shares base after more := by
  rcases shares with goes | ⟨waiting, stack, shared, few⟩
  · exact .inl goes
  · exact .inr ⟨waiting, stack, shared, Nat.le_trans few le⟩

theorem preceded (shares : turn.Shares base after limit) (emissions : List Emission) :
    (turn.preceded emissions).Shares base after limit := by
  rcases shares with ⟨s, others, rfl⟩ | waits
  · exact .inl ⟨s, emissions ++ others, Turn.preceded_preceded _ _ _⟩
  · exact .inr waits

theorem noticed (shares : turn.Shares base after limit) (notices : List Notice) :
    (turn.noticed notices).Shares base after limit :=
  shares.preceded _

theorem conclude (n : Machine) (after : After) : (n.conclude after).Shares n.stack after 0 :=
  .inl ⟨n.session, [], rfl⟩

theorem await {n : Machine} {waiting : Waiting} {request : Request}
    (shared : waiting.after? = some after) (few : waiting.left ≤ limit) :
    (n.await waiting request).Shares n.stack after limit :=
  .inr ⟨waiting, rfl, shared, few⟩

theorem announce {n : Machine} {waiting : Waiting} {next : Machine → Turn}
    (shared : waiting.after? = some after) (few : waiting.left ≤ limit)
    (rest : (next n).Shares n.stack after limit) :
    (n.announce waiting next).Shares n.stack after limit := by
  rcases n.announce_cases waiting next with direct | ⟨listener, told⟩
  · rw [direct]
    exact rest
  · rw [told]
    exact await shared few

/-! ### Frames -/

theorem completeResponse (n : Machine) (call : PendingCall) (outcome : Except RemoteError Json)
    (stale : Bool) (after : After) :
    (n.completeResponse call outcome stale after).Shares n.stack after 1 := by
  cases stale with
  | true => exact ((conclude n after).mono (Nat.zero_le _)).preceded _
  | false =>
    obtain ⟨log, timely⟩ := Machine.completeResponse_timely n call outcome after
    rw [timely]
    exact (await rfl (Nat.le_refl _)).noticed _

theorem completeMalformed (n : Machine) (call : PendingCall) (failure : CallFailure)
    (after : After) : (n.completeMalformed call failure after).Shares n.stack after 1 := by
  unfold Machine.completeMalformed
  split
  · exact ((conclude n after).mono (Nat.zero_le _)).preceded _
  · exact (await rfl (Nat.le_refl _)).noticed _

theorem deliverResponse (n : Machine) (frame : ResponseFrame) (after : After) :
    (n.deliverResponse frame after).Shares n.stack after 2 := by
  unfold Machine.deliverResponse
  split
  · exact ((conclude n after).mono (Nat.zero_le _)).noticed _
  · next call pending =>
    exact (announce (n := n.modify _) rfl (Nat.le_refl _)
      ((completeResponse _ _ _ _ _).mono (Nat.le_succ _))).noticed _

theorem deliverMalformed (n : Machine) (id : UInt64) (error : FrameError) (after : After) :
    (n.deliverMalformed id error after).Shares n.stack after 2 := by
  unfold Machine.deliverMalformed
  split
  · exact ((conclude n after).mono (Nat.zero_le _)).noticed _
  · split
    · exact ((conclude n after).mono (Nat.zero_le _)).noticed _
    · next call pending =>
      exact announce (n := n.modify _) rfl (Nat.le_refl _)
        ((completeMalformed _ _ _ _).mono (Nat.le_succ _))

theorem deliverEvent (n : Machine) (frame : EventFrame) (after : After) :
    (n.deliverEvent frame after).Shares n.stack after 2 := by
  unfold Machine.deliverEvent
  refine noticed ?_ _
  unfold Machine.routeEvent
  split
  · exact ((conclude ⟨_, n.stack⟩ after).mono (Nat.zero_le _)).noticed _
  · refine noticed ?_ _
    split
    · exact await (n := ⟨_, n.stack⟩) rfl (Nat.le_succ _)
    · exact ((conclude ⟨_, n.stack⟩ after).mono (Nat.zero_le _)).noticed _

theorem receive (n : Machine) (text : String) (after : After) :
    (n.receive text after).Shares n.stack after 2 := by
  unfold Machine.receive
  split
  · exact ((conclude n after).mono (Nat.zero_le _)).noticed _
  · refine preceded ?_ _
    split
    · exact ((conclude n after).mono (Nat.zero_le _)).noticed _
    · refine noticed ?_ _
      split
      · exact deliverResponse n _ after
      · exact deliverEvent n _ after
      · split
        · exact deliverMalformed n _ _ after
        · exact ((conclude n after).mono (Nat.zero_le _)).noticed _

/-! ### Closes -/

theorem drain (n : Machine) (reason : String) (calls : List PendingCall) (after : After) :
    (n.drain reason calls after).Shares n.stack after (calls.length + 2) := by
  cases calls with
  | nil => exact (await (n := n.modify _) rfl (Nat.le_refl _)).noticed _
  | cons call rest => exact (await rfl (Nat.le_refl _)).noticed _

theorem close (n : Machine) (reason : String) (after : After) :
    (n.close reason after).Shares n.stack after (n.session.calls.length + 2) := by
  unfold Machine.close
  split
  · exact (drain (n.modify _) reason _ after).noticed _
  · exact (conclude n after).mono (Nat.zero_le _)

theorem transportClosed (n : Machine) (reason : String) (after : After) :
    (n.transportClosed reason after).Shares n.stack after (n.session.calls.length + 2) := by
  unfold Machine.transportClosed
  split
  · exact (close n reason after).noticed _
  · exact close n reason after

/-! ### Answers -/

/-- Each answer brings an operation closer to where it goes on; so does user code that breaks down,
where that is contained. -/
theorem of_answer {s : Session} {waiting : Waiting} {input : Input} {next : Turn}
    (shared : waiting.after? = some after) (few : waiting.left ≤ limit + 1)
    (given : Machine.answer? ⟨s, base⟩ waiting input = some next)
    (sound : input = .crashed → waiting.isContained = true) : next.Shares base after limit := by
  cases waiting with
  | transmitting | announcedCall | pulling => cases shared
  | completing label after =>
    cases shared
    cases input with
    | start | accepted | refused | pulled => cases given
    | done =>
      cases given
      exact (conclude ⟨s, base⟩ after).mono (Nat.zero_le _)
    | crashed =>
      cases given
      exact ((conclude ⟨s, base⟩ after).mono (Nat.zero_le _)).noticed _
  | draining label reason rest after =>
    cases shared
    have enough : rest.length + 2 ≤ limit := Nat.le_of_succ_le_succ few
    cases input with
    | start | accepted | refused | pulled => cases given
    | done =>
      cases given
      exact (drain ⟨s, base⟩ reason rest after).mono enough
    | crashed =>
      cases given
      exact ((drain ⟨s, base⟩ reason rest after).mono enough).noticed _
  | announcedResponse call outcome stale after =>
    cases shared
    cases input with
    | start | accepted | refused | pulled => cases given
    | crashed => cases sound rfl
    | done =>
      cases given
      exact (completeResponse ⟨s, base⟩ call outcome stale after).mono (Nat.le_of_succ_le_succ few)
  | announcedMalformed call failure after =>
    cases shared
    cases input with
    | start | accepted | refused | pulled => cases given
    | crashed => cases sound rfl
    | done =>
      cases given
      exact (completeMalformed ⟨s, base⟩ call failure after).mono (Nat.le_of_succ_le_succ few)
  | closingTransport after =>
    cases shared
    cases input with
    | start | accepted | refused | pulled => cases given
    | crashed => cases sound rfl
    | done =>
      cases given
      exact announce (n := ⟨s, base⟩) rfl (Nat.le_of_succ_le_succ few)
        ((conclude ⟨s, base⟩ after).mono (Nat.zero_le _))
  | announcedClose after =>
    cases shared
    cases input with
    | start | accepted | refused | pulled => cases given
    | crashed => cases sound rfl
    | done =>
      cases given
      exact (conclude ⟨s, base⟩ after).mono (Nat.zero_le _)

theorem stack_of_broken {s : Session} {waiting : Waiting} {next : Turn}
    (shared : waiting.after? = some after) (uncontained : ¬ waiting.isContained = true)
    (given : Machine.answer? ⟨s, base⟩ waiting .crashed = some next) :
    next.machine.stack = base := by
  cases waiting with
  | transmitting | announcedCall | pulling => cases shared
  | completing | draining => exact absurd rfl uncontained
  | announcedResponse | announcedMalformed | closingTransport | announcedClose =>
    cases given
    rfl

end Turn.Shares

/-! ## Operations return -/

namespace Machine

/-- What the operation that was begun above the waits `base` waits for breaks down, and takes the
operation with it: the listener, or the transport. -/
def BreaksAt (base : List Waiting) (m : Machine) (input : Input) : Prop :=
  input = .crashed ∧ ∃ waiting, m.stack = waiting :: base ∧ waiting.isContained = false

def answeredAt (depth : Nat) (m : Machine) (input : Input) : Bool :=
  match m.stack with
  | [] => false
  | waiting :: below =>
    below.length == depth && (answer? { m with stack := below } waiting input).isSome

def answered (depth : Nat) (m : Machine) : List Input → Nat
  | [] => 0
  | input :: inputs =>
    (if m.answeredAt depth input then 1 else 0) + (m.step input).machine.answered depth inputs

variable {m : Machine} {base : List Waiting}

theorem answered_append (depth : Nat) (m : Machine) (xs ys : List Input) :
    m.answered depth (xs ++ ys) = m.answered depth xs + (m.after xs).answered depth ys := by
  induction xs generalizing m with
  | nil => exact (Nat.zero_add _).symm
  | cons x xs ih => rw [List.cons_append, answered, answered, ih, after_cons, Nat.add_assoc]

theorem answered_of_aside {waiting : Waiting} {inputs : List Input}
    (aside : Aside (waiting :: base) m inputs) : m.answered base.length inputs = 0 := by
  induction aside with
  | nil => rfl
  | @cons m input inputs leaves rest ih =>
    have unanswered : m.answeredAt base.length input = false := by
      unfold answeredAt
      split
      · rfl
      · next other below stack =>
        by_cases same : below.length = base.length
        · simp [answer?_of_leaves leaves stack same]
        · simp [same]
    rw [answered, unanswered, ih]
    rfl

theorem answeredAt_le (depth : Nat) (m : Machine) (input : Input) :
    (if m.answeredAt depth input then 1 else 0) ≤ 1 := by
  split <;> simp

end Machine

theorem Machine.happens_later {kind : Machine → Input → Prop} {m : Machine} {next : Turn}
    {before rest : List Input} {input : Input} (taken : (m.after before).step input = next)
    (happens : next.machine.Happens kind rest) : m.Happens kind (before ++ input :: rest) := by
  rw [happens_append, happens_cons, taken]
  exact .inr (.inr happens)

namespace Turn.Shares

variable {turn : Turn} {base : List Waiting} {after : After} {limit : Nat} {expected : Result}
  {body : List Input}

theorem ended_or_waits (gives : after.result? = some expected)
    (shares : turn.Shares base after limit) :
    (turn.machine.stack = base ∧ turn.emitted.getLast? = some (.returned expected)) ∨
      ∃ waiting fewer, limit = fewer + 1 ∧ turn.machine.stack = waiting :: base ∧
        waiting.after? = some after ∧ waiting.left ≤ fewer + 1 := by
  rcases shares with ⟨s, emissions, rfl⟩ | ⟨waiting, stack, shared, few⟩
  · rw [After.conclude_of_result? gives]
    exact .inl ⟨rfl, by simp [Turn.preceded, Machine.give]⟩
  · have := Waiting.left_pos shared
    obtain ⟨fewer, rfl⟩ := Nat.exists_eq_succ_of_ne_zero (show limit ≠ 0 by omega)
    exact .inr ⟨waiting, fewer, rfl, stack, shared, few⟩

/-- An operation needs few answers on its way to where it goes on and ends, whatever they are and
however many inputs there are on top of it. -/
theorem answered_le (gives : after.result? = some expected) (shares : turn.Shares base after limit)
    (runs : turn.Runs base body) : turn.machine.answered base.length body ≤ limit := by
  induction limit using Nat.strongRecOn generalizing turn body with
  | ind limit ih =>
    rcases shares.ended_or_waits gives with
      ⟨stack, -⟩ | ⟨waiting, fewer, rfl, stack, shared, few⟩
    · obtain rfl := runs.ended stack
      exact Nat.zero_le _
    rcases Machine.stays_or_answered [] stack body with
      ⟨aside, -⟩ | ⟨before, input, rest, next, rfl, aside, waits, given⟩
    · rw [Machine.answered_of_aside aside]
      exact Nat.zero_le _
    have taken := Machine.step_of_answer waits given
    have later : next.Runs base rest := taken ▸ runs.from_step
    have others : next.machine.answered base.length rest ≤ fewer := by
      by_cases sound : input = .crashed → waiting.isContained = true
      · exact ih fewer (Nat.lt_succ_self _) (of_answer shared few given sound) later
      · -- The operation has broken down, so there is no further input to it.
        obtain ⟨rfl, uncontained⟩ := Classical.not_imp.1 sound
        obtain rfl := later.ended (stack_of_broken shared uncontained given)
        exact Nat.zero_le _
    have one := Machine.answeredAt_le base.length (turn.machine.after before) input
    rw [Machine.answered_append, Machine.answered_of_aside aside, Machine.answered, taken]
    omega

theorem goes_on {waiting : Waiting} (shared : waiting.after? = some after)
    (few : waiting.left ≤ limit + 1) (stack : turn.machine.stack = waiting :: base)
    (spans : turn.Spans base body) :
    (∃ before input rest next, body = before ++ input :: rest ∧
        (turn.machine.after before).step input = next ∧ next.Shares base after limit ∧
        next.Spans base rest) ∨
      turn.machine.Happens (Machine.BreaksAt base) body := by
  obtain ⟨before, input, rest, next, split, -, waits, given, taken, later⟩ := spans.goes_on stack
  by_cases broken : Machine.BreaksAt base (turn.machine.after before) input
  · exact .inr ⟨before, input, rest, split, broken⟩
  · have sound : input = .crashed → waiting.isContained = true := by
      intro crash
      by_contra uncontained
      exact broken ⟨crash, waiting, waits, by simpa using uncontained⟩
    exact .inl ⟨before, input, rest, next, split, taken, of_answer shared few given sound, later⟩

theorem concludes (gives : after.result? = some expected) (shares : turn.Shares base after limit)
    (spans : turn.Spans base body) :
    turn.Concludes base body expected ∨ turn.machine.Happens (Machine.BreaksAt base) body := by
  induction limit using Nat.strongRecOn generalizing turn body with
  | ind limit ih =>
    rcases shares.ended_or_waits gives with
      ⟨stack, last⟩ | ⟨waiting, fewer, rfl, stack, shared, few⟩
    · obtain rfl := spans.ended stack
      exact .inl (.of_returned stack last)
    · rcases goes_on shared few stack spans with
        ⟨before, input, rest, next, rfl, taken, shares, later⟩ | broken
      · exact (ih fewer (Nat.lt_succ_self _) shares later).imp (.of_later spans taken)
          (Machine.happens_later taken)
      · exact .inr broken

end Turn.Shares

/-! ## The reader goes on -/

namespace Turn

variable {turn : Turn} {base : List Waiting} {body : List Input}

/-- A reader that was begun above the waits `base` and has ended with `body` has found the session
closed, or its source at an end. -/
structure ReadsOn (turn : Turn) (base : List Waiting) (body : List Input) : Prop where
  concludes : turn.Concludes base body .unit
  exhausted : (turn.machine.after body).session.phase = .closed ∨
    ∃ given ∈ turn.machine.pulls base.length body, ∀ text, given ≠ .frame text

theorem ReadsOn.of_later {next : Turn} {before rest : List Input} {input : Input}
    (spans : turn.Spans base (before ++ input :: rest))
    (taken : (turn.machine.after before).step input = next) (reads : next.ReadsOn base rest) :
    turn.ReadsOn base (before ++ input :: rest) := by
  refine ⟨.of_later spans taken reads.concludes, ?_⟩
  rw [Machine.after_append, Machine.after_cons, Machine.pulls_append, Machine.pulls, taken]
  refine reads.exhausted.imp_right ?_
  rintro ⟨given, mem, last⟩
  exact ⟨given, by simp [mem], last⟩

theorem Shares.afterPull (n : Machine) {given : Pulled} (last : ∀ text, given ≠ .frame text) :
    (n.afterPull given).Shares n.stack .finish (n.session.calls.length + 2) := by
  cases given with
  | frame text => exact absurd rfl (last text)
  | ended => exact transportClosed n _ _
  | failed | broken => exact (transportClosed n _ _).noticed _

/-- Whether a reader waits for a frame or is with one, it goes on to the next, unless the session is
closed by then or what it waits for breaks down and takes it along. -/
theorem readsOn {limit : Nat}
    (begun : turn.machine.stack = .pulling :: base ∨ turn.Shares base .read limit)
    (spans : turn.Spans base body) :
    turn.ReadsOn base body ∨ turn.machine.Happens (Machine.BreaksAt base) body := by
  induction length : body.length using Nat.strongRecOn generalizing turn body limit with
  | ind length ih =>
    subst length
    have resumed : ∀ {before rest : List Input} {input : Input} {next : Turn} {limit : Nat},
        body = before ++ input :: rest → (turn.machine.after before).step input = next →
        next.Shares base .read limit → next.Spans base rest →
        turn.ReadsOn base body ∨ turn.machine.Happens (Machine.BreaksAt base) body := by
      rintro before rest input next limit rfl taken shares later
      have shorter : rest.length < (before ++ input :: rest).length := by simp; omega
      exact (ih _ shorter (.inr shares) later rfl).imp (.of_later spans taken)
        (Machine.happens_later taken)
    have asks : turn.machine.stack = .pulling :: base →
        turn.ReadsOn base body ∨ turn.machine.Happens (Machine.BreaksAt base) body := by
      intro stack
      obtain ⟨before, input, rest, next, rfl, -, waits, given, taken, later⟩ := spans.goes_on stack
      obtain ⟨pulled, same, rfl⟩ := Machine.pulled?_of_answer given
      by_cases last : ∀ text, pulled ≠ .frame text
      · refine ((Shares.afterPull _ last).concludes rfl later).imp (fun concludes => ?_)
          (Machine.happens_later taken)
        refine ⟨.of_later spans taken concludes, .inr ⟨pulled, ?_, last⟩⟩
        rw [Machine.pulls_append, Machine.pulls, Machine.pulledAt?_of_pulling waits, same]
        simp
      · obtain ⟨text, frame⟩ := Classical.not_forall.1 last
        obtain rfl : pulled = .frame text := Classical.not_not.1 frame
        exact resumed rfl taken (.receive _ text .read) later
    rcases begun with stack | ⟨s, emissions, rfl⟩ | ⟨waiting, stack, shared, few⟩
    · exact asks stack
    · by_cases closed : s.phase = .closed
      · have stops : Machine.conclude ⟨s, base⟩ .read = Machine.give ⟨s, base⟩ .unit :=
          if_pos closed
        rw [stops] at spans ⊢
        obtain rfl := spans.ended rfl
        exact .inl ⟨.of_returned rfl (by simp [Turn.preceded, Machine.give]), .inl closed⟩
      · have goes : Machine.conclude ⟨s, base⟩ .read = Machine.await ⟨s, base⟩ .pulling .pull :=
          if_neg closed
        exact asks (by rw [goes]; rfl)
    · rcases Shares.goes_on shared (Nat.le_succ_of_le few) stack spans with
        ⟨before, input, rest, next, split, taken, shares, later⟩ | broken
      · exact resumed split taken shares later
      · exact .inr broken

end Turn

end DebugLink
