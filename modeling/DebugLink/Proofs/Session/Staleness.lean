import DebugLink.Proofs.Session.Completion
import DebugLink.Proofs.Session.Episode
import DebugLink.Proofs.Session.Response

/-!
# Responses that come late

A call that is tied to a token is completed by a response that is handled while the token is
current, and by no response that is handled after the token has been dismissed.
-/

set_option autoImplicit false

namespace DebugLink

/-! ## Calls that may still be completed -/

/-- The calls in a hand that are completed whatever is judged from now on. -/
def Hand.live : Hand → List PendingCall
  | .response call _ false => [call]
  | .drained _ calls => calls
  | .nothing | .sent _ | .undecodable .. | .response _ _ true => []

namespace Machine

/-- How many calls of an id are completed unless they are judged to be late from now on. -/
def live (id : UInt64) (m : Machine) : Nat :=
  copies id m.session.calls + copies id (m.stack.flatMap (·.hand.live))

def JudgesTimely (id : UInt64) (m : Machine) (input : Input) : Prop :=
  ∃ call, call.id = id ∧ m.Judges input call ∧ m.session.isStale call = false

end Machine

section Live

variable {m : Machine} {input : Input} {id : UInt64}

theorem Work.live_le {s t : Session} {hand next : Hand} {es : List Emission}
    (work : Work m input s hand es t next) (id : UInt64) :
    copies id t.calls + copies id next.live ≤ copies id s.calls + copies id hand.live := by
  cases work with
  | responded received decoded pending =>
    rename_i raw frame call
    have removed := Session.copies_removeCall pending id
    cases m.session.isStale call <;> simp [Hand.live, removed]
  | malformed received refused addressed meant pending =>
    have removed := Session.copies_removeCall pending id
    simp [Hand.live, removed]
  | withdrawn refused pending =>
    obtain ⟨call, found⟩ := Option.isSome_iff_exists.1 pending
    have removed := Session.copies_removeCall found id
    simp [Hand.live, removed]
  | closing reason connected => simp [Hand.live]
  | abandoned | abandonedMalformed => exact Nat.le_refl _
  | _ => exact Nat.le_refl _

theorem Ends.live_le {s t : Session} {hand : Hand} {es : List Emission} {waiting : Option Waiting}
    (last : Ends m input s hand es t waiting) (late : ¬ m.JudgesTimely id input) :
    copies id t.calls + copies id (waiting.toList.flatMap (·.hand.live)) + (outcomes id es).length
      ≤ copies id s.calls + copies id hand.live + (issuedIds es).count id := by
  cases last with
  | completed call outcome after =>
    rw [outcomes_complete, issuedIds_complete]
    by_cases same : call.id = id <;> simp [Waiting.hand, Hand.live, same]
  | failedMalformed call failure after judged fresh =>
    have other : call.id ≠ id := fun same => late ⟨call, same, judged, fresh⟩
    rw [outcomes_complete, issuedIds_complete, if_neg other]
    simp [Waiting.hand, Hand.live]
  | drained reason call rest after =>
    rw [outcomes_complete, issuedIds_complete]
    by_cases same : call.id = id
    · simp only [Waiting.hand, Hand.live, Option.toList_some, List.flatMap_singleton, copies_cons,
        if_pos same, List.length_singleton]
      omega
    · simp [Waiting.hand, Hand.live, same]
  | entered asked sends connected =>
    simp [Session.enter, Session.newCall, Waiting.hand, Hand.live, outcomes, issuedIds,
      Emission.outcome?, Emission.issued?, List.filterMap_cons, List.count_cons]
  | announced waiting listener listens announcement =>
    simp [outcomes, issuedIds, Emission.outcome?, Emission.issued?, List.filterMap_cons]
  | _ => exact Nat.le_add_right _ _

theorem Works.live_le {base : List Waiting} {s : Session} {hand : Hand} {turn : Turn}
    (works : Works m input base s hand turn) (late : ¬ m.JudgesTimely id input) :
    turn.machine.live id + (outcomes id turn.emitted).length
      ≤ copies id s.calls + copies id hand.live + copies id (base.flatMap (·.hand.live))
        + (issuedIds turn.emitted).count id := by
  induction works with
  | ends last =>
    have balance := last.live_le late
    simp only [Machine.live, List.flatMap_append, copies_append]
    omega
  | work first rest ih =>
    obtain ⟨quiet, -, silent⟩ := first.silent
    have balance := first.live_le id
    simp only [Turn.preceded, outcomes_append, issuedIds_append, quiet, silent, List.nil_append]
    omega

end Live

namespace Machine

theorem live_eq (m : Machine) (input : Input) (id : UInt64) :
    m.live id = copies id m.session.calls + copies id (m.hand input).live
      + copies id ((m.base input).flatMap (·.hand.live)) := by
  cases input with
  | start operation => rfl
  | _ => cases waited : m.stack <;> simp [live, hand, base, waited, Hand.live, Nat.add_assoc]

theorem live_le_step {m : Machine} {input : Input} {id : UInt64}
    (late : ¬ m.JudgesTimely id input) :
    (m.step input).machine.live id + (outcomes id (m.step input).emitted).length
      ≤ m.live id + (issuedIds (m.step input).emitted).count id := by
  rcases step_works m input with idle | works
  · rw [idle]
    exact Nat.le_refl _
  · rw [live_eq m input]
    exact works.live_le late

/-- A call that is not live and whose responses all come late is never completed. -/
theorem live_le_run {m : Machine} {inputs : List Input} {id : UInt64}
    (late : ¬ m.Happens (JudgesTimely id) inputs) :
    (m.after inputs).live id + (outcomes id (m.emitted inputs)).length
      ≤ m.live id + (issuedIds (m.emitted inputs)).count id := by
  induction inputs generalizing m with
  | nil => exact Nat.le_refl _
  | cons input inputs ih =>
    rw [happens_cons, not_or] at late
    have first := live_le_step late.1
    have rest := ih late.2
    rw [after_cons, emitted_cons, outcomes_append, issuedIds_append, List.length_append,
      List.count_append]
    omega

/-! ## The calls that are answered -/

theorem Takes.copies_eq {m : Machine} {raw : Json} {call : PendingCall} {s : Session} {hand : Hand}
    (takes : m.Takes raw call s hand) (pending : m.session.call? call.id = some call) :
    copies call.id m.session.calls = copies call.id s.calls + 1 ∧ hand.calls = [call] := by
  have removed := Session.copies_removeCall pending call.id
  rw [if_pos rfl] at removed
  cases takes with
  | response decoded named =>
    rw [absorb_calls]
    exact ⟨removed, rfl⟩
  | undecodable refused addressed meant => exact ⟨removed, rfl⟩

theorem extends_run {m : Machine} (extending : m.session.binder.registry.Extends)
    (inputs : List Input) : (m.after inputs).session.binder.registry.Extends := by
  rw [(sameSetup_run m inputs).binder]
  exact extending

theorem copies_of_answers {m : Machine} {before : List Input} {input : Input} {raw : Json}
    {call : PendingCall} (fresh : m.heldCalls = [])
    (extending : m.session.binder.registry.Extends)
    (few : (issuedIds (m.emitted before)).length < 2 ^ 64)
    (answers : (m.after before).Answers input raw call) :
    copies call.id ((m.after before).step input).machine.session.calls = 0 := by
  obtain ⟨s, hand, takes, after_eq, -⟩ := takes_of_answers (extends_run extending before) answers
  have moved := (takes.copies_eq answers.pending).1
  have once := held_le_one fresh few call.id
  rw [held, heldCalls, copies_append] at once
  rw [after_eq]
  omega

theorem issued_of_pending {m : Machine} {before : List Input} {call : PendingCall}
    (fresh : m.heldCalls = []) (pending : (m.after before).session.call? call.id = some call) :
    call.id ∈ issuedIds (m.emitted before) :=
  mem_issuedIds_of_held fresh
    (List.mem_append_left _ (Session.call?_eq_some pending).1)

theorem not_pending_of_answers {m : Machine} {before rest : List Input} {input : Input}
    {raw : Json} {call : PendingCall} (fresh : m.heldCalls = [])
    (extending : m.session.binder.registry.Extends)
    (few : (issuedIds (m.emitted (before ++ input :: rest))).length < 2 ^ 64)
    (answers : (m.after before).Answers input raw call) :
    (m.after (before ++ input :: rest)).session.isPending call.id = false := by
  have taken := copies_of_answers fresh extending (few_front few) answers
  have undrawn := not_issued_again few (issued_of_pending fresh answers.pending)
  rw [emitted_cons, issuedIds_append, List.mem_append, not_or] at undrawn
  rw [← Bool.not_eq_true]
  intro pending
  rw [after_append, after_cons] at pending
  have now := isPending_of_run undrawn.2 pending
  rw [Session.isPending_iff_copies] at now
  omega

theorem answered_once {m : Machine} {before before' rest rest' : List Input} {input input' : Input}
    {raw raw' : Json} {call call' : PendingCall} (fresh : m.heldCalls = [])
    (extending : m.session.binder.registry.Extends)
    (few : (issuedIds (m.emitted (before ++ input :: rest))).length < 2 ^ 64)
    (split : before ++ input :: rest = before' ++ input' :: rest')
    (answers : (m.after before).Answers input raw call)
    (answers' : (m.after before').Answers input' raw' call') (same : call'.id = call.id) :
    before = before' := by
  have pending : (m.after before).session.isPending call.id = true :=
    Option.isSome_iff_exists.2 ⟨call, answers.pending⟩
  have pending' : (m.after before').session.isPending call.id = true :=
    Option.isSome_iff_exists.2 ⟨call', same ▸ answers'.pending⟩
  rcases List.append_eq_append_iff.1 split with ⟨late, rfl, tail⟩ | ⟨late, rfl, tail⟩
  · cases late with
    | nil => exact (List.append_nil before).symm
    | cons first late =>
      obtain ⟨rfl, -⟩ := List.cons.inj tail
      rw [split] at few
      rw [not_pending_of_answers fresh extending (few_front few) answers] at pending'
      cases pending'
  · cases late with
    | nil => exact List.append_nil before'
    | cons first late =>
      obtain ⟨rfl, -⟩ := List.cons.inj tail
      have gone := not_pending_of_answers fresh extending (few_front few) answers'
      rw [same] at gone
      rw [gone] at pending
      cases pending

/-! ## Late responses -/

theorem current_of_sends {m : Machine} {input : Input} {command : Command} {token : ContextToken}
    {id : UInt64} (sent : m.Sends input command (some token) id) :
    m.session.context.isCurrent token = true := by
  obtain ⟨operation, invalidating, rfl, sends⟩ := sent.asked
  cases operation with
  | send other stamp =>
    cases sends
    by_contra past
    have issued := sent.issued
    simp only [step, start, send, if_neg past] at issued
    cases issued
  | sendAndInvalidate other stamp => cases sends
  | _ => cases sends

theorem held_of_judges {m : Machine} {input : Input} {call : PendingCall}
    (judges : m.Judges input call) : call ∈ m.heldCalls := by
  cases judges with
  | onReceipt answers =>
    exact List.mem_append_left _ (Session.call?_eq_some answers.pending).1
  | onceTold waited =>
    apply List.mem_append_right
    rw [waited, List.flatMap_cons]
    exact List.mem_append_left _ (List.mem_singleton.2 rfl)

theorem copies_live_le (id : UInt64) (stack : List Waiting) :
    copies id (stack.flatMap (·.hand.live)) ≤ copies id (stack.flatMap (·.hand.calls)) := by
  induction stack with
  | nil => exact Nat.le_refl _
  | cons waiting stack ih =>
    have one : copies id waiting.hand.live ≤ copies id waiting.hand.calls := by
      cases waiting.hand with
      | response call outcome stale => cases stale <;> simp [Hand.live, Hand.calls]
      | _ => simp [Hand.live, Hand.calls]
    simp only [List.flatMap_cons, copies_append]
    omega

theorem live_of_late_answer {m : Machine} {input : Input} {raw : Json} {call : PendingCall}
    (extending : m.session.binder.registry.Extends) (answers : m.Answers input raw call)
    (once : m.held call.id ≤ 1) (late : ¬ m.JudgesTimely call.id input) :
    (m.step input).machine.live call.id + (outcomes call.id (m.step input).emitted).length
      ≤ (issuedIds (m.step input).emitted).count call.id := by
  obtain ⟨s, hand, takes, -, works⟩ := takes_of_answers extending answers
  have stale : m.session.isStale call = true := by
    by_contra fresh
    exact late ⟨call, rfl, .onReceipt answers, by simpa using fresh⟩
  have nothing : hand.live = [] := by
    cases takes with
    | response decoded named => rw [stale]; rfl
    | undecodable refused addressed meant => rfl
  have moved := (takes.copies_eq answers.pending).1
  have below := copies_live_le call.id (m.base input)
  have balance := works.live_le late
  rw [held_eq m input] at once
  rw [nothing, copies_nil] at balance
  omega

theorem outcomes_of_late_answer {m : Machine} {before mid rest : List Input} {send answer : Input}
    {command : Command} {token : ContextToken} {raw : Json} {call : PendingCall}
    (fresh : m.heldCalls = []) (unused : m.session.context.current = none)
    (extending : m.session.binder.registry.Extends)
    (few : (issuedIds (m.emitted (before ++ send :: (mid ++ answer :: rest)))).length < 2 ^ 64)
    (room : m.HasRoom (before ++ send :: (mid ++ answer :: rest)))
    (sent : (m.after before).Sends send command (some token) call.id)
    (answers : (m.after (before ++ send :: mid)).Answers answer raw call)
    (past : (m.after (before ++ send :: mid)).session.context.isCurrent token = false) :
    outcomes call.id (m.emitted (before ++ send :: (mid ++ answer :: rest))) = [] := by
  have whole : before ++ send :: (mid ++ answer :: rest)
      = (before ++ send :: mid) ++ answer :: rest := by simp
  have late : ¬ (m.after (before ++ send :: mid)).Happens (JudgesTimely call.id)
      (answer :: rest) := by
    rintro ⟨early, input, others, split, other, named, judges, timely⟩
    rw [← after_append] at judges timely
    have split' : before ++ send :: (mid ++ answer :: rest)
        = (before ++ send :: mid ++ early) ++ input :: others := by
      rw [whole, split]
      simp
    have known := eq_newCall_of_held_anywhere fresh few sent split' (held_of_judges judges) named
    have stamped : other.token = some token := by
      rw [known]
      rfl
    rw [split'] at room
    have dismissed := dismissed_for_good unused room.front (current_of_sends sent) past
    rw [Session.isStale_iff.2 ⟨token, stamped, dismissed⟩] at timely
    cases timely
  rw [happens_cons, not_or] at late
  rw [whole] at few ⊢
  have once := held_le_one fresh (few_front few) call.id
  have pending : 0 < (m.after (before ++ send :: mid)).held call.id := by
    rw [held, copies_pos]
    exact ⟨call, List.mem_append_left _ (Session.call?_eq_some answers.pending).1, rfl⟩
  have undrawn := not_issued_again few (issued_of_pending fresh answers.pending)
  have none := List.count_eq_zero.2 undrawn
  rw [emitted_cons, issuedIds_append, List.count_append] at none
  have step := live_of_late_answer (extends_run extending _) answers (by omega) late.1
  have after := live_le_run late.2
  apply List.eq_nil_of_length_eq_zero
  rw [emitted_append, emitted_cons, outcomes_append, outcomes_append, List.length_append,
    List.length_append]
  omega

/-- A late response leaves the handles as they are, unless it lets the program run on. -/
theorem handles_of_late_answer {m : Machine} {input : Input} {raw : Json} {call : PendingCall}
    (extending : m.session.binder.registry.Extends) (answers : m.Answers input raw call)
    (stale : m.session.isStale call = true) :
    (m.step input).machine.session.handles = m.session.handles ∨
      (m.step input).machine.session.handles = .empty := by
  obtain ⟨s, hand, takes, after_eq, -⟩ := takes_of_answers extending answers
  rw [after_eq]
  cases takes with
  | response decoded named =>
    rw [stale, absorb]
    simp only [if_true]
    split
    · exact .inr rfl
    · exact .inl rfl
  | undecodable refused addressed meant => exact .inl rfl

/-! ## Timely responses -/

/-- The listener has been told of a response that cannot be decoded, and by now the token of its
call is not current. -/
def ToldLate (call : PendingCall) (m : Machine) (input : Input) : Prop :=
  input = .done ∧ m.session.isStale call = true ∧
    ∃ failure after rest, m.stack = .announcedMalformed call failure after :: rest

/-- A call that is out of the table waits to be completed. -/
def Withholds (id : UInt64) (m : Machine) : Prop :=
  ∃ waiting ∈ m.stack, ∃ call ∈ waiting.hand.calls, call.id = id

theorem copies_of_not_withholds {m : Machine} {id : UInt64} (free : ¬ m.Withholds id) :
    copies id (m.stack.flatMap (·.hand.calls)) = 0 := by
  by_contra some
  obtain ⟨call, mem, named⟩ := copies_pos.1 (Nat.pos_of_ne_zero some)
  obtain ⟨waiting, listed, held⟩ := List.mem_flatMap.1 mem
  exact free ⟨waiting, listed, call, held, named⟩

/-- From its answer on, a call is completed or abandoned once it is not held any more. -/
theorem settled_of_answers {m : Machine} {before rest : List Input} {answer : Input} {raw : Json}
    {call : PendingCall} (fresh : m.heldCalls = [])
    (extending : m.session.binder.registry.Extends)
    (few : (issuedIds (m.emitted (before ++ answer :: rest))).length < 2 ^ 64)
    (answers : (m.after before).Answers answer raw call) :
    (m.after (before ++ answer :: rest)).held call.id
      + (outcomes call.id (m.emitted (before ++ answer :: rest))).length
      + (abandonedIds (m.emitted (before ++ answer :: rest))).count call.id = 1 := by
  obtain ⟨earlier, books, -, -⟩ := balance_run m before call.id
  obtain ⟨now, stepBooks, -, refusing⟩ := balance_step (m.after before) answer call.id
  obtain ⟨later, restBooks, -, withdrawing⟩ :=
    balance_run ((m.after before).step answer).machine rest call.id
  -- The step that takes in a response is no refusal, so it withdraws nothing.
  have unrefused : now = 0 := by
    by_contra some
    obtain ⟨-, ⟨error, rfl⟩, -⟩ := refusing some
    cases answers.receives.text
  -- Neither does any later one, as only a pending call can be withdrawn.
  have unwithdrawn : later = 0 := by
    by_contra some
    obtain ⟨early, input, others, rfl, pending, -⟩ := withdrawing some
    have split : before ++ answer :: (early ++ input :: others)
        = (before ++ answer :: early) ++ input :: others := by simp
    rw [split] at few
    have gone := not_pending_of_answers fresh extending (few_front few) answers
    rw [after_append, after_cons] at gone
    rw [gone] at pending
    cases pending
  have drawn := issued_of_pending fresh answers.pending
  have counted := List.count_pos_iff.2 drawn
  have once := count_issuedIds_le_one few call.id
  have none : m.held call.id = 0 := by rw [held, fresh, copies_nil]
  have pending : 0 < (m.after before).held call.id := by
    rw [held, copies_pos]
    exact ⟨call, List.mem_append_left _ (Session.call?_eq_some answers.pending).1, rfl⟩
  rw [emitted_append, emitted_cons, issuedIds_append, issuedIds_append, List.count_append,
    List.count_append] at once
  rw [after_append, after_cons, emitted_append, emitted_cons, outcomes_append, outcomes_append,
    abandonedIds_append, abandonedIds_append, List.length_append, List.length_append,
    List.count_append, List.count_append]
  omega

theorem completed_of_timely_answer {m : Machine} {before mid rest : List Input}
    {send answer : Input} {command : Command} {token : Option ContextToken} {raw : Json}
    {call : PendingCall} (rested : m.stack = []) (fresh : m.heldCalls = [])
    (extending : m.session.binder.registry.Extends)
    (few : (issuedIds (m.emitted (before ++ send :: (mid ++ answer :: rest)))).length < 2 ^ 64)
    (sent : (m.after before).Sends send command token call.id)
    (answers : (m.after (before ++ send :: mid)).Answers answer raw call)
    (timely : (m.after (before ++ send :: mid)).session.isStale call = false)
    (kept : ¬ m.Happens (ToldLate call) (before ++ send :: (mid ++ answer :: rest)))
    (sound : ¬ m.Happens (BreaksTelling call.id) (before ++ send :: (mid ++ answer :: rest)))
    (free : ¬ (m.after (before ++ send :: (mid ++ answer :: rest))).Withholds call.id) :
    (outcomes call.id (m.emitted (before ++ send :: (mid ++ answer :: rest)))).length = 1 := by
  have whole : before ++ send :: (mid ++ answer :: rest)
      = (before ++ send :: mid) ++ answer :: rest := by simp
  have entered := eq_newCall_of_held_anywhere fresh few sent whole
    (List.mem_append_left _ (Session.call?_eq_some answers.pending).1) rfl
  have kept_in_time :
      call.id ∉ abandonedIds (m.emitted (before ++ send :: (mid ++ answer :: rest))) := by
    intro dropped
    obtain ⟨early, input, others, other, stamp, split, named, stamped, judges, -, past⟩ :=
      ((traced_run rested _).2 call.id dropped).resolve_right sound
    have known := eq_newCall_of_held_anywhere fresh few sent split (held_of_judges judges) named
    obtain rfl : other = call := known.trans entered.symm
    have stale := Session.isStale_iff.2 ⟨stamp, stamped, past⟩
    -- On receipt it was judged in time, and it is received only once.
    cases judges with
    | onReceipt again =>
      rw [whole] at split few
      rw [← answered_once fresh extending few split answers again rfl, timely] at stale
      cases stale
    | onceTold waited => exact kept ⟨early, .done, others, split, rfl, stale, _, _, _, waited⟩
  have settled := settled_of_answers fresh extending (whole ▸ few) answers
  have gone := not_pending_of_answers fresh extending (whole ▸ few) answers
  rw [← whole] at settled gone
  have table : copies call.id
      (m.after (before ++ send :: (mid ++ answer :: rest))).session.calls = 0 := by
    by_contra some
    rw [Session.isPending_iff_copies.2 (Nat.pos_of_ne_zero some)] at gone
    cases gone
  have stack := copies_of_not_withholds free
  rw [held, heldCalls, copies_append, List.count_eq_zero.2 kept_in_time] at settled
  omega

/-- A call without a token is abandoned only when the listener breaks down on its response. -/
theorem breaksTelling_of_abandoned {m : Machine} {before rest : List Input} {send : Input}
    {command : Command} {id : UInt64} (rested : m.stack = []) (fresh : m.heldCalls = [])
    (few : (issuedIds (m.emitted (before ++ send :: rest))).length < 2 ^ 64)
    (sent : (m.after before).Sends send command none id)
    (dropped : id ∈ abandonedIds (m.emitted (before ++ send :: rest))) :
    m.Happens (BreaksTelling id) (before ++ send :: rest) := by
  refine ((traced_run rested _).2 id dropped).resolve_left ?_
  rintro ⟨early, input, others, other, stamp, split, named, stamped, judges, -, past⟩
  have known := eq_newCall_of_held_anywhere fresh few sent split (held_of_judges judges) named
  rw [known] at stamped
  cases stamped

/-! ## Over whole runs -/

/-- A token that has been dismissed stays so. A response that is handled after the token of its
call was dismissed takes the call away and leaves no other trace; one that is handled before
completes the call, as does every response to a call without a token, unless the listener breaks
down when it is told of that very response. -/
theorem answers_follow_episodes {config : Config} {extra : List Schema} {registry : Registry}
    {transcript : Transcript} {m : Machine} (inputs : List Input)
    (began : m = initial config registry transcript)
    (built : (Catalog.draft.registerAll extra).1.build = .ok registry)
    (few : (issuedIds (m.emitted inputs)).length < 2 ^ 64)
    (episodes : (mintedTokens (m.emitted inputs)).length < 2 ^ 64) :
    (∀ xs ys zs token, inputs = xs ++ ys ++ zs →
      (m.after xs).session.context.isCurrent token = true →
      (m.after (xs ++ ys)).session.context.isCurrent token = false →
      (m.after inputs).session.context.isCurrent token = false) ∧
    (∀ before send mid answer rest command token raw call,
      inputs = before ++ send :: (mid ++ answer :: rest) →
      (m.after before).Sends send command (some token) call.id →
      (m.after (before ++ send :: mid)).Answers answer raw call →
      (m.after (before ++ send :: mid)).session.context.isCurrent token = false →
      (m.after inputs).session.isPending call.id = false ∧
      outcomes call.id (m.emitted inputs) = [] ∧
      ((m.after (before ++ send :: (mid ++ [answer]))).session.handles
          = (m.after (before ++ send :: mid)).session.handles ∨
        (m.after (before ++ send :: (mid ++ [answer]))).session.handles = .empty)) ∧
    (∀ before send mid answer rest command token raw call,
      inputs = before ++ send :: (mid ++ answer :: rest) →
      (m.after before).Sends send command token call.id →
      (m.after (before ++ send :: mid)).Answers answer raw call →
      (∀ stamp, token = some stamp →
        (m.after (before ++ send :: mid)).session.context.isCurrent stamp = true) →
      ¬ m.Happens (ToldLate call) inputs →
      ¬ m.Happens (BreaksTelling call.id) inputs →
      ¬ (m.after inputs).Withholds call.id →
      (outcomes call.id (m.emitted inputs)).length = 1) ∧
    (∀ before send rest command id, inputs = before ++ send :: rest →
      (m.after before).Sends send command none id →
      id ∈ abandonedIds (m.emitted inputs) →
      m.Happens (BreaksTelling id) inputs) := by
  have fresh : m.heldCalls = [] := by rw [began, heldCalls_initial]
  have rested : m.stack = [] := by
    rw [began]
    rfl
  have unused : m.session.context = .initial := by
    rw [began]
    rfl
  have extending : m.session.binder.registry.Extends := by
    rw [began]
    exact Registry.extends_of_build built
  have room : m.HasRoom inputs := by
    unfold HasRoom
    rw [unused]
    exact (Nat.zero_add _).symm ▸ episodes
  refine ⟨?_, ?_, ?_, ?_⟩
  · rintro xs ys zs token rfl was past
    exact dismissed_for_good (by rw [unused]; rfl) room was past
  · rintro before send mid answer rest command token raw call rfl sent answers past
    have whole : before ++ send :: (mid ++ answer :: rest)
        = (before ++ send :: mid) ++ answer :: rest := by simp
    have entered := eq_newCall_of_held_anywhere fresh few sent whole
      (List.mem_append_left _ (Session.call?_eq_some answers.pending).1) rfl
    have stamped : call.token = some token := by
      rw [entered]
      rfl
    refine ⟨?_, ?_, ?_⟩
    · rw [whole] at few ⊢
      exact not_pending_of_answers fresh extending few answers
    · exact outcomes_of_late_answer fresh (by rw [unused]; rfl) extending few room sent answers past
    · have after_eq : before ++ send :: (mid ++ [answer]) = (before ++ send :: mid) ++ [answer] := by
        simp
      rw [after_eq, after_concat]
      exact handles_of_late_answer (extends_run extending _) answers
        (Session.isStale_iff.2 ⟨token, stamped, past⟩)
  · rintro before send mid answer rest command token raw call rfl sent answers current kept sound
      free
    have whole : before ++ send :: (mid ++ answer :: rest)
        = (before ++ send :: mid) ++ answer :: rest := by simp
    have entered := eq_newCall_of_held_anywhere fresh few sent whole
      (List.mem_append_left _ (Session.call?_eq_some answers.pending).1) rfl
    have stamped : call.token = token := by
      rw [entered]
      rfl
    have timely : (m.after (before ++ send :: mid)).session.isStale call = false := by
      rw [← Bool.not_eq_true, Session.isStale_iff]
      rintro ⟨stamp, own, past⟩
      rw [current stamp (stamped.symm.trans own)] at past
      cases past
    exact completed_of_timely_answer rested fresh extending few sent answers timely kept sound free
  · rintro before send rest command id rfl sent dropped
    exact breaksTelling_of_abandoned rested fresh few sent dropped

def inspector : Machine :=
  initial { Config.default with dialect := .wip } Catalog.registry .off

def evaluate : Command := ⟨"Runtime.evaluate", none, none⟩

def episodesRun : List Input :=
  [.start .suspend, .start (.send evaluate (some ⟨1⟩)), .accepted, .start .resume,
    .start (.receive "\x7b\"id\":1\x7d"), .start .suspend,
    .start (.send evaluate (some ⟨2⟩)), .accepted, .start (.receive "\x7b\"id\":2\x7d"), .done]

theorem answers_follow_episodes_twice :
    outcomes 1 (inspector.emitted episodesRun) = [] ∧
    (outcomes 2 (inspector.emitted episodesRun)).length = 1 := by
  have began : inspector = initial { Config.default with dialect := .wip } Catalog.registry .off :=
    rfl
  have built : (Catalog.draft.registerAll []).1.build = .ok Catalog.registry := by rfl
  have few : (issuedIds (inspector.emitted episodesRun)).length < 2 ^ 64 := by decide +kernel
  have episodes : (mintedTokens (inspector.emitted episodesRun)).length < 2 ^ 64 := by
    decide +kernel
  have rules := answers_follow_episodes episodesRun began built few episodes
  constructor
  · have sent : (inspector.after (episodesRun.take 1)).Sends
        (.start (.send evaluate (some ⟨1⟩))) evaluate (some ⟨1⟩) 1 :=
      ⟨⟨_, false, rfl, rfl⟩, by decide +kernel⟩
    have answers : (inspector.after (episodesRun.take 1
        ++ .start (.send evaluate (some ⟨1⟩)) :: [.accepted, .start .resume])).Answers
          (.start (.receive "\x7b\"id\":1\x7d")) (.object [("id", .ofUInt64 1)])
          ⟨1, "Runtime.evaluate", none, some ⟨1⟩⟩ :=
      ⟨⟨rfl, by decide +kernel⟩, by decide +kernel, by decide +kernel⟩
    have past : (inspector.after (episodesRun.take 1
        ++ .start (.send evaluate (some ⟨1⟩)) :: [.accepted, .start .resume])).session.context.isCurrent
          ⟨1⟩ = false := by decide +kernel
    exact (rules.2.1 (episodesRun.take 1) (.start (.send evaluate (some ⟨1⟩)))
      [.accepted, .start .resume] (.start (.receive "\x7b\"id\":1\x7d")) (episodesRun.drop 5)
      evaluate ⟨1⟩ (.object [("id", .ofUInt64 1)]) ⟨1, "Runtime.evaluate", none, some ⟨1⟩⟩ rfl
      sent answers past).2.1
  · have sent : (inspector.after (episodesRun.take 6)).Sends
        (.start (.send evaluate (some ⟨2⟩))) evaluate (some ⟨2⟩) 2 :=
      ⟨⟨_, false, rfl, rfl⟩, by decide +kernel⟩
    have answers : (inspector.after (episodesRun.take 6
        ++ .start (.send evaluate (some ⟨2⟩)) :: [.accepted])).Answers
          (.start (.receive "\x7b\"id\":2\x7d")) (.object [("id", .ofUInt64 2)])
          ⟨2, "Runtime.evaluate", none, some ⟨2⟩⟩ :=
      ⟨⟨rfl, by decide +kernel⟩, by decide +kernel, by decide +kernel⟩
    have current : ∀ stamp, some ⟨2⟩ = some stamp → (inspector.after (episodesRun.take 6
        ++ .start (.send evaluate (some ⟨2⟩)) :: [.accepted])).session.context.isCurrent
          stamp = true := by
      rintro stamp same
      cases same
      decide +kernel
    have told : ¬ inspector.Happens (ToldLate ⟨2, "Runtime.evaluate", none, some ⟨2⟩⟩)
        episodesRun := by
      rintro ⟨before, input, rest, split, rfl, -, failure, after, others, stack⟩
      obtain ⟨place, -⟩ : before = episodesRun.take 9 ∧ rest = [] := by
        simpa [episodesRun, List.cons_eq_append_iff] using split
      have quiet : (inspector.after (episodesRun.take 9)).stack.any (·.isAnnouncement) = false := by
        decide +kernel
      rw [← place, stack] at quiet
      cases quiet
    have sound : ¬ inspector.Happens (BreaksTelling 2) episodesRun := by
      intro broken
      simpa [episodesRun] using broken.mem fun _ _ broken => broken.1
    have resting : (inspector.after episodesRun).isResting = true := by decide +kernel
    have free : ¬ (inspector.after episodesRun).Withholds 2 := by
      rintro ⟨waiting, listed, -⟩
      rw [List.isEmpty_iff.1 resting] at listed
      cases listed
    exact rules.2.2.1 (episodesRun.take 6) (.start (.send evaluate (some ⟨2⟩)))
      [.accepted] (.start (.receive "\x7b\"id\":2\x7d")) [.done]
      evaluate (some ⟨2⟩) (.object [("id", .ofUInt64 2)])
      ⟨2, "Runtime.evaluate", none, some ⟨2⟩⟩ rfl sent answers current told sound free

def bareResponse : Json := .object [("request_seq", .ofUInt64 1), ("type", .string "response")]

/-- Without the schemas of the frames, a late response leaves its call where it is. When the
listener breaks down on being told of a timely one, no callback of its call runs. -/
theorem answers_lost_without_envelope_or_listener :
    (∃ (registry : Registry) (inputs : List Input) (text : String) (call : PendingCall)
      (token : ContextToken), Registry.Draft.empty.build = .ok registry ∧
      ((initial .default registry .off).after inputs).Answers (.start (.receive text)) bareResponse
        call ∧
      call.token = some token ∧
      ((initial .default registry .off).after inputs).session.context.isCurrent token = false ∧
      ((initial .default registry .off).after
        (inputs ++ [.start (.receive text)])).session.isPending call.id = true) ∧
    (∃ (inputs : List Input) (text : String) (call : PendingCall) (token : ContextToken),
      ((initial .default Catalog.registry .off).after inputs).Answers (.start (.receive text))
        bareResponse call ∧
      call.token = some token ∧
      ((initial .default Catalog.registry .off).after
        (inputs ++ [.start (.receive text), .crashed])).session.context.isCurrent token = true ∧
      ((initial .default Catalog.registry .off).after
        (inputs ++ [.start (.receive text), .crashed])).isResting = true ∧
      outcomes call.id ((initial .default Catalog.registry .off).emitted
        (inputs ++ [.start (.receive text), .crashed])) = []) := by
  constructor
  · refine ⟨⟨[Registry.openRecord]⟩,
      [.start .suspend, .start (.send evaluate (some ⟨1⟩)), .accepted, .start .resume],
      "\x7b\"request_seq\":1,\"type\":\"response\"\x7d",
      ⟨1, "Runtime.evaluate", none, some ⟨1⟩⟩, ⟨1⟩, rfl, ⟨⟨rfl, ?_⟩, ?_, ?_⟩, rfl, ?_, ?_⟩ <;>
      decide +kernel
  · refine ⟨[.start (.listen 0), .start .suspend, .start (.send evaluate (some ⟨1⟩)), .accepted,
        .done],
      "\x7b\"request_seq\":1,\"type\":\"response\"\x7d",
      ⟨1, "Runtime.evaluate", none, some ⟨1⟩⟩, ⟨1⟩, ⟨⟨rfl, ?_⟩, ?_, ?_⟩, rfl, ?_, ?_, ?_⟩
    · decide +kernel
    · decide +kernel
    · decide +kernel
    · decide +kernel
    · decide +kernel
    · rfl

end Machine

end DebugLink
