import DebugLink.Proofs.Session.Completion
import DebugLink.Proofs.Session.Table
import DebugLink.Session.Fleet

/-!
# Sessions side by side

In a run of a fleet sessions are opened and their machines take inputs, in any order. The ids that
other sessions draw in between leave gaps in the table of a session, but do not change its order.
-/

set_option autoImplicit false

namespace DebugLink

namespace Fleet

inductive Move where
  | opened (config : Config) (registry : Registry) (transcript : Transcript) (ownSequence : Bool)
  | fed (index : Nat) (input : Input)

def move (fleet : Fleet) : Move → Fleet × List Emission
  | .opened config registry transcript ownSequence =>
    (fleet.add ⟨ownSequence, .initial config registry transcript⟩, [])
  | .fed index input => fleet.step index input

def run (fleet : Fleet) : List Move → Fleet × List Emission
  | [] => (fleet, [])
  | move :: moves =>
    let (next, emitted) := fleet.move move
    let (last, others) := next.run moves
    (last, emitted ++ others)

def after (fleet : Fleet) (moves : List Move) : Fleet :=
  (fleet.run moves).1

def emitted (fleet : Fleet) (moves : List Move) : List Emission :=
  (fleet.run moves).2

theorem after_cons (fleet : Fleet) (move : Move) (moves : List Move) :
    fleet.after (move :: moves) = (fleet.move move).1.after moves := rfl

theorem emitted_cons (fleet : Fleet) (move : Move) (moves : List Move) :
    fleet.emitted (move :: moves) = (fleet.move move).2 ++ (fleet.move move).1.emitted moves := rfl

theorem after_append (fleet : Fleet) (xs ys : List Move) :
    fleet.after (xs ++ ys) = (fleet.after xs).after ys := by
  induction xs generalizing fleet with
  | nil => rfl
  | cons x xs ih => exact ih (fleet.move x).1

theorem emitted_append (fleet : Fleet) (xs ys : List Move) :
    fleet.emitted (xs ++ ys) = fleet.emitted xs ++ (fleet.after xs).emitted ys := by
  induction xs generalizing fleet with
  | nil => rfl
  | cons x xs ih => simp only [List.cons_append, emitted_cons, after_cons, ih, List.append_assoc]

/-- How many ids a run draws, from the shared generator and from those of single sessions. -/
def draws (fleet : Fleet) (moves : List Move) : Nat :=
  (issuedIds (fleet.emitted moves)).length

theorem draws_cons (fleet : Fleet) (move : Move) (moves : List Move) :
    fleet.draws (move :: moves)
      = (issuedIds (fleet.move move).2).length + (fleet.move move).1.draws moves := by
  rw [draws, emitted_cons, issuedIds_append, List.length_append]
  rfl

theorem draws_append (fleet : Fleet) (xs ys : List Move) :
    fleet.draws (xs ++ ys) = fleet.draws xs + (fleet.after xs).draws ys := by
  rw [draws, emitted_append, issuedIds_append, List.length_append]
  rfl

/-! ## What a move keeps -/

def sequenceOf (fleet : Fleet) (member : Member) : Sequence :=
  if member.ownSequence then member.machine.session.sequence else fleet.sequence

structure Keeps (fleet : Fleet) (drawn : Nat) (member : Member) : Prop where
  emptied : member.machine.session.Emptied .nothing member.machine.stack
  inOrder : ∃ own ≤ drawn, (fleet.sequenceOf member).Drawn own ∧ member.machine.session.InOrder own

structure Kept (fleet : Fleet) (drawn : Nat) : Prop where
  sequence : ∃ own ≤ drawn, fleet.sequence.Drawn own
  members : ∀ member ∈ fleet.members, fleet.Keeps drawn member

theorem kept_empty : Fleet.empty.Kept 0 :=
  ⟨⟨0, Nat.le_refl _, rfl⟩, by simp [empty]⟩

def machineOf (fleet : Fleet) (member : Member) : Machine :=
  member.machine.modify ({ · with sequence := fleet.sequenceOf member })

theorem machine?_eq (fleet : Fleet) (index : Nat) :
    fleet.machine? index = fleet.members[index]?.map fleet.machineOf := by
  unfold machine? machineOf sequenceOf
  congr
  funext member
  cases member.ownSequence <;> rfl

theorem step_eq {fleet : Fleet} {index : Nat} {member : Member}
    (found : fleet.members[index]? = some member) (input : Input) :
    fleet.step index input =
      (⟨if member.ownSequence then fleet.sequence
          else ((fleet.machineOf member).step input).machine.session.sequence,
        fleet.members.set index
          { member with machine := ((fleet.machineOf member).step input).machine }⟩,
        ((fleet.machineOf member).step input).emitted) := by
  unfold step
  rw [machine?_eq, found]
  rfl

theorem step_of_none {fleet : Fleet} {index : Nat} (missing : fleet.members[index]? = none)
    (input : Input) : fleet.step index input = (fleet, []) := by
  unfold step
  rw [machine?_eq, missing]

theorem kept_add {fleet : Fleet} {drawn : Nat} (kept : fleet.Kept drawn) (config : Config)
    (registry : Registry) (transcript : Transcript) (ownSequence : Bool) :
    (fleet.add ⟨ownSequence, .initial config registry transcript⟩).Kept drawn := by
  refine ⟨kept.sequence, ?_⟩
  intro member mem
  rcases List.mem_append.1 mem with old | new
  · obtain ⟨emptied, own⟩ := kept.members member old
    exact ⟨emptied, own⟩
  · rw [List.mem_singleton.1 new]
    refine ⟨.initial config registry transcript, ?_⟩
    have fresh : ∀ own, (Machine.initial config registry transcript).session.InOrder own :=
      fun own => ⟨.nil, by simp [Machine.initial, Machine.ofSession, Session.initial]⟩
    cases ownSequence with
    | true => exact ⟨0, Nat.zero_le _, rfl, fresh 0⟩
    | false =>
      obtain ⟨own, bound, count⟩ := kept.sequence
      exact ⟨own, bound, count, fresh own⟩

theorem keeps_machineOf {fleet : Fleet} {drawn : Nat} {member : Member}
    (keeps : fleet.Keeps drawn member) :
    (fleet.machineOf member).session.Emptied .nothing (fleet.machineOf member).stack ∧
      ∃ own ≤ drawn, (fleet.machineOf member).session.sequence.Drawn own ∧
        (fleet.machineOf member).session.InOrder own := by
  obtain ⟨emptied, own, bound, count, inOrder⟩ := keeps
  exact ⟨emptied.keep rfl (List.Subset.refl _) id, own, bound, count,
    inOrder.sublist (List.Sublist.refl _)⟩

theorem sequence_step {fleet : Fleet} {own : Nat} (count : fleet.sequence.Drawn own) (index : Nat)
    (input : Input) :
    ∃ later, own ≤ later ∧ later ≤ own + (issuedIds (fleet.step index input).2).length ∧
      (fleet.step index input).1.sequence.Drawn later := by
  cases found : fleet.members[index]? with
  | none =>
    rw [step_of_none found]
    exact ⟨own, Nat.le_refl _, Nat.le_add_right _ _, count⟩
  | some member =>
    rw [step_eq found]
    cases owns : member.ownSequence with
    | true => exact ⟨own, Nat.le_refl _, Nat.le_add_right _ _, count⟩
    | false =>
      have shares : (fleet.machineOf member).session.sequence = fleet.sequence := by
        simp [machineOf, sequenceOf, owns, Machine.modify]
      exact ⟨_, Nat.le_add_right _ _, Nat.le_refl _, Machine.drawn_step (shares ▸ count) input⟩

/-- What another member draws leaves a table in order. -/
theorem keeps_step {fleet : Fleet} {drawn : Nat} {other : Member} (keeps : fleet.Keeps drawn other)
    (index : Nat) (input : Input) :
    (fleet.step index input).1.Keeps
      (drawn + (issuedIds (fleet.step index input).2).length) other := by
  obtain ⟨emptied, own, bound, count, inOrder⟩ := keeps
  refine ⟨emptied, ?_⟩
  cases owns : other.ownSequence with
  | true =>
    simp only [sequenceOf, owns, if_true] at count ⊢
    exact ⟨own, Nat.le_add_right_of_le bound, count, inOrder⟩
  | false =>
    simp only [sequenceOf, owns, Bool.false_eq_true, if_false] at count ⊢
    obtain ⟨later, from_own, upto, counts⟩ := sequence_step count index input
    exact ⟨later, by omega, counts, inOrder.mono from_own⟩

theorem kept_step {fleet : Fleet} {drawn : Nat} (kept : fleet.Kept drawn) (index : Nat)
    (input : Input) (few : drawn + (issuedIds (fleet.step index input).2).length < 2 ^ 64) :
    (fleet.step index input).1.Kept (drawn + (issuedIds (fleet.step index input).2).length) := by
  refine ⟨?_, ?_⟩
  · obtain ⟨own, bound, count⟩ := kept.sequence
    obtain ⟨later, -, upto, counts⟩ := sequence_step count index input
    exact ⟨later, by omega, counts⟩
  · -- The member that took the step is in the list only as it is afterwards.
    have others := fun other mem => keeps_step (kept.members other mem) index input
    cases found : fleet.members[index]? with
    | none =>
      simp only [step_of_none found] at others ⊢
      exact others
    | some member =>
      simp only [step_eq found] at few others ⊢
      intro other mem
      rcases List.mem_or_eq_of_mem_set mem with old | rfl
      · exact others other old
      · obtain ⟨emptied, own, bound, count, inOrder⟩ :=
          keeps_machineOf (kept.members member (List.mem_of_getElem? found))
        obtain ⟨inOrder', count'⟩ := Machine.inOrder_step inOrder count input (by omega)
        refine ⟨Machine.emptied_step input emptied, _, Nat.add_le_add_right bound _, ?_, inOrder'⟩
        cases owns : member.ownSequence <;> simpa [sequenceOf, owns] using count'

theorem kept_move {fleet : Fleet} {drawn : Nat} (kept : fleet.Kept drawn) (move : Move)
    (few : drawn + (issuedIds (fleet.move move).2).length < 2 ^ 64) :
    (fleet.move move).1.Kept (drawn + (issuedIds (fleet.move move).2).length) := by
  cases move with
  | opened config registry transcript ownSequence =>
    exact kept_add kept config registry transcript ownSequence
  | fed index input => exact kept_step kept index input few

theorem kept_after {fleet : Fleet} {drawn : Nat} (kept : fleet.Kept drawn) (moves : List Move)
    (few : drawn + fleet.draws moves < 2 ^ 64) :
    (fleet.after moves).Kept (drawn + fleet.draws moves) := by
  induction moves generalizing fleet drawn with
  | nil => exact kept
  | cons move moves ih =>
    rw [draws_cons, ← Nat.add_assoc] at few ⊢
    exact ih (kept_move kept move (by omega)) few

/-! ## The phase of one session -/

theorem phase_move {fleet : Fleet} {drawn : Nat} (kept : fleet.Kept drawn) (move : Move)
    {index : Nat} {earlier : Machine} (found : fleet.machine? index = some earlier) :
    ∃ later, (fleet.move move).1.machine? index = some later ∧
      earlier.session.phase.Reaches later.session.phase := by
  rw [machine?_eq, Option.map_eq_some_iff] at found
  obtain ⟨member, at_index, rfl⟩ := found
  have inside : index < fleet.members.length := (List.getElem?_eq_some_iff.1 at_index).1
  simp only [machine?_eq, Option.map_eq_some_iff, exists_exists_and_eq_and]
  cases move with
  | opened config registry transcript ownSequence =>
    refine ⟨member, ?_, .refl⟩
    rw [← at_index]
    exact List.getElem?_append_left inside
  | fed other input =>
    cases found : fleet.members[other]? with
    | none =>
      simp only [Fleet.move, step_of_none found]
      exact ⟨member, at_index, .refl⟩
    | some stepped =>
      simp only [Fleet.move, step_eq found]
      by_cases same : other = index
      · subst same
        rw [at_index] at found
        cases found
        refine ⟨_, List.getElem?_set_self inside, ?_⟩
        exact Machine.phase_step
          (keeps_machineOf (kept.members member (List.mem_of_getElem? at_index))).1 input
      · refine ⟨member, ?_, .refl⟩
        rw [List.getElem?_set_ne same, at_index]

theorem phase_after {fleet : Fleet} {drawn : Nat} (kept : fleet.Kept drawn) (moves : List Move)
    (few : drawn + fleet.draws moves < 2 ^ 64) {index : Nat} {earlier : Machine}
    (found : fleet.machine? index = some earlier) :
    ∃ later, (fleet.after moves).machine? index = some later ∧
      earlier.session.phase.Reaches later.session.phase := by
  induction moves generalizing fleet drawn earlier with
  | nil => exact ⟨earlier, found, .refl⟩
  | cons move moves ih =>
    rw [draws_cons, ← Nat.add_assoc] at few
    obtain ⟨next, present, first⟩ := phase_move kept move found
    obtain ⟨last, final, rest⟩ := ih (kept_move kept move (by omega)) few present
    exact ⟨last, final, first.trans rest⟩

/-! ## The table in all states that can be reached -/

/-- In every state of a run of any number of sessions, in which fewer than 2^64 ids were drawn, a
session has only moved on from connected to closing and to closed; it has no pending calls unless it
is connected; the ids of its table grow and are below the next one; and its status names the oldest
call and counts the others. The next id is no longer above all others once the last of the
2^64 - 1 ids is drawn: it is then 0. -/
theorem tables_stay_in_order {moves : List Move} (few : empty.draws moves < 2 ^ 64) {index : Nat}
    {m : Machine} (found : (empty.after moves).machine? index = some m) :
    (∀ front back, moves = front ++ back → ∀ earlier,
      (empty.after front).machine? index = some earlier →
      earlier.session.phase.Reaches m.session.phase) ∧
    (m.session.phase ≠ .connected → m.session.calls = []) ∧
    m.session.calls.Pairwise (·.id < ·.id) ∧
    ((∀ call ∈ m.session.calls, call.id < m.session.sequence.next) ∨
      (empty.draws moves = 2 ^ 64 - 1 ∧ m.session.sequence.next = 0)) ∧
    ((m.session.calls = [] ∧ m.session.busyStatus = ⟨none, 0⟩) ∨
      ∃ oldest ∈ m.session.calls, (∀ call ∈ m.session.calls, oldest.id ≤ call.id) ∧
        m.session.busyStatus =
          ⟨some oldest.command, (m.session.calls.filter (·.id ≠ oldest.id)).length⟩) := by
  have kept := kept_after kept_empty moves (by simpa using few)
  have present := found
  rw [machine?_eq, Option.map_eq_some_iff] at present
  obtain ⟨member, at_index, rfl⟩ := present
  obtain ⟨emptied, own, bound, count, inOrder⟩ :=
    keeps_machineOf (kept.members member (List.mem_of_getElem? at_index))
  refine ⟨?_, emptied.table, inOrder.increasing, ?_, inOrder.busyStatus⟩
  · rintro front back rfl earlier before
    rw [draws_append] at few
    have prior := kept_after kept_empty front (by omega)
    obtain ⟨later, final, reaches⟩ := phase_after prior back (by omega) before
    rw [← after_append, found] at final
    cases final
    exact reaches
  · -- The bound on the ids leaves one state in which the counter has gone round to 0.
    by_cases last : own + 1 < 2 ^ 64
    · left
      intro call mem
      have least := inOrder.bounded call mem
      rw [UInt64.lt_iff_toNat_lt, count.toNat_next last]
      omega
    · right
      have all : own + 1 = 2 ^ 64 := by omega
      refine ⟨by omega, ?_⟩
      rw [count, all]
      rfl

/-- Two sessions that send by turns; the second is then being closed. -/
def interleaved : List Move :=
  [.opened .default Catalog.registry .off false, .opened .default Catalog.registry .off false,
    .fed 0 (.start (.send ⟨"version", none, none⟩ none)), .fed 0 .accepted,
    .fed 1 (.start (.send ⟨"version", none, none⟩ none)), .fed 1 .accepted,
    .fed 0 (.start (.send ⟨"threads", none, none⟩ none)), .fed 0 .accepted,
    .fed 1 (.start (.close "done"))]

theorem tables_stay_in_order_interleaved :
    empty.draws interleaved = 3 ∧
    ∃ m, (empty.after interleaved).machine? 0 = some m ∧
      m.session.calls.map (·.id) = [1, 3] ∧ m.session.calls.Pairwise (·.id < ·.id) ∧
      m.session.busyStatus = ⟨some "version", 1⟩ ∧
    ∃ closing, (empty.after interleaved).machine? 1 = some closing ∧
      closing.session.phase = .closing ∧ closing.session.calls = [] := by
  have few : empty.draws interleaved < 2 ^ 64 := by decide +kernel
  have first : ((empty.after interleaved).machine? 0).any (fun m =>
      m.session.calls.map (·.id) = [1, 3] ∧ m.session.busyStatus = ⟨some "version", 1⟩) = true := by
    decide +kernel
  have second : ((empty.after interleaved).machine? 1).any (·.session.phase = .closing) = true := by
    decide +kernel
  obtain ⟨m, found, shown⟩ := (Option.any_eq_true _ _).1 first
  obtain ⟨closing, closes, phase⟩ := (Option.any_eq_true _ _).1 second
  obtain ⟨ids, busy⟩ := of_decide_eq_true shown
  have phase := of_decide_eq_true phase
  obtain ⟨-, -, increasing, -⟩ := tables_stay_in_order few found
  obtain ⟨-, emptied, -⟩ := tables_stay_in_order few closes
  exact ⟨by decide +kernel, m, found, ids, increasing, busy, closing, closes, phase,
    emptied (by simp [phase])⟩

end Fleet

end DebugLink
