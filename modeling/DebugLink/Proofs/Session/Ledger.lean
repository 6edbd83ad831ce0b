import Mathlib.Data.List.Perm.Basic
import DebugLink.Proofs.Session.Work

/-!
# The ledger of calls

A call that has been sent and neither completed nor abandoned is held: by the table, by the hand
of the step in progress or by a wait. Every step keeps the books: what is held and what has come
of it add up to what was issued. The same is done for the sends that have not returned yet.
-/

set_option autoImplicit false

namespace DebugLink

namespace Hand

def calls : Hand → List PendingCall
  | .nothing | .sent _ => []
  | .response call .. | .undecodable call _ => [call]
  | .drained _ calls => calls

/-- The id of the send in a hand that has not returned yet. -/
def sends : Hand → List UInt64
  | .sent id => [id]
  | .nothing | .response .. | .undecodable .. | .drained .. => []

end Hand

def copies (id : UInt64) (calls : List PendingCall) : Nat :=
  calls.countP (·.id == id)

@[simp] theorem copies_nil (id : UInt64) : copies id [] = 0 := rfl

@[simp] theorem copies_cons (id : UInt64) (call : PendingCall) (calls : List PendingCall) :
    copies id (call :: calls) = copies id calls + if call.id = id then 1 else 0 := by
  simp [copies, List.countP_cons]

@[simp] theorem copies_append (id : UInt64) (xs ys : List PendingCall) :
    copies id (xs ++ ys) = copies id xs + copies id ys :=
  List.countP_append

theorem copies_pos {id : UInt64} {calls : List PendingCall} :
    0 < copies id calls ↔ ∃ call ∈ calls, call.id = id := by
  simp [copies]

namespace Session

theorem call?_eq_some {session : Session} {id : UInt64} {call : PendingCall}
    (pending : session.call? id = some call) : call ∈ session.calls ∧ call.id = id := by
  unfold call? at pending
  have found := List.find?_some pending
  exact ⟨List.mem_of_find?_eq_some pending, by simpa using found⟩

theorem isPending_iff {session : Session} {id : UInt64} :
    session.isPending id = true ↔ ∃ call ∈ session.calls, call.id = id := by
  simp [isPending, call?]

theorem isPending_iff_copies {session : Session} {id : UInt64} :
    session.isPending id = true ↔ 0 < copies id session.calls := by
  rw [isPending_iff, copies_pos]

theorem perm_removeCall {session : Session} {id : UInt64} {call : PendingCall}
    (pending : session.call? id = some call) :
    session.calls.Perm (call :: (session.removeCall id).calls) := by
  obtain ⟨matching, front, back, split, others⟩ := List.find?_eq_some_iff_append.1 pending
  have removed : (session.removeCall id).calls = front ++ back := by
    unfold removeCall
    rw [split, List.eraseP_append_right]
    · exact congrArg (front ++ ·) (List.eraseP_cons_of_pos matching)
    · intro other mem
      simpa using others other mem
  rw [removed, split]
  exact List.perm_middle

theorem copies_removeCall {session : Session} {id : UInt64} {call : PendingCall}
    (pending : session.call? id = some call) (other : UInt64) :
    copies other session.calls
      = copies other (session.removeCall id).calls + if call.id = other then 1 else 0 := by
  have same := (perm_removeCall pending).countP_eq (·.id == other)
  exact same.trans (copies_cons other call _)

end Session

namespace Machine

def heldCalls (m : Machine) : List PendingCall :=
  m.session.calls ++ m.stack.flatMap (·.hand.calls)

def held (id : UInt64) (m : Machine) : Nat :=
  copies id m.heldCalls

/-- A step withdraws a call: the transport refuses its frame while the call is pending. -/
def Withdraws (id : UInt64) (m : Machine) (input : Input) : Prop :=
  m.session.isPending id = true ∧ (∃ error, input = .refused error) ∧
    ∃ call invalidating rest, m.stack = .transmitting call invalidating :: rest ∧ call.id = id

def sends (id : UInt64) (m : Machine) : Nat :=
  (m.stack.flatMap (·.hand.sends)).count id

end Machine

variable {m : Machine} {input : Input}

/-! ## The books -/

/-- The books of an id from one moment to another: what is held in the end, completed, abandoned
or withdrawn was held in the beginning or issued meanwhile, and a call is withdrawn together with
its send. -/
def Balanced (id : UInt64) (held sends : Nat) (emitted : List Emission) (held' sends' : Nat)
    (cause : Prop) : Prop :=
  ∃ withdrawn : Nat,
    held' + (outcomes id emitted).length + (abandonedIds emitted).count id + withdrawn
      = held + (issuedIds emitted).count id ∧
    sends' + (acceptedIds emitted).count id + withdrawn ≤ sends + (issuedIds emitted).count id ∧
    (withdrawn ≠ 0 → cause)

namespace Balanced

variable {id : UInt64} {held sends held' sends' : Nat} {emitted : List Emission} {cause : Prop}

theorem of_kept (kept : held' + (outcomes id emitted).length + (abandonedIds emitted).count id
      = held + (issuedIds emitted).count id ∧
    sends' + (acceptedIds emitted).count id ≤ sends + (issuedIds emitted).count id) :
    Balanced id held sends emitted held' sends' cause :=
  ⟨0, kept.1, kept.2, fun some => absurd rfl some⟩

theorem imp {other : Prop} (books : Balanced id held sends emitted held' sends' cause)
    (weaken : cause → other) : Balanced id held sends emitted held' sends' other := by
  obtain ⟨withdrawn, calls, sent, because⟩ := books
  exact ⟨withdrawn, calls, sent, fun some => weaken (because some)⟩

/-- What is not touched may be added to the books. -/
theorem frame (books : Balanced id held sends emitted held' sends' cause) (calls sent : Nat) :
    Balanced id (held + calls) (sends + sent) emitted (held' + calls) (sends' + sent) cause := by
  obtain ⟨withdrawn, heldBooks, sendBooks, because⟩ := books
  exact ⟨withdrawn, by omega, by omega, because⟩

theorem append {held'' sends'' : Nat} {more : List Emission} {other : Prop}
    (books : Balanced id held sends emitted held' sends' cause)
    (further : Balanced id held' sends' more held'' sends'' other) :
    Balanced id held sends (emitted ++ more) held'' sends'' (cause ∨ other) := by
  obtain ⟨withdrawn, calls, sent, because⟩ := books
  obtain ⟨others, furtherCalls, furtherSent, otherwise⟩ := further
  unfold Balanced
  rw [outcomes_append, abandonedIds_append, issuedIds_append, acceptedIds_append,
    List.length_append, List.count_append, List.count_append, List.count_append]
  refine ⟨withdrawn + others, by omega, by omega, ?_⟩
  intro some
  by_cases none : withdrawn = 0
  · exact .inr (otherwise (by omega))
  · exact .inl (because none)

end Balanced

/-! ## The books of a step -/

/-- Ids are issued and calls completed only at the end of a step. -/
theorem Work.silent {s t : Session} {hand next : Hand} {es : List Emission}
    (work : Work m input s hand es t next) :
    issuedIds es = [] ∧ acceptedIds es = [] ∧ ∀ id, outcomes id es = [] := by
  cases work <;> exact ⟨rfl, rfl, fun _ => rfl⟩

theorem Work.balance {s t : Session} {hand next : Hand} {es : List Emission}
    (work : Work m input s hand es t next) (id : UInt64) :
    Balanced id (copies id s.calls + copies id hand.calls) (hand.sends.count id) es
      (copies id t.calls + copies id next.calls) (next.sends.count id) (m.Withdraws id input) := by
  obtain ⟨unissued, unaccepted, uncompleted⟩ := work.silent
  unfold Balanced
  rw [unissued, unaccepted, uncompleted id]
  cases work with
  | noticed | transcribed | suspended | resumed | routed | listening | put | reset =>
    exact ⟨0, rfl, Nat.le_refl _, by simp⟩
  | responded received decoded pending =>
    have removed := Session.copies_removeCall pending id
    refine ⟨0, ?_, Nat.le_refl _, by simp⟩
    simp [Hand.calls, abandonedIds, removed]
  | malformed received refused addressed meant pending =>
    have removed := Session.copies_removeCall pending id
    refine ⟨0, ?_, Nat.le_refl _, by simp⟩
    simp [Hand.calls, abandonedIds, removed]
  | withdrawn refused pending waited =>
    rename_i own invalidating rest error
    obtain ⟨call, found⟩ := Option.isSome_iff_exists.1 pending
    have named : call.id = own.id := (Session.call?_eq_some found).2
    have removed := Session.copies_removeCall found id
    refine ⟨if call.id = id then 1 else 0, ?_, ?_, ?_⟩
    · simp [Hand.calls, abandonedIds, removed]
    · simp [Hand.sends, named, List.count_singleton]
    · intro some
      have same : own.id = id := by
        rw [← named]
        by_contra differ
        exact some (if_neg differ)
      exact ⟨same ▸ pending, ⟨error, refused⟩, own, invalidating, rest, waited, same⟩
  | closing reason connected =>
    refine ⟨0, ?_, Nat.le_refl _, by simp⟩
    simp [Hand.calls, abandonedIds]
  | abandoned =>
    refine ⟨0, ?_, Nat.le_refl _, by simp⟩
    simp [Hand.calls, abandonedIds, Emission.abandoned?, List.count_singleton]
  | abandonedMalformed context stale =>
    refine ⟨0, ?_, Nat.le_refl _, by simp⟩
    simp [Hand.calls, abandonedIds, Emission.abandoned?, List.count_singleton]

theorem outcomes_complete (id other : UInt64) (outcome : Except CallFailure Reply) :
    outcomes id [.request (.complete other outcome)] = if other = id then [outcome] else [] := by
  cases outcome <;> by_cases same : other = id <;>
    simp [outcomes, Request.complete, Emission.outcome?, same]

theorem issuedIds_complete (id : UInt64) (outcome : Except CallFailure Reply) :
    issuedIds [.request (.complete id outcome)] = [] := by
  cases outcome <;> rfl

theorem acceptedIds_complete (id : UInt64) (outcome : Except CallFailure Reply) :
    acceptedIds [.request (.complete id outcome)] = [] := by
  cases outcome <;> rfl

theorem abandonedIds_complete (id : UInt64) (outcome : Except CallFailure Reply) :
    abandonedIds [.request (.complete id outcome)] = [] := by
  cases outcome <;> rfl

theorem Ends.balance {s t : Session} {hand : Hand} {es : List Emission} {waiting : Option Waiting}
    (last : Ends m input s hand es t waiting) (id : UInt64) :
    Balanced id (copies id s.calls + copies id hand.calls) (hand.sends.count id) es
      (copies id t.calls + copies id (waiting.toList.flatMap (·.hand.calls)))
      ((waiting.toList.flatMap (·.hand.sends)).count id) False := by
  apply Balanced.of_kept
  cases last with
  | returned result plain =>
    refine ⟨rfl, Nat.le_of_eq ?_⟩
    cases result with
    | call other => exact absurd rfl (plain other)
    | unit | token | failed => rfl
  | accepted other =>
    refine ⟨rfl, Nat.le_of_eq ?_⟩
    simp [acceptedIds, issuedIds, Emission.accepted?, Emission.issued?, Hand.sends,
      List.filterMap_cons]
  | brokenDown | handled | released | pulled => exact ⟨rfl, Nat.le_refl _⟩
  | sendBroken other broken => exact ⟨rfl, Nat.zero_le _⟩
  | responseBroken | malformedBroken =>
    refine ⟨?_, Nat.le_refl _⟩
    simp [Hand.calls, outcomes, abandonedIds, issuedIds, Emission.outcome?, Emission.abandoned?,
      Emission.issued?, List.filterMap_cons, List.count_cons]
  | entered asked sends connected =>
    constructor
    · simp [Session.enter, Session.newCall, Waiting.hand, Hand.calls, outcomes, abandonedIds,
        issuedIds, Emission.outcome?, Emission.abandoned?, Emission.issued?, List.filterMap_cons,
        List.count_cons]
    · simp [Session.newCall, Waiting.hand, Hand.sends, acceptedIds, issuedIds,
        Emission.accepted?, Emission.issued?, List.filterMap_cons]
  | announced waiting listener listens announcement =>
    constructor
    · simp [outcomes, abandonedIds, issuedIds, Emission.outcome?, Emission.abandoned?,
        Emission.issued?, List.filterMap_cons]
    · simp [acceptedIds, issuedIds, Emission.accepted?, Emission.issued?, List.filterMap_cons]
  | completed | failedMalformed =>
    rw [outcomes_complete, abandonedIds_complete, issuedIds_complete, acceptedIds_complete]
    refine ⟨?_, Nat.le_refl _⟩
    split <;> simp_all [Waiting.hand, Hand.calls]
  | drained reason call rest after =>
    rw [outcomes_complete, abandonedIds_complete, issuedIds_complete, acceptedIds_complete]
    refine ⟨?_, Nat.le_refl _⟩
    by_cases same : call.id = id
    · simp [Waiting.hand, Hand.calls, same]
      omega
    · simp [Waiting.hand, Hand.calls, same]

theorem Works.balance {base : List Waiting} {s : Session} {hand : Hand} {turn : Turn}
    (works : Works m input base s hand turn) (id : UInt64) :
    Balanced id
      (copies id s.calls + copies id hand.calls + copies id (base.flatMap (·.hand.calls)))
      (hand.sends.count id + (base.flatMap (·.hand.sends)).count id) turn.emitted
      (turn.machine.held id) (turn.machine.sends id) (m.Withdraws id input) := by
  induction works with
  | ends last =>
    have books := (last.balance id).frame (copies id (base.flatMap (·.hand.calls)))
      ((base.flatMap (·.hand.sends)).count id)
    rw [Machine.held, Machine.heldCalls, Machine.sends, List.flatMap_append, List.flatMap_append,
      copies_append, copies_append, List.count_append, ← Nat.add_assoc]
    exact books.imp False.elim
  | work first rest ih =>
    have books := (first.balance id).frame (copies id (base.flatMap (·.hand.calls)))
      ((base.flatMap (·.hand.sends)).count id)
    exact (books.append ih).imp or_self_iff.1

namespace Machine

theorem heldCalls_eq (m : Machine) (input : Input) :
    m.heldCalls = m.session.calls ++ (m.hand input).calls
      ++ (m.base input).flatMap (·.hand.calls) := by
  cases input with
  | start operation => simp [heldCalls, hand, base, Hand.calls]
  | _ => cases waited : m.stack <;> simp [heldCalls, hand, base, waited, Hand.calls]

theorem held_eq (m : Machine) (input : Input) (id : UInt64) :
    m.held id = copies id m.session.calls + copies id (m.hand input).calls
      + copies id ((m.base input).flatMap (·.hand.calls)) := by
  rw [held, heldCalls_eq m input, copies_append, copies_append]

theorem sends_eq (m : Machine) (input : Input) (id : UInt64) :
    m.sends id
      = (m.hand input).sends.count id + ((m.base input).flatMap (·.hand.sends)).count id := by
  cases input with
  | start operation => exact (Nat.zero_add _).symm
  | _ => cases waited : m.stack <;> simp [sends, hand, base, waited, Hand.sends]

theorem balance_step (m : Machine) (input : Input) (id : UInt64) :
    Balanced id (m.held id) (m.sends id) (m.step input).emitted ((m.step input).machine.held id)
      ((m.step input).machine.sends id) (m.Withdraws id input) := by
  rcases step_works m input with idle | works
  · rw [idle]
    exact .of_kept ⟨rfl, Nat.le_refl _⟩
  · rw [held_eq m input, sends_eq m input]
    exact works.balance id

theorem balance_run (m : Machine) (inputs : List Input) (id : UInt64) :
    Balanced id (m.held id) (m.sends id) (m.emitted inputs) ((m.after inputs).held id)
      ((m.after inputs).sends id) (m.Happens (Withdraws id) inputs) := by
  induction inputs generalizing m with
  | nil => exact .of_kept ⟨rfl, Nat.le_refl _⟩
  | cons input inputs ih =>
    rw [happens_cons]
    exact (balance_step m input id).append (ih (m.step input).machine)

end Machine

end DebugLink
