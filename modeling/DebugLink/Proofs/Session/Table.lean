import Mathlib.Logic.Relation
import DebugLink.Proofs.Session.Closing

/-!
# The table of pending calls

A call is entered at the end of the table under the id just drawn, and calls are only ever taken out
otherwise. So the table is in the order of the ids, and its first call is the oldest.
-/

set_option autoImplicit false

namespace DebugLink

/-! ## Phases -/

inductive Phase.Next : Phase → Phase → Prop where
  | close : Next .connected .closing
  | finish : Next .closing .closed

def Phase.Reaches : Phase → Phase → Prop :=
  Relation.ReflTransGen Phase.Next

variable {m : Machine} {input : Input} {base : List Waiting}

theorem Work.phase {s t : Session} {hand next : Hand} {es : List Emission}
    (work : Work m input s hand es t next) : s.phase.Reaches t.phase := by
  cases work with
  | responded received decoded pending =>
    rename_i frame call
    obtain ⟨context, handles, absorbed, -⟩ := Machine.absorb_eq
      (m.session.removeCall frame.id) frame (m.session.isStale call)
    rw [absorbed]
    exact .refl
  | closing reason connected =>
    rw [connected]
    exact .single .close
  | _ => exact .refl

theorem Ends.phase {s t : Session} {hand : Hand} {es : List Emission} {waiting : Option Waiting}
    (last : Ends m input s hand es t waiting) (emptied : s.Emptied hand base) :
    s.phase.Reaches t.phase := by
  cases last with
  | released reason after =>
    have past := emptied.hand rfl
    change s.phase.Reaches .closed
    cases phase : s.phase with
    | connected => exact absurd phase past
    | closing => exact .single .finish
    | closed => exact .refl
  | _ => exact .refl

theorem Works.phase {s : Session} {hand : Hand} {turn : Turn}
    (works : Works m input base s hand turn) (emptied : s.Emptied hand base) :
    s.phase.Reaches turn.machine.session.phase := by
  induction works with
  | ends last => exact last.phase emptied
  | work first rest ih => exact first.phase.trans (ih (first.emptied emptied))

theorem Machine.phase_step (emptied : m.session.Emptied .nothing m.stack) (input : Input) :
    m.session.phase.Reaches (m.step input).machine.session.phase := by
  rcases step_works m input with idle | works
  · rw [idle]
    exact .refl
  · exact works.phase (begins_emptied input emptied)

theorem Machine.phase_run {m : Machine} (emptied : m.session.Emptied .nothing m.stack)
    (inputs : List Input) : m.session.phase.Reaches (m.after inputs).session.phase := by
  induction inputs generalizing m with
  | nil => exact .refl
  | cons input inputs ih => exact (phase_step emptied input).trans (ih (emptied_step input emptied))

theorem Phase.Reaches.ne_connected {before after : Phase} (reaches : before.Reaches after)
    (past : before ≠ .connected) : after ≠ .connected := by
  induction reaches with
  | refl => exact past
  | tail earlier next ih =>
    cases next with
    | close => exact absurd rfl ih
    | finish => simp

/-! ## The order of the table -/

structure Session.InOrder (s : Session) (drawn : Nat) : Prop where
  increasing : s.calls.Pairwise fun earlier later => earlier.id < later.id
  bounded : ∀ call ∈ s.calls, call.id.toNat ≤ drawn

def Sequence.Drawn (sequence : Sequence) (drawn : Nat) : Prop :=
  sequence.next = UInt64.ofNat (drawn + 1)

theorem Sequence.Drawn.toNat_next {sequence : Sequence} {drawn : Nat} (count : sequence.Drawn drawn)
    (more : drawn + 1 < 2 ^ 64) : sequence.next.toNat = drawn + 1 := by
  rw [count, UInt64.toNat_ofNat_of_lt' more]

theorem Sequence.Drawn.draw {sequence : Sequence} {drawn : Nat} (count : sequence.Drawn drawn) :
    sequence.draw.2.Drawn (drawn + 1) := by
  unfold Drawn at count ⊢
  rw [UInt64.ofNat_add, ← count]
  rfl

namespace Session.InOrder

variable {s t : Session} {drawn : Nat}

theorem sublist (inOrder : s.InOrder drawn) (fewer : t.calls.Sublist s.calls) :
    t.InOrder drawn :=
  ⟨inOrder.increasing.sublist fewer, fun call mem => inOrder.bounded call (fewer.subset mem)⟩

theorem mono {more : Nat} (inOrder : s.InOrder drawn) (le : drawn ≤ more) : s.InOrder more :=
  ⟨inOrder.increasing, fun call mem => Nat.le_trans (inOrder.bounded call mem) le⟩

theorem enter {call : PendingCall} (inOrder : s.InOrder drawn) (new : call.id.toNat = drawn + 1) :
    (s.enter call).InOrder (drawn + 1) := by
  have below : ∀ other ∈ s.calls, other.id < call.id := by
    intro other mem
    have bound := inOrder.bounded other mem
    rw [UInt64.lt_iff_toNat_lt]
    omega
  constructor
  · refine List.pairwise_append.2 ⟨inOrder.increasing, List.pairwise_singleton _ _, ?_⟩
    intro other mem last among
    rw [List.mem_singleton.1 among]
    exact below other mem
  · intro other mem
    rcases List.mem_append.1 mem with old | last
    · exact Nat.le_succ_of_le (inOrder.bounded other old)
    · rw [List.mem_singleton.1 last]
      exact Nat.le_of_eq new

/-- The status of a session names the call with the smallest id and counts the others. -/
theorem busyStatus (inOrder : s.InOrder drawn) :
    (s.calls = [] ∧ s.busyStatus = ⟨none, 0⟩) ∨
    ∃ oldest ∈ s.calls, (∀ call ∈ s.calls, oldest.id ≤ call.id) ∧
      s.busyStatus = ⟨some oldest.command, (s.calls.filter (·.id ≠ oldest.id)).length⟩ := by
  have increasing := inOrder.increasing
  unfold Session.busyStatus
  cases table : s.calls with
  | nil => exact .inl ⟨rfl, rfl⟩
  | cons oldest rest =>
    rw [table, List.pairwise_cons] at increasing
    right
    refine ⟨oldest, List.mem_cons_self, ?_, ?_⟩
    · intro call mem
      rcases List.mem_cons.1 mem with rfl | later
      · exact UInt64.le_refl _
      · exact UInt64.le_of_lt (increasing.1 call later)
    · have others : (oldest :: rest).filter (·.id ≠ oldest.id) = rest := by
        rw [List.filter_cons_of_neg (by simp), List.filter_eq_self]
        intro call mem
        simpa using (UInt64.ne_of_lt (increasing.1 call mem)).symm
      rw [others]
      rfl

end Session.InOrder

theorem Work.calls_sublist {s t : Session} {hand next : Hand} {es : List Emission}
    (work : Work m input s hand es t next) : t.calls.Sublist s.calls := by
  cases work with
  | responded received decoded pending =>
    rw [Machine.absorb_calls]
    exact List.eraseP_sublist
  | malformed received refused addressed meant pending => exact List.eraseP_sublist
  | withdrawn refused pending => exact List.eraseP_sublist
  | closing reason connected => exact List.nil_sublist _
  | _ => exact List.Sublist.refl _

theorem Ends.inOrder {s t : Session} {hand : Hand} {es : List Emission} {waiting : Option Waiting}
    {drawn : Nat} (last : Ends m input s hand es t waiting) (inOrder : s.InOrder drawn)
    (count : s.sequence.Drawn drawn) (few : drawn + (issuedIds es).length < 2 ^ 64) :
    t.InOrder (drawn + (issuedIds es).length) ∧
      t.sequence.Drawn (drawn + (issuedIds es).length) := by
  cases last with
  | entered asked sends connected => exact ⟨inOrder.enter (count.toNat_next few), count.draw⟩
  | completed | failedMalformed | drained =>
    rw [issuedIds_complete]
    exact ⟨inOrder, count⟩
  | _ => exact ⟨inOrder.sublist (List.Sublist.refl _), count⟩

theorem Works.inOrder {s : Session} {hand : Hand} {turn : Turn} {drawn : Nat}
    (works : Works m input base s hand turn) (inOrder : s.InOrder drawn)
    (count : s.sequence.Drawn drawn) (few : drawn + (issuedIds turn.emitted).length < 2 ^ 64) :
    turn.machine.session.InOrder (drawn + (issuedIds turn.emitted).length) ∧
      turn.machine.session.sequence.Drawn (drawn + (issuedIds turn.emitted).length) := by
  induction works with
  | ends last => exact last.inOrder inOrder count few
  | work first rest ih =>
    simp only [Turn.preceded, issuedIds_append, first.silent.1, List.nil_append] at few ⊢
    exact ih (inOrder.sublist first.calls_sublist) (first.sameSetup.2 ▸ count) few

theorem Machine.drawn_step {drawn : Nat} (count : m.session.sequence.Drawn drawn) (input : Input) :
    (m.step input).machine.session.sequence.Drawn
      (drawn + (issuedIds (m.step input).emitted).length) := by
  rcases issuedIds_step m input with ⟨none, kept⟩ | ⟨one, drawn⟩
  · rw [none, kept]
    exact count
  · rw [one, drawn]
    exact count.draw

theorem Machine.inOrder_step {drawn : Nat} (inOrder : m.session.InOrder drawn)
    (count : m.session.sequence.Drawn drawn) (input : Input)
    (few : drawn + (issuedIds (m.step input).emitted).length < 2 ^ 64) :
    (m.step input).machine.session.InOrder (drawn + (issuedIds (m.step input).emitted).length) ∧
      (m.step input).machine.session.sequence.Drawn
        (drawn + (issuedIds (m.step input).emitted).length) := by
  rcases step_works m input with idle | works
  · rw [idle]
    exact ⟨inOrder, count⟩
  · exact works.inOrder inOrder count few

theorem Machine.inOrder_run {m : Machine} {drawn : Nat} (inOrder : m.session.InOrder drawn)
    (count : m.session.sequence.Drawn drawn) (inputs : List Input)
    (few : drawn + (issuedIds (m.emitted inputs)).length < 2 ^ 64) :
    (m.after inputs).session.InOrder (drawn + (issuedIds (m.emitted inputs)).length) := by
  induction inputs generalizing m drawn with
  | nil => exact inOrder
  | cons input inputs ih =>
    rw [emitted_cons, issuedIds_append, List.length_append, ← Nat.add_assoc] at few ⊢
    obtain ⟨kept, counted⟩ := inOrder_step inOrder count input (by omega)
    exact ih kept counted few

end DebugLink
