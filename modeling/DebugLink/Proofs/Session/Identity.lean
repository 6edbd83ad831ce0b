import Mathlib.Data.List.Nodup
import DebugLink.Proofs.Session.Ledger

/-!
# Ids are drawn once

The ids under which frames are handed to the transport follow each other, so as long as fewer of
them are drawn than there are, no id comes twice. A call is therefore known by its id: all that
is ever held under it is the call that was sent.
-/

set_option autoImplicit false

namespace DebugLink

namespace Machine

structure Sends (m : Machine) (input : Input) (command : Command) (token : Option ContextToken)
    (id : UInt64) : Prop where
  asked : ∃ operation invalidating,
    input = .start operation ∧ operation.sent? = some (command, token, invalidating)
  issued : id ∈ issuedIds (m.step input).emitted

end Machine

variable {m : Machine} {input : Input}

/-! ## What a step keeps -/

structure Session.SameSetup (s t : Session) : Prop where
  dialect : t.dialect = s.dialect
  binder : t.binder = s.binder
  responseMode : t.responseMode = s.responseMode
  eventMode : t.eventMode = s.eventMode

namespace Session.SameSetup

theorem refl (s : Session) : s.SameSetup s := ⟨rfl, rfl, rfl, rfl⟩

theorem trans {s t u : Session} (first : s.SameSetup t) (second : t.SameSetup u) :
    s.SameSetup u :=
  ⟨second.dialect.trans first.dialect, second.binder.trans first.binder,
    second.responseMode.trans first.responseMode, second.eventMode.trans first.eventMode⟩

theorem settle {s t : Session} (same : s.SameSetup t) (call : PendingCall)
    (outcome : Except RemoteError Json) : t.settle call outcome = s.settle call outcome := by
  unfold Session.settle Session.reply Session.bindPayload
  rw [same.binder, same.responseMode]

end Session.SameSetup

theorem Work.sameSetup {s t : Session} {hand next : Hand} {es : List Emission}
    (work : Work m input s hand es t next) : s.SameSetup t ∧ t.sequence = s.sequence := by
  cases work with
  | responded received decoded pending =>
    rename_i frame call
    obtain ⟨context, handles, absorbed, -⟩ := Machine.absorb_eq
      (m.session.removeCall frame.id) frame (m.session.isStale call)
    rw [absorbed]
    exact ⟨⟨rfl, rfl, rfl, rfl⟩, rfl⟩
  | _ => exact ⟨⟨rfl, rfl, rfl, rfl⟩, rfl⟩

theorem Ends.sameSetup {s t : Session} {hand : Hand} {es : List Emission}
    {waiting : Option Waiting} (last : Ends m input s hand es t waiting) : s.SameSetup t := by
  cases last <;> exact ⟨rfl, rfl, rfl, rfl⟩

theorem Works.sameSetup {base : List Waiting} {s : Session} {hand : Hand} {turn : Turn}
    (works : Works m input base s hand turn) : s.SameSetup turn.machine.session := by
  induction works with
  | ends last => exact last.sameSetup
  | work first rest ih => exact first.sameSetup.1.trans ih

theorem Machine.sameSetup_step (m : Machine) (input : Input) :
    m.session.SameSetup (m.step input).machine.session := by
  rcases step_works m input with idle | works
  · rw [idle]
    exact .refl m.session
  · exact works.sameSetup

theorem Machine.sameSetup_run (m : Machine) (inputs : List Input) :
    m.session.SameSetup (m.after inputs).session := by
  induction inputs generalizing m with
  | nil => exact .refl m.session
  | cons input inputs ih => exact (m.sameSetup_step input).trans (ih (m.step input).machine)

/-! ## Ids in sequence -/

theorem Ends.issuedIds_eq {s t : Session} {hand : Hand} {es : List Emission}
    {waiting : Option Waiting} (last : Ends m input s hand es t waiting) :
    (issuedIds es = [] ∧ t.sequence = s.sequence) ∨
      (issuedIds es = [s.sequence.next] ∧ t.sequence = s.sequence.draw.2) := by
  cases last with
  | entered asked sends connected => exact .inr ⟨rfl, rfl⟩
  | completed call outcome after => exact .inl ⟨issuedIds_complete _ _, rfl⟩
  | failedMalformed call failure after context fresh => exact .inl ⟨issuedIds_complete _ _, rfl⟩
  | drained reason call rest after => exact .inl ⟨issuedIds_complete _ _, rfl⟩
  | _ => exact .inl ⟨rfl, rfl⟩

theorem Works.issuedIds_eq {base : List Waiting} {s : Session} {hand : Hand} {turn : Turn}
    (works : Works m input base s hand turn) :
    (issuedIds turn.emitted = [] ∧ turn.machine.session.sequence = s.sequence) ∨
      (issuedIds turn.emitted = [s.sequence.next] ∧
        turn.machine.session.sequence = s.sequence.draw.2) := by
  induction works with
  | ends last => exact last.issuedIds_eq
  | work first rest ih =>
    have quiet := first.silent.1
    rw [← first.sameSetup.2]
    simpa only [Turn.preceded, issuedIds_append, quiet, List.nil_append] using ih

namespace Machine

theorem issuedIds_step (m : Machine) (input : Input) :
    (issuedIds (m.step input).emitted = [] ∧
        (m.step input).machine.session.sequence = m.session.sequence) ∨
      (issuedIds (m.step input).emitted = [m.session.sequence.next] ∧
        (m.step input).machine.session.sequence = m.session.sequence.draw.2) := by
  rcases step_works m input with idle | works
  · rw [idle]
    exact .inl ⟨rfl, rfl⟩
  · exact works.issuedIds_eq

theorem issuedIds_run (m : Machine) (inputs : List Input) :
    issuedIds (m.emitted inputs)
      = (List.range (issuedIds (m.emitted inputs)).length).map
          (fun i => m.session.sequence.next + UInt64.ofNat i) := by
  induction inputs generalizing m with
  | nil => rfl
  | cons input inputs ih =>
    rw [emitted_cons, issuedIds_append]
    rcases issuedIds_step m input with ⟨none, same⟩ | ⟨one, drawn⟩
    · rw [none, List.nil_append, ← same]
      exact ih _
    · rw [one, List.singleton_append, List.length_cons, List.range_succ_eq_map, List.map_cons,
        List.map_map]
      have next : (m.step input).machine.session.sequence.next
          = m.session.sequence.next + 1 := by
        rw [drawn]
        rfl
      have rest := ih (m.step input).machine
      rw [next] at rest
      refine congrArg₂ List.cons (by simp) (rest.trans (List.map_congr_left fun i _ => ?_))
      simp only [Function.comp, Nat.succ_eq_add_one, UInt64.ofNat_add]
      rw [UInt64.add_comm (UInt64.ofNat i) (UInt64.ofNat 1), UInt64.add_assoc]
      rfl

theorem nodup_issuedIds (m : Machine) (inputs : List Input)
    (few : (issuedIds (m.emitted inputs)).length < 2 ^ 64) :
    (issuedIds (m.emitted inputs)).Nodup := by
  rw [issuedIds_run]
  apply List.Nodup.map_on _ List.nodup_range
  intro i below j less same
  rw [List.mem_range] at below less
  have equal : UInt64.ofNat i = UInt64.ofNat j := UInt64.add_right_inj _ |>.1 same
  have values := congrArg UInt64.toNat equal
  have size : UInt64.size = 2 ^ 64 := rfl
  rw [UInt64.toNat_ofNat_of_lt' (by omega), UInt64.toNat_ofNat_of_lt' (by omega)] at values
  exact values

theorem not_issued_again {m : Machine} {xs ys : List Input} {id : UInt64}
    (few : (issuedIds (m.emitted (xs ++ ys))).length < 2 ^ 64)
    (drawn : id ∈ issuedIds (m.emitted xs)) : id ∉ issuedIds ((m.after xs).emitted ys) := by
  have once := nodup_issuedIds m (xs ++ ys) few
  rw [emitted_append, issuedIds_append] at once
  intro again
  exact (List.nodup_append.1 once).2.2 id drawn id again rfl

theorem count_issuedIds_le_one {m : Machine} {inputs : List Input}
    (few : (issuedIds (m.emitted inputs)).length < 2 ^ 64) (id : UInt64) :
    (issuedIds (m.emitted inputs)).count id ≤ 1 :=
  List.nodup_iff_count_le_one.1 (nodup_issuedIds m inputs few) id

end Machine

/-! ## Where the calls that are held come from -/

theorem Session.mem_of_mem_removeCall {session : Session} {id : UInt64} {call : PendingCall}
    (mem : call ∈ (session.removeCall id).calls) : call ∈ session.calls :=
  List.mem_of_mem_eraseP mem

theorem Work.calls_subset {s t : Session} {hand next : Hand} {es : List Emission}
    (work : Work m input s hand es t next) :
    t.calls ⊆ s.calls ∧ t.calls ++ next.calls ⊆ s.calls ++ hand.calls := by
  have removed : ∀ {id : UInt64} {call : PendingCall}, m.session.call? id = some call →
      (m.session.removeCall id).calls ++ [call] ⊆ m.session.calls ++ [] := by
    intro id call pending other mem
    rw [List.append_nil]
    rcases List.mem_append.1 mem with left | right
    · exact Session.mem_of_mem_removeCall left
    · rw [List.mem_singleton.1 right]
      exact (Session.call?_eq_some pending).1
  cases work with
  | responded received decoded pending =>
    rw [Machine.absorb_calls]
    exact ⟨fun _ => Session.mem_of_mem_removeCall, removed pending⟩
  | malformed received refused addressed meant pending =>
    exact ⟨fun _ => Session.mem_of_mem_removeCall, removed pending⟩
  | withdrawn refused pending =>
    refine ⟨fun _ => Session.mem_of_mem_removeCall, ?_⟩
    exact List.append_subset.2 ⟨fun _ mem =>
      List.mem_append_left _ (Session.mem_of_mem_removeCall mem), List.nil_subset _⟩
  | closing reason connected => exact ⟨List.nil_subset _, by simp [Hand.calls]⟩
  | abandoned => exact ⟨List.Subset.refl _, by simp [Hand.calls]⟩
  | abandonedMalformed context stale => exact ⟨List.Subset.refl _, by simp [Hand.calls]⟩
  | _ => exact ⟨List.Subset.refl _, List.Subset.refl _⟩

def Machine.Entered (m : Machine) (input : Input) (call : PendingCall) : Prop :=
  ∃ operation command token invalidating, input = .start operation ∧
    operation.sent? = some (command, token, invalidating) ∧
    call = m.session.newCall command token

theorem Ends.calls_subset {s t : Session} {hand : Hand} {es : List Emission}
    {waiting : Option Waiting} (last : Ends m input s hand es t waiting) {call : PendingCall} :
    (call ∈ t.calls → call ∈ s.calls ∨ call.id ∈ issuedIds es) ∧
    (call ∈ t.calls ++ waiting.toList.flatMap (·.hand.calls) →
      call ∈ s.calls ++ hand.calls ∨ m.Entered input call ∧ call.id ∈ issuedIds es) := by
  cases last with
  | entered asked sends connected =>
    rename_i operation command token invalidating
    have issued : (m.session.newCall command token).id ∈ issuedIds
        [.request (.transmit m.session.sequence.next
          (m.session.dialect.encode m.session.sequence.next command))] :=
      List.mem_singleton.2 rfl
    have split : call ∈ m.session.calls ++ [m.session.newCall command token] →
        call ∈ m.session.calls ∨ call = m.session.newCall command token := by
      simp
    constructor
    · intro mem
      rcases split mem with old | rfl
      · exact .inl old
      · exact .inr issued
    · intro mem
      have table : call ∈ m.session.calls ++ [m.session.newCall command token] := by
        rcases List.mem_append.1 mem with own | empty
        · exact own
        · cases empty
      rcases split table with old | rfl
      · exact .inl (List.mem_append_left _ old)
      · exact .inr ⟨⟨operation, command, token, invalidating, asked, sends, rfl⟩, issued⟩
  | announced => exact ⟨.inl, fun mem => .inl (by simpa using mem)⟩
  | drained reason first others after =>
    refine ⟨.inl, fun mem => .inl ?_⟩
    simp only [Option.toList_some, List.flatMap_singleton, List.mem_append, Waiting.hand,
      Hand.calls, List.mem_cons] at mem ⊢
    tauto
  | _ =>
    refine ⟨.inl, fun mem => .inl ?_⟩
    simp only [Option.toList_some, Option.toList_none, List.flatMap_singleton, List.flatMap_nil,
      Waiting.hand, Hand.calls, List.append_nil] at mem ⊢
    first | exact mem | exact List.mem_append_left _ mem

theorem Works.calls_subset {base : List Waiting} {s : Session} {hand : Hand} {turn : Turn}
    (works : Works m input base s hand turn) {call : PendingCall} :
    (call ∈ turn.machine.session.calls → call ∈ s.calls ∨ call.id ∈ issuedIds turn.emitted) ∧
    (call ∈ turn.machine.heldCalls →
      call ∈ s.calls ++ hand.calls ++ base.flatMap (·.hand.calls) ∨
        m.Entered input call ∧ call.id ∈ issuedIds turn.emitted) := by
  induction works with
  | ends last =>
    refine ⟨last.calls_subset.1, fun mem => ?_⟩
    simp only [Machine.heldCalls, List.flatMap_append, ← List.append_assoc] at mem
    rcases List.mem_append.1 mem with own | below
    · rcases last.calls_subset.2 own with old | new
      · exact .inl (List.mem_append_left _ old)
      · exact .inr new
    · exact .inl (List.mem_append_right _ below)
  | work first rest ih =>
    have same := first.silent.1
    simp only [Turn.preceded, issuedIds_append, same, List.nil_append]
    constructor
    · intro mem
      exact (ih.1 mem).imp_left fun old => first.calls_subset.1 old
    · intro mem
      rcases ih.2 mem with old | new
      · rcases List.mem_append.1 old with own | below
        · exact .inl (List.mem_append_left _ (first.calls_subset.2 own))
        · exact .inl (List.mem_append_right _ below)
      · exact .inr new

namespace Machine

theorem calls_subset_step (m : Machine) (input : Input) {call : PendingCall} :
    (call ∈ (m.step input).machine.session.calls →
      call ∈ m.session.calls ∨ call.id ∈ issuedIds (m.step input).emitted) ∧
    (call ∈ (m.step input).machine.heldCalls →
      call ∈ m.heldCalls ∨
        m.Entered input call ∧ call.id ∈ issuedIds (m.step input).emitted) := by
  rcases step_works m input with idle | works
  · rw [idle]
    exact ⟨.inl, .inl⟩
  · rw [heldCalls_eq m input]
    exact works.calls_subset

theorem heldCalls_subset_run {m : Machine} {inputs : List Input} {call : PendingCall}
    (undrawn : call.id ∉ issuedIds (m.emitted inputs))
    (mem : call ∈ (m.after inputs).heldCalls) : call ∈ m.heldCalls := by
  induction inputs generalizing m with
  | nil => exact mem
  | cons input inputs ih =>
    rw [emitted_cons, issuedIds_append, List.mem_append, not_or] at undrawn
    rcases (calls_subset_step m input).2 (ih undrawn.2 mem) with old | new
    · exact old
    · exact absurd new.2 undrawn.1

/-- A call once out of the table never gets back into it. -/
theorem isPending_of_run {m : Machine} {inputs : List Input} {id : UInt64}
    (undrawn : id ∉ issuedIds (m.emitted inputs))
    (pending : (m.after inputs).session.isPending id = true) : m.session.isPending id = true := by
  induction inputs generalizing m with
  | nil => exact pending
  | cons input inputs ih =>
    rw [emitted_cons, issuedIds_append, List.mem_append, not_or] at undrawn
    obtain ⟨call, mem, named⟩ := Session.isPending_iff.1 (ih undrawn.2 pending)
    rcases (calls_subset_step m input).1 mem with old | new
    · exact Session.isPending_iff.2 ⟨call, old, named⟩
    · exact absurd (named ▸ new) undrawn.1

theorem mem_issuedIds_of_held {m : Machine} {inputs : List Input} {call : PendingCall}
    (fresh : m.heldCalls = []) (mem : call ∈ (m.after inputs).heldCalls) :
    call.id ∈ issuedIds (m.emitted inputs) := by
  by_contra undrawn
  have old := heldCalls_subset_run undrawn mem
  rw [fresh] at old
  cases old

theorem eq_newCall_of_held {m : Machine} {before rest : List Input} {input : Input}
    {command : Command} {token : Option ContextToken} {id : UInt64} {call : PendingCall}
    (fresh : m.heldCalls = [])
    (few : (issuedIds (m.emitted (before ++ input :: rest))).length < 2 ^ 64)
    (sent : (m.after before).Sends input command token id)
    (mem : call ∈ (m.after (before ++ input :: rest)).heldCalls) (named : call.id = id) :
    call = (m.after before).session.newCall command token := by
  obtain ⟨operation, invalidating, asked, sends⟩ := sent.asked
  have drawn : id ∈ issuedIds (m.emitted (before ++ [input])) := by
    rw [emitted_concat, issuedIds_append]
    exact List.mem_append_right _ sent.issued
  have split : before ++ input :: rest = (before ++ [input]) ++ rest := by simp
  have undrawn : call.id ∉ issuedIds ((m.after (before ++ [input])).emitted rest) := by
    rw [named]
    exact not_issued_again (split ▸ few) drawn
  rw [split, after_append] at mem
  have entered := heldCalls_subset_run undrawn mem
  rw [after_concat] at entered
  rcases (calls_subset_step (m.after before) input).2 entered with old | ⟨new, -⟩
  · have earlier := mem_issuedIds_of_held fresh old
    have again := not_issued_again few earlier
    rw [emitted_cons, issuedIds_append, named] at again
    exact absurd (List.mem_append_left _ sent.issued) again
  · obtain ⟨operation', command', token', invalidating', asked', sends', eq⟩ := new
    rw [asked] at asked'
    obtain rfl : operation = operation' := by simpa using asked'
    rw [sends] at sends'
    obtain ⟨rfl, rfl, rfl⟩ : command = command' ∧ token = token' ∧ invalidating = invalidating' := by
      simpa using sends'
    exact eq

theorem few_front {m : Machine} {xs ys : List Input}
    (few : (issuedIds (m.emitted (xs ++ ys))).length < 2 ^ 64) :
    (issuedIds (m.emitted xs)).length < 2 ^ 64 := by
  rw [emitted_append, issuedIds_append, List.length_append] at few
  omega

/-- At any time in a run, all that is held under the id of a sent command is the call that was
entered for it. -/
theorem eq_newCall_of_held_anywhere {m : Machine} {before rest xs ys : List Input} {input : Input}
    {command : Command} {token : Option ContextToken} {id : UInt64} {call : PendingCall}
    (fresh : m.heldCalls = [])
    (few : (issuedIds (m.emitted (before ++ input :: rest))).length < 2 ^ 64)
    (sent : (m.after before).Sends input command token id)
    (split : before ++ input :: rest = xs ++ ys) (mem : call ∈ (m.after xs).heldCalls)
    (named : call.id = id) : call = (m.after before).session.newCall command token := by
  have notBefore : ∀ late, before = xs ++ late → False := by
    rintro late rfl
    have earlier := mem_issuedIds_of_held fresh mem
    rw [List.append_assoc] at few
    have again := not_issued_again few earlier
    rw [emitted_append, emitted_cons, issuedIds_append, issuedIds_append, named,
      ← after_append] at again
    exact again (List.mem_append_right _ (List.mem_append_left _ sent.issued))
  rcases List.append_eq_append_iff.1 split with ⟨late, rfl, tail⟩ | ⟨late, eq, -⟩
  · cases late with
    | nil => exact (notBefore [] (by simp)).elim
    | cons first late =>
      obtain ⟨rfl, rfl⟩ := List.cons.inj tail
      rw [split] at few
      exact eq_newCall_of_held fresh (few_front few) sent mem named
  · exact (notBefore late eq).elim

theorem held_le_one_of_once {m : Machine} {inputs : List Input} {id : UInt64}
    (fresh : m.heldCalls = []) (once : (issuedIds (m.emitted inputs)).count id ≤ 1) :
    (m.after inputs).held id + (outcomes id (m.emitted inputs)).length
      + (abandonedIds (m.emitted inputs)).count id ≤ 1 := by
  obtain ⟨withdrawn, books, -, -⟩ := balance_run m inputs id
  have none : m.held id = 0 := by rw [held, fresh, copies_nil]
  omega

theorem held_le_one {m : Machine} {inputs : List Input} (fresh : m.heldCalls = [])
    (few : (issuedIds (m.emitted inputs)).length < 2 ^ 64) (id : UInt64) :
    (m.after inputs).held id + (outcomes id (m.emitted inputs)).length
      + (abandonedIds (m.emitted inputs)).count id ≤ 1 :=
  held_le_one_of_once fresh (count_issuedIds_le_one few id)

end Machine

end DebugLink
