import DebugLink.Proofs.Session.Frames
import DebugLink.Proofs.Session.Receipt

/-!
# What the listener knows

Whenever a step changes the table of pending calls, it tells the listener the new status before it
ends, or it leaves a wait that will: the one for the transport, which has a frame or is being closed,
or the one for a callback of a call that a close fails. Nothing of this kind waits once no operation
is in progress, so the listener then knows the status.
-/

set_option autoImplicit false

namespace DebugLink

def Emission.told? (listener : Nat) : Emission → Option BusyStatus
  | .request (.status l status) => if l = listener then some status else none
  | _ => none

def statuses (listener : Nat) (emitted : List Emission) : List BusyStatus :=
  emitted.filterMap (Emission.told? listener)

theorem statuses_append (listener : Nat) (xs ys : List Emission) :
    statuses listener (xs ++ ys) = statuses listener xs ++ statuses listener ys :=
  List.filterMap_append

/-- No listener is told of it and no frame is handed over. -/
def Emission.isUntold : Emission → Bool
  | .request (.status ..) | .request (.transmit ..) => false
  | _ => true

theorem statuses_of_untold {emitted : List Emission}
    (untold : ∀ emission ∈ emitted, emission.isUntold = true) (listener : Nat) :
    statuses listener emitted = [] ∧ issuedIds emitted = [] := by
  constructor <;> refine List.filterMap_eq_nil_iff.2 fun emission mem => ?_
  · have quiet := untold emission mem
    unfold Emission.told?
    split
    · cases quiet
    · rfl
  · have quiet := untold emission mem
    unfold Emission.issued?
    split
    · cases quiet
    · rfl

/-- The listener is told the status once the wait is over, or other waits follow of which this
holds. -/
def Waiting.owes : Waiting → Bool
  | .transmitting .. | .draining .. | .closingTransport _ => true
  | _ => false

def Machine.TransportCrash (m : Machine) (input : Input) : Prop :=
  input = .crashed ∧ ((∃ call invalidating rest, m.stack = .transmitting call invalidating :: rest) ∨
    ∃ after rest, m.stack = .closingTransport after :: rest)

structure Turn.Tells (turn : Turn) (listener : Nat) : Prop where
  listens : turn.machine.session.listener = some listener
  told : (statuses listener turn.emitted).getLast? = some turn.machine.session.busyStatus ∨
    ∃ waiting ∈ turn.machine.stack, waiting.owes = true

structure Turn.Still (turn : Turn) (listener : Nat) (calls : List PendingCall) : Prop where
  listens : turn.machine.session.listener = some listener
  calls : turn.machine.session.calls = calls
  untold : ∀ emission ∈ turn.emitted, emission.isUntold = true

/-- The turn tells the listener what there is to tell. -/
def Turn.Keeps (turn : Turn) (listener : Nat) (calls : List PendingCall) : Prop :=
  turn.Tells listener ∨ turn.Still listener calls

variable {listener : Nat} {calls : List PendingCall} {turn : Turn} {n : Machine} {after : After}

namespace Turn

theorem Tells.preceded (tells : turn.Tells listener) (emissions : List Emission) :
    (turn.preceded emissions).Tells listener := by
  refine ⟨tells.listens, tells.told.imp_left fun last => ?_⟩
  rw [Turn.preceded, statuses_append, List.getLast?_append, last]
  rfl

theorem Still.preceded (still : turn.Still listener calls) {emissions : List Emission}
    (untold : ∀ emission ∈ emissions, emission.isUntold = true) :
    (turn.preceded emissions).Still listener calls :=
  ⟨still.listens, still.calls, fun emission mem =>
    (List.mem_append.1 mem).elim (untold emission) (still.untold emission)⟩

theorem Still.noticed (still : turn.Still listener calls) (notices : List Notice) :
    (turn.noticed notices).Still listener calls := by
  refine still.preceded fun emission mem => ?_
  obtain ⟨notice, -, rfl⟩ := List.mem_map.1 mem
  rfl

theorem Keeps.preceded (keeps : turn.Keeps listener calls) {emissions : List Emission}
    (untold : ∀ emission ∈ emissions, emission.isUntold = true) :
    (turn.preceded emissions).Keeps listener calls :=
  keeps.imp (·.preceded emissions) (·.preceded untold)

theorem Keeps.noticed (keeps : turn.Keeps listener calls) (notices : List Notice) :
    (turn.noticed notices).Keeps listener calls :=
  keeps.imp (·.preceded _) (·.noticed notices)

end Turn

namespace Machine

open Turn

/-! ## The parts that several operations share -/

theorem conclude_still (listens : n.session.listener = some listener) (after : After) :
    (n.conclude after).Still listener n.session.calls := by
  cases after with
  | finish | refuse => exact ⟨listens, rfl, by simp [conclude, give, Emission.isUntold]⟩
  | read =>
    simp only [conclude]
    split <;> exact ⟨listens, rfl, by simp [give, await, Emission.isUntold]⟩

theorem announce_tells (listens : n.session.listener = some listener) (waiting : Waiting)
    (next : Machine → Turn) : (n.announce waiting next).Tells listener := by
  unfold announce
  rw [listens]
  exact ⟨listens, .inl (by simp [await, statuses, Emission.told?])⟩

theorem release_tells (listens : n.session.listener = some listener) (after : After) :
    (n.release after).Tells listener :=
  Tells.preceded ⟨listens, .inr ⟨_, List.mem_cons_self, rfl⟩⟩ _

theorem drain_tells (listens : n.session.listener = some listener) (reason : String)
    (pending : List PendingCall) (after : After) : (n.drain reason pending after).Tells listener := by
  cases pending with
  | nil => exact release_tells listens after
  | cons call rest => exact Tells.preceded ⟨listens, .inr ⟨_, List.mem_cons_self, rfl⟩⟩ _

theorem close_tells (listens : n.session.listener = some listener)
    (connected : n.session.phase = .connected) (reason : String) (after : After) :
    (n.close reason after).Tells listener := by
  unfold close
  rw [if_pos connected]
  refine Tells.preceded (drain_tells ?_ reason n.session.calls after) _
  exact listens

theorem close_keeps (listens : n.session.listener = some listener) (reason : String)
    (after : After) : (n.close reason after).Keeps listener n.session.calls := by
  by_cases connected : n.session.phase = .connected
  · exact .inl (close_tells listens connected reason after)
  · unfold close
    rw [if_neg connected]
    exact .inr (conclude_still listens after)

theorem transportClosed_keeps (listens : n.session.listener = some listener) (reason : String)
    (after : After) : (n.transportClosed reason after).Keeps listener n.session.calls := by
  unfold transportClosed
  split
  · exact (close_keeps listens reason after).noticed _
  · exact close_keeps listens reason after

theorem transcribe_untold (n : Machine) (direction text : String) :
    ∀ emission ∈ n.transcribe direction text, emission.isUntold = true := by
  unfold transcribe
  cases n.session.transcript <;> simp [Emission.isUntold]

/-! ## Sending -/

theorem transmitted_listens (listens : n.session.listener = some listener) (invalidating : Bool) :
    (n.transmitted invalidating).session.listener = some listener := by
  cases invalidating <;> exact listens

theorem dispatch_keeps (listens : n.session.listener = some listener) (command : Command)
    (token : Option ContextToken) (invalidating : Bool) :
    (n.dispatch command token invalidating).Keeps listener n.session.calls := by
  unfold dispatch
  cases n.session.sendFault? command with
  | some error =>
    cases invalidating <;> exact .inr ⟨listens, rfl, by simp [give, Emission.isUntold]⟩
  | none => exact .inl (Tells.preceded ⟨listens, .inr ⟨_, List.mem_cons_self, rfl⟩⟩ _)

theorem give_still (listens : n.session.listener = some listener) (result : Result) :
    (n.give result).Still listener n.session.calls :=
  ⟨listens, rfl, by simp [give, Emission.isUntold]⟩

/-- A frame that the transport refuses ends in a close, which tells the listener; if the session has
been closed meanwhile, the listener is told at once. -/
theorem refused_tells (listens : n.session.listener = some listener)
    (table : n.session.phase ≠ .connected → n.session.calls = []) (call : PendingCall)
    (invalidating : Bool) (error : TransportError) :
    (n.refused call invalidating error).Tells listener := by
  unfold refused
  split
  · rename_i pending
    have connected : n.session.phase = .connected := by
      by_contra past
      obtain ⟨other, mem, -⟩ := Session.isPending_iff.1 pending
      rw [table past] at mem
      cases mem
    refine Tells.preceded (close_tells ?_ ?_ _ _) _
    · cases invalidating <;> exact listens
    · cases invalidating <;> exact connected
  · exact Tells.preceded (announce_tells (transmitted_listens listens invalidating) _ _) _

/-! ## Receiving -/

theorem await_still (listens : n.session.listener = some listener) (waiting : Waiting)
    {request : Request} (untold : (Emission.request request).isUntold = true) :
    (n.await waiting request).Still listener n.session.calls :=
  ⟨listens, rfl, fun _ mem => List.mem_singleton.1 mem ▸ untold⟩

theorem completeResponse_still (listens : n.session.listener = some listener) (call : PendingCall)
    (outcome : Except RemoteError Json) (stale : Bool) (after : After) :
    (n.completeResponse call outcome stale after).Still listener n.session.calls := by
  cases stale with
  | true => exact (conclude_still listens after).preceded (by simp [Emission.isUntold])
  | false =>
    obtain ⟨log, timely⟩ := completeResponse_timely n call outcome after
    rw [timely]
    refine (await_still listens _ ?_).noticed _
    cases n.session.settle call outcome <;> rfl

theorem completeMalformed_still (listens : n.session.listener = some listener) (call : PendingCall)
    (failure : CallFailure) (after : After) :
    (n.completeMalformed call failure after).Still listener n.session.calls := by
  unfold completeMalformed
  split
  · exact (conclude_still listens after).preceded (by simp [Emission.isUntold])
  · exact (await_still listens _ rfl).noticed _

theorem deliverResponse_keeps (listens : n.session.listener = some listener)
    (frame : ResponseFrame) (after : After) :
    (n.deliverResponse frame after).Keeps listener n.session.calls := by
  unfold deliverResponse
  cases n.session.call? frame.id with
  | none => exact .inr ((conclude_still listens after).noticed _)
  | some call =>
    have absorbed : (absorb (n.session.removeCall frame.id) frame
        (n.session.isStale call)).listener = some listener := by
      obtain ⟨context, handles, absorbed, -⟩ := absorb_eq
        (n.session.removeCall frame.id) frame (n.session.isStale call)
      rw [absorbed]
      exact listens
    refine .inl (Tells.preceded (announce_tells ?_ _ _) _)
    exact absorbed

theorem deliverMalformed_keeps (listens : n.session.listener = some listener) (id : UInt64)
    (error : FrameError) (after : After) :
    (n.deliverMalformed id error after).Keeps listener n.session.calls := by
  unfold deliverMalformed
  cases failureOf? error with
  | none => exact .inr ((conclude_still listens after).noticed _)
  | some failure =>
    cases n.session.call? id with
    | none => exact .inr ((conclude_still listens after).noticed _)
    | some call =>
      refine .inl (announce_tells ?_ _ _)
      exact listens

theorem routeEvent_still (listens : n.session.listener = some listener) (frame : EventFrame)
    (after : After) : (n.routeEvent frame after).Still listener n.session.calls := by
  unfold routeEvent
  cases n.session.processor? frame.name with
  | none => exact (conclude_still listens after).noticed _
  | some processor =>
    refine Still.noticed ?_ _
    split
    · exact await_still listens _ rfl
    · exact (conclude_still listens after).noticed _

theorem deliverEvent_still (listens : n.session.listener = some listener) (frame : EventFrame)
    (after : After) : (n.deliverEvent frame after).Still listener n.session.calls := by
  obtain ⟨context, handles, same⟩ := Session.applyEvent_eq n.session frame.name
  have changed : (applyEvent n.session frame.name).1.listener = some listener := by
    rw [same]
    exact listens
  obtain ⟨still, calls, untold⟩ := Still.noticed
    (routeEvent_still (n := ⟨(applyEvent n.session frame.name).1, n.stack⟩) changed frame after)
    (applyEvent n.session frame.name).2
  refine ⟨still, calls.trans ?_, untold⟩
  rw [same]

theorem receive_keeps (listens : n.session.listener = some listener) (text : String)
    (after : After) : (n.receive text after).Keeps listener n.session.calls := by
  unfold receive
  split
  · exact .inr ((conclude_still listens after).noticed _)
  · refine Keeps.preceded ?_ (transcribe_untold n "<-" text)
    split
    · exact .inr ((conclude_still listens after).noticed _)
    · refine Keeps.noticed ?_ _
      split
      · exact deliverResponse_keeps listens _ after
      · exact .inr (deliverEvent_still listens _ after)
      · split
        · exact deliverMalformed_keeps listens _ _ after
        · exact .inr ((conclude_still listens after).noticed _)

/-! ## Steps -/

variable {m : Machine} {input : Input}

theorem start_keeps (listens : m.session.listener = some listener) {operation : Operation}
    (lasting : ∀ other, operation = .listen other → other = listener) :
    (m.start operation).Keeps listener m.session.calls := by
  cases operation with
  | send command token =>
    cases token with
    | none => exact dispatch_keeps listens command none false
    | some t =>
      simp only [start, send]
      split
      · exact dispatch_keeps listens command _ false
      · exact .inr (give_still listens _)
  | sendAndInvalidate command token =>
    simp only [start, sendAndInvalidate]
    split
    · exact dispatch_keeps listens command none true
    · exact .inr (give_still listens _)
  | receive text => exact receive_keeps listens text .finish
  | suspend =>
    exact .inr (Still.noticed (give_still (n := ⟨m.session.suspend.2, m.stack⟩) listens _) _)
  | resume =>
    exact .inr (Still.noticed (give_still (n := ⟨m.session.resume, m.stack⟩) listens _) _)
  | close reason => exact close_keeps listens reason .finish
  | transportClosed reason => exact transportClosed_keeps listens reason .finish
  | onEvent name type handler =>
    simp only [start, onEvent]
    split
    · exact .inr (give_still (n := m.modify (·.addProcessor _)) listens _)
    · exact .inr (give_still listens _)
  | listen other =>
    obtain rfl := lasting other rfl
    exact .inr (give_still (n := m.modify ({ · with listener := some other })) rfl _)
  | putHandles entries =>
    exact .inr (give_still (n := m.modify fun session =>
      { session with handles := session.handles.putAll entries }) listens _)
  | resetHandles => exact .inr (give_still (n := m.modify ({ · with handles := .empty })) listens _)
  | read => exact .inr (await_still listens _ rfl)

theorem afterPull_keeps (listens : n.session.listener = some listener) (pulled : Pulled) :
    (n.afterPull pulled).Keeps listener n.session.calls := by
  cases pulled with
  | frame text => exact receive_keeps listens text .read
  | ended => exact transportClosed_keeps listens _ .finish
  | failed | broken => exact (transportClosed_keeps listens _ .finish).noticed _

theorem afterDone_keeps (listens : n.session.listener = some listener) {waiting : Waiting}
    (given : n.afterDone waiting = some turn) :
    turn.Tells listener ∨ waiting.owes = false ∧ turn.Still listener n.session.calls := by
  cases waiting with
  | transmitting | pulling => cases given
  | closingTransport after =>
    cases given
    exact .inl (announce_tells listens _ _)
  | draining label reason rest after =>
    cases given
    exact .inl (drain_tells listens reason rest after)
  | announcedCall id =>
    cases given
    exact .inr ⟨rfl, give_still listens _⟩
  | announcedResponse call outcome stale after =>
    cases given
    exact .inr ⟨rfl, completeResponse_still listens call outcome stale after⟩
  | announcedMalformed call failure after =>
    cases given
    exact .inr ⟨rfl, completeMalformed_still listens call failure after⟩
  | completing label after | announcedClose after =>
    cases given
    exact .inr ⟨rfl, conclude_still listens after⟩

theorem afterCrash_keeps (listens : n.session.listener = some listener) {waiting : Waiting}
    (sound : (∀ call invalidating, waiting ≠ .transmitting call invalidating) ∧
      ∀ after, waiting ≠ .closingTransport after) :
    (n.afterCrash waiting).Tells listener ∨
      waiting.owes = false ∧ (n.afterCrash waiting).Still listener n.session.calls := by
  cases waiting with
  | transmitting call invalidating => exact absurd rfl (sound.1 call invalidating)
  | closingTransport after => exact absurd rfl (sound.2 after)
  | draining label reason rest after =>
    exact .inl ((drain_tells listens reason rest after).preceded _)
  | announcedCall | announcedResponse | announcedMalformed | announcedClose =>
    exact .inr ⟨rfl, listens, rfl, by simp [afterCrash, Emission.isUntold]⟩
  | completing label after => exact .inr ⟨rfl, (conclude_still listens after).noticed _⟩
  | pulling => exact (afterPull_keeps listens .broken).imp_right fun still => ⟨rfl, still⟩

/-- A wait that owes the listener the status is over only with what it owes. -/
theorem answer_keeps (listens : n.session.listener = some listener)
    (table : n.session.phase ≠ .connected → n.session.calls = []) {waiting : Waiting}
    (given : n.answer? waiting input = some turn)
    (sound : input = .crashed → (∀ call invalidating, waiting ≠ .transmitting call invalidating) ∧
      ∀ after, waiting ≠ .closingTransport after) :
    turn.Tells listener ∨ waiting.owes = false ∧ turn.Still listener n.session.calls := by
  cases input with
  | start operation => cases given
  | done => exact afterDone_keeps listens given
  | crashed =>
    cases given
    exact afterCrash_keeps listens (sound rfl)
  | accepted =>
    cases waiting <;> cases given
    rename_i call invalidating
    exact .inl (announce_tells (transmitted_listens listens invalidating) _ _)
  | refused error =>
    cases waiting <;> cases given
    exact .inl (refused_tells listens table _ _ error)
  | pulled pulled =>
    cases waiting <;> cases given
    exact (afterPull_keeps listens pulled).imp_right fun still => ⟨rfl, still⟩

/-! ## Runs -/

/-- After all that was seen, the listener knows the status, or a wait owes it, or no call has ever
been entered. -/
structure Informed (m : Machine) (listener : Nat) (seen : List Emission) : Prop where
  listens : m.session.listener = some listener
  status : (statuses listener seen).getLast? = some m.session.busyStatus ∨
    (∃ waiting ∈ m.stack, waiting.owes = true) ∨ issuedIds seen = [] ∧ m.session.calls = []

theorem Informed.tells {seen : List Emission} (tells : turn.Tells listener) :
    turn.machine.Informed listener (seen ++ turn.emitted) := by
  refine ⟨tells.listens, tells.told.imp (fun last => ?_) .inl⟩
  rw [statuses_append, List.getLast?_append, last]
  rfl

theorem Informed.still {seen : List Emission} (informed : m.Informed listener seen)
    (still : turn.Still listener m.session.calls)
    (kept : ∀ waiting ∈ m.stack, waiting.owes = true → waiting ∈ turn.machine.stack) :
    turn.machine.Informed listener (seen ++ turn.emitted) := by
  obtain ⟨silent, unissued⟩ := statuses_of_untold still.untold listener
  refine ⟨still.listens, ?_⟩
  rw [statuses_append, silent, List.append_nil, issuedIds_append, unissued, List.append_nil,
    Session.busyStatus, still.calls]
  exact informed.status.imp_right (.imp_left fun ⟨waiting, mem, owes⟩ =>
    ⟨waiting, kept waiting mem owes, owes⟩)

theorem informed_step {seen : List Emission} (informed : m.Informed listener seen)
    (emptied : m.session.Emptied .nothing m.stack) (input : Input)
    (lasting : ∀ other, input = .start (.listen other) → other = listener)
    (sound : ¬ m.TransportCrash input) :
    (m.step input).machine.Informed listener (seen ++ (m.step input).emitted) := by
  have idle : Machine.Informed m listener (seen ++ []) := (List.append_nil seen).symm ▸ informed
  cases input with
  | start operation =>
    have kept : ∀ waiting ∈ m.stack, waiting ∈ (m.step (.start operation)).machine.stack := by
      obtain ⟨added, stack⟩ := (start_works (m := m) operation).stack_eq
      intro waiting mem
      rw [show (m.step (.start operation)).machine.stack = _ from stack]
      exact List.mem_append_right _ mem
    have lasts : ∀ other, operation = .listen other → other = listener :=
      fun other same => lasting other (congrArg Input.start same)
    rcases start_keeps informed.listens lasts with tells | still
    · exact .tells tells
    · exact informed.still still fun waiting mem _ => kept waiting mem
  | _ =>
    cases waited : m.stack with
    | nil =>
      simp only [step, waited]
      exact idle
    | cons waiting rest =>
      simp only [step, waited]
      split
      · rename_i turn given
        have keeps := answer_keeps (n := ⟨m.session, rest⟩) informed.listens emptied.table given
          fun crashed => ⟨fun call invalidating same => sound ⟨crashed, .inl ⟨call, invalidating, rest,
            same ▸ waited⟩⟩, fun after same => sound ⟨crashed, .inr ⟨after, rest, same ▸ waited⟩⟩⟩
        rcases keeps with tells | ⟨quiet, still⟩
        · exact .tells tells
        · refine informed.still still fun other mem owes => ?_
          obtain ⟨added, stack⟩ := (answer_works waited given).stack_eq
          rw [stack]
          rw [waited] at mem
          rcases List.mem_cons.1 mem with rfl | below
          · cases quiet.symm.trans owes
          · exact List.mem_append_right _ below
      · exact idle

theorem informed_run {seen : List Emission} {inputs : List Input}
    (informed : m.Informed listener seen) (emptied : m.session.Emptied .nothing m.stack)
    (lasting : ∀ other, .start (.listen other) ∈ inputs → other = listener)
    (sound : ¬ m.Happens TransportCrash inputs) :
    (m.after inputs).Informed listener (seen ++ m.emitted inputs) := by
  induction inputs generalizing m seen with
  | nil =>
    rw [emitted_nil, List.append_nil]
    exact informed
  | cons input inputs ih =>
    rw [happens_cons, not_or] at sound
    rw [after_cons, emitted_cons, ← List.append_assoc]
    refine ih ?_ (emptied_step input emptied)
      (fun other mem => lasting other (List.mem_cons_of_mem input mem)) sound.2
    refine informed_step informed emptied input ?_ sound.1
    rintro other rfl
    exact lasting other List.mem_cons_self

/-- In every run of a session whose listener is installed before a frame is handed over, and in
which the transport does not break down, the listener was last told the status of the session
whenever no operation is in progress and a call has ever been entered. -/
theorem listener_never_lags {config : Config} {registry : Registry} {transcript : Transcript}
    {m : Machine} {setup inputs : List Input} (began : m = initial config registry transcript)
    (unsent : issuedIds (m.emitted setup) = [])
    (lasting : ∀ other, .start (.listen other) ∈ inputs → other = listener)
    (sound : ¬ (m.after setup).Happens TransportCrash (.start (.listen listener) :: inputs))
    (resting : (m.after (setup ++ .start (.listen listener) :: inputs)).isResting = true)
    (sent : issuedIds (m.emitted (setup ++ .start (.listen listener) :: inputs)) ≠ []) :
    (statuses listener
        (m.emitted (setup ++ .start (.listen listener) :: inputs))).getLast?
      = some (m.after (setup ++ .start (.listen listener) :: inputs)).session.busyStatus := by
  have fresh : m.heldCalls = [] := by rw [began, heldCalls_initial]
  have empty : (m.after setup).session.calls = [] := by
    refine List.eq_nil_iff_forall_not_mem.2 fun call mem => ?_
    have issued := mem_issuedIds_of_held fresh (List.mem_append_left _ mem)
    rw [unsent] at issued
    cases issued
  have emptied : m.session.Emptied .nothing m.stack := by
    rw [began]
    exact .initial config registry transcript
  have installed : ((m.after setup).step (.start (.listen listener))).machine.Informed listener
      (m.emitted setup ++ ((m.after setup).step (.start (.listen listener))).emitted) := by
    refine ⟨rfl, .inr (.inr ⟨?_, empty⟩)⟩
    rw [issuedIds_append, unsent]
    rfl
  have informed := informed_run installed (emptied_step _ (emptied_run setup emptied)) lasting
    (happens_cons.not.1 sound |> not_or.1).2
  rw [List.append_assoc, ← emitted_cons, ← emitted_append, ← after_cons, ← after_append] at informed
  obtain last | ⟨waiting, mem, -⟩ | ⟨never, -⟩ := informed.status
  · exact last
  · rw [List.isEmpty_iff.1 resting] at mem
    cases mem
  · exact absurd never sent

def answeredRun : List Input :=
  [.start (.send ⟨"version", none, none⟩ none), .accepted, .done, .start (.receive versionText),
    .done, .done]

theorem listener_never_lags_answered :
    (statuses 3 ((initial .default Catalog.registry .off).emitted
        ([.start .suspend] ++ .start (.listen 3) :: answeredRun))).getLast?
      = some ((initial .default Catalog.registry .off).after
          ([.start .suspend] ++ .start (.listen 3) :: answeredRun)).session.busyStatus := by
  refine listener_never_lags rfl (by decide +kernel) ?_ ?_ (by decide +kernel) (by decide +kernel)
  · simp [answeredRun]
  · intro broken
    simpa [answeredRun] using broken.mem fun _ _ broken => broken.1

end Machine

end DebugLink
