import DebugLink.Proofs.Session.Frames
import DebugLink.Proofs.Session.Rejection

/-!
# Where what a step shows stems from

A step shows the outcome of a call, the event for a handler or the failure of a frame for one reason
each: a frame that it has just taken in, or the wait that it goes on from. An error that is no error
of the transport is only ever given by the step that starts the operation.
-/

set_option autoImplicit false

namespace DebugLink

/-- Neither delivers anything, nor tells of a frame that cannot be delivered, nor rejects an
operation. -/
def Emission.isPlain : Emission → Bool
  | .request (.succeed ..) | .request (.fail ..) | .request (.handle ..) => false
  | .notice (.malformedEvent ..) | .notice (.malformedResponse ..)
  | .notice (.malformedForUnknownCall ..) | .notice (.unrecognizedFrame ..) => false
  | .returned (.failed error) => !error.isRejection
  | _ => true

namespace Machine

structure ReceivesInvalid (m : Machine) (input : Input) (raw : Json) (error : FrameError) : Prop where
  received : m.Receives input raw
  refused : (m.session.dialect.classify m.session.binder raw).result = .error error

/-- A step comes to complete a call with the outcome of its response. -/
inductive Completes (m : Machine) (input : Input) : PendingCall → Except RemoteError Json → Prop where
  | onReceipt {call : PendingCall} {outcome : Except RemoteError Json}
      (hears : m.Hears input call outcome) : Completes m input call outcome
  | onceTold {call : PendingCall} {outcome : Except RemoteError Json} {after : After}
      {rest : List Waiting} (waited : m.stack = .announcedResponse call outcome false after :: rest) :
      Completes m input call outcome

inductive Fails (m : Machine) (input : Input) : PendingCall → CallFailure → Prop where
  | onReceipt {call : PendingCall} {failure : CallFailure}
      (mishears : m.Mishears input call failure) : Fails m input call failure
  | onceTold {call : PendingCall} {failure : CallFailure} {after : After} {rest : List Waiting}
      (waited : m.stack = .announcedMalformed call failure after :: rest) :
      Fails m input call failure

structure Routes (m : Machine) (input : Input) (frame : EventFrame) (processor : Processor) :
    Prop where
  received : m.ReceivesEvent input frame
  routed : m.session.processor? frame.name = some processor

end Machine

def Session.eventPayload (session : Session) (processor : Processor) (frame : EventFrame) :
    Except CallFailure Payload :=
  (session.bindPayload (eventBody frame.body) processor.type session.eventMode).result

/-- Why the step of `m` on `input` shows something. -/
inductive Emission.Origin (m : Machine) (input : Input) : Emission → Prop where
  | plain {emission : Emission} (plain : emission.isPlain = true) : Origin m input emission
  | rejected {operation : Operation} (error : SessionError) (asked : input = .start operation) :
      Origin m input (.returned (.failed error))
  | completed {call : PendingCall} {outcome : Except RemoteError Json}
      (completes : m.Completes input call outcome) :
      Origin m input (.request (.complete call.id (m.session.settle call outcome)))
  | failed {call : PendingCall} {failure : CallFailure} (fails : m.Fails input call failure) :
      Origin m input (.request (.fail call.id failure))
  | malformed {call : PendingCall} {failure : CallFailure} (fails : m.Fails input call failure) :
      Origin m input (.notice (.malformedResponse call.id call.command failure))
  | drained (id : UInt64) (reason : String) :
      Origin m input (.request (.fail id (.connectionClosed reason)))
  | handled {frame : EventFrame} {processor : Processor} {payload : Payload}
      (routes : m.Routes input frame processor)
      (bound : m.session.eventPayload processor frame = .ok payload) :
      Origin m input (.request (.handle processor.handler
        ⟨frame.name, Session.eventBody frame.body, payload⟩))
  | unbound {frame : EventFrame} {processor : Processor} {failure : CallFailure}
      (routes : m.Routes input frame processor)
      (failed : m.session.eventPayload processor frame = .error failure) :
      Origin m input (.notice (.malformedEvent frame.name failure))
  | unrecognized {raw : Json} {error : FrameError} (id : Option UInt64)
      (invalid : m.ReceivesInvalid input raw error) :
      Origin m input (.notice (.unrecognizedFrame id error))
  | unknown {raw : Json} {error : FrameError} {failure : CallFailure} (id : UInt64)
      (invalid : m.ReceivesInvalid input raw error) (meant : Machine.failureOf? error = some failure) :
      Origin m input (.notice (.malformedForUnknownCall id failure))

def Turn.StemsFrom (turn : Turn) (m : Machine) (input : Input) : Prop :=
  ∀ emission ∈ turn.emitted, emission.Origin m input

variable {m : Machine} {input : Input}

theorem Emission.Origin.of_resumeNotices (session : Session) :
    ∀ notice ∈ session.resumeNotices, (Emission.notice notice).Origin m input := by
  intro notice mem
  simp only [Session.resumeNotices, Option.mem_toList, Option.map_eq_some_iff] at mem
  obtain ⟨token, -, rfl⟩ := mem
  exact .plain rfl

namespace Turn.StemsFrom

variable {turn : Turn}

theorem of_plain (plain : turn.emitted.all Emission.isPlain = true) : turn.StemsFrom m input :=
  fun emission mem => .plain (List.all_eq_true.1 plain emission mem)

theorem preceded {emissions : List Emission} (stems : turn.StemsFrom m input)
    (first : ∀ emission ∈ emissions, emission.Origin m input) :
    (turn.preceded emissions).StemsFrom m input := by
  intro emission mem
  rcases List.mem_append.1 mem with early | late
  · exact first emission early
  · exact stems emission late

theorem noticed {notices : List Notice} (stems : turn.StemsFrom m input)
    (first : ∀ notice ∈ notices, (Emission.notice notice).Origin m input) :
    (turn.noticed notices).StemsFrom m input := by
  refine stems.preceded fun emission mem => ?_
  obtain ⟨notice, among, rfl⟩ := List.mem_map.1 mem
  exact first notice among

theorem noting {notice : Notice} (stems : turn.StemsFrom m input)
    (first : (Emission.notice notice).Origin m input) :
    (turn.noticed [notice]).StemsFrom m input :=
  stems.noticed fun _ mem => List.mem_singleton.1 mem ▸ first

theorem ambiguous (stems : turn.StemsFrom m input) (log : List Ambiguity) :
    (turn.noticed (log.map .ambiguous)).StemsFrom m input := by
  refine stems.noticed fun notice mem => ?_
  obtain ⟨ambiguity, -, rfl⟩ := List.mem_map.1 mem
  exact .plain rfl

theorem resumeNotices (stems : turn.StemsFrom m input) (session : Session) :
    (turn.noticed session.resumeNotices).StemsFrom m input :=
  stems.noticed (Emission.Origin.of_resumeNotices session)

theorem transcribed (stems : turn.StemsFrom m input) (n : Machine) (direction text : String) :
    (turn.preceded (n.transcribe direction text)).StemsFrom m input := by
  unfold Machine.transcribe
  cases n.session.transcript with
  | off => exact stems
  | on => exact stems.preceded fun _ mem => List.mem_singleton.1 mem ▸ .plain rfl
  | failing => exact stems.preceded fun _ mem => List.mem_singleton.1 mem ▸ .plain rfl

end Turn.StemsFrom

namespace Machine

open Turn

/-! ## The parts that several operations share -/

theorem conclude_stems (n : Machine) (after : After) : (n.conclude after).StemsFrom m input := by
  cases after with
  | finish | refuse => exact .of_plain rfl
  | read =>
    simp only [conclude]
    split <;> exact .of_plain rfl

theorem announce_stems (n : Machine) {waiting : Waiting} {next : Machine → Turn}
    (rest : (next n).StemsFrom m input) : (n.announce waiting next).StemsFrom m input := by
  rcases n.announce_cases waiting next with direct | ⟨listener, told⟩
  · rw [direct]
    exact rest
  · rw [told]
    exact .of_plain rfl

theorem giveCall_stems (n : Machine) (id : UInt64) : (n.giveCall id).StemsFrom m input :=
  announce_stems n (.of_plain rfl)

theorem drain_stems (n : Machine) (reason : String) (calls : List PendingCall) (after : After) :
    (n.drain reason calls after).StemsFrom m input := by
  cases calls with
  | nil => exact StemsFrom.resumeNotices (.of_plain rfl) n.session
  | cons call rest =>
    refine StemsFrom.noting ?_ (.plain rfl)
    exact fun emission mem => List.mem_singleton.1 mem ▸ .drained call.id reason

theorem close_stems (n : Machine) (reason : String) (after : After) :
    (n.close reason after).StemsFrom m input := by
  unfold close
  split
  · exact (drain_stems (n.modify _) reason n.session.calls after).noting (.plain rfl)
  · exact conclude_stems n after

theorem transportClosed_stems (n : Machine) (reason : String) (after : After) :
    (n.transportClosed reason after).StemsFrom m input := by
  unfold transportClosed
  split
  · exact (close_stems n reason after).noting (.plain rfl)
  · exact close_stems n reason after

/-! ## Sending -/

theorem give_stems_of_start (n : Machine) {operation : Operation}
    (asked : input = .start operation) (error : SessionError) :
    (n.give (.failed error)).StemsFrom m input :=
  fun _ mem => List.mem_singleton.1 mem ▸ .rejected error asked

theorem dispatch_stems (n : Machine) {operation : Operation} (asked : input = .start operation)
    (command : Command) (token : Option ContextToken) (invalidating : Bool) :
    (n.dispatch command token invalidating).StemsFrom m input := by
  unfold dispatch
  cases n.session.sendFault? command with
  | some error => exact give_stems_of_start _ asked error
  | none =>
    have sent : (await (n.modify fun session =>
          { session with
            sequence := n.session.sequence.draw.2
            calls := session.calls ++ [n.session.newCall command token] })
        (.transmitting (n.session.newCall command token) invalidating)
        (.transmit n.session.sequence.next
          (n.session.dialect.encode n.session.sequence.next command))).StemsFrom m input :=
      .of_plain rfl
    exact (sent.transcribed n "->" _).noting (.plain rfl)

theorem refused_stems (n : Machine) (call : PendingCall) (invalidating : Bool)
    (error : TransportError) : (n.refused call invalidating error).StemsFrom m input := by
  unfold refused
  split
  · exact (close_stems _ _ _).noting (.plain rfl)
  · refine (giveCall_stems _ call.id).noticed fun notice mem => ?_
    simp only [List.mem_cons, List.not_mem_nil, or_false] at mem
    rcases mem with rfl | rfl <;> exact .plain rfl

/-! ## Receiving -/

theorem completeResponse_stems {n : Machine} {call : PendingCall}
    {outcome : Except RemoteError Json} {stale : Bool} {after : After}
    (setup : m.session.SameSetup n.session)
    (completes : stale = false → m.Completes input call outcome) :
    (n.completeResponse call outcome stale after).StemsFrom m input := by
  cases stale with
  | true =>
    refine (conclude_stems n after).preceded fun emission mem => ?_
    simp only [List.mem_cons, List.not_mem_nil, or_false] at mem
    rcases mem with rfl | rfl <;> exact .plain rfl
  | false =>
    obtain ⟨log, timely⟩ := completeResponse_timely n call outcome after
    rw [timely, setup.settle]
    refine StemsFrom.ambiguous ?_ log
    exact fun emission mem => List.mem_singleton.1 mem ▸ .completed (completes rfl)

theorem deliverResponse_stems {n : Machine} {raw : Json} {frame : ResponseFrame} (after : After)
    (same : n.session = m.session) (received : m.Receives input raw)
    (decoded : (m.session.dialect.classify m.session.binder raw).result = .ok (.response frame)) :
    (n.deliverResponse frame after).StemsFrom m input := by
  unfold deliverResponse
  cases pending : n.session.call? frame.id with
  | none => exact (conclude_stems n after).noting (.plain rfl)
  | some call =>
    have told : (announce (n.modify fun session =>
          absorb (session.removeCall frame.id) frame (n.session.isStale call))
        (.announcedResponse call frame.outcome (n.session.isStale call) after)
        (·.completeResponse call frame.outcome (n.session.isStale call) after)).StemsFrom
          m input := by
      refine announce_stems _ (completeResponse_stems ?_ fun _ =>
        .onReceipt ⟨received, decoded, same ▸ pending⟩)
      obtain ⟨context, handles, absorbed, -⟩ := absorb_eq
        (m.session.removeCall frame.id) frame (m.session.isStale call)
      simp only [modify, same, absorbed]
      exact ⟨rfl, rfl, rfl, rfl⟩
    refine told.noticed fun notice mem => ?_
    rcases List.mem_append.1 mem with resumed | noted
    · split at resumed
      · exact .of_resumeNotices n.session notice resumed
      · cases resumed
    · exact List.mem_singleton.1 noted ▸ .plain rfl

theorem completeMalformed_stems (n : Machine) {call : PendingCall} {failure : CallFailure}
    (after : After) (fails : m.Fails input call failure) :
    (n.completeMalformed call failure after).StemsFrom m input := by
  unfold completeMalformed
  split
  · refine (conclude_stems n after).preceded fun emission mem => ?_
    simp only [List.mem_cons, List.not_mem_nil, or_false] at mem
    rcases mem with rfl | rfl <;> exact .plain rfl
  · refine StemsFrom.noting ?_ (.malformed fails)
    exact fun emission mem => List.mem_singleton.1 mem ▸ .failed fails

theorem deliverMalformed_stems {n : Machine} {raw : Json} {error : FrameError} {id : UInt64}
    (after : After) (same : n.session = m.session) (invalid : m.ReceivesInvalid input raw error)
    (addressed : m.session.dialect.responseId? raw = some id) :
    (n.deliverMalformed id error after).StemsFrom m input := by
  unfold deliverMalformed
  cases meant : failureOf? error with
  | none => exact (conclude_stems n after).noting (.unrecognized (some id) invalid)
  | some failure =>
    cases pending : n.session.call? id with
    | none => exact (conclude_stems n after).noting (.unknown id invalid meant)
    | some call =>
      refine announce_stems _ (completeMalformed_stems _ after (.onReceipt ?_))
      exact ⟨invalid.received, invalid.refused, addressed, meant, same ▸ pending⟩

theorem routeEvent_stems {n : Machine} {frame : EventFrame} (after : After)
    (received : m.ReceivesEvent input frame)
    (same : ∃ context handles,
      n.session = { m.session with context := context, handles := handles }) :
    (n.routeEvent frame after).StemsFrom m input := by
  obtain ⟨context, handles, same⟩ := same
  unfold routeEvent
  cases found : n.session.processor? frame.name with
  | none => exact (conclude_stems n after).noting (.plain rfl)
  | some processor =>
    have routes : m.Routes input frame processor := ⟨received, by rw [← found, same]; rfl⟩
    have payload : m.session.eventPayload processor frame
        = (n.session.bindPayload (Session.eventBody frame.body) processor.type
            n.session.eventMode).run.value := by
      rw [same]
      rfl
    refine StemsFrom.ambiguous ?_ _
    split
    · rename_i bound
      exact fun emission mem => List.mem_singleton.1 mem ▸ .handled routes (payload.trans bound)
    · rename_i failed
      exact (conclude_stems n after).noting (.unbound routes (payload.trans failed))

theorem deliver_stems {n : Machine} {raw : Json} (after : After) (same : n.session = m.session)
    (received : m.Receives input raw) : (n.deliver raw after).StemsFrom m input := by
  unfold deliver
  refine StemsFrom.ambiguous ?_ _
  have result : (m.session.dialect.classify m.session.binder raw).result
      = (n.session.dialect.classify n.session.binder raw).run.value := by
    rw [same]
    rfl
  split
  · rename_i frame decoded
    exact deliverResponse_stems after same received (result.trans decoded)
  · rename_i frame decoded
    have routed : (routeEvent { n with session := (applyEvent n.session frame.name).1 } frame
        after).StemsFrom m input := by
      refine routeEvent_stems after ⟨raw, received, result.trans decoded⟩ ?_
      rw [same]
      exact Session.applyEvent_eq m.session frame.name
    refine routed.noticed fun notice mem => ?_
    split at mem
    · exact List.mem_singleton.1 mem ▸ .plain rfl
    · exact .of_resumeNotices n.session notice mem
    · cases mem
  · rename_i error refused
    have invalid : m.ReceivesInvalid input raw error := ⟨received, result.trans refused⟩
    split
    · rename_i id addressed
      exact deliverMalformed_stems after same invalid (same ▸ addressed)
    · exact (conclude_stems n after).noting (.unrecognized none invalid)

theorem receive_stems {n : Machine} {text : String} (after : After)
    (same : n.session = m.session) (taken : m.incoming? input = some text) :
    (n.receive text after).StemsFrom m input := by
  unfold receive
  split
  · exact (conclude_stems n after).noting (.plain rfl)
  · rename_i opened
    refine StemsFrom.transcribed ?_ n "<-" text
    split
    · exact (conclude_stems n after).noting (.plain rfl)
    · rename_i raw parsed
      refine deliver_stems after same ⟨?_, same ▸ opened⟩
      rw [taken]
      exact parsed

/-! ## Steps -/

theorem start_stems (operation : Operation) :
    (m.start operation).StemsFrom m (.start operation) := by
  cases operation with
  | send command token =>
    cases token with
    | none => exact dispatch_stems m rfl command none false
    | some t =>
      simp only [start, send]
      split
      · exact dispatch_stems m rfl command _ false
      · exact give_stems_of_start m rfl _
  | sendAndInvalidate command token =>
    simp only [start, sendAndInvalidate]
    split
    · exact dispatch_stems m rfl command none true
    · exact give_stems_of_start m rfl _
  | receive text => exact receive_stems .finish rfl rfl
  | suspend => exact StemsFrom.noting (.of_plain rfl) (.plain rfl)
  | resume => exact StemsFrom.resumeNotices (.of_plain rfl) m.session
  | close reason => exact close_stems m reason .finish
  | transportClosed reason => exact transportClosed_stems m reason .finish
  | onEvent name type handler =>
    simp only [start, onEvent]
    split
    · exact .of_plain rfl
    · exact give_stems_of_start m rfl _
  | listen | putHandles | resetHandles | read => exact .of_plain rfl

theorem afterPull_stems {n : Machine} {pulled : Pulled} (same : n.session = m.session)
    (taken : ∀ text, pulled = .frame text → m.incoming? input = some text) :
    (n.afterPull pulled).StemsFrom m input := by
  cases pulled with
  | frame text => exact receive_stems .read same (taken text rfl)
  | ended => exact transportClosed_stems n _ .finish
  | failed | broken => exact (transportClosed_stems n _ .finish).noting (.plain rfl)

theorem afterDone_stems {waiting : Waiting} {rest : List Waiting} {turn : Turn}
    (waited : m.stack = waiting :: rest)
    (given : afterDone ⟨m.session, rest⟩ waiting = some turn) : turn.StemsFrom m .done := by
  cases waiting with
  | transmitting | pulling => cases given
  | announcedCall id =>
    cases given
    exact .of_plain rfl
  | announcedResponse call outcome stale after =>
    cases given
    refine completeResponse_stems (.refl m.session) ?_
    rintro rfl
    exact .onceTold waited
  | announcedMalformed call failure after =>
    cases given
    exact completeMalformed_stems _ after (.onceTold waited)
  | completing label after | announcedClose after =>
    cases given
    exact conclude_stems _ after
  | draining label reason calls after =>
    cases given
    exact drain_stems _ reason calls after
  | closingTransport after =>
    cases given
    exact announce_stems _ (conclude_stems _ after)

theorem afterCrash_stems (waiting : Waiting) (rest : List Waiting) :
    (afterCrash ⟨m.session, rest⟩ waiting).StemsFrom m .crashed := by
  cases waiting with
  | transmitting | announcedCall | announcedResponse | announcedMalformed | closingTransport
  | announcedClose => exact .of_plain rfl
  | completing label after => exact (conclude_stems _ after).noting (.plain rfl)
  | draining label reason calls after => exact (drain_stems _ reason calls after).noting (.plain rfl)
  | pulling => exact afterPull_stems rfl fun text frame => by cases frame

theorem answer_stems {waiting : Waiting} {rest : List Waiting} {turn : Turn}
    (waited : m.stack = waiting :: rest)
    (given : answer? ⟨m.session, rest⟩ waiting input = some turn) : turn.StemsFrom m input := by
  cases input with
  | start operation => cases given
  | done => exact afterDone_stems waited given
  | crashed =>
    cases given
    exact afterCrash_stems waiting rest
  | accepted =>
    cases waiting <;> cases given
    exact giveCall_stems _ _
  | refused error =>
    cases waiting <;> cases given
    exact refused_stems _ _ _ error
  | pulled pulled =>
    cases waiting <;> cases given
    refine afterPull_stems rfl fun text frame => ?_
    simp only [frame, incoming?, waited]

theorem step_stems (m : Machine) (input : Input) : (m.step input).StemsFrom m input := by
  cases input with
  | start operation => exact start_stems operation
  | _ =>
    cases waited : m.stack with
    | nil =>
      simp only [step, waited]
      exact .of_plain rfl
    | cons waiting rest =>
      simp only [step, waited]
      split
      · rename_i turn given
        exact answer_stems waited given
      · exact .of_plain rfl

end Machine

/-! ## What callbacks and handlers are run with -/

namespace Emission.Origin

theorem of_succeed {id : UInt64} {reply : Reply}
    (origin : (Emission.request (.succeed id reply)).Origin m input) :
    ∃ call outcome, m.Completes input call outcome ∧ call.id = id ∧
      m.session.settle call outcome = .ok reply := by
  generalize shown : Emission.request (.succeed id reply) = emission at origin
  cases origin with
  | plain plain =>
    subst shown
    cases plain
  | completed completes =>
    rename_i call outcome
    cases settled : m.session.settle call outcome with
    | ok other =>
      rw [settled] at shown
      cases shown
      exact ⟨call, outcome, completes, rfl, settled⟩
    | error failure =>
      rw [settled] at shown
      cases shown
  | _ => cases shown

theorem of_handle {handler : Nat} {event : Event}
    (origin : (Emission.request (.handle handler event)).Origin m input) :
    ∃ frame processor payload, m.Routes input frame processor ∧ processor.handler = handler ∧
      m.session.eventPayload processor frame = .ok payload ∧
      event = ⟨frame.name, Session.eventBody frame.body, payload⟩ := by
  generalize shown : Emission.request (.handle handler event) = emission at origin
  cases origin with
  | plain plain =>
    subst shown
    cases plain
  | completed completes =>
    rename_i call outcome
    cases settled : m.session.settle call outcome <;> rw [settled] at shown <;> cases shown
  | handled routes bound =>
    cases shown
    exact ⟨_, _, _, routes, rfl, bound, rfl⟩
  | _ => cases shown

theorem of_unrecognizedFrame {id : Option UInt64} {error : FrameError}
    (origin : (Emission.notice (.unrecognizedFrame id error)).Origin m input) :
    ∃ raw, m.ReceivesInvalid input raw error := by
  generalize shown : Emission.notice (.unrecognizedFrame id error) = emission at origin
  cases origin with
  | plain plain =>
    subst shown
    cases plain
  | unrecognized other invalid =>
    cases shown
    exact ⟨_, invalid⟩
  | _ => cases shown

end Emission.Origin

end DebugLink
