import DebugLink.Proofs.Session.Issuance

/-!
# The transcript of a session

A step of a session writes to the log only where something crosses the wire: a text that it takes
in before it is closed, or a frame that it hands to the transport. `Turn.Logs` lists the turns of a
step by what crosses, and `step_logs` says that every step is one of them. So the log of a run, with
all that user code and the transport do in between, is its traffic line by line.
-/

set_option autoImplicit false

namespace DebugLink

/-! ## What crosses the wire -/

inductive Crossing where
  /-- A frame handed to the transport, which may still refuse it. -/
  | outgoing (frame : String)
  /-- A text taken in, whatever it says. -/
  | incoming (text : String)

namespace Crossing

def line : Crossing → String
  | .outgoing frame => "->" ++ " " ++ frame ++ "\n"
  | .incoming text => "<-" ++ " " ++ text ++ "\n"

def outgoing? : Crossing → Option String
  | .outgoing frame => some frame
  | .incoming _ => none

def incoming? : Crossing → Option String
  | .incoming text => some text
  | .outgoing _ => none

end Crossing

namespace Emission

def line? : Emission → Option String
  | .transcribed line => some line
  | _ => none

def handed? : Emission → Option String
  | .request (.transmit _ frame) => some frame
  | _ => none

def isSilent (emission : Emission) : Bool :=
  emission.line?.isNone && emission.handed?.isNone

end Emission

def logLines (emitted : List Emission) : List String :=
  emitted.filterMap Emission.line?

def handedFrames (emitted : List Emission) : List String :=
  emitted.filterMap Emission.handed?

def logText (emitted : List Emission) : String :=
  String.join (logLines emitted)

@[simp] theorem logLines_append (xs ys : List Emission) :
    logLines (xs ++ ys) = logLines xs ++ logLines ys :=
  List.filterMap_append

@[simp] theorem handedFrames_append (xs ys : List Emission) :
    handedFrames (xs ++ ys) = handedFrames xs ++ handedFrames ys :=
  List.filterMap_append

namespace Machine

/-- The text that a step takes in: one that comes after the close is dropped unread. -/
def heard (m : Machine) (input : Input) : Option String :=
  if m.session.phase = .closed then none else m.incoming? input

def crossings (m : Machine) (input : Input) : List Crossing :=
  (m.heard input).toList.map .incoming ++ (handedFrames (m.step input).emitted).map .outgoing

def traffic (m : Machine) : List Input → List Crossing
  | [] => []
  | input :: inputs => m.crossings input ++ (m.step input).machine.traffic inputs

def hearings (m : Machine) : List Input → List String
  | [] => []
  | input :: inputs => (m.heard input).toList ++ (m.step input).machine.hearings inputs

end Machine

/-! ## Turns in which nothing crosses -/

def Turn.Silent (turn : Turn) : Prop :=
  ∀ emission ∈ turn.emitted, emission.isSilent = true

namespace Turn.Silent

variable {turn : Turn}

theorem preceded {emissions : List Emission} (rest : turn.Silent)
    (first : ∀ emission ∈ emissions, emission.isSilent = true) :
    (turn.preceded emissions).Silent := by
  intro emission mem
  rcases List.mem_append.1 mem with early | late
  · exact first emission early
  · exact rest emission late

theorem noticed (rest : turn.Silent) (notices : List Notice) : (turn.noticed notices).Silent := by
  refine rest.preceded fun emission mem => ?_
  obtain ⟨notice, -, rfl⟩ := List.mem_map.1 mem
  rfl

theorem logLines_eq (silent : turn.Silent) : logLines turn.emitted = [] := by
  refine List.filterMap_eq_nil_iff.2 fun emission mem => ?_
  have quiet := silent emission mem
  simp only [Emission.isSilent, Bool.and_eq_true, Option.isNone_iff_eq_none] at quiet
  exact quiet.1

theorem handedFrames_eq (silent : turn.Silent) : handedFrames turn.emitted = [] := by
  refine List.filterMap_eq_nil_iff.2 fun emission mem => ?_
  have quiet := silent emission mem
  simp only [Emission.isSilent, Bool.and_eq_true, Option.isNone_iff_eq_none] at quiet
  exact quiet.2

end Turn.Silent

namespace Machine

open Turn (Silent)

theorem give_silent (n : Machine) (result : Result) : (n.give result).Silent := by
  simp [Silent, give, Emission.isSilent, Emission.line?, Emission.handed?]

theorem await_silent (n : Machine) (waiting : Waiting) {request : Request}
    (other : (Emission.request request).isSilent = true) : (n.await waiting request).Silent := by
  intro emission mem
  rw [List.mem_singleton.1 mem]
  exact other

theorem conclude_silent (n : Machine) (after : After) : (n.conclude after).Silent := by
  cases after with
  | finish | refuse => exact give_silent n _
  | read =>
    simp only [conclude]
    split
    · exact give_silent n _
    · exact await_silent n _ rfl

theorem abandon_silent (n : Machine) (notice : Notice) (id : UInt64) (after : After) :
    ((n.conclude after).preceded [.notice notice, .abandoned id]).Silent := by
  refine (conclude_silent n after).preceded fun emission mem => ?_
  simp only [List.mem_cons, List.not_mem_nil, or_false] at mem
  rcases mem with rfl | rfl <;> rfl

theorem announce_silent (n : Machine) (waiting : Waiting) {next : Machine → Turn}
    (rest : (next n).Silent) : (n.announce waiting next).Silent := by
  rcases n.announce_cases waiting next with direct | ⟨listener, told⟩
  · rw [direct]
    exact rest
  · rw [told]
    exact await_silent n _ rfl

theorem giveCall_silent (n : Machine) (id : UInt64) : (n.giveCall id).Silent :=
  announce_silent n _ (give_silent n _)

theorem drain_silent (n : Machine) (reason : String) (calls : List PendingCall) (after : After) :
    (n.drain reason calls after).Silent := by
  cases calls with
  | nil => exact (await_silent _ _ rfl).noticed _
  | cons call rest => exact (await_silent n _ rfl).noticed _

theorem close_silent (n : Machine) (reason : String) (after : After) :
    (n.close reason after).Silent := by
  unfold close
  split
  · exact (drain_silent _ _ _ _).noticed _
  · exact conclude_silent n after

theorem transportClosed_silent (n : Machine) (reason : String) (after : After) :
    (n.transportClosed reason after).Silent := by
  unfold transportClosed
  split
  · exact (close_silent n reason after).noticed _
  · exact close_silent n reason after

theorem refused_silent (n : Machine) (call : PendingCall) (invalidating : Bool)
    (error : TransportError) : (n.refused call invalidating error).Silent := by
  unfold refused
  split
  · exact (close_silent _ _ _).noticed _
  · exact (giveCall_silent _ _).noticed _

theorem completeResponse_silent (n : Machine) (call : PendingCall)
    (outcome : Except RemoteError Json) (stale : Bool) (after : After) :
    (n.completeResponse call outcome stale after).Silent := by
  cases stale with
  | true => exact abandon_silent n _ _ after
  | false =>
    obtain ⟨log, timely⟩ := completeResponse_timely n call outcome after
    rw [timely]
    refine (await_silent n _ ?_).noticed _
    cases n.session.settle call outcome <;> rfl

theorem completeMalformed_silent (n : Machine) (call : PendingCall) (failure : CallFailure)
    (after : After) : (n.completeMalformed call failure after).Silent := by
  unfold completeMalformed
  split
  · exact abandon_silent n _ _ after
  · exact (await_silent n _ rfl).noticed _

theorem deliverResponse_silent (n : Machine) (frame : ResponseFrame) (after : After) :
    (n.deliverResponse frame after).Silent := by
  unfold deliverResponse
  split
  · exact (conclude_silent n after).noticed _
  · exact (announce_silent _ _ (completeResponse_silent _ _ _ _ after)).noticed _

theorem deliverMalformed_silent (n : Machine) (id : UInt64) (error : FrameError) (after : After) :
    (n.deliverMalformed id error after).Silent := by
  unfold deliverMalformed
  split
  · exact (conclude_silent n after).noticed _
  · split
    · exact (conclude_silent n after).noticed _
    · exact announce_silent _ _ (completeMalformed_silent _ _ _ after)

theorem routeEvent_silent (n : Machine) (frame : EventFrame) (after : After) :
    (n.routeEvent frame after).Silent := by
  unfold routeEvent
  split
  · exact (conclude_silent n after).noticed _
  · refine Silent.noticed ?_ _
    split
    · exact await_silent n _ rfl
    · exact (conclude_silent n after).noticed _

theorem deliver_silent (n : Machine) (raw : Json) (after : After) :
    (n.deliver raw after).Silent := by
  unfold deliver
  refine Silent.noticed ?_ _
  split
  · exact deliverResponse_silent n _ after
  · exact (routeEvent_silent _ _ after).noticed _
  · split
    · exact deliverMalformed_silent n _ _ after
    · exact (conclude_silent n after).noticed _

/-! ## Steps in which nothing crosses -/

theorem afterDone_silent (n : Machine) {waiting : Waiting} {turn : Turn}
    (given : n.afterDone waiting = some turn) : turn.Silent := by
  cases waiting with
  | transmitting | pulling => cases given
  | announcedCall id =>
    cases given
    exact give_silent n _
  | announcedResponse call outcome stale after =>
    cases given
    exact completeResponse_silent n call outcome stale after
  | announcedMalformed call failure after =>
    cases given
    exact completeMalformed_silent n call failure after
  | completing label after | announcedClose after =>
    cases given
    exact conclude_silent n after
  | draining label reason rest after =>
    cases given
    exact drain_silent n reason rest after
  | closingTransport after =>
    cases given
    exact announce_silent n _ (conclude_silent n after)

theorem afterCrash_silent (n : Machine) (waiting : Waiting) : (n.afterCrash waiting).Silent := by
  cases waiting with
  | completing label after => exact (conclude_silent n after).noticed _
  | draining label reason rest after => exact (drain_silent n reason rest after).noticed _
  | pulling => exact (transportClosed_silent n _ .finish).noticed _
  | announcedResponse call | announcedMalformed call =>
    intro emission mem
    simp only [afterCrash, List.mem_cons, List.not_mem_nil, or_false] at mem
    rcases mem with rfl | rfl <;> rfl
  | transmitting | announcedCall | closingTransport | announcedClose =>
    intro emission mem
    rw [List.mem_singleton.1 mem]
    rfl

/-- An answer takes a text in or else lets nothing cross. -/
theorem answer_silent (n : Machine) {waiting : Waiting} {input : Input} {turn : Turn}
    (given : n.answer? waiting input = some turn)
    (textless : ∀ text, waiting = .pulling → input ≠ .pulled (.frame text)) : turn.Silent := by
  cases input with
  | start operation => cases given
  | done => exact afterDone_silent n given
  | crashed =>
    cases given
    exact afterCrash_silent n waiting
  | accepted =>
    cases waiting with
    | transmitting call invalidating =>
      cases given
      exact giveCall_silent _ _
    | _ => cases given
  | refused error =>
    cases waiting with
    | transmitting call invalidating =>
      cases given
      exact refused_silent n call invalidating error
    | _ => cases given
  | pulled pulled =>
    cases waiting with
    | pulling =>
      cases given
      cases pulled with
      | frame text => exact absurd rfl (textless text rfl)
      | ended => exact transportClosed_silent n _ .finish
      | failed | broken => exact (transportClosed_silent n _ .finish).noticed _
    | _ => cases given

end Machine

/-! ## The log of a step -/

inductive Turn.Logs (s : Session) : List Crossing → Turn → Prop where
  | silent {turn : Turn} (rest : turn.Silent) : Logs s [] turn
  | heard {turn : Turn} (text : String) (rest : turn.Silent) :
      Logs s [.incoming text] (turn.preceded ((Machine.ofSession s).transcribe "<-" text))
  | handed {next : Machine} (notice : Notice) (id : UInt64) (frame : String) :
      Logs s [.outgoing frame] ⟨next, [.notice notice] ++
        (Machine.ofSession s).transcribe "->" frame ++ [.request (.transmit id frame)]⟩

theorem Machine.handedFrames_transcribe (m : Machine) (direction text : String) :
    handedFrames (m.transcribe direction text) = [] := by
  unfold transcribe
  cases m.session.transcript <;> rfl

theorem Machine.transcribe_of_on {m : Machine} (on : m.session.transcript = .on)
    (direction text : String) :
    m.transcribe direction text = [.transcribed (direction ++ " " ++ text ++ "\n")] := by
  unfold transcribe
  rw [on]

namespace Turn.Logs

variable {s : Session} {crossings : List Crossing} {turn : Turn}

theorem crossings_eq (logs : turn.Logs s crossings) :
    crossings = (crossings.filterMap Crossing.incoming?).map .incoming ++
      (handedFrames turn.emitted).map .outgoing := by
  cases logs with
  | silent rest =>
    rw [rest.handedFrames_eq]
    rfl
  | heard text rest =>
    rw [Turn.preceded, handedFrames_append, Machine.handedFrames_transcribe, rest.handedFrames_eq]
    rfl
  | handed notice id frame =>
    rw [handedFrames_append, handedFrames_append, Machine.handedFrames_transcribe]
    rfl

theorem logLines_eq (logs : turn.Logs s crossings) (on : s.transcript = .on) :
    logLines turn.emitted = crossings.map Crossing.line := by
  cases logs with
  | silent rest => exact rest.logLines_eq
  | heard text rest =>
    rw [Machine.transcribe_of_on on, Turn.preceded, logLines_append, rest.logLines_eq]
    rfl
  | handed notice id frame =>
    rw [Machine.transcribe_of_on on]
    rfl

end Turn.Logs

namespace Machine

open Turn (Silent)

theorem dispatch_logs (m : Machine) (command : Command) (token : Option ContextToken)
    (invalidating : Bool) :
    ∃ crossings, (m.dispatch command token invalidating).Logs m.session crossings ∧
      crossings.filterMap Crossing.incoming? = [] := by
  unfold dispatch
  cases m.session.sendFault? command with
  | some error => exact ⟨_, .silent (give_silent _ _), rfl⟩
  | none => exact ⟨_, .handed (.sending m.session.sequence.next command.name) _ _, rfl⟩

theorem start_logs (m : Machine) {operation : Operation}
    (textless : ∀ text, operation ≠ .receive text) :
    ∃ crossings, (m.start operation).Logs m.session crossings ∧
      crossings.filterMap Crossing.incoming? = [] := by
  have quiet : ∀ {turn : Turn}, turn.Silent → ∃ crossings, turn.Logs m.session crossings ∧
      crossings.filterMap Crossing.incoming? = [] := fun silent => ⟨_, .silent silent, rfl⟩
  cases operation with
  | send command token =>
    cases token with
    | none => exact dispatch_logs m command none false
    | some t =>
      simp only [start, send]
      split
      · exact dispatch_logs m command _ false
      · exact quiet (give_silent m _)
  | sendAndInvalidate command token =>
    simp only [start, sendAndInvalidate]
    split
    · exact dispatch_logs m command none true
    · exact quiet (give_silent m _)
  | receive text => exact absurd rfl (textless text)
  | suspend | resume => exact quiet ((give_silent _ _).noticed _)
  | close reason => exact quiet (close_silent m reason .finish)
  | transportClosed reason => exact quiet (transportClosed_silent m reason .finish)
  | onEvent name type handler =>
    simp only [start, onEvent]
    split <;> exact quiet (give_silent _ _)
  | listen | putHandles | resetHandles => exact quiet (give_silent _ _)
  | read => exact quiet (await_silent m _ rfl)

theorem receive_logs (n : Machine) (text : String) (after : After) :
    ∃ crossings, (n.receive text after).Logs n.session crossings ∧
      crossings.filterMap Crossing.incoming?
        = (if n.session.phase = .closed then none else some text).toList := by
  unfold receive
  split
  · exact ⟨_, .silent ((conclude_silent n after).noticed _), rfl⟩
  · refine ⟨_, .heard text ?_, rfl⟩
    split
    · exact (conclude_silent n after).noticed _
    · exact deliver_silent n _ after

theorem step_silent {m : Machine} {input : Input} (textless : m.incoming? input = none)
    (answers : ∀ operation, input ≠ .start operation) : (m.step input).Silent := by
  have idle : Silent ⟨m, []⟩ := fun emission mem => nomatch mem
  cases waited : m.stack with
  | nil =>
    cases input with
    | start operation => exact absurd rfl (answers operation)
    | _ =>
      simp only [step, waited]
      exact idle
  | cons waiting rest =>
    have pulls : ∀ text, waiting = .pulling → input ≠ .pulled (.frame text) := by
      rintro text rfl rfl
      rw [incoming?, waited] at textless
      cases textless
    cases input with
    | start operation => exact absurd rfl (answers operation)
    | _ =>
      simp only [step, waited]
      split
      · rename_i turn given
        exact answer_silent _ given pulls
      · exact idle

/-- Every step writes to the log what crosses the wire in it. -/
theorem step_logs (m : Machine) (input : Input) :
    (m.step input).Logs m.session (m.crossings input) := by
  suffices step : ∃ crossings, (m.step input).Logs m.session crossings ∧
      crossings.filterMap Crossing.incoming? = (m.heard input).toList by
    obtain ⟨crossings, logs, same⟩ := step
    have all := logs.crossings_eq
    rw [same] at all
    exact (show crossings = m.crossings input from all) ▸ logs
  cases incoming : m.incoming? input with
  | some text =>
    obtain ⟨after, taken⟩ := step_of_incoming incoming
    rw [taken, heard, incoming]
    exact receive_logs ⟨m.session, m.base input⟩ text after
  | none =>
    have unheard : m.heard input = none := by
      unfold heard
      rw [incoming, ite_self]
    rw [unheard]
    cases input with
    | start operation =>
      refine start_logs m ?_
      rintro text rfl
      cases incoming
    | _ => exact ⟨_, .silent (step_silent incoming nofun), rfl⟩

end Machine

/-! ## The log of a run -/

variable {m : Machine} {input : Input}

theorem Work.transcript_eq {s t : Session} {hand next : Hand} {es : List Emission}
    (work : Work m input s hand es t next) : t.transcript = s.transcript := by
  cases work with
  | responded received decoded pending =>
    rename_i frame call
    obtain ⟨context, handles, absorbed, -⟩ := Machine.absorb_eq
      (m.session.removeCall frame.id) frame (m.session.isStale call)
    rw [absorbed]
    rfl
  | _ => rfl

theorem Ends.transcript_eq {s t : Session} {hand : Hand} {es : List Emission}
    {waiting : Option Waiting} (last : Ends m input s hand es t waiting) :
    t.transcript = s.transcript := by
  cases last <;> rfl

theorem Works.transcript_eq {base : List Waiting} {s : Session} {hand : Hand} {turn : Turn}
    (works : Works m input base s hand turn) :
    turn.machine.session.transcript = s.transcript := by
  induction works with
  | ends last => exact last.transcript_eq
  | work first rest ih => exact ih.trans first.transcript_eq

namespace Machine

theorem transcript_step (m : Machine) (input : Input) :
    (m.step input).machine.session.transcript = m.session.transcript := by
  rcases step_works m input with idle | works
  · rw [idle]
  · exact works.transcript_eq

theorem transcript_run (m : Machine) (inputs : List Input) :
    (m.after inputs).session.transcript = m.session.transcript := by
  induction inputs generalizing m with
  | nil => rfl
  | cons input inputs ih => exact (ih _).trans (m.transcript_step input)

theorem logLines_run {m : Machine} (on : m.session.transcript = .on) (inputs : List Input) :
    logLines (m.emitted inputs) = (m.traffic inputs).map Crossing.line := by
  induction inputs generalizing m with
  | nil => rfl
  | cons input inputs ih =>
    rw [emitted_cons, logLines_append, (m.step_logs input).logLines_eq on,
      ih ((m.transcript_step input).trans on), traffic, List.map_append]

theorem outgoing_crossings (m : Machine) (input : Input) :
    (m.crossings input).filterMap Crossing.outgoing? = handedFrames (m.step input).emitted := by
  have inward : ((m.heard input).toList.map Crossing.incoming).filterMap Crossing.outgoing?
      = [] := by
    cases m.heard input <;> rfl
  rw [crossings, List.filterMap_append, inward, List.nil_append, List.filterMap_map]
  exact List.filterMap_some

theorem incoming_crossings (m : Machine) (input : Input) :
    (m.crossings input).filterMap Crossing.incoming? = (m.heard input).toList := by
  have outward (frames : List String) :
      (frames.map Crossing.outgoing).filterMap Crossing.incoming? = [] := by
    rw [List.filterMap_map]
    exact List.filterMap_eq_nil_iff.2 fun _ _ => rfl
  rw [crossings, List.filterMap_append, outward, List.append_nil, List.filterMap_map]
  exact List.filterMap_some

theorem outgoing_traffic (m : Machine) (inputs : List Input) :
    (m.traffic inputs).filterMap Crossing.outgoing? = handedFrames (m.emitted inputs) := by
  induction inputs generalizing m with
  | nil => rfl
  | cons input inputs ih =>
    rw [traffic, List.filterMap_append, outgoing_crossings, ih, emitted_cons, handedFrames_append]

theorem incoming_traffic (m : Machine) (inputs : List Input) :
    (m.traffic inputs).filterMap Crossing.incoming? = m.hearings inputs := by
  induction inputs generalizing m with
  | nil => rfl
  | cons input inputs ih => rw [traffic, List.filterMap_append, incoming_crossings, ih, hearings]

structure Transcribes (m : Machine) (input : Input) : Prop where
  /-- A frame is handed over right after its line, and nothing else is done in the step. -/
  handed : ∀ id frame, .request (.transmit id frame) ∈ (m.step input).emitted →
    ∃ notice, (m.step input).emitted = [.notice notice,
      .transcribed (Crossing.outgoing frame).line, .request (.transmit id frame)]
  /-- The line of a text comes before all that is done with the text. -/
  heard : ∀ text, m.incoming? input = some text → m.session.phase ≠ .closed →
    ∃ rest, (m.step input).emitted = .transcribed (Crossing.incoming text).line :: rest ∧
      logLines rest = [] ∧ handedFrames rest = []
  dropped : ∀ text, m.incoming? input = some text → m.session.phase = .closed →
    logLines (m.step input).emitted = []
  /-- Only the step that starts an operation rejects it, and a send that is rejected leaves no
  line. -/
  rejected : ∀ error, error.isRejection = true →
    .returned (.failed error) ∈ (m.step input).emitted →
    ∃ operation, input = .start operation ∧
      (operation.sent?.isSome → logLines (m.step input).emitted = [])

theorem handedFrames_of_issuedIds {emitted : List Emission} (none : issuedIds emitted = []) :
    handedFrames emitted = [] := by
  refine List.filterMap_eq_nil_iff.2 fun emission mem => ?_
  have unissued := List.filterMap_eq_nil_iff.1 none emission mem
  unfold Emission.handed?
  split
  · cases unissued
  · rfl

theorem mem_handedFrames {emitted : List Emission} {id : UInt64} {frame : String}
    (mem : .request (.transmit id frame) ∈ emitted) : frame ∈ handedFrames emitted :=
  List.mem_filterMap.2 ⟨_, mem, rfl⟩

end Machine

namespace Turn.Logs

variable {s : Session} {crossings : List Crossing} {turn : Turn}

theorem emitted_of_handed (logs : turn.Logs s crossings) (on : s.transcript = .on) {id : UInt64}
    {frame : String} (mem : .request (.transmit id frame) ∈ turn.emitted) :
    ∃ notice, turn.emitted = [.notice notice, .transcribed (Crossing.outgoing frame).line,
      .request (.transmit id frame)] := by
  have among := Machine.mem_handedFrames mem
  cases logs with
  | silent rest =>
    rw [rest.handedFrames_eq] at among
    cases among
  | heard text rest =>
    rw [Turn.preceded, handedFrames_append, Machine.handedFrames_transcribe,
      rest.handedFrames_eq] at among
    cases among
  | handed notice own frame =>
    rw [Machine.transcribe_of_on on] at mem ⊢
    simp only [List.cons_append, List.nil_append, List.mem_cons, reduceCtorEq, false_or,
      Emission.request.injEq, Request.transmit.injEq, List.not_mem_nil, or_false] at mem
    obtain ⟨rfl, rfl⟩ := mem
    exact ⟨notice, rfl⟩

theorem emitted_of_heard (logs : turn.Logs s crossings) (on : s.transcript = .on) {text : String}
    (heard : crossings.filterMap Crossing.incoming? = [text]) :
    ∃ rest, turn.emitted = .transcribed (Crossing.incoming text).line :: rest ∧
      logLines rest = [] ∧ handedFrames rest = [] := by
  cases logs with
  | silent rest => cases heard
  | heard own rest =>
    cases heard
    rw [Machine.transcribe_of_on on]
    exact ⟨_, rfl, rest.logLines_eq, rest.handedFrames_eq⟩
  | handed notice id frame => cases heard

end Turn.Logs

namespace Machine

theorem step_transcribes {m : Machine} (on : m.session.transcript = .on) (input : Input) :
    m.Transcribes input := by
  have logs := m.step_logs input
  have received := m.incoming_crossings input
  refine ⟨fun id frame => logs.emitted_of_handed on, ?_, ?_, ?_⟩
  · intro text incoming opened
    rw [heard, if_neg opened, incoming] at received
    exact logs.emitted_of_heard on received
  · intro text incoming closed
    obtain ⟨after, taken⟩ := step_of_incoming incoming
    rw [taken, receive, if_pos closed]
    exact ((conclude_silent _ after).noticed _).logLines_eq
  · intro error rejection returned
    obtain ⟨operation, rfl⟩ := start_of_rejection returned rejection
    refine ⟨operation, rfl, fun sends => ?_⟩
    -- Nothing comes in with a send, and a step that returns hands nothing over.
    have unheard : m.heard (.start operation) = none := by
      cases operation with
      | send | sendAndInvalidate => exact ite_self _
      | _ => cases sends
    have withheld : handedFrames (m.step (.start operation)).emitted = [] :=
      handedFrames_of_issuedIds (issues_nothing_of_returned returned)
    rw [logs.logLines_eq on, crossings, unheard, withheld]
    rfl

/-- The log of a run is its traffic, entry by entry: each frame when it is handed to the transport
and each text that comes in before the close. This holds from any state on, with everything that
user code, handlers and the transport do in between. -/
theorem transcript_records_traffic {m : Machine} (on : m.session.transcript = .on)
    (inputs : List Input) :
    logText (m.emitted inputs) = String.join ((m.traffic inputs).map Crossing.line) ∧
    (m.traffic inputs).filterMap Crossing.outgoing? = handedFrames (m.emitted inputs) ∧
    (m.traffic inputs).filterMap Crossing.incoming? = m.hearings inputs ∧
    ∀ before input rest, inputs = before ++ input :: rest → (m.after before).Transcribes input := by
  refine ⟨?_, m.outgoing_traffic inputs, m.incoming_traffic inputs, ?_⟩
  · rw [logText, logLines_run on]
  · rintro before input rest -
    exact step_transcribes ((m.transcript_run before).trans on) input

/-- A transport that brings a text while it takes a frame, a close, and what comes too late. -/
def crossedRun : List Input :=
  [.start (.send ⟨"version", none, none⟩ none), .start (.receive "noise"), .accepted,
    .start (.close "done"), .done, .done, .start (.receive "late"),
    .start (.send ⟨"version", none, none⟩ none)]

theorem transcript_records_traffic_crossed :
    (initial .default Catalog.registry .on).session.transcript = .on ∧
    logText ((initial .default Catalog.registry .on).emitted crossedRun)
      = "-> \x7b\"command\":\"version\",\"seq\":1,\"type\":\"request\"\x7d\n<- noise\n" ∧
    handedFrames ((initial .default Catalog.registry .on).emitted crossedRun)
      = ["\x7b\"command\":\"version\",\"seq\":1,\"type\":\"request\"\x7d"] ∧
    (initial .default Catalog.registry .on).hearings crossedRun = ["noise"] := by
  obtain ⟨text, outgoing, incoming, -⟩ :=
    transcript_records_traffic (rfl : (initial .default Catalog.registry .on).session.transcript = .on)
      crossedRun
  rw [text, ← outgoing, ← incoming]
  exact ⟨rfl, by decide, by decide, by decide⟩

end Machine

end DebugLink
