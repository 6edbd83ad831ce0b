import DebugLink.Proofs.Session.Completion
import DebugLink.Proofs.Session.Response
import DebugLink.Proofs.Session.Routing

/-!
# Taking in one frame

While user code leaves the session alone, a frame takes at most one call out of the table, the one
that it answers, and asks at most one callback or handler to run. All that a frame changes in the
session is changed by the step that takes it in; what user code answers changes nothing more.
-/

set_option autoImplicit false

namespace DebugLink

/-- What a session asks of its surroundings, beside telling its listener. -/
def Emission.asked? : Emission → Option Request
  | .request (.status ..) => none
  | .request asked => some asked
  | _ => none

def asked (emitted : List Emission) : List Request :=
  emitted.filterMap Emission.asked?

theorem asked_append (xs ys : List Emission) : asked (xs ++ ys) = asked xs ++ asked ys :=
  List.filterMap_append

theorem asked_notices (notices : List Notice) : asked (notices.map .notice) = [] := by
  rw [asked, List.filterMap_map]
  exact List.filterMap_eq_nil_iff.2 fun _ _ => rfl

theorem issuedIds_of_asked {emitted : List Emission}
    (none : ∀ id frame, Request.transmit id frame ∉ asked emitted) : issuedIds emitted = [] := by
  refine List.filterMap_eq_nil_iff.2 fun emission mem => ?_
  unfold Emission.issued?
  split
  · have requested : Request.transmit _ _ ∈ asked emitted := List.mem_filterMap.2 ⟨_, mem, rfl⟩
    exact absurd requested (none _ _)
  · rfl

theorem asked_transcribe (m : Machine) (direction text : String) :
    asked (m.transcribe direction text) = [] := by
  unfold Machine.transcribe
  cases m.session.transcript <;> rfl

@[simp] theorem asked_status (listener : Nat) (status : BusyStatus) :
    asked [.request (.status listener status)] = [] := rfl

@[simp] theorem asked_complete (id : UInt64) (outcome : Except CallFailure Reply) :
    asked [.request (Request.complete id outcome)] = [Request.complete id outcome] := by
  cases outcome <;> rfl

/-- An operation is followed by answers to its own requests only: nothing else is started, and no
wait below it is answered. -/
structure Machine.Undisturbed (m : Machine) (operation : Operation) (body : List Input) : Prop where
  alone : ∀ input ∈ body, ∀ other, input ≠ .start other
  running : ∀ before input rest, body = before ++ input :: rest →
    m.stack.length < ((m.step (.start operation)).machine.after before).stack.length

/-! ## What a frame makes of a session -/

namespace Session

def Reads (session : Session) (text : String) (incoming : Incoming) : Prop :=
  ∃ raw, Json.parse? text = some raw ∧
    (session.dialect.classify session.binder raw).result = .ok incoming

def answered? (session : Session) (text : String) : Option UInt64 :=
  (Json.parse? text).bind (session.dialect.answeredId? session.binder)

inductive Consumes (s : Session) (text : String) : Session → (Request → Prop) → Prop where
  | dropped : Consumes s text s fun _ => False
  | response {frame : ResponseFrame} {call : PendingCall} (read : s.Reads text (.response frame))
      (pending : s.call? frame.id = some call) :
      Consumes s text (Machine.absorb (s.removeCall frame.id) frame (s.isStale call))
        fun request => ∃ outcome, request = .complete frame.id outcome
  | undecodable {raw : Json} {error : FrameError} {id : UInt64} {call : PendingCall}
      (parsed : Json.parse? text = some raw)
      (refused : (s.dialect.classify s.binder raw).result = .error error)
      (addressed : s.dialect.responseId? raw = some id) (pending : s.call? id = some call) :
      Consumes s text (s.removeCall id) fun request => ∃ outcome, request = .complete id outcome
  | event {frame : EventFrame} (read : s.Reads text (.event frame)) :
      Consumes s text (Machine.applyEvent s frame.name).1 fun request =>
        ∃ processor event, s.processor? frame.name = some processor ∧ event.name = frame.name ∧
          request = .handle processor.handler event

variable {s : Session} {text : String}

theorem removeCall_split {id : UInt64} {call : PendingCall} (pending : s.call? id = some call) :
    ∃ earlier later, s.calls = earlier ++ call :: later ∧
      (s.removeCall id).calls = earlier ++ later := by
  obtain ⟨named, earlier, later, split, others⟩ := List.find?_eq_some_iff_append.1 pending
  refine ⟨earlier, later, split, ?_⟩
  have past : ∀ other ∈ earlier, ¬ (other.id == id) = true := by simpa using others
  have erased : (call :: later).eraseP (·.id == id) = later := List.eraseP_cons_of_pos named
  simp only [removeCall, split]
  rw [List.eraseP_append_right _ past, erased]

theorem Reads.unique {first second : Incoming} (one : s.Reads text first)
    (other : s.Reads text second) : first = second := by
  obtain ⟨raw, parsed, decoded⟩ := one
  obtain ⟨raw', parsed', decoded'⟩ := other
  cases parsed.symm.trans parsed'
  exact Except.ok.inj (decoded.symm.trans decoded')

theorem Reads.answered? {frame : ResponseFrame} (read : s.Reads text (.response frame)) :
    s.answered? text = some frame.id := by
  obtain ⟨raw, parsed, decoded⟩ := read
  simp only [Session.answered?, parsed, Option.bind_some, Dialect.answeredId?, decoded]

theorem answered?_of_event {frame : EventFrame} (read : s.Reads text (.event frame)) :
    s.answered? text = none := by
  obtain ⟨raw, parsed, decoded⟩ := read
  simp only [answered?, parsed, Option.bind_some, Dialect.answeredId?, decoded]

theorem answered?_of_refused {raw : Json} {error : FrameError}
    (parsed : Json.parse? text = some raw)
    (refused : (s.dialect.classify s.binder raw).result = .error error) :
    s.answered? text = s.dialect.responseId? raw := by
  simp only [answered?, parsed, Option.bind_some, Dialect.answeredId?, refused]

theorem response_or_refused_of_answered? {id : UInt64} (answers : s.answered? text = some id) :
    (∃ frame, s.Reads text (.response frame) ∧ frame.id = id) ∨
      ∃ raw error, Json.parse? text = some raw ∧
        (s.dialect.classify s.binder raw).result = .error error ∧
        s.dialect.responseId? raw = some id := by
  obtain ⟨raw, parsed, answers⟩ := Option.bind_eq_some_iff.1 answers
  unfold Dialect.answeredId? at answers
  split at answers
  · exact .inl ⟨_, ⟨raw, parsed, ‹_›⟩, Option.some.inj answers⟩
  · cases answers
  · exact .inr ⟨raw, _, parsed, ‹_›, answers⟩

theorem applyEvent_eq (s : Session) (name : String) :
    ∃ context handles,
      (Machine.applyEvent s name).1 = { s with context := context, handles := handles } := by
  unfold Machine.applyEvent
  cases s.dialect.eventLifecycle? name with
  | none => exact ⟨s.context, s.handles, rfl⟩
  | some lifecycle => cases lifecycle <;> exact ⟨_, _, rfl⟩

end Session

/-! ## Going on after a frame has been taken in -/

/-- A machine that is taking in a frame above the waits `base`: the session is `s` from now on, and
so many requests may still be made of user code. -/
inductive Machine.Settling (s : Session) (base : List Waiting) (asks : Request → Prop) :
    Nat → Machine → Prop where
  | ended : Settling s base asks 0 ⟨s, base⟩
  | running (label : String) : Settling s base asks 0 ⟨s, .completing label .finish :: base⟩
  | toldOfResponse (call : PendingCall) (outcome : Except RemoteError Json) (stale : Bool)
      (completes : ∀ outcome, asks (.complete call.id outcome)) :
      Settling s base asks 1 ⟨s, .announcedResponse call outcome stale .finish :: base⟩
  | toldOfMalformed (call : PendingCall) (failure : CallFailure)
      (completes : ∀ outcome, asks (.complete call.id outcome)) :
      Settling s base asks 1 ⟨s, .announcedMalformed call failure .finish :: base⟩

/-- A turn after which a frame is still being taken in, with requests within a limit. -/
def Turn.Settles (turn : Turn) (s : Session) (base : List Waiting) (asks : Request → Prop)
    (limit : Nat) : Prop :=
  ∃ left, turn.machine.Settling s base asks left ∧
    (asked turn.emitted).length + left ≤ limit ∧ ∀ request ∈ asked turn.emitted, asks request

namespace Turn.Settles

variable {turn : Turn} {s : Session} {base : List Waiting} {asks : Request → Prop} {limit : Nat}

theorem preceded (settles : turn.Settles s base asks limit) {emissions : List Emission}
    (silent : asked emissions = []) : (turn.preceded emissions).Settles s base asks limit := by
  obtain ⟨left, settling, few, sorted⟩ := settles
  have same : asked (turn.preceded emissions).emitted = asked turn.emitted := by
    rw [Turn.preceded, asked_append, silent, List.nil_append]
  exact ⟨left, settling, by rwa [same], by rwa [same]⟩

theorem noticed (settles : turn.Settles s base asks limit) (notices : List Notice) :
    (turn.noticed notices).Settles s base asks limit :=
  settles.preceded (asked_notices notices)

theorem conclude : (Machine.conclude ⟨s, base⟩ .finish).Settles s base asks limit :=
  ⟨0, .ended, Nat.zero_le limit, by simp [Machine.conclude, Machine.give, asked, Emission.asked?]⟩

theorem run (label : String) {request : Request}
    (single : asked [.request request] = [request]) (sort : asks request) :
    (Machine.await ⟨s, base⟩ (.completing label .finish) request).Settles s base asks 1 := by
  refine ⟨0, .running label, ?_, ?_⟩
  · simp [Machine.await, single]
  · intro other mem
    rw [Machine.await, single, List.mem_singleton] at mem
    rwa [mem]

theorem announce {waiting : Waiting} {next : Machine → Turn}
    (told : Machine.Settling s base asks limit ⟨s, waiting :: base⟩)
    (untold : (next ⟨s, base⟩).Settles s base asks limit) :
    (Machine.announce ⟨s, base⟩ waiting next).Settles s base asks limit := by
  rcases Machine.announce_cases ⟨s, base⟩ waiting next with direct | ⟨listener, asksFirst⟩
  · rwa [direct]
  · rw [asksFirst]
    exact ⟨limit, told, by simp [Machine.await], by simp [Machine.await]⟩

theorem completeResponse {call : PendingCall} (outcome : Except RemoteError Json) (stale : Bool)
    (completes : ∀ outcome, asks (.complete call.id outcome)) :
    (Machine.completeResponse ⟨s, base⟩ call outcome stale .finish).Settles s base asks 1 := by
  cases stale with
  | true => exact conclude.preceded rfl
  | false =>
    obtain ⟨log, timely⟩ := Machine.completeResponse_timely ⟨s, base⟩ call outcome .finish
    rw [timely]
    exact (run call.command (asked_complete _ _) (completes _)).noticed _

theorem completeMalformed {call : PendingCall} (failure : CallFailure)
    (completes : ∀ outcome, asks (.complete call.id outcome)) :
    (Machine.completeMalformed ⟨s, base⟩ call failure .finish).Settles s base asks 1 := by
  unfold Machine.completeMalformed
  split
  · exact conclude.preceded rfl
  · exact (run call.command rfl (completes (.error failure))).noticed _

end Turn.Settles

namespace Machine.Settling

variable {m : Machine} {s : Session} {base : List Waiting} {asks : Request → Prop} {left : Nat}

theorem session_eq (settling : m.Settling s base asks left) : m.session = s := by
  cases settling <;> rfl

theorem step {input : Input} (settling : m.Settling s base asks left)
    (running : base.length < m.stack.length) (answer : ∀ operation, input ≠ .start operation) :
    (m.step input).Settles s base asks left := by
  have idle : Turn.Settles ⟨m, []⟩ s base asks left := ⟨left, settling, by simp [asked], nofun⟩
  cases settling with
  | ended => exact absurd running (Nat.lt_irrefl _)
  | running label =>
    cases input with
    | start operation => exact absurd rfl (answer operation)
    | done => exact .conclude
    | crashed => exact Turn.Settles.conclude.noticed _
    | accepted | refused | pulled => exact idle
  | toldOfResponse call outcome stale completes =>
    cases input with
    | start operation => exact absurd rfl (answer operation)
    | done => exact .completeResponse outcome stale completes
    | crashed => exact ⟨0, .ended, Nat.zero_le 1, nofun⟩
    | accepted | refused | pulled => exact idle
  | toldOfMalformed call failure completes =>
    cases input with
    | start operation => exact absurd rfl (answer operation)
    | done => exact .completeMalformed failure completes
    | crashed => exact ⟨0, .ended, Nat.zero_le 1, nofun⟩
    | accepted | refused | pulled => exact idle

theorem run {body : List Input} (settling : m.Settling s base asks left)
    (alone : ∀ input ∈ body, ∀ operation, input ≠ .start operation)
    (running : ∀ before input rest, body = before ++ input :: rest →
      base.length < (m.after before).stack.length) :
    (m.run body).Settles s base asks left := by
  induction body generalizing m left with
  | nil => exact ⟨left, settling, by simp [Machine.run, asked], nofun⟩
  | cons input body ih =>
    obtain ⟨next, stays, few, sorted⟩ :=
      settling.step (running [] input body rfl) (alone input List.mem_cons_self)
    obtain ⟨last, ends, fewer, others⟩ :=
      ih stays (fun other mem => alone other (List.mem_cons_of_mem input mem))
        fun before other rest split => running (input :: before) other rest (by rw [split]; rfl)
    have split : asked (m.run (input :: body)).emitted
        = asked (m.step input).emitted ++ asked ((m.step input).machine.run body).emitted :=
      asked_append _ _
    refine ⟨last, ends, ?_, ?_⟩
    · rw [split, List.length_append]
      omega
    · intro request mem
      rw [split] at mem
      rcases List.mem_append.1 mem with now | later
      · exact sorted request now
      · exact others request later

end Machine.Settling

/-! ## The step that takes a frame in -/

namespace Machine

variable {text : String}

theorem deliverResponse_consumes (n : Machine) {frame : ResponseFrame}
    (read : n.session.Reads text (.response frame)) :
    ∃ s asks, n.session.Consumes text s asks ∧
      (n.deliverResponse frame .finish).Settles s n.stack asks 1 := by
  unfold deliverResponse
  cases pending : n.session.call? frame.id with
  | none =>
    exact ⟨_, _, .dropped, Turn.Settles.conclude.noticed _⟩
  | some call =>
    refine ⟨_, _, .response read pending, Turn.Settles.noticed ?_ _⟩
    have named := (Session.call?_eq_some pending).2
    have completes : ∀ outcome, ∃ other, Request.complete call.id outcome
        = .complete frame.id other := fun outcome => ⟨outcome, by rw [named]⟩
    exact .announce (.toldOfResponse call frame.outcome _ completes)
      (.completeResponse frame.outcome _ completes)

theorem deliverMalformed_consumes (n : Machine) {raw : Json} {error : FrameError} {id : UInt64}
    (parsed : Json.parse? text = some raw)
    (refused : (n.session.dialect.classify n.session.binder raw).result = .error error)
    (addressed : n.session.dialect.responseId? raw = some id) :
    ∃ s asks, n.session.Consumes text s asks ∧
      (n.deliverMalformed id error .finish).Settles s n.stack asks 1 := by
  unfold deliverMalformed
  cases failureOf? error with
  | none =>
    exact ⟨_, _, .dropped, Turn.Settles.conclude.noticed _⟩
  | some failure =>
    cases pending : n.session.call? id with
    | none =>
      exact ⟨_, _, .dropped, Turn.Settles.conclude.noticed _⟩
    | some call =>
      refine ⟨_, _, .undecodable parsed refused addressed pending, ?_⟩
      have named := (Session.call?_eq_some pending).2
      have completes : ∀ outcome, ∃ other, Request.complete call.id outcome
          = .complete id other := fun outcome => ⟨outcome, by rw [named]⟩
      exact .announce (.toldOfMalformed call failure completes)
        (.completeMalformed failure completes)

theorem routeEvent_settles (n : Machine) (frame : EventFrame) :
    (n.routeEvent frame .finish).Settles n.session n.stack (fun request =>
      ∃ processor event, n.session.processor? frame.name = some processor ∧
        event.name = frame.name ∧ request = .handle processor.handler event) 1 := by
  unfold routeEvent
  cases found : n.session.processor? frame.name with
  | none => exact Turn.Settles.conclude.noticed _
  | some processor =>
    apply Turn.Settles.noticed
    split
    · exact .run frame.name rfl ⟨processor, _, rfl, rfl, rfl⟩
    · exact Turn.Settles.conclude.noticed _

theorem deliverEvent_consumes (n : Machine) {frame : EventFrame}
    (read : n.session.Reads text (.event frame)) :
    ∃ s asks, n.session.Consumes text s asks ∧
      (n.deliverEvent frame .finish).Settles s n.stack asks 1 := by
  obtain ⟨context, handles, applied⟩ := n.session.applyEvent_eq frame.name
  have same : (applyEvent n.session frame.name).1.processor? frame.name
      = n.session.processor? frame.name := by
    rw [applied]
    rfl
  have routed := routeEvent_settles ⟨(applyEvent n.session frame.name).1, n.stack⟩ frame
  simp only [same] at routed
  exact ⟨_, _, .event read, routed.noticed _⟩

theorem receive_consumes (n : Machine) (text : String) (opened : n.session.phase ≠ .closed) :
    ∃ s asks, n.session.Consumes text s asks ∧
      (n.receive text .finish).Settles s n.stack asks 1 := by
  have dropped : ∀ notices, ((n.conclude .finish).noticed notices).Settles n.session n.stack
      (fun _ => False) 1 :=
    fun notices => Turn.Settles.conclude.noticed notices
  unfold receive
  rw [if_neg opened]
  cases parsed : Json.parse? text with
  | none => exact ⟨_, _, .dropped, (dropped _).preceded (asked_transcribe n _ _)⟩
  | some raw =>
    have delivered : ∃ s asks, n.session.Consumes text s asks ∧
        (n.deliver raw .finish).Settles s n.stack asks 1 := by
      unfold deliver
      have same : (n.session.dialect.classify n.session.binder raw).result
        = (n.session.dialect.classify n.session.binder raw).run.value := rfl
      cases classified : (n.session.dialect.classify n.session.binder raw).run.value with
      | ok incoming =>
        cases incoming with
        | response frame =>
          obtain ⟨s, asks, consumes, settles⟩ :=
            n.deliverResponse_consumes ⟨raw, parsed, same.trans classified⟩
          exact ⟨s, asks, consumes, by simp only [classified]; exact settles.noticed _⟩
        | event frame =>
          obtain ⟨s, asks, consumes, settles⟩ :=
            n.deliverEvent_consumes ⟨raw, parsed, same.trans classified⟩
          exact ⟨s, asks, consumes, by simp only [classified]; exact settles.noticed _⟩
      | error error =>
        simp only [classified]
        cases addressed : n.session.dialect.responseId? raw with
        | none => exact ⟨_, _, .dropped, (dropped _).noticed _⟩
        | some id =>
          obtain ⟨s, asks, consumes, settles⟩ :=
            n.deliverMalformed_consumes parsed (same.trans classified) addressed
          exact ⟨s, asks, consumes, settles.noticed _⟩
    obtain ⟨s, asks, consumes, settles⟩ := delivered
    exact ⟨s, asks, consumes, settles.preceded (asked_transcribe n _ _)⟩

end Machine

/-! ## What a frame can do -/

structure Session.FrameEffect (before : Session) (text : String) (after : Session)
    (requests : List Request) : Prop where
  kept : after = { before with
    calls := after.calls, context := after.context, handles := after.handles }
  /-- At most one call leaves the table, the one that the frame answers. -/
  calls : after.calls = before.calls ∨
    ∃ earlier call later, before.calls = earlier ++ call :: later ∧
      after.calls = earlier ++ later ∧ before.answered? text = some call.id
  /-- At most one callback or handler runs. -/
  asked : requests = [] ∨
    (∃ id outcome, requests = [.complete id outcome] ∧ before.answered? text = some id) ∨
    ∃ handler event, requests = [.handle handler event]
  event : ∀ frame, before.Reads text (.event frame) → after.calls = before.calls ∧
    ∀ request ∈ requests, ∃ (processor : Processor) (event : Event),
      before.processor? frame.name = some processor ∧ event.name = frame.name ∧
        request = .handle processor.handler event
  response : ∀ frame, before.Reads text (.response frame) →
    ∀ handler event, .handle handler event ∉ requests
  malformed : Json.parse? text = none → after = before ∧ requests = []
  unaddressed : ∀ raw error, Json.parse? text = some raw →
    (before.dialect.classify before.binder raw).result = .error error →
    before.dialect.responseId? raw = none → after = before ∧ requests = []
  unknown : ∀ id, before.answered? text = some id → before.isPending id = false →
    after = before ∧ requests = []

namespace Session.Consumes

variable {s t : Session} {text : String} {asks : Request → Prop}

theorem kept (consumes : s.Consumes text t asks) :
    t = { s with calls := t.calls, context := t.context, handles := t.handles } := by
  cases consumes with
  | dropped | undecodable => rfl
  | response read pending =>
    rename_i frame call
    obtain ⟨context, handles, absorbed, -⟩ :=
      Machine.absorb_eq (s.removeCall frame.id) frame (s.isStale call)
    rw [absorbed]
    rfl
  | event read =>
    rename_i frame
    obtain ⟨context, handles, applied⟩ := s.applyEvent_eq frame.name
    rw [applied]

theorem calls_eq (consumes : s.Consumes text t asks) :
    t.calls = s.calls ∨ ∃ id call, s.answered? text = some id ∧ s.call? id = some call ∧
      t.calls = (s.removeCall id).calls := by
  cases consumes with
  | dropped => exact .inl rfl
  | response read pending =>
    exact .inr ⟨_, _, read.answered?, pending, Machine.absorb_calls ..⟩
  | undecodable parsed refused addressed pending =>
    exact .inr ⟨_, _, (answered?_of_refused parsed refused).trans addressed, pending, rfl⟩
  | event read =>
    rename_i frame
    obtain ⟨context, handles, applied⟩ := s.applyEvent_eq frame.name
    exact .inl (by rw [applied])

theorem active (consumes : s.Consumes text t asks) :
    (t = s ∧ ∀ request, ¬ asks request) ∨ (∃ frame, s.Reads text (.event frame)) ∨
      ∃ id, s.answered? text = some id ∧ s.isPending id = true := by
  cases consumes with
  | dropped => exact .inl ⟨rfl, fun _ => id⟩
  | response read pending =>
    exact .inr (.inr ⟨_, read.answered?, Option.isSome_iff_exists.2 ⟨_, pending⟩⟩)
  | undecodable parsed refused addressed pending =>
    exact .inr (.inr ⟨_, (answered?_of_refused parsed refused).trans addressed,
      Option.isSome_iff_exists.2 ⟨_, pending⟩⟩)
  | event read => exact .inr (.inl ⟨_, read⟩)

theorem asks_cases (consumes : s.Consumes text t asks) {request : Request} (asked : asks request) :
    (∃ id outcome, request = .complete id outcome ∧ s.answered? text = some id) ∨
      ∃ (frame : EventFrame) (processor : Processor) (event : Event), s.Reads text (.event frame) ∧
        s.processor? frame.name = some processor ∧ event.name = frame.name ∧
        request = .handle processor.handler event := by
  cases consumes with
  | dropped => cases asked
  | response read pending =>
    obtain ⟨outcome, same⟩ := asked
    exact .inl ⟨_, outcome, same, read.answered?⟩
  | undecodable parsed refused addressed pending =>
    obtain ⟨outcome, same⟩ := asked
    exact .inl ⟨_, outcome, same, (answered?_of_refused parsed refused).trans addressed⟩
  | event read =>
    obtain ⟨processor, event, found, named, same⟩ := asked
    exact .inr ⟨_, processor, event, read, found, named, same⟩

theorem effect {requests : List Request} (consumes : s.Consumes text t asks)
    (few : requests.length ≤ 1) (sorted : ∀ request ∈ requests, asks request) :
    s.FrameEffect text t requests := by
  have idle : (∀ frame, ¬ s.Reads text (.event frame)) →
      (∀ id, s.answered? text = some id → s.isPending id = false) → t = s ∧ requests = [] := by
    intro noEvent noCall
    rcases consumes.active with ⟨same, silent⟩ | ⟨frame, read⟩ | ⟨id, answers, pending⟩
    · exact ⟨same, List.eq_nil_iff_forall_not_mem.2 fun request mem =>
        silent request (sorted request mem)⟩
    · exact absurd read (noEvent frame)
    · cases pending.symm.trans (noCall id answers)
  refine ⟨consumes.kept, ?calls, ?asked, ?event, ?response, ?malformed, ?unaddressed, ?unknown⟩
  case calls =>
    rcases consumes.calls_eq with same | ⟨id, call, answers, pending, removed⟩
    · exact .inl same
    · obtain ⟨earlier, later, split, rest⟩ := removeCall_split pending
      rw [(call?_eq_some pending).2.symm] at answers
      exact .inr ⟨earlier, call, later, split, removed.trans rest, answers⟩
  case asked =>
    match requests, few with
    | [], _ => exact .inl rfl
    | [request], _ =>
      rcases consumes.asks_cases (sorted request List.mem_cons_self) with
        ⟨id, outcome, rfl, answers⟩ | ⟨frame, processor, event, -, -, -, rfl⟩
      · exact .inr (.inl ⟨id, outcome, rfl, answers⟩)
      · exact .inr (.inr ⟨_, event, rfl⟩)
  case event =>
    intro frame read
    have none := answered?_of_event read
    constructor
    · rcases consumes.calls_eq with same | ⟨id, call, answers, -⟩
      · exact same
      · cases answers.symm.trans none
    · intro request mem
      rcases consumes.asks_cases (sorted request mem) with
        ⟨id, outcome, -, answers⟩ | ⟨other, processor, event, readOther, found, named, same⟩
      · cases answers.symm.trans none
      · cases read.unique readOther
        exact ⟨processor, event, found, named, same⟩
  case response =>
    intro frame read handler event mem
    rcases consumes.asks_cases (sorted _ mem) with
      ⟨id, outcome, same, -⟩ | ⟨other, processor, event, readOther, -⟩
    · cases outcome <;> cases same
    · cases read.unique readOther
  case malformed =>
    intro unparsed
    refine idle ?_ ?_
    · rintro frame ⟨raw, parsed, -⟩
      cases parsed.symm.trans unparsed
    · intro id answers
      rw [answered?, unparsed] at answers
      cases answers
  case unaddressed =>
    intro raw error parsed refused unaddressed
    have none := (answered?_of_refused parsed refused).trans unaddressed
    refine idle ?_ fun id answers => by cases answers.symm.trans none
    rintro frame ⟨other, parsedOther, decoded⟩
    cases parsed.symm.trans parsedOther
    cases decoded.symm.trans refused
  case unknown =>
    intro id answers unpending
    refine idle ?_ ?_
    · intro frame read
      cases answers.symm.trans (answered?_of_event read)
    · intro other answersOther
      cases answers.symm.trans answersOther
      exact unpending

end Session.Consumes

namespace Machine

variable {m : Machine} {text : String} {body : List Input}

/-- A frame that a session takes in while user code leaves the session alone has an effect of the
listed kinds, however its requests are answered. -/
theorem effect_of_undisturbed (opened : m.session.phase ≠ .closed)
    (undisturbed : m.Undisturbed (.receive text) body) :
    m.session.FrameEffect text (m.after (.start (.receive text) :: body)).session
      (asked (m.emitted (.start (.receive text) :: body))) := by
  obtain ⟨s, asks, consumes, left, settling, few, sorted⟩ := m.receive_consumes text opened
  obtain ⟨last, ends, fewer, others⟩ := settling.run undisturbed.alone undisturbed.running
  have split : asked (m.emitted (.start (.receive text) :: body))
      = asked (m.receive text .finish).emitted
        ++ asked ((m.receive text .finish).machine.run body).emitted := asked_append _ _
  have kept : (m.after (.start (.receive text) :: body)).session = s := ends.session_eq
  rw [kept, split]
  refine consumes.effect ?_ ?_
  · rw [List.length_append]
    omega
  · intro request mem
    rcases List.mem_append.1 mem with now | later
    · exact sorted request now
    · exact others request later

/-- One frame touches at most its own call. A connected session that takes in any text is still
connected, has drawn no id and has handed nothing over; the rest is told by its effect. The
processor of an event is the one that was registered last for its name. -/
theorem frame_touches_only_its_call {history : List Input}
    (connected : (m.after history).session.phase = .connected)
    (undisturbed : (m.after history).Undisturbed (.receive text) body) :
    (m.after (history ++ .start (.receive text) :: body)).session.phase = .connected ∧
    (m.after (history ++ .start (.receive text) :: body)).session.sequence
      = (m.after history).session.sequence ∧
    issuedIds ((m.after history).emitted (.start (.receive text) :: body)) = [] ∧
    (m.after history).session.FrameEffect text
      (m.after (history ++ .start (.receive text) :: body)).session
      (asked ((m.after history).emitted (.start (.receive text) :: body))) ∧
    ∀ name, (m.after history).session.processor? name
      = (m.session.binder.registrations history ++ m.session.processors).find?
          (·.event == name) := by
  have effect := effect_of_undisturbed (by simp [connected]) undisturbed
  rw [after_append]
  refine ⟨?_, ?_, ?_, effect, m.processor?_after history⟩
  · rw [effect.kept]
    exact connected
  · rw [effect.kept]
  · refine issuedIds_of_asked fun id frame mem => ?_
    rcases effect.asked with none | ⟨other, outcome, single, -⟩ | ⟨handler, event, single⟩
    · rw [none] at mem
      cases mem
    · rw [single] at mem
      cases outcome <;> cases List.mem_singleton.1 mem
    · rw [single] at mem
      cases List.mem_singleton.1 mem

/-- A call is pending, and two handlers have been registered for the same event. -/
def routedRun : List Input :=
  [.start (.send ⟨"version", none, none⟩ none), .accepted,
    .start (.onEvent "break" "V8BreakBody" 7), .start (.onEvent "break" "V8BreakBody" 8)]

def breakText : String :=
  "\x7b\"event\":\"break\",\"type\":\"event\"\x7d"

theorem frame_touches_only_its_call_break :
    ((initial .default Catalog.registry .off).after
      (routedRun ++ [.start (.receive breakText), .done])).session.phase = .connected ∧
    ((initial .default Catalog.registry .off).after
      (routedRun ++ [.start (.receive breakText), .done])).session.isPending 1 = true ∧
    ∀ request ∈ asked (((initial .default Catalog.registry .off).after routedRun).emitted
        [.start (.receive breakText), .done]),
      ∃ event : Event, event.name = "break" ∧ request = .handle 8 event := by
  have undisturbed : ((initial .default Catalog.registry .off).after routedRun).Undisturbed
      (.receive breakText) [.done] := by
    refine ⟨by simp, ?_⟩
    intro before input rest split
    cases before with
    | nil => decide +kernel
    | cons first before => simp at split
  have read : ((initial .default Catalog.registry .off).after routedRun).session.Reads breakText
      (.event ⟨"break", .null⟩) :=
    ⟨.object [("event", .string "break"), ("type", .string "event")], by rfl, by rfl⟩
  have before : ((initial .default Catalog.registry .off).after routedRun).session.phase
      = .connected := rfl
  obtain ⟨connected, -, -, effect, latest⟩ := frame_touches_only_its_call before undisturbed
  obtain ⟨same, handled⟩ := effect.event _ read
  refine ⟨connected, ?_, ?_⟩
  · rw [Session.isPending, Session.call?, same]
    rfl
  · intro request mem
    obtain ⟨processor, event, found, named, asked⟩ := handled request mem
    have last : processor = ⟨"break", "V8BreakBody", 8⟩ := by
      rw [latest] at found
      exact (Option.some.inj found).symm
    exact ⟨event, named, by rw [asked, last]⟩

end Machine

end DebugLink
