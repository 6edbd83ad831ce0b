import DebugLink.Proofs.Session.Trace

/-!
# What a step can do

A step of a machine begins with what the input or the answered wait puts into its hand: a call
whose send goes on, a call and its response, or the calls that a close has still to fail. It then
works on the session and ends by returning, by breaking down or by waiting again. `Work` and `Ends`
list all that can happen, with its cause; `step_works` says that every step is of this form, so
what a run keeps is told by these lists alone.
-/

set_option autoImplicit false

namespace DebugLink

/-- What a machine holds in its hand in the middle of a step. -/
inductive Hand where
  | nothing
  | sent (id : UInt64)
  /-- A call taken out of the table, and its response. -/
  | response (call : PendingCall) (outcome : Except RemoteError Json) (stale : Bool)
  | undecodable (call : PendingCall) (failure : CallFailure)
  /-- The calls that a close has still to fail. -/
  | drained (reason : String) (calls : List PendingCall)

namespace Waiting

def hand : Waiting → Hand
  | .transmitting call _ => .sent call.id
  | .announcedCall id => .sent id
  | .announcedResponse call outcome stale _ => .response call outcome stale
  | .announcedMalformed call failure _ => .undecodable call failure
  | .draining _ reason rest _ => .drained reason rest
  | .completing .. | .closingTransport _ | .announcedClose _ | .pulling => .nothing

def isAnnouncement : Waiting → Bool
  | .announcedCall _ | .announcedResponse .. | .announcedMalformed .. | .announcedClose _ => true
  | _ => false

end Waiting

def Request.complete (id : UInt64) : Except CallFailure Reply → Request
  | .ok reply => .succeed id reply
  | .error failure => .fail id failure

def Session.settle (session : Session) (call : PendingCall) :
    Except RemoteError Json → Except CallFailure Reply
  | .ok body => (session.reply call body).result
  | .error error => .error (.remote error.code error.message)

def Session.newCall (session : Session) (command : Command) (token : Option ContextToken) :
    PendingCall :=
  ⟨session.sequence.next, command.name, command.result, token⟩

def Session.enter (session : Session) (call : PendingCall) : Session :=
  { session with sequence := session.sequence.draw.2, calls := session.calls ++ [call] }

/-- The command that an operation sends, the token it is tied to, and whether it dismisses the
current token. -/
def Operation.sent? : Operation → Option (Command × Option ContextToken × Bool)
  | .send command token => some (command, token, false)
  | .sendAndInvalidate command _ => some (command, none, true)
  | _ => none

def Notice.isSuspension : Notice → Bool
  | .suspended _ => true
  | _ => false

theorem Session.quiet_of_mem_resumeNotices (session : Session) :
    ∀ notice ∈ session.resumeNotices, notice.isSuspension = false := by
  intro notice mem
  simp only [Session.resumeNotices, Option.mem_toList, Option.map_eq_some_iff] at mem
  obtain ⟨token, -, rfl⟩ := mem
  rfl

namespace Machine

/-- A response touches the handles and the context of a session, and of the context only the
token, which it may dismiss. -/
theorem absorb_eq (session : Session) (frame : ResponseFrame) (stale : Bool) :
    ∃ context handles,
      absorb session frame stale = { session with context := context, handles := handles } ∧
      (context = session.context ∨ context = session.context.resume) := by
  by_cases resumes : session.dialect.responseLifecycle? frame = some .resume
  · cases stale with
    | true => exact ⟨_, _, by rw [absorb, if_pos rfl, if_pos resumes]; rfl, .inr rfl⟩
    | false => exact ⟨_, _, by rw [absorb, if_neg Bool.false_ne_true, if_pos resumes]; rfl, .inr rfl⟩
  · cases stale with
    | true => exact ⟨_, _, by rw [absorb, if_pos rfl, if_neg resumes], .inl rfl⟩
    | false => exact ⟨_, _, by rw [absorb, if_neg Bool.false_ne_true, if_neg resumes], .inl rfl⟩

@[simp] theorem absorb_calls (session : Session) (frame : ResponseFrame) (stale : Bool) :
    (absorb session frame stale).calls = session.calls := by
  obtain ⟨context, handles, absorbed, -⟩ := absorb_eq session frame stale
  rw [absorbed]

def base (m : Machine) : Input → List Waiting
  | .start _ => m.stack
  | _ => m.stack.tail

/-- What a step begins with in its hand. -/
def hand (m : Machine) : Input → Hand
  | .start _ => .nothing
  | _ => (m.stack.head?.map Waiting.hand).getD .nothing

theorem base_subset (m : Machine) (input : Input) : m.base input ⊆ m.stack := by
  cases input with
  | start operation => exact List.Subset.refl _
  | _ => exact (List.tail_sublist _).subset

theorem hand_cases (m : Machine) (input : Input) :
    m.hand input = .nothing ∨ ∃ waiting ∈ m.stack, m.hand input = waiting.hand := by
  cases input with
  | start operation => exact .inl rfl
  | _ =>
    cases waited : m.stack with
    | nil =>
      left
      simp only [hand, waited]
      rfl
    | cons waiting rest =>
      right
      simp only [hand, waited]
      exact ⟨waiting, List.mem_cons_self, rfl⟩

def ReceivesEvent (m : Machine) (input : Input) (frame : EventFrame) : Prop :=
  ∃ raw, m.Receives input raw ∧
    (m.session.dialect.classify m.session.binder raw).result = .ok (.event frame)

inductive Suspends (m : Machine) : Input → Prop where
  | asked : Suspends m (.start .suspend)
  | event {input : Input} {frame : EventFrame} (received : m.ReceivesEvent input frame)
      (lifecycle : m.session.dialect.eventLifecycle? frame.name = some .suspend) : Suspends m input

/-- Why a step forgets the token and the handles, a response and a close apart. -/
inductive Resumes (m : Machine) : Input → Prop where
  | asked : Resumes m (.start .resume)
  | event {input : Input} {frame : EventFrame} (received : m.ReceivesEvent input frame)
      (lifecycle : m.session.dialect.eventLifecycle? frame.name = some .resume) : Resumes m input
  | rejected {command : Command} {token : ContextToken}
      (current : m.session.context.isCurrent token = true)
      (fault : (m.session.sendFault? command).isSome) :
      Resumes m (.start (.sendAndInvalidate command token))
  | transmitted {input : Input} {call : PendingCall} {rest : List Waiting}
      (waited : m.stack = .transmitting call true :: rest) (answered : input ≠ .crashed) :
      Resumes m input

end Machine

variable {m : Machine} {input : Input}

inductive Work (m : Machine) (input : Input) :
    Session → Hand → List Emission → Session → Hand → Prop where
  | noticed {s : Session} {hand : Hand} (notice : Notice) (quiet : notice.isSuspension = false) :
      Work m input s hand [.notice notice] s hand
  | transcribed {s : Session} {hand : Hand} (line : String) :
      Work m input s hand [.transcribed line] s hand
  | suspended {s : Session} (cause : m.Suspends input) :
      Work m input s .nothing [.notice (.suspended s.suspend.1)] s.suspend.2 .nothing
  | resumed {s : Session} {hand : Hand} (cause : m.Resumes input) :
      Work m input s hand [] s.resume hand
  | routed {name type : String} {handler : Nat}
      (asked : input = .start (.onEvent name type handler)) :
      Work m input m.session .nothing [] (m.session.addProcessor ⟨name, type, handler⟩) .nothing
  | listening {listener : Nat} (asked : input = .start (.listen listener)) :
      Work m input m.session .nothing [] { m.session with listener := some listener } .nothing
  | put {entries : List (Int × Json)} (asked : input = .start (.putHandles entries)) :
      Work m input m.session .nothing []
        { m.session with handles := m.session.handles.putAll entries } .nothing
  | reset (asked : input = .start .resetHandles) :
      Work m input m.session .nothing [] { m.session with handles := .empty } .nothing
  | responded {raw : Json} {frame : ResponseFrame} {call : PendingCall}
      (received : m.Receives input raw)
      (decoded : (m.session.dialect.classify m.session.binder raw).result = .ok (.response frame))
      (pending : m.session.call? frame.id = some call) :
      Work m input m.session .nothing []
        (Machine.absorb (m.session.removeCall frame.id) frame (m.session.isStale call))
        (.response call frame.outcome (m.session.isStale call))
  | malformed {raw : Json} {error : FrameError} {failure : CallFailure} {id : UInt64}
      {call : PendingCall} (received : m.Receives input raw)
      (refused : (m.session.dialect.classify m.session.binder raw).result = .error error)
      (addressed : m.session.dialect.responseId? raw = some id)
      (meant : Machine.failureOf? error = some failure)
      (pending : m.session.call? id = some call) :
      Work m input m.session .nothing [] (m.session.removeCall id) (.undecodable call failure)
  /-- The transport has refused the frame of a call that is still pending. -/
  | withdrawn {call : PendingCall} {invalidating : Bool} {rest : List Waiting}
      {error : TransportError} (refused : input = .refused error)
      (pending : m.session.isPending call.id = true)
      (waited : m.stack = .transmitting call invalidating :: rest) :
      Work m input m.session (.sent call.id) [] (m.session.removeCall call.id) .nothing
  | closing {s : Session} (reason : String) (connected : s.phase = .connected) :
      Work m input s .nothing [] { s with phase := .closing, calls := [] }
        (.drained reason s.calls)
  | abandoned {s : Session} {call : PendingCall} {outcome : Except RemoteError Json} :
      Work m input s (.response call outcome true) [.abandoned call.id] s .nothing
  | abandonedMalformed {s : Session} {call : PendingCall} {failure : CallFailure}
      (judged : m.Judges input call) (stale : m.session.isStale call = true) :
      Work m input s (.undecodable call failure) [.abandoned call.id] s .nothing

/-- How the step of `m` on `input` ends, with the wait that it leaves, if it leaves one. -/
inductive Ends (m : Machine) (input : Input) :
    Session → Hand → List Emission → Session → Option Waiting → Prop where
  | returned {s : Session} (result : Result) (plain : ∀ id, result ≠ .call id) :
      Ends m input s .nothing [.returned result] s none
  | accepted {s : Session} (id : UInt64) :
      Ends m input s (.sent id) [.returned (.call id)] s none
  | brokenDown {s : Session} (broken : input = .crashed) :
      Ends m input s .nothing [.unwound] s none
  | sendBroken {s : Session} (id : UInt64) (broken : input = .crashed) :
      Ends m input s (.sent id) [.unwound] s none
  | responseBroken {s : Session} {call : PendingCall} {outcome : Except RemoteError Json}
      {stale : Bool} {after : After} {rest : List Waiting} (broken : input = .crashed)
      (waited : m.stack = .announcedResponse call outcome stale after :: rest) :
      Ends m input s (.response call outcome stale) [.abandoned call.id, .unwound] s none
  | malformedBroken {s : Session} {call : PendingCall} {failure : CallFailure} {after : After}
      {rest : List Waiting} (broken : input = .crashed)
      (waited : m.stack = .announcedMalformed call failure after :: rest) :
      Ends m input s (.undecodable call failure) [.abandoned call.id, .unwound] s none
  | entered {operation : Operation} {command : Command} {token : Option ContextToken}
      {invalidating : Bool} (asked : input = .start operation)
      (sends : operation.sent? = some (command, token, invalidating))
      (connected : m.session.phase = .connected) :
      Ends m input m.session .nothing
        [.request (.transmit m.session.sequence.next
          (m.session.dialect.encode m.session.sequence.next command))]
        (m.session.enter (m.session.newCall command token))
        (some (.transmitting (m.session.newCall command token) invalidating))
  | announced {s : Session} (waiting : Waiting) (listener : Nat)
      (listens : s.listener = some listener) (announcement : waiting.isAnnouncement = true) :
      Ends m input s waiting.hand [.request (.status listener s.busyStatus)] s (some waiting)
  | completed {s : Session} (call : PendingCall) (outcome : Except RemoteError Json)
      (after : After) :
      Ends m input s (.response call outcome false)
        [.request (Request.complete call.id (s.settle call outcome))] s
        (some (.completing call.command after))
  | failedMalformed {s : Session} (call : PendingCall) (failure : CallFailure) (after : After)
      (judged : m.Judges input call) (fresh : m.session.isStale call = false) :
      Ends m input s (.undecodable call failure)
        [.request (Request.complete call.id (.error failure))] s
        (some (.completing call.command after))
  | handled {s : Session} (handler : Nat) (event : Event) (after : After) :
      Ends m input s .nothing [.request (.handle handler event)] s
        (some (.completing event.name after))
  | drained {s : Session} (reason : String) (call : PendingCall) (rest : List PendingCall)
      (after : After) :
      Ends m input s (.drained reason (call :: rest))
        [.request (Request.complete call.id (.error (.connectionClosed reason)))] s
        (some (.draining call.command reason rest after))
  | released {s : Session} (reason : String) (after : After) :
      Ends m input s (.drained reason []) [.request .closeTransport]
        { s.resume with phase := .closed } (some (.closingTransport after))
  /-- A reader asks for a frame when it begins, and after that unless the session is closed. -/
  | pulled {s : Session} (cause : input = .start .read ∨ s.phase ≠ .closed) :
      Ends m input s .nothing [.request .pull] s (some .pulling)

/-- From a session and a hand, the step of `m` on `input` gives a turn above the waits `base`. -/
inductive Works (m : Machine) (input : Input) (base : List Waiting) :
    Session → Hand → Turn → Prop where
  | ends {s t : Session} {hand : Hand} {emissions : List Emission} {waiting : Option Waiting}
      (last : Ends m input s hand emissions t waiting) :
      Works m input base s hand ⟨⟨t, waiting.toList ++ base⟩, emissions⟩
  | work {s t : Session} {hand next : Hand} {emissions : List Emission} {turn : Turn}
      (first : Work m input s hand emissions t next) (rest : Works m input base t next turn) :
      Works m input base s hand (turn.preceded emissions)

namespace Works

variable {base : List Waiting} {s : Session} {hand : Hand} {turn : Turn}

theorem noticed (rest : Works m input base s hand turn) (notices : List Notice)
    (quiet : ∀ notice ∈ notices, notice.isSuspension = false) :
    Works m input base s hand (turn.noticed notices) := by
  induction notices with
  | nil => exact rest
  | cons notice notices ih =>
    change Works m input base s hand ((turn.noticed notices).preceded [.notice notice])
    exact .work (.noticed notice (quiet notice (by simp)))
      (ih fun other mem => quiet other (by simp [mem]))

theorem ambiguous (rest : Works m input base s hand turn) (log : List Ambiguity) :
    Works m input base s hand (turn.noticed (log.map .ambiguous)) := by
  apply rest.noticed
  intro notice mem
  obtain ⟨ambiguity, -, rfl⟩ := List.mem_map.1 mem
  rfl

theorem resumeNotices (rest : Works m input base s hand turn) (session : Session) :
    Works m input base s hand (turn.noticed session.resumeNotices) :=
  rest.noticed _ session.quiet_of_mem_resumeNotices

theorem transcribed (rest : Works m input base s hand turn) (n : Machine)
    (direction text : String) :
    Works m input base s hand (turn.preceded (n.transcribe direction text)) := by
  unfold Machine.transcribe
  cases n.session.transcript with
  | off => exact rest
  | on => exact .work (.transcribed _) rest
  | failing => exact .work (.noticed .transcriptFailed rfl) rest

end Works

namespace Machine

/-! ## The parts that several operations share -/

theorem give_works (n : Machine) (result : Result) (plain : ∀ id, result ≠ .call id) :
    Works m input n.stack n.session .nothing (n.give result) :=
  .ends (.returned result plain)

theorem conclude_works (n : Machine) (after : After) :
    Works m input n.stack n.session .nothing (n.conclude after) := by
  cases after with
  | finish => exact give_works n .unit (by simp)
  | refuse error => exact give_works n (.failed (.transport error)) (by simp)
  | read =>
    simp only [conclude]
    split
    · exact give_works n .unit (by simp)
    · rename_i opened
      exact .ends (.pulled (.inr opened))

theorem announce_works (n : Machine) (waiting : Waiting) (next : Machine → Turn)
    (announcement : waiting.isAnnouncement = true)
    (rest : n.session.listener = none → Works m input n.stack n.session waiting.hand (next n)) :
    Works m input n.stack n.session waiting.hand (n.announce waiting next) := by
  unfold announce
  cases listens : n.session.listener with
  | none => exact rest listens
  | some listener => exact .ends (.announced waiting listener listens announcement)

theorem giveCall_works (n : Machine) (id : UInt64) :
    Works m input n.stack n.session (.sent id) (n.giveCall id) :=
  announce_works n (.announcedCall id) _ rfl fun _ => .ends (.accepted id)

theorem release_works (n : Machine) (reason : String) (after : After) :
    Works m input n.stack n.session (.drained reason []) (n.release after) :=
  Works.resumeNotices (.ends (.released reason after)) n.session

theorem drain_works (n : Machine) (reason : String) (calls : List PendingCall) (after : After) :
    Works m input n.stack n.session (.drained reason calls) (n.drain reason calls after) := by
  cases calls with
  | nil => exact release_works n reason after
  | cons call rest =>
    exact Works.noticed (.ends (.drained reason call rest after)) _ (by simp [Notice.isSuspension])

theorem close_works (n : Machine) (reason : String) (after : After) :
    Works m input n.stack n.session .nothing (n.close reason after) := by
  unfold close
  split
  · rename_i connected
    let closed := n.modify fun session => { session with phase := .closing, calls := [] }
    have drained : Works m input closed.stack closed.session (.drained reason n.session.calls)
        (closed.drain reason n.session.calls after) :=
      drain_works closed reason n.session.calls after
    have closing : Work m input n.session .nothing []
        { n.session with phase := .closing, calls := [] } (.drained reason n.session.calls) :=
      .closing reason connected
    exact (Works.work closing drained).noticed _ (by simp [Notice.isSuspension])
  · exact conclude_works n after

theorem transportClosed_works (n : Machine) (reason : String) (after : After) :
    Works m input n.stack n.session .nothing (n.transportClosed reason after) := by
  unfold transportClosed
  split
  · exact (close_works n reason after).noticed _ (by simp [Notice.isSuspension])
  · exact close_works n reason after

/-! ## Sending -/

theorem connected_of_sendFault {session : Session} {command : Command}
    (free : session.sendFault? command = none) : session.phase = .connected := by
  unfold Session.sendFault? at free
  split at free
  · cases free
  · split at free
    · assumption
    · cases free

theorem dispatch_works {operation : Operation} {command : Command} {token : Option ContextToken}
    {invalidating : Bool} (asked : input = .start operation)
    (sends : operation.sent? = some (command, token, invalidating))
    (rejected : (m.session.sendFault? command).isSome → invalidating = true → m.Resumes input) :
    Works m input m.stack m.session .nothing (m.dispatch command token invalidating) := by
  unfold dispatch
  cases fault : m.session.sendFault? command with
  | some error =>
    cases invalidating with
    | false => exact give_works m (.failed error) (by simp)
    | true =>
      have cause : m.Resumes input := rejected (by simp [fault]) rfl
      exact .work (.resumed cause) (give_works (m.modify Session.resume) (.failed error) (by simp))
  | none =>
    have connected : m.session.phase = .connected := connected_of_sendFault fault
    have sent : Works m input m.stack m.session .nothing
        ⟨⟨m.session.enter (m.session.newCall command token),
          .transmitting (m.session.newCall command token) invalidating :: m.stack⟩,
          [.request (.transmit m.session.sequence.next
            (m.session.dialect.encode m.session.sequence.next command))]⟩ :=
      .ends (.entered asked sends connected)
    have logged := sent.transcribed m "->"
      (m.session.dialect.encode m.session.sequence.next command)
    exact logged.noticed [.sending m.session.sequence.next command.name]
      (by simp [Notice.isSuspension])

theorem send_works (command : Command) (token : Option ContextToken) :
    Works m (.start (.send command token)) m.stack m.session .nothing (m.send command token) := by
  cases token with
  | none => exact dispatch_works rfl rfl (by simp)
  | some t =>
    simp only [send]
    split
    · exact dispatch_works rfl rfl (by simp)
    · exact give_works m (.failed (.contextDismissed t)) (by simp)

theorem sendAndInvalidate_works (command : Command) (token : ContextToken) :
    Works m (.start (.sendAndInvalidate command token)) m.stack m.session .nothing
      (m.sendAndInvalidate command token) := by
  unfold sendAndInvalidate
  split
  · rename_i current
    exact dispatch_works rfl rfl fun fault _ => .rejected current fault
  · exact give_works m (.failed (.contextDismissed token)) (by simp)

theorem transmitted_works {hand : Hand} {turn : Turn} (n : Machine) (invalidating : Bool)
    (cause : invalidating = true → m.Resumes input)
    (rest : Works m input (n.transmitted invalidating).stack (n.transmitted invalidating).session
      hand turn) : Works m input n.stack n.session hand turn := by
  cases invalidating with
  | false => exact rest
  | true => exact .work (.resumed (cause rfl)) rest

theorem refused_works {call : PendingCall} {invalidating : Bool} {rest : List Waiting}
    {error : TransportError} (waited : m.stack = .transmitting call invalidating :: rest) :
    Works m (.refused error) rest m.session (.sent call.id)
      (refused { m with stack := rest } call invalidating error) := by
  have cause : invalidating = true → m.Resumes (.refused error) := by
    rintro rfl
    exact .transmitted waited (by simp)
  unfold refused
  split
  · rename_i pending
    let n := (modify { m with stack := rest } (·.removeCall call.id)).transmitted invalidating
    have closed : Works m (.refused error) n.stack n.session .nothing
        (n.close ("transport failure: " ++ error.message) (.refuse error)) :=
      close_works n _ _
    have withdrawn : Work m (.refused error) m.session (.sent call.id) []
        (m.session.removeCall call.id) .nothing := .withdrawn rfl pending waited
    exact (Works.work withdrawn (transmitted_works (modify { m with stack := rest }
      (·.removeCall call.id)) invalidating cause closed)).noticed _ (by simp [Notice.isSuspension])
  · let n := transmitted { m with stack := rest } invalidating
    have given : Works m (.refused error) n.stack n.session (.sent call.id) (n.giveCall call.id) :=
      giveCall_works n call.id
    exact (transmitted_works { m with stack := rest } invalidating cause given).noticed _
      (by simp [Notice.isSuspension])

theorem accepted_works {call : PendingCall} {invalidating : Bool} {rest : List Waiting}
    (waited : m.stack = .transmitting call invalidating :: rest) :
    Works m .accepted rest m.session (.sent call.id)
      ((transmitted { m with stack := rest } invalidating).giveCall call.id) := by
  have cause : invalidating = true → m.Resumes .accepted := by
    rintro rfl
    exact .transmitted waited (by simp)
  exact transmitted_works { m with stack := rest } invalidating cause (giveCall_works _ call.id)

/-! ## Receiving -/

theorem completeResponse_timely (n : Machine) (call : PendingCall)
    (outcome : Except RemoteError Json) (after : After) :
    ∃ log : List Ambiguity, n.completeResponse call outcome false after
      = (n.await (.completing call.command after)
          (.complete call.id (n.session.settle call outcome))).noticed (log.map .ambiguous) := by
  cases outcome with
  | error error => exact ⟨[], rfl⟩
  | ok body =>
    refine ⟨(n.session.reply call body).run.log, ?_⟩
    simp only [completeResponse, Session.settle, Outcome.result, Bool.false_eq_true, if_false]
    cases value : (n.session.reply call body).run.value <;> rfl

theorem completeResponse_works (n : Machine) (call : PendingCall)
    (outcome : Except RemoteError Json) (stale : Bool) (after : After) :
    Works m input n.stack n.session (.response call outcome stale)
      (n.completeResponse call outcome stale after) := by
  cases stale with
  | true =>
    have dropped : Works m input n.stack n.session (.response call outcome true)
        ((n.conclude after).preceded [.abandoned call.id]) :=
      .work .abandoned (conclude_works n after)
    exact dropped.noticed [.staleResponse call.id call.command]
      (by simp [Notice.isSuspension])
  | false =>
    have completed : Works m input n.stack n.session (.response call outcome false)
        (n.await (.completing call.command after)
          (Request.complete call.id (n.session.settle call outcome))) :=
      .ends (.completed call outcome after)
    obtain ⟨log, timely⟩ := completeResponse_timely n call outcome after
    rw [timely]
    exact completed.ambiguous log

theorem deliverResponse_pending_works {rest : List Waiting} {frame : ResponseFrame}
    {call : PendingCall} (after : After) (pending : m.session.call? frame.id = some call) :
    Works m input rest
      (absorb (m.session.removeCall frame.id) frame (m.session.isStale call))
      (.response call frame.outcome (m.session.isStale call))
      (deliverResponse ⟨m.session, rest⟩ frame after) := by
  unfold deliverResponse
  rw [pending]
  let absorbed : Machine :=
    ⟨absorb (m.session.removeCall frame.id) frame (m.session.isStale call), rest⟩
  have told : Works m input absorbed.stack absorbed.session _ (absorbed.announce _ _) :=
    announce_works absorbed (.announcedResponse call frame.outcome (m.session.isStale call) after)
      (·.completeResponse call frame.outcome (m.session.isStale call) after) rfl
      fun _ => completeResponse_works absorbed call frame.outcome (m.session.isStale call) after
  apply told.noticed
  intro notice mem
  rcases List.mem_append.1 mem with resumed | noted
  · split at resumed
    · exact m.session.quiet_of_mem_resumeNotices notice resumed
    · cases resumed
  · rw [List.mem_singleton.1 noted]
    rfl

theorem deliverResponse_works {rest : List Waiting} {raw : Json} {frame : ResponseFrame}
    (after : After) (received : m.Receives input raw)
    (decoded : (m.session.dialect.classify m.session.binder raw).result = .ok (.response frame)) :
    Works m input rest m.session .nothing (deliverResponse ⟨m.session, rest⟩ frame after) := by
  cases pending : m.session.call? frame.id with
  | none =>
    unfold deliverResponse
    rw [pending]
    exact (conclude_works ⟨m.session, rest⟩ after).noticed _ (by simp [Notice.isSuspension])
  | some call =>
    exact .work (.responded received decoded pending) (deliverResponse_pending_works after pending)

theorem completeMalformed_works (n : Machine) (call : PendingCall) (failure : CallFailure)
    (after : After) (judged : m.Judges input call) (context : n.session.context = m.session.context) :
    Works m input n.stack n.session (.undecodable call failure)
      (n.completeMalformed call failure after) := by
  have same : n.session.isStale call = m.session.isStale call := by
    unfold Session.isStale
    rw [context]
  unfold completeMalformed
  rw [same]
  cases stale : m.session.isStale call with
  | true =>
    have dropped : Works m input n.stack n.session (.undecodable call failure)
        ((n.conclude after).preceded [.abandoned call.id]) :=
      .work (.abandonedMalformed judged stale) (conclude_works n after)
    exact dropped.noticed [.staleMalformedResponse call.id call.command]
      (by simp [Notice.isSuspension])
  | false =>
    have failed : Works m input n.stack n.session (.undecodable call failure)
        (n.failCall call failure after) := .ends (.failedMalformed call failure after judged stale)
    exact failed.noticed _ (by simp [Notice.isSuspension])

theorem deliverMalformed_pending_works (rest : List Waiting) {raw : Json} {error : FrameError}
    {failure : CallFailure} {id : UInt64} {call : PendingCall} (after : After)
    (received : m.Receives input raw)
    (refused : (m.session.dialect.classify m.session.binder raw).result = .error error)
    (addressed : m.session.dialect.responseId? raw = some id)
    (meant : failureOf? error = some failure) (pending : m.session.call? id = some call) :
    Works m input rest (m.session.removeCall id) (.undecodable call failure)
      (deliverMalformed ⟨m.session, rest⟩ id error after) := by
  have named : call.id = id := by simpa using List.find?_some pending
  have answers : m.Answers input raw call := by
    refine ⟨received, ?_, named ▸ pending⟩
    rw [named, Dialect.answeredId?, refused]
    exact addressed
  unfold deliverMalformed
  simp only [meant, pending]
  let removed : Machine := ⟨m.session.removeCall id, rest⟩
  exact announce_works removed (.announcedMalformed call failure after)
    (·.completeMalformed call failure after) rfl
    fun _ => completeMalformed_works removed call failure after (.onReceipt answers) rfl

theorem deliverMalformed_works {rest : List Waiting} {raw : Json} {error : FrameError}
    {id : UInt64} (after : After) (received : m.Receives input raw)
    (refused : (m.session.dialect.classify m.session.binder raw).result = .error error)
    (addressed : m.session.dialect.responseId? raw = some id) :
    Works m input rest m.session .nothing (deliverMalformed ⟨m.session, rest⟩ id error after) := by
  cases meant : failureOf? error with
  | none =>
    unfold deliverMalformed
    simp only [meant]
    exact (conclude_works ⟨m.session, rest⟩ after).noticed _ (by simp [Notice.isSuspension])
  | some failure =>
    cases pending : m.session.call? id with
    | none =>
      unfold deliverMalformed
      simp only [meant, pending]
      exact (conclude_works ⟨m.session, rest⟩ after).noticed _ (by simp [Notice.isSuspension])
    | some call =>
      exact .work (.malformed received refused addressed meant pending)
        (deliverMalformed_pending_works rest after received refused addressed meant pending)

theorem routeEvent_works (n : Machine) (frame : EventFrame) (after : After) :
    Works m input n.stack n.session .nothing (n.routeEvent frame after) := by
  unfold routeEvent
  cases n.session.processor? frame.name with
  | none => exact (conclude_works n after).noticed _ (by simp [Notice.isSuspension])
  | some processor =>
    apply Works.ambiguous
    split
    · rename_i payload bound
      exact .ends (.handled processor.handler ⟨frame.name, _, payload⟩ after)
    · exact (conclude_works n after).noticed _ (by simp [Notice.isSuspension])

theorem deliverEvent_works {rest : List Waiting} {frame : EventFrame} (after : After)
    (received : m.ReceivesEvent input frame) :
    Works m input rest m.session .nothing (deliverEvent ⟨m.session, rest⟩ frame after) := by
  unfold deliverEvent applyEvent
  cases lifecycle : m.session.dialect.eventLifecycle? frame.name with
  | none => exact routeEvent_works ⟨m.session, rest⟩ frame after
  | some change =>
    cases change with
    | suspend =>
      exact .work (.suspended (.event received lifecycle))
        (routeEvent_works ⟨m.session.suspend.2, rest⟩ frame after)
    | resume =>
      let n : Machine := ⟨m.session.resume, rest⟩
      have routed : Works m input n.stack n.session .nothing (n.routeEvent frame after) :=
        routeEvent_works n frame after
      have resumed := Works.work (.resumed (.event received lifecycle)) routed
      exact resumed.resumeNotices m.session

theorem deliver_works {rest : List Waiting} {raw : Json} (after : After)
    (received : m.Receives input raw) :
    Works m input rest m.session .nothing (deliver ⟨m.session, rest⟩ raw after) := by
  unfold deliver
  apply Works.ambiguous
  have same : (m.session.dialect.classify m.session.binder raw).result
    = (m.session.dialect.classify m.session.binder raw).run.value := rfl
  split
  · rename_i frame decoded
    exact deliverResponse_works after received (same.trans decoded)
  · rename_i frame decoded
    exact deliverEvent_works after ⟨raw, received, same.trans decoded⟩
  · rename_i error refused
    split
    · rename_i id addressed
      exact deliverMalformed_works after received (same.trans refused) addressed
    · exact (conclude_works ⟨m.session, rest⟩ after).noticed _ (by simp [Notice.isSuspension])

theorem receive_works {rest : List Waiting} {text : String} (after : After)
    (taken : m.incoming? input = some text) :
    Works m input rest m.session .nothing (receive ⟨m.session, rest⟩ text after) := by
  unfold receive
  split
  · exact (conclude_works ⟨m.session, rest⟩ after).noticed _ (by simp [Notice.isSuspension])
  · rename_i opened
    apply Works.transcribed
    split
    · exact (conclude_works ⟨m.session, rest⟩ after).noticed _ (by simp [Notice.isSuspension])
    · rename_i raw parsed
      refine deliver_works after ⟨?_, opened⟩
      rw [taken]
      exact parsed

/-! ## Operations -/

theorem suspend_works : Works m (.start .suspend) m.stack m.session .nothing m.suspend :=
  .work (.suspended .asked) (give_works ⟨m.session.suspend.2, m.stack⟩ _ (by simp))

theorem resume_works : Works m (.start .resume) m.stack m.session .nothing m.resume := by
  let n : Machine := ⟨m.session.resume, m.stack⟩
  have given : Works m (.start .resume) n.stack n.session .nothing (n.give .unit) :=
    give_works n .unit (by simp)
  have resumed := Works.work (.resumed .asked) given
  exact resumed.resumeNotices m.session

theorem onEvent_works (name type : String) (handler : Nat) :
    Works m (.start (.onEvent name type handler)) m.stack m.session .nothing
      (m.onEvent ⟨name, type, handler⟩) := by
  unfold onEvent
  split
  · exact .work (.routed rfl) (give_works ⟨m.session.addProcessor _, m.stack⟩ .unit (by simp))
  · exact give_works m (.failed (.unknownType type)) (by simp)

theorem start_works (operation : Operation) :
    Works m (.start operation) m.stack m.session .nothing (m.start operation) := by
  cases operation with
  | send command token => exact send_works command token
  | sendAndInvalidate command token => exact sendAndInvalidate_works command token
  | receive text => exact receive_works .finish rfl
  | suspend => exact suspend_works
  | resume => exact resume_works
  | close reason => exact close_works m reason .finish
  | transportClosed reason => exact transportClosed_works m reason .finish
  | onEvent name type handler => exact onEvent_works name type handler
  | listen listener =>
    exact .work (.listening rfl)
      (give_works ⟨{ m.session with listener := some listener }, m.stack⟩ .unit (by simp))
  | putHandles entries =>
    exact .work (.put rfl)
      (give_works ⟨{ m.session with handles := m.session.handles.putAll entries }, m.stack⟩ .unit
        (by simp))
  | resetHandles =>
    exact .work (.reset rfl)
      (give_works ⟨{ m.session with handles := .empty }, m.stack⟩ .unit (by simp))
  | read => exact .ends (.pulled (.inl rfl))

/-! ## Answers -/

theorem afterPull_works {rest : List Waiting} {pulled : Pulled}
    (waited : m.stack = .pulling :: rest)
    (answer : input = .pulled pulled ∨ pulled = .broken) :
    Works m input rest m.session .nothing (afterPull ⟨m.session, rest⟩ pulled) := by
  cases pulled with
  | frame text =>
    apply receive_works .read
    obtain rfl : input = .pulled (.frame text) := by simpa using answer
    simp only [incoming?, waited]
  | ended => exact transportClosed_works ⟨m.session, rest⟩ _ .finish
  | failed error =>
    exact (transportClosed_works ⟨m.session, rest⟩ _ .finish).noticed _
      (by simp [Notice.isSuspension])
  | broken =>
    exact (transportClosed_works ⟨m.session, rest⟩ _ .finish).noticed _
      (by simp [Notice.isSuspension])

theorem afterDone_works {waiting : Waiting} {rest : List Waiting} {turn : Turn}
    (waited : m.stack = waiting :: rest)
    (given : afterDone ⟨m.session, rest⟩ waiting = some turn) :
    Works m .done rest m.session waiting.hand turn := by
  cases waiting with
  | transmitting call invalidating => cases given
  | announcedCall id =>
    cases given
    exact .ends (.accepted id)
  | announcedResponse call outcome stale after =>
    cases given
    exact completeResponse_works ⟨m.session, rest⟩ call outcome stale after
  | announcedMalformed call failure after =>
    cases given
    exact completeMalformed_works ⟨m.session, rest⟩ call failure after (.onceTold waited) rfl
  | completing label after =>
    cases given
    exact conclude_works ⟨m.session, rest⟩ after
  | draining label reason calls after =>
    cases given
    exact drain_works ⟨m.session, rest⟩ reason calls after
  | closingTransport after =>
    cases given
    exact announce_works ⟨m.session, rest⟩ (.announcedClose after) _ rfl
      fun _ => conclude_works ⟨m.session, rest⟩ after
  | announcedClose after =>
    cases given
    exact conclude_works ⟨m.session, rest⟩ after
  | pulling => cases given

theorem afterCrash_works {waiting : Waiting} {rest : List Waiting}
    (waited : m.stack = waiting :: rest) :
    Works m .crashed rest m.session waiting.hand (afterCrash ⟨m.session, rest⟩ waiting) := by
  cases waiting with
  | transmitting call invalidating => exact .ends (.sendBroken call.id rfl)
  | announcedCall id => exact .ends (.sendBroken id rfl)
  | announcedResponse call outcome stale after =>
    exact .ends (.responseBroken rfl waited)
  | announcedMalformed call failure after => exact .ends (.malformedBroken rfl waited)
  | completing label after =>
    exact (conclude_works ⟨m.session, rest⟩ after).noticed _ (by simp [Notice.isSuspension])
  | draining label reason calls after =>
    exact (drain_works ⟨m.session, rest⟩ reason calls after).noticed _
      (by simp [Notice.isSuspension])
  | closingTransport after => exact .ends (.brokenDown rfl)
  | announcedClose after => exact .ends (.brokenDown rfl)
  | pulling => exact afterPull_works waited (.inr rfl)

theorem answer_works {waiting : Waiting} {rest : List Waiting} {turn : Turn}
    (waited : m.stack = waiting :: rest)
    (given : answer? ⟨m.session, rest⟩ waiting input = some turn) :
    Works m input rest m.session waiting.hand turn := by
  cases input with
  | start operation => cases given
  | done => exact afterDone_works waited given
  | crashed =>
    cases given
    exact afterCrash_works waited
  | accepted =>
    cases waiting <;> cases given
    exact accepted_works waited
  | refused error =>
    cases waiting <;> cases given
    exact refused_works waited
  | pulled pulled =>
    cases waiting <;> cases given
    exact afterPull_works waited (.inl rfl)

/-- Every step that does anything at all does what `Work` and `Ends` list. -/
theorem step_works (m : Machine) (input : Input) :
    m.step input = ⟨m, []⟩ ∨
      Works m input (m.base input) m.session (m.hand input) (m.step input) := by
  cases input with
  | start operation => exact .inr (start_works operation)
  | _ =>
    cases waited : m.stack with
    | nil =>
      left
      simp only [step, waited]
    | cons waiting rest =>
      simp only [step, base, hand, waited]
      split
      · rename_i turn given
        exact .inr (answer_works waited given)
      · exact .inl rfl

end Machine

end DebugLink
