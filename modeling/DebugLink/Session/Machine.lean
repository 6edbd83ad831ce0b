import DebugLink.Json.Parser
import DebugLink.Session.State

/-!
# The session as a machine

A session works in steps. It runs until it needs something from its surroundings: the transport
takes a frame, a callback or a handler or the status listener runs, the source of a reader gives a
frame. It then makes a request and waits. While it waits the surroundings may start further
operations, which run to their end before the request is answered; so what waits is a stack, and
user code of any kind is a sequence of inputs.
-/

set_option autoImplicit false

namespace DebugLink

inductive Operation where
  | send (command : Command) (token : Option ContextToken)
  /-- Sends a command and dismisses the token, which must be current. -/
  | sendAndInvalidate (command : Command) (token : ContextToken)
  | receive (text : String)
  | suspend
  | resume
  | close (reason : String)
  | transportClosed (reason : String)
  | onEvent (name type : String) (handler : Nat)
  | listen (listener : Nat)
  | putHandles (entries : List (Int × Json))
  | resetHandles
  /-- Takes in frames from a source until it ends or the session is closed. -/
  | read

inductive Result where
  | unit
  | call (id : UInt64)
  | token (token : ContextToken)
  | failed (error : SessionError)

/-- What a session asks of its surroundings. -/
inductive Request where
  | transmit (id : UInt64) (frame : String)
  | closeTransport
  | succeed (id : UInt64) (reply : Reply)
  | fail (id : UInt64) (failure : CallFailure)
  | handle (handler : Nat) (event : Event)
  | status (listener : Nat) (status : BusyStatus)
  | pull

/-- What happens at the surroundings. All but `start` answer the last open request. -/
inductive Input where
  | start (operation : Operation)
  | done
  /-- The user code that was asked to run broke down. -/
  | crashed
  | accepted
  | refused (error : TransportError)
  | pulled (pulled : Pulled)

/-- What can be seen of a session. -/
inductive Emission where
  | notice (notice : Notice)
  | transcribed (line : String)
  | request (request : Request)
  /-- The callbacks of a call will never run. -/
  | abandoned (id : UInt64)
  /-- The operation started last has ended. -/
  | returned (result : Result)
  /-- The operation started last has broken down with the user code that it ran. -/
  | unwound

/-- What follows a part of the work that several operations share. -/
inductive After where
  | finish
  /-- A send ends with the error of its transport. -/
  | refuse (error : TransportError)
  /-- A reader goes on to its next frame, unless the session is closed. -/
  | read

/-- What a session waits for, with all that is needed to go on. -/
inductive Waiting where
  | transmitting (call : PendingCall) (invalidating : Bool)
  | announcedCall (id : UInt64)
  | announcedResponse (call : PendingCall) (outcome : Except RemoteError Json) (stale : Bool)
    (after : After)
  | announcedMalformed (call : PendingCall) (failure : CallFailure) (after : After)
  | completing (label : String) (after : After)
  /-- The failure callback of a call runs while the session closes, and then those of the rest. -/
  | draining (label reason : String) (rest : List PendingCall) (after : After)
  | closingTransport (after : After)
  | announcedClose (after : After)
  | pulling

structure Machine where
  session : Session
  /-- The innermost wait first. -/
  stack : List Waiting

/-- A machine after a step, and what was seen on the way. -/
structure Turn where
  machine : Machine
  emitted : List Emission

namespace Turn

def preceded (turn : Turn) (emissions : List Emission) : Turn :=
  { turn with emitted := emissions ++ turn.emitted }

def noticed (turn : Turn) (notices : List Notice) : Turn :=
  turn.preceded (notices.map .notice)

end Turn

namespace Machine

def ofSession (session : Session) : Machine := ⟨session, []⟩

def modify (m : Machine) (change : Session → Session) : Machine :=
  { m with session := change m.session }

def await (m : Machine) (waiting : Waiting) (request : Request) : Turn :=
  ⟨{ m with stack := waiting :: m.stack }, [.request request]⟩

/-- Ends the operation started last. -/
def give (m : Machine) (result : Result) : Turn :=
  ⟨m, [.returned result]⟩

def conclude (m : Machine) : After → Turn
  | .finish => m.give .unit
  | .refuse error => m.give (.failed (.transport error))
  | .read => if m.session.phase = .closed then m.give .unit else m.await .pulling .pull

/-- Tells the listener, if there is one, before going on. -/
def announce (m : Machine) (waiting : Waiting) (next : Machine → Turn) : Turn :=
  match m.session.listener with
  | none => next m
  | some listener => m.await waiting (.status listener m.session.busyStatus)

def transcribe (m : Machine) (direction text : String) : List Emission :=
  match m.session.transcript with
  | .off => []
  | .on => [.transcribed (direction ++ " " ++ text ++ "\n")]
  | .failing => [.notice .transcriptFailed]

def giveCall (m : Machine) (id : UInt64) : Turn :=
  m.announce (.announcedCall id) (·.give (.call id))

/-! ## Closing -/

/-- Marks the session closed and releases the transport. -/
def release (m : Machine) (after : After) : Turn :=
  ((m.modify fun session => { session.resume with phase := .closed }).await
    (.closingTransport after) .closeTransport).noticed m.session.resumeNotices

/-- Fails the calls that were pending, one after the other. -/
def drain (m : Machine) (reason : String) (calls : List PendingCall) (after : After) : Turn :=
  match calls with
  | [] => m.release after
  | call :: rest =>
    (m.await (.draining call.command reason rest after)
      (.fail call.id (.connectionClosed reason))).noticed [.failingCall call.id call.command]

/-- Closes a connected session; in any other phase nothing happens. -/
def close (m : Machine) (reason : String) (after : After) : Turn :=
  if m.session.phase = .connected then
    let calls := m.session.calls
    ((m.modify fun session => { session with phase := .closing, calls := [] }).drain
      reason calls after).noticed [.closing reason calls.length]
  else
    m.conclude after

def transportClosed (m : Machine) (reason : String) (after : After) : Turn :=
  if m.session.phase = .connected then
    (m.close reason after).noticed [.transportClosed reason]
  else
    m.close reason after

/-! ## Sending -/

/-- Draws an id for a command, enters the call and hands the frame to the transport. -/
def dispatch (m : Machine) (command : Command) (token : Option ContextToken) (invalidating : Bool) :
    Turn :=
  match m.session.sendFault? command with
  | some error => (if invalidating then m.modify Session.resume else m).give (.failed error)
  | none =>
    let (id, sequence) := m.session.sequence.draw
    let call : PendingCall := ⟨id, command.name, command.result, token⟩
    let frame := m.session.dialect.encode id command
    let entered := m.modify fun session =>
      { session with sequence := sequence, calls := session.calls ++ [call] }
    (entered.await (.transmitting call invalidating) (.transmit id frame)).preceded
      (.notice (.sending id command.name) :: m.transcribe "->" frame)

def send (m : Machine) (command : Command) (token : Option ContextToken) : Turn :=
  match token with
  | some t =>
    if m.session.context.isCurrent t then m.dispatch command token false
    else m.give (.failed (.contextDismissed t))
  | none => m.dispatch command none false

def sendAndInvalidate (m : Machine) (command : Command) (token : ContextToken) : Turn :=
  if m.session.context.isCurrent token then m.dispatch command none true
  else m.give (.failed (.contextDismissed token))

def transmitted (m : Machine) (invalidating : Bool) : Machine :=
  if invalidating then m.modify Session.resume else m

/-- Goes on after the transport has refused a frame. A call that is no longer pending has been
failed by a close meanwhile, and counts as sent. -/
def refused (m : Machine) (call : PendingCall) (invalidating : Bool) (error : TransportError) :
    Turn :=
  if m.session.isPending call.id then
    let withdrawn := (m.modify (·.removeCall call.id)).transmitted invalidating
    (withdrawn.close ("transport failure: " ++ error.message) (.refuse error)).noticed
      [.sendFailed call.id error]
  else
    ((m.transmitted invalidating).giveCall call.id).noticed
      [.sendFailed call.id error, .sendFailedAfterClose call.id]

/-! ## Receiving -/

def failCall (m : Machine) (call : PendingCall) (failure : CallFailure) (after : After) : Turn :=
  m.await (.completing call.command after) (.fail call.id failure)

/-- Completes a call after its response has been announced. -/
def completeResponse (m : Machine) (call : PendingCall) (outcome : Except RemoteError Json)
    (stale : Bool) (after : After) : Turn :=
  if stale then
    (m.conclude after).preceded
      [.notice (.staleResponse call.id call.command), .abandoned call.id]
  else
    match outcome with
    | .error error => m.failCall call (.remote error.code error.message) after
    | .ok body =>
      let reply := (m.session.reply call body).run
      (match reply.value with
        | .ok reply => m.await (.completing call.command after) (.succeed call.id reply)
        | .error failure => m.failCall call failure after).noticed (reply.log.map .ambiguous)

/-- The session after the objects of a response have been noted and its change of state made. -/
def absorb (session : Session) (frame : ResponseFrame) (stale : Bool) : Session :=
  let noted :=
    if stale then session else { session with handles := session.handles.putAll frame.refs }
  if session.dialect.responseLifecycle? frame = some .resume then noted.resume else noted

def deliverResponse (m : Machine) (frame : ResponseFrame) (after : After) : Turn :=
  match m.session.call? frame.id with
  | none => (m.conclude after).noticed [.unknownCall frame.id]
  | some call =>
    let stale := m.session.isStale call
    let resumed :=
      if m.session.dialect.responseLifecycle? frame = some .resume then m.session.resumeNotices
      else []
    let absorbed := m.modify fun session => absorb (session.removeCall frame.id) frame stale
    (absorbed.announce (.announcedResponse call frame.outcome stale after)
      (·.completeResponse call frame.outcome stale after)).noticed
        (resumed ++ [.responseReceived call.id call.command])

def completeMalformed (m : Machine) (call : PendingCall) (failure : CallFailure)
    (after : After) : Turn :=
  if m.session.isStale call then
    (m.conclude after).preceded
      [.notice (.staleMalformedResponse call.id call.command), .abandoned call.id]
  else
    (m.failCall call failure after).noticed [.malformedResponse call.id call.command failure]

/-- What an undecodable response means for its call. -/
def failureOf? : FrameError → Option CallFailure
  | .malformed error => some (.binding error)
  | .unrecognized (.binding error) => some (.binding error)
  | .unrecognized error => some (.resolution error)
  | .missingEnvelope _ => none
  | .invalidId _ => none

def deliverMalformed (m : Machine) (id : UInt64) (error : FrameError) (after : After) : Turn :=
  match failureOf? error with
  | none => (m.conclude after).noticed [.unrecognizedFrame (some id) error]
  | some failure =>
    match m.session.call? id with
    | none => (m.conclude after).noticed [.malformedForUnknownCall id failure]
    | some call =>
      (m.modify (·.removeCall id)).announce (.announcedMalformed call failure after)
        (·.completeMalformed call failure after)

/-- The session after the change of state that an event announces, and what is reported of it. -/
def applyEvent (session : Session) (name : String) : Session × List Notice :=
  match session.dialect.eventLifecycle? name with
  | some .suspend =>
    let (token, session) := session.suspend
    (session, [.suspended token])
  | some .resume => (session.resume, session.resumeNotices)
  | none => (session, [])

def routeEvent (m : Machine) (frame : EventFrame) (after : After) : Turn :=
  match m.session.processor? frame.name with
  | none => (m.conclude after).noticed [.unrecognizedEvent frame.name]
  | some processor =>
    let raw := Session.eventBody frame.body
    let payload := (m.session.bindPayload raw processor.type m.session.eventMode).run
    (match payload.value with
      | .ok payload =>
        m.await (.completing frame.name after)
          (.handle processor.handler ⟨frame.name, raw, payload⟩)
      | .error failure =>
        (m.conclude after).noticed [.malformedEvent frame.name failure]).noticed
          (payload.log.map .ambiguous)

def deliverEvent (m : Machine) (frame : EventFrame) (after : After) : Turn :=
  let (session, notices) := applyEvent m.session frame.name
  (routeEvent { m with session := session } frame after).noticed notices

def deliver (m : Machine) (raw : Json) (after : After) : Turn :=
  let incoming := (m.session.dialect.classify m.session.binder raw).run
  (match incoming.value with
    | .ok (.response frame) => m.deliverResponse frame after
    | .ok (.event frame) => m.deliverEvent frame after
    | .error error =>
      match m.session.dialect.responseId? raw with
      | some id => m.deliverMalformed id error after
      | none => (m.conclude after).noticed [.unrecognizedFrame none error]).noticed
        (incoming.log.map .ambiguous)

def receive (m : Machine) (text : String) (after : After) : Turn :=
  if m.session.phase = .closed then
    (m.conclude after).noticed [.frameAfterClose]
  else
    (match Json.parse? text with
      | none => (m.conclude after).noticed [.malformedFrame]
      | some raw => m.deliver raw after).preceded (m.transcribe "<-" text)

/-! ## Operations and steps -/

def suspend (m : Machine) : Turn :=
  let (token, session) := m.session.suspend
  (give { m with session := session } (.token token)).noticed [.suspended token]

def resume (m : Machine) : Turn :=
  ((m.modify Session.resume).give .unit).noticed m.session.resumeNotices

def onEvent (m : Machine) (processor : Processor) : Turn :=
  if (m.session.binder.describe? processor.type).isSome then
    (m.modify (·.addProcessor processor)).give .unit
  else
    m.give (.failed (.unknownType processor.type))

def start (m : Machine) : Operation → Turn
  | .send command token => m.send command token
  | .sendAndInvalidate command token => m.sendAndInvalidate command token
  | .receive text => m.receive text .finish
  | .suspend => m.suspend
  | .resume => m.resume
  | .close reason => m.close reason .finish
  | .transportClosed reason => m.transportClosed reason .finish
  | .onEvent name type handler => m.onEvent ⟨name, type, handler⟩
  | .listen listener => (m.modify ({ · with listener := some listener })).give .unit
  | .putHandles entries =>
    (m.modify fun session => { session with handles := session.handles.putAll entries }).give .unit
  | .resetHandles => (m.modify ({ · with handles := .empty })).give .unit
  | .read => m.await .pulling .pull

def afterPull (m : Machine) : Pulled → Turn
  | .frame text => m.receive text .read
  | .ended => m.transportClosed "end of stream" .finish
  | .failed error =>
    (m.transportClosed ("transport failure: " ++ error.message) .finish).noticed
      [.readFailed error]
  | .broken =>
    (m.transportClosed "transport failure: frame source panicked" .finish).noticed
      [.sourceBroken]

def afterDone (m : Machine) : Waiting → Option Turn
  | .announcedCall id => some (m.give (.call id))
  | .announcedResponse call outcome stale after =>
    some (m.completeResponse call outcome stale after)
  | .announcedMalformed call failure after => some (m.completeMalformed call failure after)
  | .completing _ after => some (m.conclude after)
  | .draining _ reason rest after => some (m.drain reason rest after)
  | .closingTransport after => some (m.announce (.announcedClose after) (·.conclude after))
  | .announcedClose after => some (m.conclude after)
  | .transmitting .. => none
  | .pulling => none

/-- Goes on when the user code that was asked to run broke down. Callbacks and handlers are
contained; anything else takes the operation down with it. -/
def afterCrash (m : Machine) : Waiting → Turn
  | .completing label after => (m.conclude after).noticed [.callbackCrashed label]
  | .draining label reason rest after =>
    (m.drain reason rest after).noticed [.callbackCrashed label]
  | .pulling => m.afterPull .broken
  | .announcedResponse call .. => ⟨m, [.abandoned call.id, .unwound]⟩
  | .announcedMalformed call .. => ⟨m, [.abandoned call.id, .unwound]⟩
  | .transmitting .. | .announcedCall _ | .closingTransport _ | .announcedClose _ =>
    ⟨m, [.unwound]⟩

/-- Goes on with an answer to the innermost request; none if it is no answer to that. -/
def answer? (m : Machine) (waiting : Waiting) : Input → Option Turn
  | .start _ => none
  | .done => m.afterDone waiting
  | .crashed => some (m.afterCrash waiting)
  | .accepted =>
    match waiting with
    | .transmitting call invalidating =>
      some ((m.transmitted invalidating).giveCall call.id)
    | _ => none
  | .refused error =>
    match waiting with
    | .transmitting call invalidating => some (m.refused call invalidating error)
    | _ => none
  | .pulled pulled =>
    match waiting with
    | .pulling => some (m.afterPull pulled)
    | _ => none

/-- One step. An answer that nothing waits for changes nothing. -/
def step (m : Machine) (input : Input) : Turn :=
  match input, m.stack with
  | .start operation, _ => m.start operation
  | _, [] => ⟨m, []⟩
  | input, waiting :: rest =>
    match answer? { m with stack := rest } waiting input with
    | some turn => turn
    | none => ⟨m, []⟩

def run (m : Machine) : List Input → Turn
  | [] => ⟨m, []⟩
  | input :: inputs =>
    let turn := m.step input
    (turn.machine.run inputs).preceded turn.emitted

def isResting (m : Machine) : Bool :=
  m.stack.isEmpty

end Machine

end DebugLink
