import DebugLink.Attach.Lines
import DebugLink.Schema.Catalog
import DebugLink.Session.Machine
import DebugLink.Session.Mailbox
import DebugLink.Transport.Framing

/-!
# A client that prints

A client sends its commands one after the other, without waiting in between, and then reads. It
prints events as they arrive and replies in the order of their commands. When it has dealt with
the last reply it closes the session; without commands it reads to the end of the stream.
-/

set_option autoImplicit false

namespace DebugLink.Attach

structure Client where
  machine : Machine
  /-- The calls whose replies are still to be printed, in the order of the commands. -/
  awaited : List PendingCall
  mailboxes : List (UInt64 × Mailbox)
  sent : List String
  closed : Bool
  log : String
  notices : List Notice
  printed : List String
  hasCommands : Bool

namespace Client

def initial (config : Config) : Client where
  machine :=
    .ofSession (.initial config Catalog.registry
      (if config.protocolLog.isSome then .on else .off))
  awaited := []
  mailboxes := []
  sent := []
  closed := false
  log := ""
  notices := []
  printed := []
  hasCommands := false

def deliver (client : Client) (id : UInt64) (outcome : Except CallFailure Reply) : Client :=
  { client with
    mailboxes := client.mailboxes.map fun (key, mailbox) =>
      (key, if key = id then mailbox.deliver outcome else mailbox) }

/-- Does what the session asks for; none for the next frame, which has to come from the peer. -/
def perform (client : Client) : Request → Client × Option Input
  | .transmit _ frame =>
    if client.closed then (client, some (.refused .closed))
    else ({ client with sent := client.sent ++ [frame] }, some .accepted)
  | .closeTransport => ({ client with closed := true }, some .done)
  | .succeed id reply => (client.deliver id (.ok reply), some .done)
  | .fail id failure => (client.deliver id (.error failure), some .done)
  | .handle _ event => ({ client with printed := client.printed ++ [eventLine event] }, some .done)
  | .status _ _ => (client, some .done)
  | .pull => (client, none)

def observe (client : Client) : List Emission → Client × Option (Request ⊕ Option Result)
  | [] => (client, none)
  | .notice notice :: rest => observe { client with notices := client.notices ++ [notice] } rest
  | .transcribed line :: rest => observe { client with log := client.log ++ line } rest
  | .abandoned id :: rest =>
    observe { client with
      mailboxes := client.mailboxes.map fun (key, mailbox) =>
        (key, if key = id then mailbox.abandon else mailbox) } rest
  | .request request :: _ => (client, some (.inl request))
  | .returned result :: _ => (client, some (.inr (some result)))
  | .unwound :: _ => (client, some (.inr none))

/-- Feeds inputs to the session until it has a result or asks for a frame. Only closing takes more
than a few, one for each pending call. -/
def settle : Nat → Client → Input → Client × Option Result
  | 0, client, _ => (client, none)
  | bound + 1, client, input =>
    let turn := client.machine.step input
    match observe { client with machine := turn.machine } turn.emitted with
    | (client, some (.inl request)) =>
      match client.perform request with
      | (client, some input) => settle bound client input
      | (client, none) => (client, none)
    | (client, some (.inr result)) => (client, result)
    | (client, none) => (client, none)

def feed (client : Client) (input : Input) : Client × Option Result :=
  settle (client.machine.session.calls.length + 8) client input

/-- Prints the replies that have arrived, as far as no earlier one is still to come. -/
def flush (client : Client) : Client :=
  go client.awaited client
where
  go : List PendingCall → Client → Client
    | [], client => { client with awaited := [] }
    | call :: rest, client =>
      match (client.mailboxes.lookup call.id).map Mailbox.take with
      | some (.empty, _) => { client with awaited := call :: rest }
      | some (.outcome (.ok reply), _) =>
        go rest { client with printed := client.printed ++ [replyLine reply] }
      | some (.outcome (.error failure), _) =>
        go rest { client with printed := client.printed ++ [failureLine call.command failure] }
      | some (.disconnected, _) | none => go rest client

def finish (client : Client) : Client :=
  let client := client.flush
  if client.hasCommands && client.awaited.isEmpty then
    (client.feed (.start (.close "done"))).1
  else
    client

def giveUp (client : Client) : Client :=
  finish { client with awaited := client.awaited.drop 1 }

def listen (client : Client) : List (String × String) → Except SessionError Client
  | [] => .ok client
  | (event, type) :: rest =>
    match client.feed (.start (.onEvent event type 0)) with
    | (_, some (.failed error)) => .error error
    | (client, _) => listen client rest

def sendAll (client : Client) : List Command → Except SessionError Client
  | [] => .ok client
  | command :: rest =>
    match client.feed (.start (.send command none)) with
    | (_, some (.failed error)) => .error error
    | (client, some (.call id)) =>
      sendAll { client with
        awaited := client.awaited ++ [⟨id, command.name, command.result, none⟩]
        mailboxes := client.mailboxes ++ [(id, .waiting)] } rest
    | (client, _) => sendAll client rest

def start (config : Config) (commands : List Command) : Except SessionError Client := do
  let client ← listen (initial config) (printedEvents config.dialect)
  let client ← sendAll { client with hasCommands := !commands.isEmpty } commands
  pure (client.feed (.start .read)).1.finish

def pulled (client : Client) (pulled : Pulled) : Client :=
  (client.feed (.pulled pulled)).1.finish

def isDone (client : Client) : Bool :=
  client.closed || client.machine.isResting

/-- Lets the client read a stream, which has ended or may go on: the client, and the bytes that it
did not read. -/
def readStream (ended : Bool) : Nat → Client → List UInt8 → Client × List UInt8
  | 0, client, bytes => (client, bytes)
  | bound + 1, client, bytes =>
    if client.isDone then (client, bytes)
    else
      match if ended then some (Framing.pull bytes) else Framing.pullOpen? bytes with
      | some (pull, rest) => readStream ended bound (client.pulled pull) rest
      | none => (client, bytes)

/-- Reads all there is; each frame has at least one byte. -/
def readAll (client : Client) (ended : Bool) (bytes : List UInt8) : Client × List UInt8 :=
  readStream ended (bytes.length + 1) client bytes

/-- The client when no more is to come before every reply has been waited for in vain. -/
def giveUpAll (client : Client) : Client :=
  client.awaited.foldl (fun client _ => if client.isDone then client else client.giveUp) client

end Client

end DebugLink.Attach
