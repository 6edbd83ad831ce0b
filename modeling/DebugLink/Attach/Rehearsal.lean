import DebugLink.Attach.Program

/-!
# Runs in memory

The program from its arguments to its exit code, against a peer that follows a script instead of
one at the end of a socket.
-/

set_option autoImplicit false

namespace DebugLink.Attach

inductive Action where
  | expect (count : Nat)
  | send (frame : String)
  /-- Sends bytes that need not be a frame. -/
  | raw (text : String)
  /-- Reads until the client hangs up. -/
  | awaitEnd

structure Peer where
  unread : List String
  /-- What has been read; nothing where the client had hung up. -/
  received : List (Option String)
  /-- The bytes sent while the client was waiting. -/
  sent : List UInt8
  /-- The peer waits for more than the client has sent, until the client hangs up. -/
  blocked : Bool
  /-- The peer was to send when the client had hung up. -/
  cutOff : Bool

namespace Peer

def emit (peer : Peer) (bytes : List UInt8) : Peer :=
  if peer.blocked then { peer with cutOff := true } else { peer with sent := peer.sent ++ bytes }

def act (peer : Peer) : Action → Peer
  | .expect count =>
    { peer with
      unread := peer.unread.drop count
      received := peer.received ++ (List.range count).map (peer.unread[·]?)
      blocked := peer.blocked || peer.unread.length < count }
  | .send frame => peer.emit (Framing.write frame)
  | .raw text => peer.emit (Framing.bytesOf text)
  | .awaitEnd => { peer with unread := [], blocked := true }

/-- A peer at the end of its script, against a client that has sent the given frames. -/
def follow (script : List Action) (frames : List String) : Peer :=
  script.foldl act ⟨frames, [], [], false, false⟩

def report (peer : Peer) : List (Option String) :=
  if peer.cutOff then [] else peer.received

end Peer

structure Run where
  exitCode : UInt32
  output : String
  failure : String
  received : List (Option String)
  log : String

namespace Run

def failed (failure : Failure) : Run :=
  ⟨failure.exitCode, "", failure.line, [], ""⟩

def halted (halt : CommandLine.Halt) : Run :=
  ⟨halt.exitCode, if halt.isRequested then halt.text else "", "", [], ""⟩

def ofClient (client : Client) (script : List Action) : Run :=
  let peer := Peer.follow script client.sent
  let client := (client.readAll (!peer.blocked) peer.sent).1.giveUpAll
  ⟨0, String.join (client.printed.map (· ++ "\n")), "", peer.report, client.log⟩

end Run

structure Setting where
  endpoint : Endpoint
  script : List Action
  file : Option ByteArray
  /-- The path of the log of frames in the environment. -/
  environment : Option String

def connect (setting : Setting) (plan : Plan) : Except Failure Client :=
  if plan.endpoint = setting.endpoint then
    (Client.start plan.config plan.commands).mapError .session
  else
    .error (.connection plan.endpoint "nobody listens")

def rehearse (setting : Setting) (arguments : List String) : Run :=
  match CommandLine.read arguments with
  | .error (.halt halt) => .halted halt
  | .error (.pairing error) => .failed (.pairing error)
  | .ok invocation =>
    match (plan invocation setting.file setting.environment).bind (connect setting) with
    | .error failure => .failed failure
    | .ok client => .ofClient client setting.script

end DebugLink.Attach
