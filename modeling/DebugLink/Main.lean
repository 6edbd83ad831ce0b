import DebugLink.Attach.Program
import Std.Async.TCP
import Std.Async.Timer

/-!
# The command line

Connects to an endpoint, hands over what comes in to a client and prints what the client has to
say. Everything that is decided is decided by the client.
-/

set_option autoImplicit false

namespace DebugLink.Attach

abbrev Socket : Type := Std.Async.TCP.Socket.Client

def networkAddress : SocketAddress → Std.Net.SocketAddress
  | .v4 address portNumber => .v4 ⟨⟨#v[address.a, address.b, address.c, address.d]⟩, portNumber⟩
  | .v6 address _ portNumber =>
    .v6 ⟨⟨⟨address.groups.toArray, by simp [address.length_groups]⟩⟩, portNumber⟩

/-- Connects to an endpoint. Sockets in the file system are out of reach. -/
def openSocket : Endpoint → IO Socket
  | .tcp address => do
    let socket ← Std.Async.TCP.Socket.Client.mk
    (socket.connect (networkAddress address)).block
    return socket
  | .unix _ => throw (IO.userError "local sockets are not available")

inductive Arrival where
  | bytes (bytes : ByteArray)
  | ended
  | broken (reason : String)
  | nothing

def chunkBytes : UInt64 := 65536

def receive (socket : Socket) (limit : Option Nat) : IO Arrival := do
  let arrived (bytes : Option ByteArray) : Std.Async.Async Arrival :=
    pure (bytes.elim .ended .bytes)
  let wait : Std.Async.Async Arrival := do
    let incoming : Std.Async.Selectable Arrival := .case (socket.recvSelector chunkBytes) arrived
    match limit with
    | none => Std.Async.Selectable.one #[incoming]
    | some limit =>
      let timer ← Std.Async.Selector.sleep (.ofNat limit)
      Std.Async.Selectable.one #[incoming, .case timer fun _ => pure .nothing]
  try
    wait.block
  catch error =>
    return .broken (toString error)

def reportWriting : Except IO.Error Unit → IO Unit
  | .ok () => pure ()
  | .error error => IO.eprintln (noticeLine (.writeFailed (.device (toString error))))

/-- Hands frames to the peer without waiting for it, all at once so that they keep their order. -/
def transmit (socket : Socket) (frames : List String) : IO Unit :=
  unless frames.isEmpty do
    let messages := frames.toArray.map fun frame => ⟨(Framing.write frame).toArray⟩
    let writing ← (socket.sendAll messages).asTask
    discard (IO.mapTask reportWriting writing)

def report (log : Option IO.FS.Handle) (client : Client) : IO Client := do
  for notice in client.notices do
    unless notice.level = .debug do
      IO.eprintln (noticeLine notice)
  let output ← IO.getStdout
  for line in client.printed do
    output.putStrLn line
  output.flush
  if let some log := log then
    log.putStr client.log
    log.flush
  return { client with notices := [], printed := [], log := "" }

def attend (client : Client) (bytes : List UInt8) : Arrival → Client × List UInt8
  | .bytes more => client.readAll false (bytes ++ more.toList)
  | .ended => client.readAll true bytes
  | .broken reason => (client.pulled (.failed (.stream (.device reason))), [])
  | .nothing => (client.giveUp, bytes)

/-- Listens to the peer until the client has hung up. Each reply is waited for up to a time that
starts when the one before it has been dealt with. -/
partial def converse (socket : Socket) (log : Option IO.FS.Handle) (timeout : Nat)
    (client : Client) (bytes : List UInt8) (due : Nat) : IO Unit := do
  let client ← report log client
  if client.isDone then return
  let now ← IO.monoMsNow
  let arrival ← receive socket (if client.awaited.isEmpty then none else some (due - now))
  if let .nothing := arrival then
    for call in client.awaited.take 1 do
      IO.eprintln (silenceLine call.command)
  let waited := client.awaited.length
  let (client, bytes) := attend client bytes arrival
  let now ← IO.monoMsNow
  converse socket log timeout client bytes
    (if client.awaited.length = waited then due else now + timeout)

def fail (failure : Failure) : IO UInt32 := do
  IO.eprintln failure.line
  return failure.exitCode

def openLog (path : Option String) : IO (Option IO.FS.Handle) :=
  path.mapM fun path => IO.FS.Handle.mk path .append

def attach (plan : Plan) : IO UInt32 := do
  match ← (openSocket plan.endpoint).toBaseIO with
  | .error error =>
    fail (.connection plan.endpoint (TransportError.stream (.device (toString error))).message)
  | .ok socket =>
    match ← (openLog plan.config.protocolLog).toBaseIO, Client.start plan.config plan.commands with
    | .error _, _ => fail (.session .transcript)
    | _, .error error => fail (.session error)
    | .ok log, .ok client =>
      transmit socket client.sent
      let timeout := plan.timeout * 1000
      converse socket log timeout client [] ((← IO.monoMsNow) + timeout)
      discard socket.shutdown.block.toBaseIO
      return 0

def readFile? (path : String) : IO (Option ByteArray) := do
  return (← (IO.FS.readBinFile path).toBaseIO).toOption

def run (arguments : List String) : IO UInt32 := do
  match CommandLine.read arguments with
  | .error (.halt halt) =>
    if halt.isRequested then IO.print halt.text else IO.eprint halt.text
    return halt.exitCode
  | .error (.pairing error) => fail (.pairing error)
  | .ok invocation =>
    let file ← invocation.config.bindM readFile?
    match plan invocation file (← IO.getEnv Config.protocolLogVariable) with
    | .error failure => fail failure
    | .ok plan => attach plan

end DebugLink.Attach

def main (arguments : List String) : IO UInt32 :=
  DebugLink.Attach.run arguments
