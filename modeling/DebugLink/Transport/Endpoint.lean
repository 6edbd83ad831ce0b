import DebugLink.Transport.Error
import DebugLink.Transport.SocketAddress

/-!
# Endpoints

Where a debugging target listens: a TCP socket or a local socket in the file system.
-/

set_option autoImplicit false

namespace DebugLink

inductive Endpoint where
  | tcp (address : SocketAddress)
  | unix (path : String)
deriving DecidableEq

namespace Endpoint

def tcpScheme : String := "tcp://"

def unixScheme : String := "unix://"

def parse (text : String) : Except TransportError Endpoint :=
  match text.dropPrefix? tcpScheme, text.dropPrefix? unixScheme with
  | some address, _ =>
    match SocketAddress.parse? address.copy with
    | some address => .ok (.tcp address)
    | none => .error (.endpoint text)
  | none, some path => .ok (.unix path.copy)
  | none, none => .error (.endpoint text)

def text : Endpoint → String
  | .tcp address => tcpScheme ++ address.text
  | .unix path => unixScheme ++ path

end Endpoint

end DebugLink
