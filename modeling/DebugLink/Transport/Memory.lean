import DebugLink.Json.Parser
import DebugLink.Json.Printer
import DebugLink.Transport.Error

/-!
# Connections in memory

A link joins a session to a peer in the same program. Frames wait on it in both directions, and
the peer may also push failures or end the stream.
-/

set_option autoImplicit false

namespace DebugLink

structure Link where
  /-- Frames for the peer, oldest first. -/
  outgoing : List String
  /-- What the session will pull, oldest first. -/
  incoming : List (Except TransportError String)
  closed : Bool
  /-- The peer will push nothing more. -/
  ended : Bool
  /-- The peer takes nothing more. -/
  abandoned : Bool

namespace Link

def initial : Link := ⟨[], [], false, false, false⟩

/-! ## The side of the session -/

def send (link : Link) (frame : String) : Except TransportError Link :=
  if link.closed || link.abandoned then .error .closed
  else .ok { link with outgoing := link.outgoing ++ [frame] }

def close (link : Link) : Link :=
  { link with closed := true }

/-- Pulls what the peer pushed first; none when that is still to come. -/
def pull? (link : Link) : Option (Pulled × Link) :=
  match link.incoming with
  | .ok frame :: rest => some (.frame frame, { link with incoming := rest })
  | .error error :: rest => some (.failed error, { link with incoming := rest })
  | [] => if link.ended then some (.ended, link) else none

/-! ## The side of the peer -/

def pushed (link : Link) (item : Except TransportError String) : Link :=
  if link.ended then link else { link with incoming := link.incoming ++ [item] }

/-- Pushes a frame, unless the peer has ended the stream. -/
def push (link : Link) (frame : String) : Link :=
  link.pushed (.ok frame)

def pushJson (link : Link) (frame : Json) : Link :=
  link.push frame.render

def fail (link : Link) (message : String) : Link :=
  link.pushed (.error (.framing message))

def disconnect (link : Link) : Link :=
  { link with ended := true }

/-- The frames that wait for the peer and are JSON; none waits afterwards. -/
def sent (link : Link) : List Json × Link :=
  (link.outgoing.filterMap Json.parse?, { link with outgoing := [] })

/-- Takes the frame that waits longest, which counts only if it is JSON. -/
def nextSent (link : Link) : Option Json × Link :=
  match link.outgoing with
  | [] => (none, link)
  | frame :: rest => (Json.parse? frame, { link with outgoing := rest })

def abandon (link : Link) : Link :=
  { link with outgoing := [], ended := true, abandoned := true }

end Link

end DebugLink
