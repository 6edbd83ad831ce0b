import DebugLink.Transport.Framing

/-!
# Writing frames to a device

Senders never wait for the device: frames go into a queue, and a writer takes them out in order
and writes their bytes. Sender and writer work independently, so a run is any sequence of
`Outlet.Step`s. The writer stops when the outlet is closed and the queue is empty, or when the
device fails.
-/

set_option autoImplicit false

namespace DebugLink

inductive Outlet.Writer where
  /-- At work on a frame, of which these bytes are still to be written; then the device is flushed. -/
  | writing (rest : List UInt8)
  | idle
  | stopped
deriving DecidableEq

structure Outlet where
  /-- Frames that no writer has taken, oldest first. -/
  queue : List String
  closed : Bool
  writer : Outlet.Writer
  written : List UInt8

namespace Outlet

def initial : Outlet := ⟨[], false, .idle, []⟩

def send (outlet : Outlet) (frame : String) : Except TransportError Outlet :=
  if outlet.closed || outlet.writer = .stopped then .error .closed
  else .ok { outlet with queue := outlet.queue ++ [frame] }

/-- Accepts no frame any more; those accepted are still written. -/
def close (outlet : Outlet) : Outlet :=
  { outlet with closed := true }

inductive Step where
  /-- Takes a frame out of the queue, or stops when there will be none. -/
  | receive
  | write (count : Nat)
  /-- Is done with a frame of which all bytes are written. -/
  | flush
  /-- The device fails to write or to flush. -/
  | fail

/-- The outlet after a step of the writer. A step that the writer cannot take changes nothing. -/
def step (outlet : Outlet) : Step → Outlet
  | .receive =>
    match outlet.writer, outlet.queue with
    | .idle, frame :: rest =>
      { outlet with queue := rest, writer := .writing (Framing.write frame) }
    | .idle, [] => if outlet.closed then { outlet with writer := .stopped } else outlet
    | _, _ => outlet
  | .write count =>
    match outlet.writer with
    | .writing bytes =>
      { outlet with
        writer := .writing (bytes.drop count), written := outlet.written ++ bytes.take count }
    | _ => outlet
  | .flush =>
    match outlet.writer with
    | .writing [] => { outlet with writer := .idle }
    | _ => outlet
  | .fail =>
    match outlet.writer with
    | .writing _ => { outlet with queue := [], writer := .stopped }
    | _ => outlet

/-- Writes the frame at work to a device with room for so many bytes in all, if it is limited. -/
def writeFrame (outlet : Outlet) (limit : Option Nat) : Outlet × Option StreamError :=
  match outlet.writer, limit with
  | .writing bytes, some limit =>
    let room := limit - outlet.written.length
    if room < bytes.length then
      ((outlet.step (.write room)).step .fail, some (.device "sink is full"))
    else
      ((outlet.step (.write bytes.length)).step .flush, none)
  | .writing bytes, none => ((outlet.step (.write bytes.length)).step .flush, none)
  | _, _ => (outlet, none)

/-- Lets the writer work until it stops or waits: the outlet then, and the failure if it met one. -/
def settle (limit : Option Nat) (outlet : Outlet) : Outlet × Option StreamError :=
  go outlet.queue.length (outlet.step .receive)
where
  go : Nat → Outlet → Outlet × Option StreamError
    | 0, outlet => (outlet, none)
    | frames + 1, outlet =>
      match outlet.writeFrame limit with
      | (outlet, none) => go frames (outlet.step .receive)
      | (outlet, some error) => (outlet, some error)

end Outlet

end DebugLink
