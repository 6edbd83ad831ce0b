import DebugLink.Session.Call

/-!
# Mailboxes for replies

A call may deliver its outcome to a mailbox instead of to callbacks. The outcome can be taken
once. A mailbox is closed when its outcome has been taken, or when there will be none because the
reply was stale or the session is gone.
-/

set_option autoImplicit false

namespace DebugLink

inductive Mailbox where
  | waiting
  | delivered (outcome : Except CallFailure Reply)
  | closed

inductive Mailbox.Found where
  | empty
  | outcome (outcome : Except CallFailure Reply)
  | disconnected

namespace Mailbox

def deliver (outcome : Except CallFailure Reply) : Mailbox → Mailbox
  | .waiting => .delivered outcome
  | mailbox => mailbox

/-- No outcome will come; one that is there can still be taken. -/
def abandon : Mailbox → Mailbox
  | .waiting => .closed
  | mailbox => mailbox

def take : Mailbox → Found × Mailbox
  | .waiting => (.empty, .waiting)
  | .delivered outcome => (.outcome outcome, .closed)
  | .closed => (.disconnected, .closed)

end Mailbox

end DebugLink
