/-!
# Ids of commands

A generator of ids that several sessions may share. Ids start at 1 and grow, so a response that
comes late cannot be taken for the answer to a newer command.
-/

set_option autoImplicit false

namespace DebugLink

structure Sequence where
  next : UInt64
deriving DecidableEq

namespace Sequence

def initial : Sequence := ⟨1⟩

def draw (sequence : Sequence) : UInt64 × Sequence :=
  (sequence.next, ⟨sequence.next + 1⟩)

end Sequence

end DebugLink
