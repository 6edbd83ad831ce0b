/-!
# Suspend episodes

Each time the program being debugged stops, a new token is minted and becomes current; it stays
so until the program runs on or stops again. A token that has been dismissed never becomes
current again, because generations only grow.
-/

set_option autoImplicit false

namespace DebugLink

/-- The mark of one suspend episode. -/
structure ContextToken where
  generation : UInt64
deriving DecidableEq

def ContextToken.text (token : ContextToken) : String :=
  "context#" ++ toString token.generation

structure ContextTracker where
  current : Option ContextToken
  /-- The generation of the last token minted. -/
  generation : UInt64

namespace ContextTracker

def initial : ContextTracker := ⟨none, 0⟩

def suspend (tracker : ContextTracker) : ContextToken × ContextTracker :=
  let generation := tracker.generation + 1
  (⟨generation⟩, ⟨some ⟨generation⟩, generation⟩)

def resume (tracker : ContextTracker) : ContextTracker :=
  { tracker with current := none }

def isCurrent (tracker : ContextTracker) (token : ContextToken) : Bool :=
  tracker.current == some token

/-- Whether an action tied to a token, or to none, may run. -/
def allows (tracker : ContextTracker) : Option ContextToken → Bool
  | none => true
  | some token => tracker.isCurrent token

/-- Dismisses the given token; none when it is not current. -/
def invalidate? (tracker : ContextTracker) (token : ContextToken) : Option ContextTracker :=
  if tracker.isCurrent token then some tracker.resume else none

end ContextTracker

end DebugLink
