import DebugLink.Session.Machine

/-!
# Sessions that share a generator of ids

Sessions opened one after the other, or side by side, draw their ids from one generator, so that
ids stay unique across reconnects. A session may also have a generator of its own.
-/

set_option autoImplicit false

namespace DebugLink

/-- A machine, and whether it draws ids from a generator of its own. -/
structure Fleet.Member where
  ownSequence : Bool
  machine : Machine

structure Fleet where
  sequence : Sequence
  members : List Fleet.Member

namespace Fleet

def empty : Fleet := ⟨.initial, []⟩

def add (fleet : Fleet) (member : Member) : Fleet :=
  { fleet with members := fleet.members ++ [member] }

/-- The machine at an index, with the shared generator in its present state. -/
def machine? (fleet : Fleet) (index : Nat) : Option Machine :=
  fleet.members[index]?.map fun member =>
    if member.ownSequence then member.machine
    else member.machine.modify ({ · with sequence := fleet.sequence })

def step (fleet : Fleet) (index : Nat) (input : Input) : Fleet × List Emission :=
  match fleet.members[index]?, fleet.machine? index with
  | some member, some machine =>
    let turn := machine.step input
    ({ sequence :=
        if member.ownSequence then fleet.sequence else turn.machine.session.sequence
       members := fleet.members.set index { member with machine := turn.machine } },
      turn.emitted)
  | _, _ => (fleet, [])

end Fleet

end DebugLink
