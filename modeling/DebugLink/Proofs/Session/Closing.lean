import DebugLink.Proofs.Session.Identity

/-!
# How a session closes

A close takes all calls out of the table before it fails the first one, and nothing enters a call
into the table of a session that is not connected. While a session is closing just one close is
under way, so the transport is released once, when the session becomes closed.
-/

set_option autoImplicit false

namespace DebugLink

def Hand.isDrained : Hand → Bool
  | .drained .. => true
  | .nothing | .sent _ | .response .. | .undecodable .. => false

/-- Unless a session is connected its table is empty, and only then is a close under way, in the
hand or in a wait. -/
structure Session.Emptied (s : Session) (hand : Hand) (waits : List Waiting) : Prop where
  table : s.phase ≠ .connected → s.calls = []
  hand : hand.isDrained = true → s.phase ≠ .connected
  waits : ∀ waiting ∈ waits, waiting.hand.isDrained = true → s.phase ≠ .connected

namespace Session.Emptied

variable {s t : Session} {hand next : Hand} {waits : List Waiting}

theorem initial (config : Config) (registry : Registry) (transcript : Transcript) :
    (Session.initial config registry transcript).Emptied .nothing [] :=
  ⟨fun _ => rfl, by simp [Hand.isDrained], by simp⟩

theorem keep (emptied : s.Emptied hand waits) (phase : t.phase = s.phase)
    (calls : t.calls ⊆ s.calls) (drained : next.isDrained = true → hand.isDrained = true) :
    t.Emptied next waits := by
  refine ⟨?_, ?_, ?_⟩
  · intro past
    rw [phase] at past
    exact List.subset_nil.1 (emptied.table past ▸ calls)
  · intro closes
    rw [phase]
    exact emptied.hand (drained closes)
  · rw [phase]
    exact emptied.waits

theorem leave {waiting : Waiting} (emptied : s.Emptied hand waits)
    (drained : waiting.hand.isDrained = true → hand.isDrained = true) :
    s.Emptied .nothing (waiting :: waits) := by
  refine ⟨emptied.table, by simp [Hand.isDrained], ?_⟩
  intro other mem closes
  rcases List.mem_cons.1 mem with rfl | below
  · exact emptied.hand (drained closes)
  · exact emptied.waits other below closes

end Session.Emptied

variable {m : Machine} {input : Input} {base : List Waiting}

theorem Work.emptied {s t : Session} {hand next : Hand} {es : List Emission}
    (work : Work m input s hand es t next) (emptied : s.Emptied hand base) :
    t.Emptied next base := by
  cases work with
  | responded received decoded pending =>
    rename_i raw frame call
    obtain ⟨context, handles, absorbed, -⟩ := Machine.absorb_eq
      (m.session.removeCall frame.id) frame (m.session.isStale call)
    rw [absorbed]
    exact emptied.keep rfl List.eraseP_subset (by simp [Hand.isDrained])
  | malformed received refused addressed meant pending =>
    exact emptied.keep rfl List.eraseP_subset (by simp [Hand.isDrained])
  | withdrawn refused pending => exact emptied.keep rfl List.eraseP_subset id
  | closing reason connected =>
    refine ⟨fun _ => rfl, by simp, by simp⟩
  | abandoned | abandonedMalformed =>
    exact emptied.keep rfl (List.Subset.refl _) (by simp [Hand.isDrained])
  | _ => exact emptied.keep rfl (List.Subset.refl _) id

theorem Ends.emptied {s t : Session} {hand : Hand} {es : List Emission}
    {waiting : Option Waiting} (last : Ends m input s hand es t waiting)
    (emptied : s.Emptied hand base) : t.Emptied .nothing (waiting.toList ++ base) := by
  cases last with
  | entered asked sends connected =>
    refine ⟨absurd connected, by simp [Hand.isDrained], ?_⟩
    intro waiting mem closes
    rcases List.mem_cons.1 mem with rfl | below
    · cases closes
    · exact absurd connected (emptied.waits waiting below closes)
  | announced waiting => exact emptied.leave id
  | completed | failedMalformed | handled | pulled =>
    exact emptied.leave (by simp [Waiting.hand, Hand.isDrained])
  | drained => exact emptied.leave (fun _ => rfl)
  | released reason after =>
    have empty : s.calls = [] := emptied.table (emptied.hand rfl)
    exact ⟨fun _ => empty, by simp [Hand.isDrained], by simp⟩
  | _ => exact emptied.keep rfl (List.Subset.refl _) (by simp [Hand.isDrained])

theorem Works.emptied {s : Session} {hand : Hand} {turn : Turn}
    (works : Works m input base s hand turn) (emptied : s.Emptied hand base) :
    turn.machine.session.Emptied .nothing turn.machine.stack := by
  induction works with
  | ends last => exact last.emptied emptied
  | work first rest ih => exact ih (first.emptied emptied)

namespace Machine

theorem begins_emptied {m : Machine} (input : Input)
    (emptied : m.session.Emptied .nothing m.stack) :
    m.session.Emptied (m.hand input) (m.base input) := by
  cases input with
  | start operation => exact emptied
  | _ =>
    cases waited : m.stack with
    | nil => simpa [hand, base, waited] using emptied
    | cons waiting rest =>
      rw [waited] at emptied
      refine ⟨emptied.table, ?_, ?_⟩
      · simpa [hand, waited] using emptied.waits waiting (by simp)
      · intro other mem
        simp only [base, waited, List.tail_cons] at mem
        exact emptied.waits other (List.mem_cons_of_mem _ mem)

theorem emptied_step {m : Machine} (input : Input) (emptied : m.session.Emptied .nothing m.stack) :
    (m.step input).machine.session.Emptied .nothing (m.step input).machine.stack := by
  rcases step_works m input with idle | works
  · rw [idle]
    exact emptied
  · exact works.emptied (begins_emptied input emptied)

theorem emptied_run {m : Machine} (inputs : List Input)
    (emptied : m.session.Emptied .nothing m.stack) :
    (m.after inputs).session.Emptied .nothing (m.after inputs).stack := by
  induction inputs generalizing m with
  | nil => exact emptied
  | cons input inputs ih => exact ih (emptied_step input emptied)

end Machine

/-! ## One close at a time -/

def Emission.isRelease : Emission → Bool
  | .request .closeTransport => true
  | _ => false

def releases (emitted : List Emission) : Nat :=
  emitted.countP Emission.isRelease

theorem releases_append (xs ys : List Emission) :
    releases (xs ++ ys) = releases xs + releases ys :=
  List.countP_append

theorem releases_complete (id : UInt64) (outcome : Except CallFailure Reply) :
    releases [.request (.complete id outcome)] = 0 := by
  cases outcome <;> rfl

def Hand.drains (hand : Hand) : Nat :=
  if hand.isDrained then 1 else 0

/-- How many closes are under way in a hand and in waits. -/
def drains (hand : Hand) (waits : List Waiting) : Nat :=
  hand.drains + waits.countP (·.hand.isDrained)

theorem drains_cons (waiting : Waiting) (waits : List Waiting) :
    drains .nothing (waiting :: waits) = drains waiting.hand waits := by
  change 0 + (waiting :: waits).countP (·.hand.isDrained) = _
  rw [List.countP_cons, Nat.zero_add, Nat.add_comm]
  rfl

def Phase.isClosing : Phase → Nat
  | .closing => 1
  | .connected | .closed => 0

def Phase.isClosed : Phase → Nat
  | .closed => 1
  | .connected | .closing => 0

theorem Phase.isClosed_eq_zero {phase : Phase} (opened : phase ≠ .closed) :
    phase.isClosed = 0 := by
  cases phase with
  | closed => exact absurd rfl opened
  | connected | closing => rfl

/-- A close is under way just while the session is closing, and then it is the only one. -/
def Session.Drains (s : Session) (hand : Hand) (waits : List Waiting) : Prop :=
  drains hand waits = s.phase.isClosing

theorem Session.Drains.closing {s : Session} {hand : Hand} {waits : List Waiting}
    (drains : s.Drains hand waits) (held : hand.isDrained = true) :
    s.phase = .closing ∧ DebugLink.drains .nothing waits = 0 := by
  unfold Session.Drains DebugLink.drains Hand.drains at *
  rw [if_pos held] at drains
  cases phase : s.phase with
  | closing =>
    rw [phase, Phase.isClosing] at drains
    exact ⟨rfl, by rw [if_neg (by simp [Hand.isDrained])]; omega⟩
  | connected | closed =>
    rw [phase, Phase.isClosing] at drains
    omega

section Releasing

variable {m : Machine} {input : Input} {base : List Waiting} {s t : Session}

theorem Work.drains {hand next : Hand} {es : List Emission} (work : Work m input s hand es t next)
    (drains : s.Drains hand base) :
    t.Drains next base ∧ releases es + s.phase.isClosed = t.phase.isClosed := by
  cases work with
  | responded received decoded pending =>
    rename_i raw frame call
    obtain ⟨context, handles, absorbed, -⟩ := Machine.absorb_eq
      (m.session.removeCall frame.id) frame (m.session.isStale call)
    rw [absorbed]
    exact ⟨drains, Nat.zero_add _⟩
  | closing reason connected =>
    have idle : DebugLink.drains .nothing base = 0 := by
      rw [Session.Drains, connected] at drains
      exact drains
    refine ⟨?_, by rw [connected]; rfl⟩
    simp only [DebugLink.drains, Hand.drains, Hand.isDrained, Session.Drains, Phase.isClosing,
      Bool.false_eq_true, if_false, if_true] at idle ⊢
    omega
  | _ => exact ⟨drains, Nat.zero_add _⟩

theorem Ends.drains {hand : Hand} {es : List Emission} {waiting : Option Waiting}
    (last : Ends m input s hand es t waiting) (drains : s.Drains hand base) :
    t.Drains .nothing (waiting.toList ++ base) ∧
      releases es + s.phase.isClosed = t.phase.isClosed := by
  cases last with
  | released reason after =>
    obtain ⟨closing, idle⟩ := drains.closing rfl
    refine ⟨?_, by rw [closing]; rfl⟩
    change DebugLink.drains .nothing (.closingTransport after :: base) = 0
    rw [drains_cons]
    exact idle
  | announced waiting => exact ⟨(drains_cons waiting base).trans drains, Nat.zero_add _⟩
  | completed | failedMalformed | drained =>
    exact ⟨(drains_cons _ base).trans drains, by rw [releases_complete, Nat.zero_add]⟩
  | entered | handled | pulled => exact ⟨(drains_cons _ base).trans drains, Nat.zero_add _⟩
  | _ => exact ⟨drains, Nat.zero_add _⟩

theorem Works.drains {hand : Hand} {turn : Turn} (works : Works m input base s hand turn)
    (drains : s.Drains hand base) :
    turn.machine.session.Drains .nothing turn.machine.stack ∧
      releases turn.emitted + s.phase.isClosed = turn.machine.session.phase.isClosed := by
  induction works with
  | ends last => exact last.drains drains
  | work first rest ih =>
    obtain ⟨kept, now⟩ := first.drains drains
    obtain ⟨left, later⟩ := ih kept
    refine ⟨left, ?_⟩
    simp only [Turn.preceded, releases_append]
    omega

end Releasing

namespace Machine

def Drains (m : Machine) : Prop :=
  m.session.Drains .nothing m.stack

theorem begins_drains {m : Machine} (input : Input) (drains : m.Drains) :
    m.session.Drains (m.hand input) (m.base input) := by
  cases input with
  | start operation => exact drains
  | _ =>
    cases waited : m.stack with
    | nil => simpa [Drains, hand, base, waited] using drains
    | cons waiting rest =>
      rw [Drains, waited] at drains
      simp only [hand, base, waited]
      exact (drains_cons waiting rest).symm.trans drains

theorem drains_step {m : Machine} (input : Input) (drains : m.Drains) :
    (m.step input).machine.Drains ∧
      releases (m.step input).emitted + m.session.phase.isClosed
        = (m.step input).machine.session.phase.isClosed := by
  rcases step_works m input with idle | works
  · rw [idle]
    exact ⟨drains, Nat.zero_add _⟩
  · exact works.drains (begins_drains input drains)

/-- In every run the transport is released once if the session becomes closed, and else never. -/
theorem drains_run {m : Machine} (inputs : List Input) (drains : m.Drains) :
    (m.after inputs).Drains ∧
      releases (m.emitted inputs) + m.session.phase.isClosed
        = (m.after inputs).session.phase.isClosed := by
  induction inputs generalizing m with
  | nil => exact ⟨drains, Nat.zero_add _⟩
  | cons input inputs ih =>
    obtain ⟨kept, now⟩ := drains_step input drains
    obtain ⟨left, later⟩ := ih kept
    rw [emitted_cons, releases_append]
    exact ⟨left, by rw [after_cons]; omega⟩

end Machine

end DebugLink
