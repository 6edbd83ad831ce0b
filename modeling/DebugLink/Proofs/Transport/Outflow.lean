import DebugLink.Transport.Stream

/-!
# Frames flow out in order

Senders, the closer and the writer of an outlet take their turns in any order. Whatever that order
is, the bytes at the device are the beginning of what the accepted frames come to, one after the
other; and unless the device fails, nothing that was accepted before the close is lost.
-/

set_option autoImplicit false

namespace DebugLink.Outlet

/-- What happens at an outlet: a sender, the closer or the writer has its turn. -/
inductive Action where
  | send (frame : String)
  | close
  | work (step : Step)

def act (outlet : Outlet) : Action → Outlet
  | .send frame => (outlet.send frame).toOption.getD outlet
  | .close => outlet.close
  | .work step => outlet.step step

/-- The frame that an action hands over, if the outlet takes it. -/
def taken? (outlet : Outlet) : Action → Option String
  | .send frame => (outlet.send frame).toOption.map fun _ => frame
  | .close | .work _ => none

def after (outlet : Outlet) (actions : List Action) : Outlet :=
  actions.foldl act outlet

def accepted (outlet : Outlet) : List Action → List String
  | [] => []
  | action :: actions => (outlet.taken? action).toList ++ (outlet.act action).accepted actions

def bytesOfAll (frames : List String) : List UInt8 :=
  frames.flatMap Framing.write

/-- The bytes of the frame at work that are still to be written. -/
def Writer.rest : Writer → List UInt8
  | .writing rest => rest
  | .idle | .stopped => []

def Refuses (outlet : Outlet) : Prop :=
  outlet.closed = true ∨ outlet.writer = .stopped

theorem bytesOfAll_append (xs ys : List String) :
    bytesOfAll (xs ++ ys) = bytesOfAll xs ++ bytesOfAll ys :=
  List.flatMap_append

theorem after_append (outlet : Outlet) (xs ys : List Action) :
    outlet.after (xs ++ ys) = (outlet.after xs).after ys :=
  List.foldl_append

theorem accepted_append (outlet : Outlet) (xs ys : List Action) :
    outlet.accepted (xs ++ ys) = outlet.accepted xs ++ (outlet.after xs).accepted ys := by
  induction xs generalizing outlet with
  | nil => rfl
  | cons action xs ih =>
    rw [List.cons_append, accepted, accepted, ih, List.append_assoc]
    rfl

/-! ## Sends -/

theorem send_of_refuses {outlet : Outlet} (refuses : outlet.Refuses) (frame : String) :
    outlet.send frame = .error .closed := by
  rcases refuses with closed | stopped
  · simp [send, closed]
  · simp [send, stopped]

theorem send_of_open {outlet : Outlet} (opened : ¬ outlet.Refuses) (frame : String) :
    outlet.send frame = .ok { outlet with queue := outlet.queue ++ [frame] } := by
  rw [Refuses, not_or] at opened
  simp [send, opened]

theorem act_send_of_refuses {outlet : Outlet} (refuses : outlet.Refuses) (frame : String) :
    outlet.act (.send frame) = outlet ∧ outlet.taken? (.send frame) = none := by
  rw [act, taken?, send_of_refuses refuses]
  exact ⟨rfl, rfl⟩

theorem act_send_of_open {outlet : Outlet} (opened : ¬ outlet.Refuses) (frame : String) :
    outlet.act (.send frame) = { outlet with queue := outlet.queue ++ [frame] } ∧
      outlet.taken? (.send frame) = some frame := by
  rw [act, taken?, send_of_open opened]
  exact ⟨rfl, rfl⟩

/-! ## What a step of the writer does -/

inductive Moves (outlet : Outlet) : Step → Outlet → Prop where
  | still (step : Step) : Moves outlet step outlet
  | receives {frame : String} {rest : List String} (idle : outlet.writer = .idle)
      (queued : outlet.queue = frame :: rest) :
      Moves outlet .receive { outlet with queue := rest, writer := .writing (Framing.write frame) }
  | stops (idle : outlet.writer = .idle) (empty : outlet.queue = [])
      (closed : outlet.closed = true) : Moves outlet .receive { outlet with writer := .stopped }
  | writes {bytes : List UInt8} (count : Nat) (working : outlet.writer = .writing bytes) :
      Moves outlet (.write count)
        { outlet with
          writer := .writing (bytes.drop count), written := outlet.written ++ bytes.take count }
  | flushes (done : outlet.writer = .writing []) :
      Moves outlet .flush { outlet with writer := .idle }
  | fails {bytes : List UInt8} (working : outlet.writer = .writing bytes) :
      Moves outlet .fail { outlet with queue := [], writer := .stopped }

theorem step_moves (outlet : Outlet) (step : Step) : outlet.Moves step (outlet.step step) := by
  cases step with
  | receive =>
    simp only [Outlet.step]
    split
    · rename_i idle queued
      exact .receives idle queued
    · rename_i idle empty
      split
      · rename_i closed
        exact .stops idle empty closed
      · exact .still _
    · exact .still _
  | write count =>
    simp only [Outlet.step]
    split
    · rename_i working
      exact .writes count working
    · exact .still _
  | flush =>
    simp only [Outlet.step]
    split
    · rename_i done
      exact .flushes done
    · exact .still _
  | fail =>
    simp only [Outlet.step]
    split
    · rename_i working
      exact .fails working
    · exact .still _

/-! ## Where the accepted bytes are -/

/-- Every byte of the accepted frames is written, at work or in the queue, in this order, and the
writer stops only once there is nothing to come. -/
structure Whole (outlet : Outlet) (frames : List String) : Prop where
  bytes : outlet.written ++ outlet.writer.rest ++ bytesOfAll outlet.queue = bytesOfAll frames
  ended : outlet.writer = .stopped → outlet.closed = true ∧ outlet.queue = []

structure Broken (outlet : Outlet) (frames : List String) : Prop where
  stopped : outlet.writer = .stopped
  front : outlet.written <+: bytesOfAll frames

variable {outlet next : Outlet} {frames : List String}

theorem Whole.front (whole : outlet.Whole frames) : outlet.written <+: bytesOfAll frames := by
  rw [← whole.bytes, List.append_assoc]
  exact List.prefix_append _ _

theorem Whole.moves {step : Step} (whole : outlet.Whole frames) (moves : outlet.Moves step next)
    (sound : step ≠ .fail) : next.Whole frames := by
  obtain ⟨bytes, ended⟩ := whole
  cases moves with
  | still => exact ⟨bytes, ended⟩
  | receives idle queued =>
    refine ⟨?_, by simp⟩
    rw [idle, queued] at bytes
    simpa [Writer.rest, bytesOfAll] using bytes
  | stops idle empty closed =>
    refine ⟨?_, fun _ => ⟨closed, empty⟩⟩
    rwa [idle] at bytes
  | @writes left count working =>
    refine ⟨?_, by simp⟩
    have same : outlet.written ++ left.take count ++ left.drop count = outlet.written ++ left := by
      rw [List.append_assoc, List.take_append_drop]
    rw [working] at bytes
    rw [← bytes]
    exact congrArg (· ++ bytesOfAll outlet.queue) same
  | flushes done =>
    refine ⟨?_, by simp⟩
    rwa [done] at bytes
  | fails => exact absurd rfl sound

theorem Whole.act {action : Action} (whole : outlet.Whole frames)
    (sound : action ≠ .work .fail) :
    (outlet.act action).Whole (frames ++ (outlet.taken? action).toList) := by
  cases action with
  | send frame =>
    by_cases refuses : outlet.Refuses
    · obtain ⟨same, none⟩ := act_send_of_refuses refuses frame
      rw [same, none]
      simpa using whole
    · obtain ⟨sent, some⟩ := act_send_of_open refuses frame
      rw [sent, some]
      refine ⟨?_, fun stopped => absurd (.inr stopped) refuses⟩
      rw [Option.toList_some, bytesOfAll_append, bytesOfAll_append, ← whole.bytes]
      exact (List.append_assoc ..).symm
  | close =>
    change outlet.close.Whole (frames ++ [])
    rw [List.append_nil]
    exact ⟨whole.bytes, fun stopped => ⟨rfl, (whole.ended stopped).2⟩⟩
  | work step =>
    change (outlet.step step).Whole (frames ++ [])
    rw [List.append_nil]
    exact whole.moves (outlet.step_moves step) fun fails => sound (congrArg Action.work fails)

theorem Broken.moves {step : Step} (broken : outlet.Broken frames)
    (moves : outlet.Moves step next) : next.Broken frames := by
  have stopped := broken.stopped
  cases moves with
  | still => exact broken
  | receives other | stops other | writes _ other | flushes other | fails other =>
    rw [stopped] at other
    cases other

theorem Broken.act {action : Action} (broken : outlet.Broken frames) :
    (outlet.act action).Broken (frames ++ (outlet.taken? action).toList) := by
  cases action with
  | send frame =>
    obtain ⟨same, none⟩ := act_send_of_refuses (.inr broken.stopped) frame
    rw [same, none]
    simpa using broken
  | close =>
    change outlet.close.Broken (frames ++ [])
    rw [List.append_nil]
    exact ⟨broken.stopped, broken.front⟩
  | work step =>
    change (outlet.step step).Broken (frames ++ [])
    rw [List.append_nil]
    exact broken.moves (outlet.step_moves step)

theorem Whole.fails (whole : outlet.Whole frames) (moves : outlet.Moves .fail next) :
    next.Whole frames ∨ next.Broken frames := by
  cases moves with
  | still => exact .inl whole
  | fails => exact .inr ⟨rfl, whole.front⟩

/-- The device may fail at any action; from then on only the front of the bytes is there. -/
theorem Whole.act_or (whole : outlet.Whole frames) (action : Action) :
    (outlet.act action).Whole (frames ++ (outlet.taken? action).toList) ∨
      (outlet.act action).Broken (frames ++ (outlet.taken? action).toList) := by
  by_cases failing : action = .work .fail
  · subst failing
    change (outlet.step .fail).Whole (frames ++ []) ∨ (outlet.step .fail).Broken (frames ++ [])
    rw [List.append_nil]
    exact whole.fails (outlet.step_moves .fail)
  · exact .inl (whole.act failing)

theorem Whole.after {actions : List Action} (whole : outlet.Whole frames)
    (sound : ∀ action ∈ actions, action ≠ .work .fail) :
    (outlet.after actions).Whole (frames ++ outlet.accepted actions) := by
  induction actions generalizing outlet frames with
  | nil => simpa [accepted, Outlet.after] using whole
  | cons action actions ih =>
    rw [List.forall_mem_cons] at sound
    have rest := ih (whole.act sound.1) sound.2
    rwa [List.append_assoc] at rest

theorem Whole.after_or (actions : List Action)
    (state : outlet.Whole frames ∨ outlet.Broken frames) :
    (outlet.after actions).Whole (frames ++ outlet.accepted actions) ∨
      (outlet.after actions).Broken (frames ++ outlet.accepted actions) := by
  induction actions generalizing outlet frames with
  | nil => simpa [accepted, Outlet.after] using state
  | cons action actions ih =>
    have next := state.elim (·.act_or action) fun broken => .inr broken.act
    have rest := ih next
    rwa [List.append_assoc] at rest

theorem whole_initial : initial.Whole [] :=
  ⟨rfl, by simp [initial]⟩

/-! ## No frame is accepted any more -/

theorem Refuses.moves {step : Step} (refuses : outlet.Refuses)
    (moves : outlet.Moves step next) : next.Refuses := by
  cases moves with
  | still => exact refuses
  | stops | fails => exact .inr rfl
  | receives other | writes _ other | flushes other =>
    refine .inl (refuses.resolve_right ?_)
    rw [other]
    simp

theorem Refuses.act (refuses : outlet.Refuses) (action : Action) : (outlet.act action).Refuses := by
  cases action with
  | send frame => rwa [(act_send_of_refuses refuses frame).1]
  | close => exact .inl rfl
  | work step => exact refuses.moves (outlet.step_moves step)

theorem Refuses.after (refuses : outlet.Refuses) (actions : List Action) :
    (outlet.after actions).Refuses ∧ outlet.accepted actions = [] := by
  induction actions generalizing outlet with
  | nil => exact ⟨refuses, rfl⟩
  | cons action actions ih =>
    obtain ⟨later, silent⟩ := ih (refuses.act action)
    refine ⟨later, ?_⟩
    rw [accepted, silent, List.append_nil]
    cases action with
    | send frame => rw [(act_send_of_refuses refuses frame).2, Option.toList_none]
    | close | work => rfl

theorem closed_act (closed : outlet.closed = true) (action : Action) :
    (outlet.act action).closed = true := by
  cases action with
  | send frame => rwa [(act_send_of_refuses (.inl closed) frame).1]
  | close => rfl
  | work step =>
    have moves := outlet.step_moves step
    change (outlet.step step).closed = true
    generalize outlet.step step = next at moves ⊢
    cases moves <;> exact closed

theorem close_after (closed : outlet.closed = true) (actions : List Action) :
    (outlet.after actions).close = outlet.after actions := by
  induction actions generalizing outlet with
  | nil => exact congrArg (Outlet.mk outlet.queue · outlet.writer outlet.written) closed.symm
  | cons action actions ih => exact ih (closed_act closed action)

/-! ## A writer that goes on -/

/-- The writer of a closed outlet can get through its frames. -/
theorem exists_stopped (closed : outlet.closed = true) :
    ∃ steps : List Step, (∀ step ∈ steps, step ≠ .fail) ∧
      (outlet.after (steps.map .work)).writer = .stopped := by
  obtain ⟨queue, isClosed, writer, written⟩ := outlet
  subst closed
  induction queue generalizing writer written with
  | nil =>
    cases writer with
    | stopped => exact ⟨[], by simp, rfl⟩
    | idle => exact ⟨[.receive], by simp, rfl⟩
    | writing bytes =>
      refine ⟨[.write bytes.length, .flush, .receive], by simp, ?_⟩
      simp [after, Outlet.act, step]
  | cons frame queue ih =>
    cases writer with
    | stopped => exact ⟨[], by simp, rfl⟩
    | idle =>
      obtain ⟨steps, sound, stops⟩ := ih (.writing (Framing.write frame)) written
      exact ⟨.receive :: steps, by simpa using sound, stops⟩
    | writing bytes =>
      obtain ⟨steps, sound, stops⟩ :=
        ih (.writing (Framing.write frame)) (written ++ bytes.take bytes.length)
      refine ⟨.write bytes.length :: .flush :: .receive :: steps, by simpa using sound, ?_⟩
      simpa [after, Outlet.act, step] using stops

/-! ## A writer left to itself -/

/-- One outlet comes from another by steps of the writer, in which the device fails only if it is
limited. -/
def Worked (limit : Option Nat) (outlet next : Outlet) : Prop :=
  ∃ steps : List Step, next = outlet.after (steps.map .work) ∧
    (limit = none → ∀ step ∈ steps, step ≠ .fail)

theorem Worked.trans {limit : Option Nat} {last : Outlet} (first : Worked limit outlet next)
    (rest : Worked limit next last) : Worked limit outlet last := by
  obtain ⟨steps, rfl, sound⟩ := first
  obtain ⟨more, rfl, all⟩ := rest
  refine ⟨steps ++ more, ?_, fun unlimited => ?_⟩
  · rw [List.map_append, after_append]
  · exact List.forall_mem_append.2 ⟨sound unlimited, all unlimited⟩

theorem worked_step {limit : Option Nat} {step : Step} (sound : limit = none → step ≠ .fail)
    (outlet : Outlet) : Worked limit outlet (outlet.step step) :=
  ⟨[step], rfl, by simpa using sound⟩

theorem worked_steps {limit : Option Nat} (first second : Step) (outlet : Outlet)
    (sound : limit = none → first ≠ .fail) (all : limit = none → second ≠ .fail) :
    Worked limit outlet ((outlet.step first).step second) :=
  (worked_step sound outlet).trans (worked_step all _)

theorem worked_writeFrame (limit : Option Nat) (outlet : Outlet) :
    Worked limit outlet (outlet.writeFrame limit).1 := by
  unfold writeFrame
  split
  · dsimp only
    split
    · exact worked_steps (.write _) .fail outlet (by simp) (by simp)
    · exact worked_steps (.write _) .flush outlet (by simp) (by simp)
  · exact worked_steps (.write _) .flush outlet (by simp) (by simp)
  · exact ⟨[], rfl, by simp⟩

theorem worked_go (limit : Option Nat) (frames : Nat) (outlet : Outlet) :
    Worked limit outlet (settle.go limit frames outlet).1 := by
  induction frames generalizing outlet with
  | zero => exact ⟨[], rfl, by simp⟩
  | succ frames ih =>
    have first := worked_writeFrame limit outlet
    rw [settle.go]
    split
    · rename_i next written
      rw [written] at first
      exact (first.trans (worked_step (by simp) _)).trans (ih _)
    · rename_i next error written
      rwa [written] at first

/-- What the writer does on its own is one of the orders in which turns are taken. -/
theorem worked_settle (limit : Option Nat) (outlet : Outlet) :
    Worked limit outlet (outlet.settle limit).1 :=
  (worked_step (by simp) outlet).trans (worked_go limit _ _)

/-- However senders, the closer and the writer take turns, the device holds the beginning of the
accepted frames' bytes. If it does not fail, it holds all of them once the outlet is closed and the
writer has stopped, which a closed outlet can always come to. After the close, or once the writer
has stopped, every send is refused and changes nothing, and after the close so does a further
one. -/
theorem frames_flow_out_in_order (actions : List Action) :
    (initial.after actions).written <+: bytesOfAll (initial.accepted actions) ∧
    ((∀ action ∈ actions, action ≠ .work .fail) → (initial.after actions).closed = true →
      ((initial.after actions).writer = .stopped →
        (initial.after actions).written = bytesOfAll (initial.accepted actions)) ∧
      ∃ steps : List Step, (∀ step ∈ steps, step ≠ .fail) ∧
        (initial.after (actions ++ steps.map .work)).writer = .stopped) ∧
    ((initial.after actions).closed = true ∨ (initial.after actions).writer = .stopped →
      ∀ later : List Action,
        initial.accepted (actions ++ later) = initial.accepted actions ∧
        ∀ frame, (initial.after (actions ++ later)).send frame = .error .closed ∧
          (initial.after (actions ++ later)).act (.send frame)
            = initial.after (actions ++ later)) ∧
    ((initial.after actions).closed = true → ∀ later : List Action,
      (initial.after (actions ++ later)).close = initial.after (actions ++ later)) := by
  refine ⟨?_, ?_, ?_, ?_⟩
  · rcases Whole.after_or actions (.inl whole_initial) with whole | broken
    · exact whole.front
    · exact broken.front
  · intro sound closed
    constructor
    · intro stopped
      obtain ⟨bytes, ended⟩ := whole_initial.after sound
      rw [stopped, (ended stopped).2] at bytes
      simpa [Writer.rest, bytesOfAll] using bytes
    · obtain ⟨steps, all, stops⟩ := exists_stopped closed
      exact ⟨steps, all, by rwa [after_append]⟩
  · intro refuses later
    obtain ⟨refusing, silent⟩ := Refuses.after refuses later
    rw [accepted_append, silent, List.append_nil, after_append]
    exact ⟨rfl, fun frame =>
      ⟨send_of_refuses refusing frame, (act_send_of_refuses refusing frame).1⟩⟩
  · intro closed later
    rw [after_append]
    exact close_after closed later

/-- Two frames, one of them empty, are sent and written in pieces; a third comes after the close. -/
def crossedActions : List Action :=
  [.send "{}", .work .receive, .work (.write 3), .send "", .work (.write 0), .close, .send "late",
    .work (.write 99), .work .flush, .work .receive, .close, .work (.write 21), .work .flush,
    .work .receive]

theorem frames_flow_out_in_order_crossed :
    initial.accepted crossedActions = ["{}", ""] ∧
    (initial.after crossedActions).written = bytesOfAll ["{}", ""] ∧
    (initial.after (crossedActions ++ [.send "later"])).send "last" = .error .closed := by
  have taken : initial.accepted crossedActions = ["{}", ""] := by decide +kernel
  obtain ⟨-, written, refused, -⟩ := frames_flow_out_in_order crossedActions
  refine ⟨taken, ?_, ?_⟩
  · rw [← taken]
    exact (written (by simp [crossedActions]) (by decide +kernel)).1 (by decide +kernel)
  · exact ((refused (.inl (by decide +kernel)) [.send "later"]).2 "last").1

end DebugLink.Outlet
