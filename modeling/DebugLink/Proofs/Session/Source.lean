import DebugLink.Proofs.Session.Nesting

/-!
# What a reader waits for and what it is given

A reader waits for its source, or for user code while it handles a frame; after the end of the
source it waits while it closes the session. What it is given are the answers to its own waits for
the source, whatever other readers are given on top of it.
-/

set_option autoImplicit false

namespace DebugLink

/-! ## What a reader is given -/

def Input.pulled? : Input → Option Pulled
  | .pulled given => some given
  | .crashed => some .broken
  | _ => none

namespace Machine

/-- What the reader that was begun above so many waits is given by its source. -/
def pulledAt? (depth : Nat) (m : Machine) (input : Input) : Option Pulled :=
  match m.stack with
  | .pulling :: below => if below.length = depth then input.pulled? else none
  | _ => none

def pulls (depth : Nat) (m : Machine) : List Input → List Pulled
  | [] => []
  | input :: inputs => (m.pulledAt? depth input).toList ++ (m.step input).machine.pulls depth inputs

def AsksAt (depth : Nat) (m : Machine) (input : Input) : Prop :=
  (∃ below, (m.step input).machine.stack = .pulling :: below ∧ below.length = depth) ∧
    (m.step input).emitted.getLast? = some (.request .pull)

variable {m : Machine} {depth : Nat} {input : Input} {base : List Waiting} {waiting : Waiting}

theorem pulls_append (depth : Nat) (m : Machine) (xs ys : List Input) :
    m.pulls depth (xs ++ ys) = m.pulls depth xs ++ (m.after xs).pulls depth ys := by
  induction xs generalizing m with
  | nil => rfl
  | cons x xs ih => rw [List.cons_append, pulls, pulls, ih, List.append_assoc, after_cons]

theorem pulledAt?_eq_some {given : Pulled} :
    m.pulledAt? depth input = some given ↔
      ∃ below, m.stack = .pulling :: below ∧ below.length = depth ∧ input.pulled? = some given := by
  unfold pulledAt?
  split
  · rename_i below waited
    rw [waited]
    by_cases same : below.length = depth
    · simp [same]
    · simp [same]
  · rename_i other
    constructor
    · intro given
      cases given
    · rintro ⟨below, waited, -⟩
      exact absurd waited (other below)

theorem pulledAt?_eq_none (never : ∀ below given, m.stack = .pulling :: below →
    below.length = depth → input.pulled? = some given → False) :
    m.pulledAt? depth input = none := by
  apply Option.eq_none_iff_forall_not_mem.2
  intro given pull
  obtain ⟨below, stack, same, answer⟩ := pulledAt?_eq_some.1 pull
  exact never below given stack same answer

theorem pulledAt?_of_other (stack : m.stack = waiting :: base) (other : waiting ≠ .pulling)
    (input : Input) : m.pulledAt? depth input = none :=
  pulledAt?_eq_none fun _ _ waited _ _ => other (List.cons.inj (stack.symm.trans waited)).1

theorem pulledAt?_of_pulling (stack : m.stack = .pulling :: base) (input : Input) :
    m.pulledAt? base.length input = input.pulled? := by
  unfold pulledAt?
  rw [stack]
  exact if_pos rfl

theorem answer?_of_pulled? {given : Pulled} (answer : input.pulled? = some given) (n : Machine) :
    n.answer? .pulling input = some (n.afterPull given) := by
  cases input <;> cases answer <;> rfl

theorem pulled?_of_answer {n : Machine} {next : Turn}
    (given : n.answer? .pulling input = some next) :
    ∃ pulled, input.pulled? = some pulled ∧ next = n.afterPull pulled := by
  cases input <;> cases given
  · exact ⟨.broken, rfl, rfl⟩
  · exact ⟨_, rfl, rfl⟩

theorem pulledAt?_of_leaves (leaves : m.Leaves (waiting :: base) input) :
    m.pulledAt? base.length input = none := by
  refine pulledAt?_eq_none fun below given waited same answer => ?_
  have taken := answer?_of_pulled? answer ⟨m.session, below⟩
  rw [answer?_of_leaves leaves waited same] at taken
  cases taken

theorem pulls_concat (depth : Nat) (m : Machine) (inputs : List Input) (input : Input) :
    m.pulls depth (inputs ++ [input])
      = m.pulls depth inputs ++ ((m.after inputs).pulledAt? depth input).toList := by
  rw [pulls_append, pulls, pulls, List.append_nil]

theorem pulls_start (depth : Nat) (m : Machine) (operation : Operation) (inputs : List Input) :
    m.pulls depth (.start operation :: inputs)
      = (m.step (.start operation)).machine.pulls depth inputs := by
  have none : m.pulledAt? depth (.start operation) = none :=
    pulledAt?_eq_none fun _ _ _ _ answer => nomatch answer
  rw [pulls, none]
  rfl

theorem pulls_eq_nil {depth : Nat} {body : List Input}
    (deeper : ∀ before input rest, body = before ++ input :: rest →
      depth + 1 < (m.after before).stack.length) : m.pulls depth body = [] := by
  induction body generalizing m with
  | nil => rfl
  | cons input body ih =>
    have none : m.pulledAt? depth input = none := by
      refine pulledAt?_eq_none fun below given stack same _ => ?_
      have deep := deeper [] input body rfl
      rw [after_nil, stack, List.length_cons] at deep
      omega
    rw [pulls, none, ih fun before other rest split =>
      deeper (input :: before) other rest (congrArg (List.cons input) split)]
    rfl

end Machine

/-! ## The waits of a reader -/

/-- A reader waits with this while it handles a frame, or for the next one; the number bounds the
answers that it needs until it goes on. -/
def Waiting.reads? : Waiting → Option Nat
  | .pulling => some 0
  | .completing _ .read => some 1
  | .announcedResponse _ _ _ .read | .announcedMalformed _ _ .read => some 2
  | _ => none

def Turn.Reads (turn : Turn) (base : List Waiting) (limit : Nat) : Prop :=
  (turn.machine.stack = base ∧ turn.machine.session.phase = .closed) ∨
    ∃ waiting left, turn.machine.stack = waiting :: base ∧ waiting.reads? = some left ∧
      left ≤ limit

namespace Turn.Reads

variable {turn : Turn} {base : List Waiting} {limit : Nat} {n : Machine}

theorem eq_pulling {waiting : Waiting} (answers : waiting.reads? = some 0) :
    waiting = .pulling := by
  cases waiting with
  | pulling => rfl
  | completing label after => cases after <;> cases answers
  | announcedResponse call outcome stale after => cases after <;> cases answers
  | announcedMalformed call failure after => cases after <;> cases answers
  | transmitting | announcedCall | draining | closingTransport | announcedClose => cases answers

theorem ne_pulling {waiting : Waiting} {left : Nat} (answers : waiting.reads? = some (left + 1)) :
    waiting ≠ .pulling := by
  rintro rfl
  cases answers

theorem mono {more : Nat} (reads : turn.Reads base limit) (le : limit ≤ more) :
    turn.Reads base more := by
  rcases reads with stopped | ⟨waiting, left, stack, answers, few⟩
  · exact .inl stopped
  · exact .inr ⟨waiting, left, stack, answers, Nat.le_trans few le⟩

theorem conclude (n : Machine) : (n.conclude .read).Reads n.stack 0 := by
  simp only [Machine.conclude]
  split
  · rename_i closed
    exact .inl ⟨rfl, closed⟩
  · exact .inr ⟨.pulling, 0, rfl, rfl, Nat.le_refl _⟩

theorem announce {waiting : Waiting} {next : Machine → Turn} {left : Nat}
    (answers : waiting.reads? = some left) (few : left ≤ limit)
    (rest : (next n).Reads n.stack limit) : (n.announce waiting next).Reads n.stack limit := by
  rcases n.announce_cases waiting next with direct | ⟨listener, told⟩
  · rw [direct]
    exact rest
  · rw [told]
    exact .inr ⟨waiting, left, rfl, answers, few⟩

theorem completeResponse (n : Machine) (call : PendingCall) (outcome : Except RemoteError Json)
    (stale : Bool) : (n.completeResponse call outcome stale .read).Reads n.stack 1 := by
  cases stale with
  | true => exact (conclude n).mono (Nat.zero_le _)
  | false =>
    obtain ⟨log, timely⟩ := Machine.completeResponse_timely n call outcome .read
    rw [timely]
    exact .inr ⟨.completing call.command .read, 1, rfl, rfl, Nat.le_refl _⟩

theorem completeMalformed (n : Machine) (call : PendingCall) (failure : CallFailure) :
    (n.completeMalformed call failure .read).Reads n.stack 1 := by
  unfold Machine.completeMalformed
  split
  · exact (conclude n).mono (Nat.zero_le _)
  · exact .inr ⟨.completing call.command .read, 1, rfl, rfl, Nat.le_refl _⟩

theorem deliverResponse (n : Machine) (frame : ResponseFrame) :
    (n.deliverResponse frame .read).Reads n.stack 2 := by
  unfold Machine.deliverResponse
  split
  · exact (conclude n).mono (Nat.zero_le _)
  · rename_i call pending
    exact announce (n := n.modify _) rfl
      (Nat.le_refl _) ((completeResponse _ _ _ _).mono (Nat.le_succ _))

theorem deliverMalformed (n : Machine) (id : UInt64) (error : FrameError) :
    (n.deliverMalformed id error .read).Reads n.stack 2 := by
  unfold Machine.deliverMalformed
  split
  · exact (conclude n).mono (Nat.zero_le _)
  · split
    · exact (conclude n).mono (Nat.zero_le _)
    · rename_i call pending
      exact announce (n := n.modify _) rfl
        (Nat.le_refl _) ((completeMalformed _ _ _).mono (Nat.le_succ _))

theorem routeEvent (n : Machine) (frame : EventFrame) :
    (n.routeEvent frame .read).Reads n.stack 2 := by
  unfold Machine.routeEvent
  split
  · exact (conclude n).mono (Nat.zero_le _)
  · dsimp only [Turn.noticed]
    split
    · exact .inr ⟨.completing frame.name .read, 1, rfl, rfl, Nat.le_succ _⟩
    · exact (conclude n).mono (Nat.zero_le _)

theorem receive (n : Machine) (text : String) : (n.receive text .read).Reads n.stack 2 := by
  unfold Machine.receive
  split
  · exact (conclude n).mono (Nat.zero_le _)
  · cases Json.parse? text with
    | none => exact (conclude n).mono (Nat.zero_le _)
    | some raw =>
      dsimp only [Machine.deliver]
      split
      · exact deliverResponse n _
      · exact routeEvent ⟨_, n.stack⟩ _
      · split
        · exact deliverMalformed n _ _
        · exact (conclude n).mono (Nat.zero_le _)

theorem of_answer {s : Session} {waiting : Waiting} {input : Input} {next : Turn} {left : Nat}
    (answers : waiting.reads? = some (left + 1))
    (given : Machine.answer? ⟨s, base⟩ waiting input = some next)
    (sound : ¬ (input = .crashed ∧ waiting.isAnnouncement = true)) : next.Reads base left := by
  cases waiting with
  | completing label after =>
    cases after <;> cases answers
    cases input with
    | start | accepted | refused | pulled => cases given
    | done | crashed =>
      cases given
      exact conclude ⟨s, base⟩
  | announcedResponse call outcome stale after =>
    cases after <;> cases answers
    cases input with
    | start | accepted | refused | pulled => cases given
    | crashed => exact absurd ⟨rfl, rfl⟩ sound
    | done =>
      cases given
      exact completeResponse ⟨s, base⟩ call outcome stale
  | announcedMalformed call failure after =>
    cases after <;> cases answers
    cases input with
    | start | accepted | refused | pulled => cases given
    | crashed => exact absurd ⟨rfl, rfl⟩ sound
    | done =>
      cases given
      exact completeMalformed ⟨s, base⟩ call failure
  | transmitting | announcedCall | draining | closingTransport | announcedClose | pulling =>
    cases answers

end Turn.Reads

/-! ## The end of the source -/

inductive SourceEnd where
  | ended
  | failed (error : TransportError)
  | broken

namespace SourceEnd

def pulled : SourceEnd → Pulled
  | .ended => .ended
  | .failed error => .failed error
  | .broken => .broken

def reason : SourceEnd → String
  | .ended => "end of stream"
  | .failed error => "transport failure: " ++ error.message
  | .broken => "transport failure: frame source panicked"

theorem afterPull_eq (ending : SourceEnd) (n : Machine) :
    ∃ notices : List Notice, n.afterPull ending.pulled
      = (n.transportClosed ending.reason .finish).noticed notices := by
  cases ending with
  | ended => exact ⟨[], rfl⟩
  | failed error => exact ⟨[.readFailed error], rfl⟩
  | broken => exact ⟨[.sourceBroken], rfl⟩

end SourceEnd

/-- The close that a reader brings waits with this. -/
def Waiting.closes : Waiting → Bool
  | .draining _ _ _ .finish | .closingTransport .finish | .announcedClose .finish => true
  | _ => false

theorem Waiting.ne_pulling_of_closes {waiting : Waiting} (closes : waiting.closes = true) :
    waiting ≠ .pulling := by
  rintro rfl
  cases closes

def Turn.Closing (turn : Turn) (base : List Waiting) : Prop :=
  turn.machine.stack = base ∨
    ∃ waiting, turn.machine.stack = waiting :: base ∧ waiting.closes = true

namespace Turn.Closing

variable {base : List Waiting}

theorem drain (n : Machine) (reason : String) (calls : List PendingCall) :
    (n.drain reason calls .finish).Closing n.stack := by
  cases calls with
  | nil => exact .inr ⟨.closingTransport .finish, rfl, rfl⟩
  | cons call calls => exact .inr ⟨.draining call.command reason calls .finish, rfl, rfl⟩

theorem close (n : Machine) (reason : String) : (n.close reason .finish).Closing n.stack := by
  unfold Machine.close
  split
  · exact drain (n.modify _) reason _
  · exact .inl rfl

theorem transportClosed (n : Machine) (reason : String) :
    (n.transportClosed reason .finish).Closing n.stack := by
  unfold Machine.transportClosed
  split <;> exact close n reason

theorem of_answer {s : Session} {waiting : Waiting} {input : Input} {next : Turn}
    (closes : waiting.closes = true)
    (given : Machine.answer? ⟨s, base⟩ waiting input = some next) : next.Closing base := by
  cases waiting with
  | draining label reason rest after =>
    cases after <;> cases closes
    cases input with
    | start | accepted | refused | pulled => cases given
    | done | crashed =>
      cases given
      exact drain ⟨s, base⟩ reason rest
  | closingTransport after =>
    cases after <;> cases closes
    cases input with
    | start | accepted | refused | pulled => cases given
    | crashed =>
      cases given
      exact .inl rfl
    | done =>
      cases given
      rcases Machine.announce_cases ⟨s, base⟩ (.announcedClose .finish) (·.conclude .finish) with
        direct | ⟨listener, told⟩
      · rw [direct]
        exact .inl rfl
      · rw [told]
        exact .inr ⟨_, rfl, rfl⟩
  | announcedClose after =>
    cases after <;> cases closes
    cases input with
    | start | accepted | refused | pulled => cases given
    | done | crashed =>
      cases given
      exact .inl rfl
  | transmitting | announcedCall | announcedResponse | announcedMalformed | completing | pulling =>
    cases closes

end Turn.Closing

/-! ## The frames that a reader takes -/

/-- What is pulled is what a source gives, as long as that lasts. -/
def GivenBy (source pulled : List Pulled) : Prop :=
  pulled <+: source ∨ source <+: pulled

theorem givenBy_cons {first other : Pulled} {source pulled : List Pulled} :
    GivenBy (first :: source) (other :: pulled) ↔ first = other ∧ GivenBy source pulled := by
  simp only [GivenBy, List.cons_prefix_cons]
  tauto

theorem GivenBy.front {source pulled more : List Pulled} (gives : GivenBy source (pulled ++ more)) :
    GivenBy source pulled := by
  rcases gives with within | beyond
  · exact .inl ((List.prefix_append _ _).trans within)
  · exact List.prefix_or_prefix_of_prefix (List.prefix_append _ _) beyond

def sourceOf (frames : List String) (ending : SourceEnd) : List Pulled :=
  frames.map .frame ++ [ending.pulled]

theorem GivenBy.next {frames : List String} {ending : SourceEnd} {given : Pulled} {k : Nat}
    (inside : k ≤ frames.length)
    (gives : GivenBy (sourceOf frames ending) ((frames.take k).map .frame ++ [given])) :
    (∃ text, given = .frame text ∧ k < frames.length ∧
        (frames.take k).map .frame ++ [given] = (frames.take (k + 1)).map .frame) ∨
      (given = ending.pulled ∧
        (frames.take k).map .frame ++ [given] = sourceOf frames ending) := by
  induction k generalizing frames with
  | zero =>
    cases frames with
    | nil =>
      obtain ⟨rfl, -⟩ := givenBy_cons.1 gives
      exact .inr ⟨rfl, rfl⟩
    | cons text frames =>
      obtain ⟨rfl, -⟩ := givenBy_cons.1 gives
      exact .inl ⟨text, rfl, Nat.succ_pos _, rfl⟩
  | succ k ih =>
    cases frames with
    | nil => cases inside
    | cons text frames =>
      rcases ih (Nat.le_of_succ_le_succ inside) (givenBy_cons.1 gives).2 with
        ⟨next, same, more, taken⟩ | ⟨same, taken⟩
      · exact .inl ⟨next, same, Nat.succ_lt_succ more, congrArg (List.cons (Pulled.frame text)) taken⟩
      · exact .inr ⟨same, congrArg (List.cons (Pulled.frame text)) taken⟩

theorem taken_prefix (frames : List String) (ending : SourceEnd) (k : Nat) :
    (frames.take k).map .frame <+: sourceOf frames ending :=
  ((List.take_prefix k frames).map _).trans (List.prefix_append _ _)

theorem givenBy_taken {frames : List String} {ending : SourceEnd} {k : Nat} {pulled : List Pulled}
    (gives : GivenBy (sourceOf (frames.drop k) ending) pulled) :
    GivenBy (sourceOf frames ending) ((frames.take k).map .frame ++ pulled) := by
  have whole : sourceOf frames ending
      = (frames.take k).map .frame ++ sourceOf (frames.drop k) ending := by
    rw [sourceOf, sourceOf, ← List.append_assoc, ← List.map_append, List.take_append_drop]
  rw [whole]
  exact gives.imp (List.prefix_append_right_inj _).2 (List.prefix_append_right_inj _).2

end DebugLink
