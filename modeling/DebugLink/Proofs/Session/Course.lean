import DebugLink.Proofs.Session.Closing
import DebugLink.Proofs.Session.Completion
import DebugLink.Proofs.Session.Episode
import DebugLink.Proofs.Session.Response
import DebugLink.Proofs.Wire.Observation

/-!
# What a session knows of the program

A session knows whether the program being debugged is stopped, and the remote objects seen while it
was. Both change only in the ways that `Change` lists, and which changes a step makes is read off
its input: the calls of the user, the frame that comes in, the end of a command that dismisses the
token, and the close that takes effect. So what is known after a run is the outcome of its changes
in order. The handle of an object leads to the last entry since the objects were last forgotten; a
token is current if the last change of state was a stop, and counts the stops.
-/

set_option autoImplicit false

namespace DebugLink

structure Standing where
  context : ContextTracker
  handles : HandleTable

inductive Change where
  | suspended
  | resumed
  | noted (entries : List (Int × Json))
  | forgotten

namespace Change

def forgets : Change → Bool
  | .resumed | .forgotten => true
  | .suspended | .noted _ => false

def entries : Change → List (Int × Json)
  | .noted entries => entries
  | .suspended | .resumed | .forgotten => []

def lifecycle? : Change → Option Lifecycle
  | .suspended => some .suspend
  | .resumed => some .resume
  | .noted _ | .forgotten => none

end Change

def Standing.apply (standing : Standing) : Change → Standing
  | .suspended => { standing with context := standing.context.suspend.2 }
  | .resumed => ⟨standing.context.resume, .empty⟩
  | .noted entries => { standing with handles := standing.handles.putAll entries }
  | .forgotten => { standing with handles := .empty }

def Standing.follow (standing : Standing) (changes : List Change) : Standing :=
  changes.foldl Standing.apply standing

def Session.standing (session : Session) : Standing :=
  ⟨session.context, session.handles⟩

/-! ## The changes of a step -/

namespace Dialect

def eventChanges (dialect : Dialect) (name : String) : List Change :=
  match dialect with
  | .v8 => if name = "break" ∨ name = "exception" then [.suspended] else []
  | .wip =>
    if name = "Debugger.paused" then [.suspended]
    else if name = "Debugger.resumed" then [.resumed]
    else []

def responseChanges (dialect : Dialect) (frame : ResponseFrame) (stale : Bool) : List Change :=
  match dialect with
  | .v8 =>
    (if stale then [] else [.noted frame.refs]) ++
      (if frame.running = some true then [.resumed] else [])
  | .wip => []

end Dialect

namespace Session

def changesOf (session : Session) (text : String) : List Change :=
  if session.phase = .closed then [] else
  match Json.parse? text with
  | none => []
  | some raw =>
    match (session.dialect.classify session.binder raw).result with
    | .error _ => []
    | .ok (.event frame) => session.dialect.eventChanges frame.name
    | .ok (.response frame) =>
      match session.call? frame.id with
      | none => []
      | some call => session.dialect.responseChanges frame (session.isStale call)

end Session

/-- A close takes effect when the session becomes closed. -/
def Phase.changesTo (before after : Phase) : List Change :=
  if before ≠ .closed ∧ after = .closed then [.resumed] else []

namespace Machine

/-- The changes that the user asks for. A command that dismisses the token does so once its dispatch
has returned: at once if it cannot be sent, else when the transport has answered. -/
def askedChanges (m : Machine) : Input → List Change
  | .start .suspend => [.suspended]
  | .start .resume => [.resumed]
  | .start (.putHandles entries) => [.noted entries]
  | .start .resetHandles => [.forgotten]
  | .start (.sendAndInvalidate command token) =>
    if m.session.context.isCurrent token ∧ (m.session.sendFault? command).isSome then [.resumed]
    else []
  | .accepted | .refused _ =>
    match m.stack with
    | .transmitting _ true :: _ => [.resumed]
    | _ => []
  | _ => []

def changes (m : Machine) (input : Input) : List Change :=
  m.askedChanges input ++ ((m.incoming? input).map m.session.changesOf).getD [] ++
    m.session.phase.changesTo (m.step input).machine.session.phase

def course (m : Machine) : List Input → List Change
  | [] => []
  | input :: inputs => m.changes input ++ (m.step input).machine.course inputs

end Machine

namespace Standing

theorem follow_append (standing : Standing) (xs ys : List Change) :
    standing.follow (xs ++ ys) = (standing.follow xs).follow ys :=
  List.foldl_append

@[simp] theorem follow_nil (standing : Standing) : standing.follow [] = standing := rfl

end Standing

/-! ## The parts of a step -/

@[simp] theorem Phase.changesTo_self (phase : Phase) : phase.changesTo phase = [] := by
  unfold Phase.changesTo
  rw [if_neg fun both => both.1 both.2]

def Turn.Brings (turn : Turn) (s : Session) (changes : List Change) : Prop :=
  turn.machine.session.phase = s.phase ∧
    turn.machine.session.standing = s.standing.follow changes

/-- A turn comes from a session by changes, and by that of a close which took effect. -/
def Turn.Follows (turn : Turn) (s : Session) (changes : List Change) : Prop :=
  turn.machine.session.standing
    = s.standing.follow (changes ++ s.phase.changesTo turn.machine.session.phase)

namespace Turn

variable {turn : Turn} {s t : Session} {changes : List Change}

theorem Brings.of_session (after : turn.machine.session = t) (phase : t.phase = s.phase)
    (standing : t.standing = s.standing.follow changes) : turn.Brings s changes :=
  ⟨by rw [after, phase], by rw [after, standing]⟩

theorem Brings.still (after : turn.machine.session = s) : turn.Brings s [] :=
  of_session after rfl rfl

theorem Brings.follows (brings : turn.Brings s changes) : turn.Follows s changes := by
  unfold Follows
  rw [brings.1, Phase.changesTo_self, List.append_nil, brings.2]

theorem Follows.still (after : turn.machine.session = s) : turn.Follows s [] :=
  (Brings.still after).follows

theorem Follows.after_changes (rest : turn.Follows t [])
    (opened : t.phase = .closed ↔ s.phase = .closed)
    (standing : t.standing = s.standing.follow changes) : turn.Follows s changes := by
  unfold Follows at rest ⊢
  rw [rest, standing, ← Standing.follow_append]
  simp only [Phase.changesTo, ne_eq, opened, List.nil_append]

end Turn

namespace Machine

theorem conclude_brings (n : Machine) (after : After) :
    (n.conclude after).Brings n.session [] :=
  .still (conclude_session n after)

theorem release_follows (n : Machine) (after : After) (opened : n.session.phase ≠ .closed) :
    (n.release after).Follows n.session [] := by
  have closes : n.session.phase.changesTo .closed = [.resumed] := if_pos ⟨opened, rfl⟩
  change _ = n.session.standing.follow ([] ++ n.session.phase.changesTo .closed)
  rw [closes]
  rfl

theorem drain_follows (n : Machine) (reason : String) (calls : List PendingCall) (after : After)
    (opened : n.session.phase ≠ .closed) : (n.drain reason calls after).Follows n.session [] := by
  cases calls with
  | nil => exact release_follows n after opened
  | cons call rest => exact .still rfl

theorem close_follows (n : Machine) (reason : String) (after : After) :
    (n.close reason after).Follows n.session [] := by
  unfold close
  split
  · rename_i connected
    let closed := n.modify fun session => { session with phase := .closing, calls := [] }
    have drained : (closed.drain reason n.session.calls after).Follows closed.session [] :=
      drain_follows closed reason n.session.calls after (by simp [closed, modify])
    exact drained.after_changes (by simp [closed, modify, connected]) rfl
  · exact (conclude_brings n after).follows

theorem transportClosed_follows (n : Machine) (reason : String) (after : After) :
    (n.transportClosed reason after).Follows n.session [] := by
  unfold transportClosed
  split <;> exact close_follows n reason after

theorem dispatch_brings (m : Machine) (command : Command) (token : Option ContextToken)
    (invalidating : Bool) :
    (m.dispatch command token invalidating).Brings m.session
      (if invalidating ∧ (m.session.sendFault? command).isSome then [.resumed] else []) := by
  unfold dispatch
  cases fault : m.session.sendFault? command with
  | none => exact .of_session rfl rfl (by simp; rfl)
  | some error =>
    cases invalidating with
    | false => exact .still rfl
    | true => exact .of_session rfl rfl rfl

theorem transmitted_standing (n : Machine) (invalidating : Bool) :
    (n.transmitted invalidating).session.phase = n.session.phase ∧
    (n.transmitted invalidating).session.standing
      = n.session.standing.follow (if invalidating then [.resumed] else []) := by
  cases invalidating <;> exact ⟨rfl, rfl⟩

theorem giveCall_brings (n : Machine) (id : UInt64) : (n.giveCall id).Brings n.session [] :=
  .still (announce_session n _ _ rfl)

theorem accepted_brings (n : Machine) (id : UInt64) (invalidating : Bool) :
    ((n.transmitted invalidating).giveCall id).Brings n.session
      (if invalidating then [.resumed] else []) := by
  obtain ⟨phase, standing⟩ := transmitted_standing n invalidating
  have given := giveCall_brings (n.transmitted invalidating) id
  exact ⟨given.1.trans phase, given.2.trans standing⟩

theorem refused_follows (n : Machine) (call : PendingCall) (invalidating : Bool)
    (error : TransportError) :
    (n.refused call invalidating error).Follows n.session
      (if invalidating then [.resumed] else []) := by
  unfold refused
  split
  · obtain ⟨phase, standing⟩ := transmitted_standing (n.modify (·.removeCall call.id)) invalidating
    exact (close_follows _ _ _).after_changes (by rw [phase]; rfl) standing
  · exact (accepted_brings n call.id invalidating).follows

/-! ## Frames -/

theorem absorb_standing (s : Session) (frame : ResponseFrame) (stale : Bool)
    (told : s.dialect = .wip → frame.refs = []) :
    (absorb s frame stale).standing
      = s.standing.follow (s.dialect.responseChanges frame stale) := by
  unfold absorb Dialect.responseLifecycle? Dialect.responseChanges
  cases dialect : s.dialect with
  | wip =>
    cases stale with
    | true => rfl
    | false => simp [told dialect, HandleTable.putAll, Session.standing]
  | v8 =>
    cases frame.running with
    | none => cases stale <;> rfl
    | some running => cases running <;> cases stale <;> rfl

theorem deliverResponse_brings (n : Machine) (frame : ResponseFrame) (after : After)
    (told : n.session.dialect = .wip → frame.refs = []) :
    (n.deliverResponse frame after).Brings n.session
      (match n.session.call? frame.id with
        | none => []
        | some call => n.session.dialect.responseChanges frame (n.session.isStale call)) := by
  cases pending : n.session.call? frame.id with
  | none =>
    unfold deliverResponse
    rw [pending]
    exact conclude_brings n after
  | some call =>
    refine .of_session (deliverResponse_session n after pending) ?_ ?_
    · obtain ⟨context, handles, absorbed, -⟩ :=
        absorb_eq (n.session.removeCall frame.id) frame (n.session.isStale call)
      rw [absorbed]
      rfl
    · exact absorb_standing (n.session.removeCall frame.id) frame _ told

theorem deliverMalformed_brings (n : Machine) (id : UInt64) (error : FrameError) (after : After) :
    (n.deliverMalformed id error after).Brings n.session [] := by
  cases meant : failureOf? error with
  | none =>
    unfold deliverMalformed
    simp only [meant]
    exact conclude_brings n after
  | some failure =>
    cases pending : n.session.call? id with
    | none =>
      unfold deliverMalformed
      simp only [meant, pending]
      exact conclude_brings n after
    | some call => exact .of_session (deliverMalformed_session n after meant pending) rfl rfl

theorem routeEvent_session (n : Machine) (frame : EventFrame) (after : After) :
    (n.routeEvent frame after).machine.session = n.session := by
  unfold routeEvent
  split
  · exact conclude_session n after
  · dsimp only [Turn.noticed, Turn.preceded]
    split
    · rfl
    · exact conclude_session n after

theorem applyEvent_standing (s : Session) (name : String) :
    (applyEvent s name).1.phase = s.phase ∧
    (applyEvent s name).1.standing = s.standing.follow (s.dialect.eventChanges name) := by
  unfold applyEvent Dialect.eventLifecycle? Dialect.eventChanges
  cases dialect : s.dialect with
  | v8 =>
    by_cases stops : name = "break" ∨ name = "exception"
    · simp only [stops, Bool.or_eq_true, decide_eq_true_eq, if_true]
      exact ⟨rfl, rfl⟩
    · simp only [stops, Bool.or_eq_true, decide_eq_true_eq, if_false, true_and]
      rfl
  | wip =>
    by_cases pauses : name = "Debugger.paused"
    · simp only [pauses, if_true]
      exact ⟨rfl, rfl⟩
    · by_cases resumes : name = "Debugger.resumed"
      · rw [if_neg pauses, if_neg pauses, if_pos resumes, if_pos resumes]
        exact ⟨rfl, rfl⟩
      · simp only [pauses, resumes, if_false, true_and]
        rfl

theorem deliverEvent_brings (n : Machine) (frame : EventFrame) (after : After) :
    (n.deliverEvent frame after).Brings n.session (n.session.dialect.eventChanges frame.name) := by
  obtain ⟨phase, standing⟩ := applyEvent_standing n.session frame.name
  exact .of_session (routeEvent_session _ frame after) phase standing

theorem receive_brings (n : Machine) (text : String) (after : After) :
    (n.receive text after).Brings n.session (n.session.changesOf text) := by
  unfold receive Session.changesOf
  split
  · exact conclude_brings n after
  · cases Json.parse? text with
    | none => exact conclude_brings n after
    | some raw =>
      have same : (n.session.dialect.classify n.session.binder raw).result
        = (n.session.dialect.classify n.session.binder raw).run.value := rfl
      dsimp only [deliver]
      rw [same]
      cases decoded : (n.session.dialect.classify n.session.binder raw).run.value with
      | ok incoming =>
        cases incoming with
        | response frame =>
          apply deliverResponse_brings n frame after
          intro inspector
          rw [inspector] at decoded
          exact (Dialect.wip_tells_nothing decoded).1
        | event frame => exact deliverEvent_brings n frame after
      | error error =>
        dsimp only
        cases n.session.dialect.responseId? raw with
        | none => exact conclude_brings n after
        | some id => exact deliverMalformed_brings n id error after

/-! ## Steps -/

theorem afterPull_follows (n : Machine) (pulled : Pulled) :
    (n.afterPull pulled).Follows n.session
      (match pulled with
        | .frame text => n.session.changesOf text
        | .ended | .failed _ | .broken => []) := by
  cases pulled with
  | frame text => exact (receive_brings n text .read).follows
  | ended | failed | broken => exact transportClosed_follows n _ .finish

theorem drainable {m : Machine} {label reason : String} {calls : List PendingCall} {after : After}
    {rest : List Waiting} (drains : m.Drains)
    (waited : m.stack = .draining label reason calls after :: rest) : m.session.phase ≠ .closed := by
  have held : m.session.Drains (.drained reason calls) rest := by
    rw [Drains, waited] at drains
    exact (drains_cons _ rest).symm.trans drains
  rw [(held.closing rfl).1]
  simp

theorem start_follows (m : Machine) (operation : Operation) :
    (m.start operation).Follows m.session
      (m.askedChanges (.start operation) ++
        ((m.incoming? (.start operation)).map m.session.changesOf).getD []) := by
  cases operation with
  | send command token =>
    have dispatched := (dispatch_brings m command token false).follows
    simp only [Bool.false_eq_true, false_and, if_false] at dispatched
    cases token with
    | none => exact dispatched
    | some t =>
      change (ite _ _ _ : Turn).Follows _ _
      split
      · exact dispatched
      · exact .still rfl
  | sendAndInvalidate command token =>
    have dispatched := (dispatch_brings m command none true).follows
    change (m.sendAndInvalidate command token).Follows m.session (ite _ _ _ ++ [])
    rw [List.append_nil]
    unfold sendAndInvalidate
    split
    · rename_i current
      simpa only [current, true_and] using dispatched
    · rename_i current
      simp only [current, Bool.false_eq_true, false_and, if_false]
      exact .still rfl
  | receive text => exact (receive_brings m text .finish).follows
  | suspend | resume | putHandles | resetHandles | listen =>
    exact (Turn.Brings.of_session rfl rfl rfl).follows
  | close reason => exact close_follows m reason .finish
  | transportClosed reason => exact transportClosed_follows m reason .finish
  | onEvent name type handler =>
    change (ite _ _ _ : Turn).Follows _ _
    split
    · exact (Turn.Brings.of_session rfl rfl rfl).follows
    · exact .still rfl
  | read => exact .still rfl

theorem afterDone_follows {m : Machine} {waiting : Waiting} {rest : List Waiting} {turn : Turn}
    (drains : m.Drains) (waited : m.stack = waiting :: rest)
    (given : afterDone ⟨m.session, rest⟩ waiting = some turn) : turn.Follows m.session [] := by
  cases waiting with
  | transmitting | pulling => cases given
  | announcedCall id =>
    cases given
    exact .still rfl
  | announcedResponse call outcome stale after =>
    cases given
    exact .still (completeResponse_session _ call outcome stale after)
  | announcedMalformed call failure after =>
    cases given
    exact .still (completeMalformed_session _ call failure after)
  | completing label after | announcedClose after =>
    cases given
    exact (conclude_brings ⟨m.session, rest⟩ after).follows
  | draining label reason calls after =>
    cases given
    have opened := drainable drains waited
    exact drain_follows ⟨m.session, rest⟩ reason calls after opened
  | closingTransport after =>
    cases given
    exact .still (announce_session _ _ _ (conclude_session _ after))

theorem afterCrash_follows {m : Machine} {waiting : Waiting} {rest : List Waiting}
    (drains : m.Drains) (waited : m.stack = waiting :: rest) :
    (afterCrash ⟨m.session, rest⟩ waiting).Follows m.session [] := by
  cases waiting with
  | completing label after => exact (conclude_brings ⟨m.session, rest⟩ after).follows
  | draining label reason calls after =>
    have opened := drainable drains waited
    exact drain_follows ⟨m.session, rest⟩ reason calls after opened
  | pulling => exact afterPull_follows ⟨m.session, rest⟩ .broken
  | transmitting | announcedCall | announcedResponse | announcedMalformed | closingTransport
  | announcedClose => exact .still rfl

theorem answer_follows {m : Machine} {input : Input} {waiting : Waiting} {rest : List Waiting}
    {turn : Turn} (drains : m.Drains) (waited : m.stack = waiting :: rest)
    (given : answer? ⟨m.session, rest⟩ waiting input = some turn) :
    turn.Follows m.session
      (m.askedChanges input ++ ((m.incoming? input).map m.session.changesOf).getD []) := by
  cases input with
  | start operation => cases given
  | done => exact afterDone_follows drains waited given
  | crashed =>
    cases given
    exact afterCrash_follows drains waited
  | accepted =>
    cases waiting <;> cases given
    rename_i call invalidating
    have followed := (accepted_brings ⟨m.session, rest⟩ call.id invalidating).follows
    cases invalidating <;> simpa [askedChanges, incoming?, waited] using followed
  | refused error =>
    cases waiting <;> cases given
    rename_i call invalidating
    have followed := refused_follows ⟨m.session, rest⟩ call invalidating error
    cases invalidating <;> simpa [askedChanges, incoming?, waited] using followed
  | pulled pulled =>
    cases waiting <;> cases given
    have followed := afterPull_follows ⟨m.session, rest⟩ pulled
    cases pulled <;> simpa [askedChanges, incoming?, waited] using followed

theorem idle_changes {m : Machine} {input : Input}
    (idle : ∀ operation, input ≠ .start operation)
    (unanswered : ∀ waiting rest, m.stack = waiting :: rest →
      answer? ⟨m.session, rest⟩ waiting input = none) :
    m.askedChanges input ++ ((m.incoming? input).map m.session.changesOf).getD [] = [] := by
  cases input with
  | start operation => exact absurd rfl (idle operation)
  | done | crashed => rfl
  | accepted | refused =>
    cases waited : m.stack with
    | nil => simp [askedChanges, incoming?, waited]
    | cons waiting rest =>
      have none := unanswered waiting rest waited
      cases waiting <;> simp_all [askedChanges, incoming?, answer?]
  | pulled pulled =>
    cases waited : m.stack with
    | nil => cases pulled <;> simp [askedChanges, incoming?, waited]
    | cons waiting rest =>
      have none := unanswered waiting rest waited
      cases waiting <;> cases pulled <;> simp_all [askedChanges, incoming?, answer?]

theorem follows_step {m : Machine} (input : Input) (drains : m.Drains) :
    (m.step input).Follows m.session
      (m.askedChanges input ++ ((m.incoming? input).map m.session.changesOf).getD []) := by
  have unchanged : (∀ operation, input ≠ .start operation) →
      (∀ waiting rest, m.stack = waiting :: rest →
        answer? ⟨m.session, rest⟩ waiting input = none) →
      m.step input = ⟨m, []⟩ → (m.step input).Follows m.session
        (m.askedChanges input ++ ((m.incoming? input).map m.session.changesOf).getD []) := by
    intro idle unanswered same
    rw [idle_changes idle unanswered, same]
    exact .still rfl
  cases input with
  | start operation => exact start_follows m operation
  | _ =>
    cases waited : m.stack with
    | nil => exact unchanged (by simp) (by simp [waited]) (by simp only [step, waited])
    | cons waiting rest =>
      cases given : answer? ⟨m.session, rest⟩ waiting _ with
      | some turn =>
        rw [step_of_answer waited given]
        exact answer_follows drains waited given
      | none =>
        refine unchanged (by simp) ?_ (by simp only [step, waited, given])
        intro other others same
        obtain ⟨rfl, rfl⟩ := List.cons.inj (waited.symm.trans same)
        exact given

/-- Each step makes the changes that are read off its input, and no others. -/
theorem standing_step {m : Machine} (input : Input) (drains : m.Drains) :
    (m.step input).machine.session.standing = m.session.standing.follow (m.changes input) :=
  follows_step input drains

theorem standing_run {m : Machine} (inputs : List Input) (drains : m.Drains) :
    (m.after inputs).session.standing = m.session.standing.follow (m.course inputs) := by
  induction inputs generalizing m with
  | nil => rfl
  | cons input inputs ih =>
    rw [after_cons, ih (drains_step input drains).1, standing_step input drains, course,
      Standing.follow_append]

theorem drains_initial (config : Config) (registry : Registry) (transcript : Transcript) :
    (initial config registry transcript).Drains := rfl

end Machine

/-! ## Handles -/

/-- The entries noted since the objects were last forgotten, the latest first. -/
def entriesKept (changes : List Change) : List (Int × Json) :=
  (changes.reverse.takeWhile fun change => !change.forgets).flatMap (·.entries.reverse)

theorem entriesKept_concat (changes : List Change) (change : Change) :
    entriesKept (changes ++ [change])
      = if change.forgets then [] else change.entries.reverse ++ entriesKept changes := by
  unfold entriesKept
  rw [List.reverse_append, List.reverse_singleton, List.singleton_append, List.takeWhile_cons]
  cases change <;> rfl

theorem Standing.follow_concat (standing : Standing) (changes : List Change) (change : Change) :
    standing.follow (changes ++ [change]) = (standing.follow changes).apply change :=
  standing.follow_append changes [change]

theorem Standing.get?_follow {standing : Standing} (fresh : standing.handles = .empty)
    (changes : List Change) (handle : Int) :
    (standing.follow changes).handles.get? handle = (entriesKept changes).lookup handle := by
  -- From the last change back: it forgets all, or puts its entries before the earlier ones.
  induction changes using List.reverseRecOn with
  | nil =>
    rw [follow_nil, fresh]
    rfl
  | append_singleton changes change ih =>
    rw [follow_concat, entriesKept_concat]
    cases change with
    | suspended => exact ih
    | resumed | forgotten => rfl
    | noted entries =>
      change ((standing.follow changes).handles.putAll entries).get? handle
        = (entries.reverse ++ entriesKept changes).lookup handle
      rw [HandleTable.get?_putAll, ih, List.lookup_append]

namespace Machine

/-- In every run a handle leads to the last entry for it since the objects were last forgotten,
whole as it was noted, and to nothing without one. The objects of a native response are noted as
they stand in the raw frame, and from it the running is told; a response of the inspector protocol
tells nothing. -/
theorem handle_leads_to_last_entry (config : Config) (registry : Registry)
    (transcript : Transcript) (inputs : List Input) :
    (∀ handle, ((initial config registry transcript).after inputs).session.handles.get? handle
      = (entriesKept ((initial config registry transcript).course inputs)).lookup handle) ∧
    (∀ extra raw frame, (Catalog.draft.registerAll extra).1.build = .ok registry →
      (Dialect.classify .v8 ⟨registry, config.ambiguity⟩ raw).result = .ok (.response frame) →
      List.Forall₂ Dialect.Describes frame.refs (raw.items "refs") ∧
        frame.running = raw.flag? "running") ∧
    (∀ raw frame,
      (Dialect.classify .wip ⟨registry, config.ambiguity⟩ raw).result = .ok (.response frame) →
      frame.refs = [] ∧ frame.running = none) := by
  refine ⟨?_, ?_, fun raw frame decoded => Dialect.wip_tells_nothing decoded⟩
  · intro handle
    have run := standing_run inputs (drains_initial config registry transcript)
    have fresh : (initial config registry transcript).session.standing.handles = .empty := rfl
    rw [← Standing.get?_follow fresh, ← run]
    rfl
  · intro extra raw frame built decoded
    exact Dialect.v8_tells_as_written (Registry.extends_of_build built) decoded

def describingText : String :=
  "\x7b\"refs\":[\x7b\"handle\":7,\"type\":\"object\"\x7d],\"request_seq\":1,\"success\":false,"
    ++ "\"type\":\"response\"\x7d"

def describingRun : List Input :=
  [.start (.putHandles [(7, .null), (8, .null)]), .start (.send ⟨"version", none, none⟩ none),
    .accepted, .start (.receive describingText), .done]

theorem handle_leads_to_last_entry_described :
    (∃ raw frame, Json.parse? describingText = some raw ∧
      (Dialect.classify .v8 ⟨Catalog.registry, .reject⟩ raw).result = .ok (.response frame) ∧
      List.Forall₂ Dialect.Describes frame.refs (raw.items "refs")) ∧
    (((initial .default Catalog.registry .off).after describingRun).session.handles.get? 7).bind
      (·.text? "type") = some "object" ∧
    (((initial .default Catalog.registry .off).after describingRun).session.handles.get? 8).map
      Json.shape = some .null := by
  have built : (Catalog.draft.registerAll []).1.build = .ok Catalog.registry := by rfl
  obtain ⟨raw, frame, parsed, decoded⟩ : ∃ raw frame, Json.parse? describingText = some raw ∧
      (Dialect.classify .v8 ⟨Catalog.registry, .reject⟩ raw).result = .ok (.response frame) :=
    ⟨.object [("refs", .array [.object [("handle", .ofUInt64 7), ("type", .string "object")]]),
      ("request_seq", .ofUInt64 1), ("success", .bool false), ("type", .string "response")],
      _, by rfl, by rfl⟩
  obtain ⟨last, written, -⟩ :=
    handle_leads_to_last_entry .default Catalog.registry .off describingRun
  refine ⟨⟨raw, frame, parsed, decoded, (written [] raw frame built decoded).1⟩, ?_, ?_⟩
  · rw [last]
    decide +kernel
  · rw [last]
    decide +kernel

/-- The user may also empty the table directly: an entry is gone although the program did not run
on, no token was dismissed and no close took effect. -/
theorem handle_lost_by_direct_reset :
    (entriesKept (((initial .default Catalog.registry .off).course
      [.start (.putHandles [(5, .null)]), .start .resetHandles]).filter fun change =>
        match change with
        | .forgotten => false
        | .suspended | .resumed | .noted _ => true)).lookup 5 = some .null ∧
    ((initial .default Catalog.registry .off).after
      [.start (.putHandles [(5, .null)]), .start .resetHandles]).session.handles.get? 5 = none :=
  ⟨rfl, rfl⟩

end Machine

/-! ## Stops -/

def lifecycles (changes : List Change) : List Lifecycle :=
  changes.filterMap Change.lifecycle?

theorem lifecycles_concat (changes : List Change) (change : Change) :
    lifecycles (changes ++ [change]) = lifecycles changes ++ change.lifecycle?.toList := by
  rw [lifecycles, List.filterMap_append]
  cases change <;> rfl

/-- A tracker after some stops and resumptions: as long as generations last, it counts the stops,
and its token is current if the last one was a stop. -/
structure ContextTracker.Counts (tracker : ContextTracker) (lifecycles : List Lifecycle) : Prop where
  generation : tracker.generation.toNat = lifecycles.count .suspend
  current : tracker.current
    = if lifecycles.getLast? = some .suspend then some ⟨tracker.generation⟩ else none

theorem Standing.counts_follow {standing : Standing} (fresh : standing.context = .initial)
    (changes : List Change) (few : (lifecycles changes).count .suspend < 2 ^ 64) :
    (standing.follow changes).context.Counts (lifecycles changes) := by
  induction changes using List.reverseRecOn with
  | nil =>
    rw [follow_nil, fresh]
    exact ⟨rfl, rfl⟩
  | append_singleton changes change ih =>
    rw [lifecycles_concat, List.count_append] at few
    obtain ⟨generation, current⟩ := ih (by omega)
    rw [follow_concat, lifecycles_concat]
    cases change with
    | noted | forgotten =>
      simp only [Change.lifecycle?, Option.toList_none, List.append_nil]
      exact ⟨generation, current⟩
    | resumed =>
      have none : List.count Lifecycle.suspend [Lifecycle.resume] = 0 := rfl
      simp only [Change.lifecycle?, Option.toList_some]
      refine ⟨?_, ?_⟩
      · rw [List.count_append, none]
        exact generation
      · simp [apply, ContextTracker.resume]
    | suspended =>
      have one : List.count Lifecycle.suspend [Lifecycle.suspend] = 1 := rfl
      simp only [Change.lifecycle?, Option.toList_some, one] at few ⊢
      have next := ContextTracker.suspend_generation (standing.follow changes).context (by omega)
      refine ⟨?_, ?_⟩
      · rw [List.count_append, one, ← generation]
        exact next
      · simp [apply, ContextTracker.suspend]

namespace Machine

/-- In every run a token is current just when the last change of state was a stop, and it counts
the stops. What an incoming frame does to the token does not depend on the registered processors
nor on the modes in which payloads are bound. -/
theorem context_follows_program (config : Config) (registry : Registry) (transcript : Transcript)
    (inputs : List Input)
    (few : (lifecycles ((initial config registry transcript).course inputs)).count .suspend
      < 2 ^ 64) :
    (((initial config registry transcript).after inputs).session.context.current.isSome = true ↔
      (lifecycles ((initial config registry transcript).course inputs)).getLast?
        = some .suspend) ∧
    (∀ token,
      ((initial config registry transcript).after inputs).session.context.current = some token →
      token.generation.toNat
        = (lifecycles ((initial config registry transcript).course inputs)).count .suspend) ∧
    (∀ m : Machine, ∀ input text processors eventMode responseMode,
      m.incoming? input = some text →
      (({ m with session := { m.session with
          processors := processors, eventMode := eventMode, responseMode := responseMode } }
        : Machine).step input).machine.session.context
        = (m.step input).machine.session.context) := by
  have run := standing_run inputs (drains_initial config registry transcript)
  have fresh : (initial config registry transcript).session.standing.context = .initial := rfl
  obtain ⟨generation, current⟩ := Standing.counts_follow fresh _ few
  rw [← run] at generation current
  refine ⟨?_, ?_, ?_⟩
  · change (Session.standing _).context.current.isSome = true ↔ _
    rw [current]
    split <;> simp [*]
  · intro token same
    change (Session.standing _).context.current = some token at same
    rw [current] at same
    split at same
    · rw [← Option.some.inj same]
      exact generation
    · cases same
  · intro m input text processors eventMode responseMode incoming
    obtain ⟨after, taken⟩ := step_of_incoming incoming
    let other : Machine := { m with session := { m.session with
      processors := processors, eventMode := eventMode, responseMode := responseMode } }
    have same : other.incoming? input = some text := by
      rw [← incoming]
      cases input <;> rfl
    obtain ⟨otherAfter, otherTaken⟩ := step_of_incoming same
    have one := (receive_brings ⟨m.session, m.base input⟩ text after).2
    have two := (receive_brings ⟨other.session, other.base input⟩ text otherAfter).2
    change (other.step input).machine.session.context = _
    rw [taken, otherTaken]
    exact congrArg Standing.context (two.trans one.symm)

def pausedText : String :=
  "\x7b\"method\":\"Debugger.paused\"\x7d"

def resumedText : String :=
  "\x7b\"method\":\"Debugger.resumed\"\x7d"

def pausingRun : List Input :=
  [.start (.receive pausedText), .start (.receive resumedText), .start .suspend]

theorem context_follows_program_paused :
    (lifecycles ((initial { Config.default with dialect := .wip } Catalog.registry .off).course
      pausingRun)).count .suspend < 2 ^ 64 ∧
    ((initial { Config.default with dialect := .wip } Catalog.registry .off).after
      pausingRun).session.context.current.isSome = true ∧
    ∀ token, ((initial { Config.default with dialect := .wip } Catalog.registry .off).after
      pausingRun).session.context.current = some token → token.generation.toNat = 2 := by
  have few : (lifecycles ((initial { Config.default with dialect := .wip } Catalog.registry
      .off).course pausingRun)).count .suspend < 2 ^ 64 := by decide +kernel
  have two : (lifecycles ((initial { Config.default with dialect := .wip } Catalog.registry
      .off).course pausingRun)).count .suspend = 2 := by decide +kernel
  obtain ⟨stopped, counted, -⟩ := context_follows_program { Config.default with dialect := .wip }
    Catalog.registry .off pausingRun few
  exact ⟨few, stopped.2 (by decide +kernel), fun token current => (counted token current).trans two⟩

end Machine

end DebugLink
