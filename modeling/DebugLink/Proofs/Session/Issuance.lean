import DebugLink.Proofs.Session.Origin
import DebugLink.Proofs.Session.Receipt
import DebugLink.Proofs.Session.Sharing
import DebugLink.Proofs.Wire.Encoding

/-!
# Ids of several sessions

Each id that a shared generator gives is handed over at once, in the frame of the session that has
asked for it. So the record of what was handed over, and by which session, tells all that has been
drawn: its ids count up from 1, and what is pending anywhere is recorded for that very session. A
response under an id of another session is then one for a call that is not known.
-/

set_option autoImplicit false

namespace DebugLink

/-! ## What one step hands over -/

variable {m : Machine} {input : Input}

theorem Ends.frame_eq {s t : Session} {hand : Hand} {es : List Emission} {waiting : Option Waiting}
    (last : Ends m input s hand es t waiting) {id : UInt64} {frame : String}
    (handed : .request (.transmit id frame) ∈ es) :
    ∃ command, frame = m.session.dialect.encode id command := by
  have other : ∀ outcome : Except CallFailure Reply, ∀ own,
      Emission.request (.transmit id frame) ∉ [.request (Request.complete own outcome)] := by
    intro outcome own mem
    cases outcome <;> simp [Request.complete] at mem
  cases last with
  | entered asked sends connected =>
    rename_i operation command token invalidating
    simp only [List.mem_singleton, Emission.request.injEq, Request.transmit.injEq] at handed
    obtain ⟨rfl, rfl⟩ := handed
    exact ⟨command, rfl⟩
  | completed | failedMalformed | drained => exact absurd handed (other _ _)
  | _ => simp at handed

theorem Ends.issues_nothing {s t : Session} {hand : Hand} {es : List Emission}
    {waiting : Option Waiting} (last : Ends m input s hand es t waiting) {result : Result}
    (returned : .returned result ∈ es) : issuedIds es = [] := by
  cases last with
  | entered => simp at returned
  | completed | failedMalformed | drained => exact issuedIds_complete _ _
  | _ => rfl

theorem Work.shows_only {s t : Session} {hand next : Hand} {es : List Emission}
    (work : Work m input s hand es t next) :
    (∀ request, .request request ∉ es) ∧ ∀ result, .returned result ∉ es := by
  cases work <;> simp

namespace Works

variable {base : List Waiting} {s : Session} {hand : Hand} {turn : Turn}

theorem frame_eq (works : Works m input base s hand turn) {id : UInt64} {frame : String}
    (handed : .request (.transmit id frame) ∈ turn.emitted) :
    ∃ command, frame = m.session.dialect.encode id command := by
  induction works with
  | ends last => exact last.frame_eq handed
  | work first rest ih =>
    rcases List.mem_append.1 handed with early | late
    · exact absurd early (first.shows_only.1 _)
    · exact ih late

theorem issues_nothing (works : Works m input base s hand turn) {result : Result}
    (returned : .returned result ∈ turn.emitted) : issuedIds turn.emitted = [] := by
  induction works with
  | ends last => exact last.issues_nothing returned
  | work first rest ih =>
    rcases List.mem_append.1 returned with early | late
    · exact absurd early (first.shows_only.2 _)
    · simp only [Turn.preceded, issuedIds_append, first.silent.1, List.nil_append]
      exact ih late

end Works

namespace Machine

theorem frame_of_step {id : UInt64} {frame : String}
    (handed : .request (.transmit id frame) ∈ (m.step input).emitted) :
    ∃ command, frame = m.session.dialect.encode id command := by
  rcases step_works m input with idle | works
  · rw [idle] at handed
    cases handed
  · exact works.frame_eq handed

theorem issues_nothing_of_returned {result : Result}
    (returned : .returned result ∈ (m.step input).emitted) :
    issuedIds (m.step input).emitted = [] := by
  rcases step_works m input with idle | works
  · rw [idle]
    rfl
  · exact works.issues_nothing returned

theorem start_of_rejection {error : SessionError}
    (returned : .returned (.failed error) ∈ (m.step input).emitted)
    (rejection : error.isRejection = true) : ∃ operation, input = .start operation := by
  cases step_stems m input _ returned with
  | plain plain => simp [Emission.isPlain, rejection] at plain
  | rejected error asked => exact ⟨_, asked⟩

/-! ## Frames for calls that are not pending -/

theorem conclude_requests (n : Machine) (after : After) {request : Request}
    (mem : .request request ∈ (n.conclude after).emitted) : request = .pull := by
  cases after with
  | finish | refuse => simp [conclude, give] at mem
  | read =>
    simp only [conclude] at mem
    split at mem
    · simp [give] at mem
    · simpa [await] using mem

theorem receive_of_unpending (n : Machine) {text : String} {id : UInt64} (after : After)
    (answers : n.session.answered? text = some id) (unpending : n.session.isPending id = false) :
    ∃ emissions, n.receive text after = (n.conclude after).preceded emissions ∧
      ∀ request, .request request ∉ emissions := by
  have noted : ∀ (notices : List Notice) request,
      .request request ∉ notices.map Emission.notice := by simp
  have logged : ∀ request, .request request ∉ n.transcribe "<-" text := by
    intro request
    unfold transcribe
    cases n.session.transcript <;> simp
  have unknown : n.session.call? id = none := by simpa [Session.isPending] using unpending
  by_cases opened : n.session.phase = .closed
  · exact ⟨_, if_pos opened, noted [.frameAfterClose]⟩
  · -- What is told of the frame differs, and nothing else.
    have dropped : ∀ (log notices : List Notice), ∃ emissions,
        (((n.conclude after).noticed notices).noticed log).preceded (n.transcribe "<-" text)
          = (n.conclude after).preceded emissions ∧ ∀ request, .request request ∉ emissions := by
      intro log notices
      refine ⟨n.transcribe "<-" text ++ (log.map .notice ++ notices.map .notice), ?_, ?_⟩
      · simp only [Turn.noticed, Turn.preceded, List.append_assoc]
      · intro request mem
        rcases List.mem_append.1 mem with transcribed | told
        · exact logged request transcribed
        · rw [← List.map_append] at told
          exact noted _ request told
    rcases Session.response_or_refused_of_answered? answers with
      ⟨frame, ⟨raw, parsed, decoded⟩, rfl⟩ | ⟨raw, error, parsed, refused, addressed⟩
    · rw [receive_of_response n after opened parsed decoded, deliverResponse, unknown]
      exact dropped _ [.unknownCall frame.id]
    · rw [receive_of_undecodable n after opened parsed refused addressed, deliverMalformed]
      cases failureOf? error with
      | none => exact dropped _ [.unrecognizedFrame (some id) error]
      | some failure =>
        rw [unknown]
        exact dropped _ [.malformedForUnknownCall id failure]

/-- A frame under the id of no pending call changes nothing and asks nothing of user code. -/
theorem step_of_unpending {text : String} {id : UInt64} (incoming : m.incoming? input = some text)
    (answers : m.session.answered? text = some id) (unpending : m.session.isPending id = false) :
    (m.step input).machine.session = m.session ∧
      ∀ request, .request request ∈ (m.step input).emitted → request = .pull := by
  obtain ⟨after, taken⟩ := step_of_incoming incoming
  obtain ⟨emissions, dropped, silent⟩ :=
    receive_of_unpending ⟨m.session, m.base input⟩ after answers unpending
  rw [taken, dropped]
  refine ⟨conclude_session _ after, fun request mem => ?_⟩
  rcases List.mem_append.1 mem with told | last
  · exact absurd told (silent request)
  · exact conclude_requests _ after last

end Machine

/-! ## What a fleet hands over -/

namespace Fleet

structure HandOver where
  session : Nat
  id : UInt64
  frame : String

def HandOver.of? (index : Nat) : Emission → Option HandOver
  | .request (.transmit id frame) => some ⟨index, id, frame⟩
  | _ => none

def handed (fleet : Fleet) : Move → List HandOver
  | .opened .. => []
  | .fed index input => (fleet.step index input).2.filterMap (HandOver.of? index)

def handOvers (fleet : Fleet) : List Move → List HandOver
  | [] => []
  | move :: moves => fleet.handed move ++ (fleet.move move).1.handOvers moves

theorem handOvers_append (fleet : Fleet) (xs ys : List Move) :
    fleet.handOvers (xs ++ ys) = fleet.handOvers xs ++ (fleet.after xs).handOvers ys := by
  induction xs generalizing fleet with
  | nil => rfl
  | cons x xs ih => rw [List.cons_append, handOvers, handOvers, ih, List.append_assoc, after_cons]

theorem ids_handed (index : Nat) (emitted : List Emission) :
    (emitted.filterMap (HandOver.of? index)).map HandOver.id = issuedIds emitted := by
  rw [List.map_filterMap, issuedIds]
  refine List.filterMap_congr fun emission _ => ?_
  cases emission with
  | request request => cases request <;> rfl
  | _ => rfl

theorem mem_handed {index : Nat} {emitted : List Emission} {handOver : HandOver}
    (mem : handOver ∈ emitted.filterMap (HandOver.of? index)) :
    handOver.session = index ∧ .request (.transmit handOver.id handOver.frame) ∈ emitted := by
  obtain ⟨emission, among, given⟩ := List.mem_filterMap.1 mem
  unfold HandOver.of? at given
  split at given
  · cases given
    exact ⟨rfl, among⟩
  · cases given

/-- What the record of all that was handed over says of a fleet. -/
structure Issued (fleet : Fleet) (past : List HandOver) : Prop where
  shared : ∀ member ∈ fleet.members, member.ownSequence = false
  count : fleet.sequence.Drawn past.length
  numbered : past.map HandOver.id = (List.range past.length).map fun i => UInt64.ofNat (i + 1)
  pending : ∀ index member, fleet.members[index]? = some member →
    ∀ call ∈ member.machine.session.calls,
      ∃ handOver ∈ past, handOver.session = index ∧ handOver.id = call.id
  stamped : ∀ handOver ∈ past, ∃ member command, fleet.members[handOver.session]? = some member ∧
    handOver.frame = member.machine.session.dialect.encode handOver.id command

variable {fleet : Fleet} {past : List HandOver}

theorem issued_empty : Fleet.empty.Issued [] :=
  ⟨by simp [empty], rfl, rfl, by simp [empty], by simp⟩

theorem machineOf_sequence {member : Member} (shares : member.ownSequence = false) :
    (fleet.machineOf member).session.sequence = fleet.sequence := by
  simp [machineOf, sequenceOf, shares, Machine.modify]

theorem issued_add (issued : fleet.Issued past) (config : Config) (registry : Registry)
    (transcript : Transcript) :
    (fleet.add ⟨false, .initial config registry transcript⟩).Issued past := by
  refine ⟨?_, issued.count, issued.numbered, ?_, ?_⟩
  · intro member mem
    rcases List.mem_append.1 mem with old | new
    · exact issued.shared member old
    · rw [List.mem_singleton.1 new]
  · intro index member found call mem
    simp only [add, List.getElem?_append] at found
    split at found
    · exact issued.pending index member found call mem
    · rw [List.mem_singleton.1 (List.mem_of_getElem? found)] at mem
      cases mem
  · intro handOver mem
    obtain ⟨member, command, found, frame⟩ := issued.stamped handOver mem
    have inside := (List.getElem?_eq_some_iff.1 found).1
    exact ⟨member, command, (List.getElem?_append_left inside).trans found, frame⟩

theorem numbered_step (issued : fleet.Issued past) {member : Member}
    (shares : member.ownSequence = false) (index : Nat) (input : Input) :
    let handed := ((fleet.machineOf member).step input).emitted.filterMap (HandOver.of? index)
    ((fleet.machineOf member).step input).machine.session.sequence.Drawn (past ++ handed).length ∧
      (past ++ handed).map HandOver.id
        = (List.range (past ++ handed).length).map fun i => UInt64.ofNat (i + 1) := by
  intro handed
  have ids : handed.map HandOver.id = issuedIds _ := ids_handed index _
  have before : (fleet.machineOf member).session.sequence = fleet.sequence :=
    machineOf_sequence shares
  have drawn := Machine.drawn_step (before ▸ issued.count) input
  rw [← ids, List.length_map, ← List.length_append] at drawn
  refine ⟨drawn, ?_⟩
  rw [List.map_append, issued.numbered]
  rcases Machine.issuedIds_step (fleet.machineOf member) input with ⟨none, -⟩ | ⟨one, -⟩
  · rw [List.map_eq_nil_iff.1 (ids.trans none), List.map_nil, List.append_nil, List.append_nil]
  · have single : handed.length = 1 := by
      rw [← List.length_map HandOver.id, ids, one]
      rfl
    rw [ids, one, List.length_append, single, List.range_succ, List.map_append, before,
      issued.count]
    rfl

/-- What was pending elsewhere stays on the record when one member changes. -/
theorem Issued.pending_set (issued : fleet.Issued past) {index : Nat} {next : Member}
    {more : List HandOver} (inside : index < fleet.members.length)
    (own : ∀ call ∈ next.machine.session.calls,
      ∃ handOver ∈ past ++ more, handOver.session = index ∧ handOver.id = call.id) :
    ∀ place other, (fleet.members.set index next)[place]? = some other →
      ∀ call ∈ other.machine.session.calls,
        ∃ handOver ∈ past ++ more, handOver.session = place ∧ handOver.id = call.id := by
  intro place other there call mem
  by_cases same : index = place
  · subst same
    rw [List.getElem?_set_self inside, Option.some.injEq] at there
    subst there
    exact own call mem
  · rw [List.getElem?_set_ne same] at there
    obtain ⟨handOver, among, named⟩ := issued.pending place other there call mem
    exact ⟨handOver, List.mem_append_left _ among, named⟩

/-- The session that encoded a frame is still there when a member changes all but its dialect. -/
theorem stamped_set {index : Nat} {member next other : Member} {handOver : HandOver}
    {command : Command} (found : fleet.members[index]? = some member)
    (spoken : next.machine.session.dialect = member.machine.session.dialect)
    (there : fleet.members[handOver.session]? = some other)
    (frame : handOver.frame = other.machine.session.dialect.encode handOver.id command) :
    ∃ other command, (fleet.members.set index next)[handOver.session]? = some other ∧
      handOver.frame = other.machine.session.dialect.encode handOver.id command := by
  by_cases same : index = handOver.session
  · rw [← same] at there ⊢
    rw [List.getElem?_set_self (List.getElem?_eq_some_iff.1 found).1]
    obtain rfl : member = other := Option.some.inj (found.symm.trans there)
    exact ⟨_, command, rfl, by rw [frame, spoken]⟩
  · exact ⟨other, command, by rw [List.getElem?_set_ne same, there], frame⟩

/-- A step draws as many ids as it hands frames over, and records what it enters. -/
theorem issued_step (issued : fleet.Issued past) (index : Nat) (input : Input) :
    (fleet.step index input).1.Issued (past ++ fleet.handed (.fed index input)) := by
  cases found : fleet.members[index]? with
  | none =>
    rw [handed, step_of_none found, List.filterMap_nil, List.append_nil]
    exact issued
  | some member =>
    have inside := (List.getElem?_eq_some_iff.1 found).1
    have shares := issued.shared member (List.mem_of_getElem? found)
    obtain ⟨count, numbered⟩ := numbered_step issued shares index input
    rw [handed, step_eq found]
    refine ⟨?_, ?_, numbered, issued.pending_set inside ?_, ?_⟩
    · intro other mem
      rcases List.mem_or_eq_of_mem_set mem with old | rfl
      · exact issued.shared other old
      · exact shares
    · simpa only [shares, Bool.false_eq_true, if_false] using count
    · -- What is pending afterwards was pending before, or its id has just been handed over.
      intro call mem
      rcases (Machine.calls_subset_step (fleet.machineOf member) input).1 mem with old | new
      · obtain ⟨handOver, among, named⟩ := issued.pending index member found call old
        exact ⟨handOver, List.mem_append_left _ among, named⟩
      · rw [← ids_handed index] at new
        obtain ⟨handOver, among, named⟩ := List.mem_map.1 new
        exact ⟨handOver, List.mem_append_right _ among, (mem_handed among).1, named⟩
    · intro handOver mem
      have spoken := (Machine.sameSetup_step (fleet.machineOf member) input).dialect
      rcases List.mem_append.1 mem with old | new
      · obtain ⟨other, command, there, frame⟩ := issued.stamped handOver old
        exact stamped_set found spoken there frame
      · obtain ⟨own, handed⟩ := mem_handed new
        obtain ⟨command, frame⟩ := Machine.frame_of_step handed
        exact stamped_set found spoken (own ▸ found) frame

theorem issued_move (issued : fleet.Issued past) (move : Move)
    (shared : ∀ config registry transcript, move ≠ .opened config registry transcript true) :
    (fleet.move move).1.Issued (past ++ fleet.handed move) := by
  cases move with
  | opened config registry transcript ownSequence =>
    cases ownSequence with
    | true => exact absurd rfl (shared config registry transcript)
    | false =>
      rw [handed, List.append_nil]
      exact issued_add issued config registry transcript
  | fed index input => exact issued_step issued index input

theorem issued_after (issued : fleet.Issued past) (moves : List Move)
    (shared : ∀ config registry transcript, .opened config registry transcript true ∉ moves) :
    (fleet.after moves).Issued (past ++ fleet.handOvers moves) := by
  induction moves generalizing fleet past with
  | nil =>
    rw [handOvers, List.append_nil]
    exact issued
  | cons move moves ih =>
    rw [handOvers, ← List.append_assoc]
    refine ih (issued_move issued move ?_) ?_
    · rintro config registry transcript rfl
      exact shared config registry transcript List.mem_cons_self
    · intro config registry transcript mem
      exact shared config registry transcript (List.mem_cons_of_mem move mem)

theorem machine?_step {index : Nat} {member : Member}
    (found : fleet.members[index]? = some member) (input : Input) :
    (fleet.step index input).1.machine? index
      = some ((fleet.machineOf member).step input).machine := by
  have inside := (List.getElem?_eq_some_iff.1 found).1
  rw [machine?_eq, step_eq found, List.getElem?_set_self inside]
  cases owns : member.ownSequence <;> simp [machineOf, sequenceOf, owns, Machine.modify]

theorem Issued.increasing (issued : fleet.Issued past) (few : past.length < 2 ^ 64) :
    past.Pairwise (·.id < ·.id) := by
  have grows : (past.map HandOver.id).Pairwise (· < ·) := by
    rw [issued.numbered, List.pairwise_map]
    refine List.pairwise_lt_range.imp_of_mem fun {i j} memI memJ less => ?_
    rw [List.mem_range] at memI memJ
    have size : UInt64.size = 2 ^ 64 := rfl
    rw [UInt64.lt_iff_toNat_lt, UInt64.toNat_ofNat_of_lt' (by omega),
      UInt64.toNat_ofNat_of_lt' (by omega)]
    omega
  exact List.pairwise_map.1 grows

theorem draws_nothing_of_rejection (issued : fleet.Issued past) {move : Move} {error : SessionError}
    (returned : .returned (.failed error) ∈ (fleet.move move).2)
    (rejection : error.isRejection = true) :
    (∃ index operation, move = .fed index (.start operation)) ∧ fleet.handed move = [] ∧
      (fleet.move move).1.sequence = fleet.sequence := by
  cases move with
  | opened => cases returned
  | fed index input =>
    cases found : fleet.members[index]? with
    | none =>
      rw [Fleet.move, step_of_none found] at returned
      cases returned
    | some member =>
      have shares := issued.shared member (List.mem_of_getElem? found)
      rw [Fleet.move, step_eq found] at returned ⊢
      obtain ⟨operation, rfl⟩ := Machine.start_of_rejection returned rejection
      have none := Machine.issues_nothing_of_returned returned
      refine ⟨⟨index, operation, rfl⟩, ?_, ?_⟩
      · rw [handed, step_eq found, ← List.map_eq_nil_iff (f := HandOver.id), ids_handed, none]
      · rcases Machine.issuedIds_step (fleet.machineOf member) (.start operation) with
          ⟨-, kept⟩ | ⟨one, -⟩
        · rw [machineOf_sequence shares] at kept
          simpa only [shares, Bool.false_eq_true, if_false] using kept
        · cases none.symm.trans one

/-- In every run of sessions that share a generator, in which fewer than 2^64 ids are drawn, the ids
of the frames that are handed over count up from 1, whatever sessions they belong to, and each frame
shows its id and no other. An operation that is rejected draws none. What one session has handed
over is pending in no other, and a frame under its id that reaches another session changes nothing
there and runs nothing. -/
theorem ids_unique_across_sessions {moves : List Move}
    (shared : ∀ config registry transcript, .opened config registry transcript true ∉ moves)
    (few : (empty.handOvers moves).length < 2 ^ 64) :
    (empty.handOvers moves).map HandOver.id
        = (List.range (empty.handOvers moves).length).map (fun i => UInt64.ofNat (i + 1)) ∧
    (empty.handOvers moves).Pairwise (·.id < ·.id) ∧
    (∀ handOver ∈ empty.handOvers moves, ∃ m command,
      (empty.after moves).machine? handOver.session = some m ∧
        handOver.frame = m.session.dialect.encode handOver.id command ∧
        ∀ id, m.session.dialect.ShowsId id handOver.frame ↔ id = handOver.id) ∧
    (∀ front move back error, moves = front ++ move :: back →
      .returned (.failed error) ∈ ((empty.after front).move move).2 → error.isRejection = true →
      (∃ index operation, move = .fed index (.start operation)) ∧
        (empty.after front).handed move = [] ∧
        ((empty.after front).move move).1.sequence = (empty.after front).sequence) ∧
    (∀ handOver ∈ empty.handOvers moves, ∀ front back, moves = front ++ back →
      ∀ index m, (empty.after front).machine? index = some m → index ≠ handOver.session →
      m.session.isPending handOver.id = false ∧
      ∀ input text, m.incoming? input = some text → m.session.answered? text = some handOver.id →
        ∃ later, ((empty.after front).step index input).1.machine? index = some later ∧
          later.session = m.session ∧
          ∀ request, .request request ∈ ((empty.after front).step index input).2 →
            request = .pull) := by
  have issued := issued_after issued_empty moves shared
  rw [List.nil_append] at issued
  have increasing := issued.increasing few
  have distinct : ((empty.handOvers moves).map HandOver.id).Nodup :=
    List.pairwise_map.2 (increasing.imp UInt64.ne_of_lt)
  have earlier : ∀ front back, moves = front ++ back →
      (empty.after front).Issued (empty.handOvers front) := by
    rintro front back rfl
    have prior := issued_after issued_empty front fun config registry transcript mem =>
      shared config registry transcript (List.mem_append_left _ mem)
    rwa [List.nil_append] at prior
  refine ⟨issued.numbered, increasing, ?_, ?_, ?_⟩
  · intro handOver mem
    obtain ⟨member, command, found, frame⟩ := issued.stamped handOver mem
    have shown : member.machine.session.dialect.ShowsId handOver.id handOver.frame :=
      frame ▸ Dialect.encode_showsId _ _ command
    refine ⟨(empty.after moves).machineOf member, command, by rw [machine?_eq, found]; rfl, frame,
      fun id => ⟨fun also => shown.unique also, ?_⟩⟩
    rintro rfl
    exact shown
  · intro front move back error split returned rejection
    exact draws_nothing_of_rejection (earlier front _ split) returned rejection
  · intro handOver mem front back split index m found other
    rw [machine?_eq, Option.map_eq_some_iff] at found
    obtain ⟨member, there, rfl⟩ := found
    have unpending : ((empty.after front).machineOf member).session.isPending handOver.id
        = false := by
      by_contra pending
      obtain ⟨call, among, named⟩ := Session.isPending_iff.1 (Bool.not_eq_false _ ▸ pending)
      obtain ⟨own, recorded, session, id⟩ :=
        (earlier front back split).pending index member there call among
      have recorded : own ∈ empty.handOvers moves := by
        rw [split, handOvers_append]
        exact List.mem_append_left _ recorded
      have same := List.inj_on_of_nodup_map distinct recorded mem (id.trans named)
      exact other (session.symm.trans (congrArg HandOver.session same))
    refine ⟨unpending, fun input text incoming answers => ?_⟩
    obtain ⟨same, silent⟩ := Machine.step_of_unpending incoming answers unpending
    rw [machine?_step there]
    refine ⟨_, rfl, same, ?_⟩
    rw [step_eq there]
    exact silent

/-- A session sends and is then rejected; another, opened on the same generator, sends as well. -/
def reconnected : List Move :=
  [.opened .default Catalog.registry .off false,
    .fed 0 (.start (.send ⟨"version", none, none⟩ none)), .fed 0 .accepted,
    .fed 0 (.start (.send Machine.unbindable none)),
    .opened .default Catalog.registry .off false,
    .fed 1 (.start (.send ⟨"version", none, none⟩ none)), .fed 1 .accepted]

theorem ids_unique_across_sessions_reconnected :
    (empty.handOvers reconnected).map HandOver.id = [1, 2] ∧
    ∃ m, (empty.after reconnected).machine? 1 = some m ∧ m.session.isPending 1 = false ∧
      ∃ later, ((empty.after reconnected).step 1
          (.start (.receive Machine.versionText))).1.machine? 1 = some later ∧
        later.session = m.session := by
  have shared : ∀ config registry transcript,
      Move.opened config registry transcript true ∉ reconnected := by
    simp [reconnected]
  have two : (empty.handOvers reconnected).length = 2 := by decide +kernel
  have first : (empty.handOvers reconnected).any
      (fun handOver => handOver.session = 0 ∧ handOver.id = 1) = true := by decide +kernel
  have second : ((empty.after reconnected).machine? 1).any
      (fun m => m.session.answered? Machine.versionText = some 1) = true := by decide +kernel
  obtain ⟨numbered, -, -, -, foreign⟩ := ids_unique_across_sessions shared (by rw [two]; decide)
  obtain ⟨handOver, mem, shown⟩ := List.any_eq_true.1 first
  obtain ⟨session, id⟩ := of_decide_eq_true shown
  obtain ⟨m, found, answers⟩ := (Option.any_eq_true _ _).1 second
  obtain ⟨unpending, dropped⟩ :=
    foreign handOver mem reconnected [] (List.append_nil _).symm 1 m found (by simp [session])
  rw [id] at unpending dropped
  obtain ⟨later, present, same, -⟩ := dropped (.start (.receive Machine.versionText))
    Machine.versionText rfl (of_decide_eq_true answers)
  exact ⟨by rw [numbered, two]; rfl, m, found, unpending, later, present, same⟩

end Fleet

end DebugLink
