import Mathlib.Data.List.Perm.Basic
import DebugLink.Proofs.Session.Frames
import DebugLink.Proofs.Session.Progress
import DebugLink.Proofs.Session.Receipt

/-!
# The order in which responses arrive

A response acts on its own call only: what it makes of the call, whether it comes too late and what
it notes are the same before and after the response to another call. So responses to different
calls may arrive in any order: the same callbacks run with the same outcomes, and the same session
is left, but for handles that two of the responses describe.
-/

set_option autoImplicit false

namespace DebugLink

/-! ## Tables of handles -/

namespace HandleTable

/-- Tables that give the same entry for each handle, and as many entries. -/
structure Alike (table other : HandleTable) : Prop where
  get? : ∀ handle, table.get? handle = other.get? handle
  size : table.size = other.size

theorem size_put (table : HandleTable) (handle : Int) (raw : Json) :
    (table.put handle raw).size
      = if (table.get? handle).isSome then table.size else table.size + 1 := by
  obtain ⟨entries⟩ := table
  simp only [put, HandleTable.get?, size]
  induction entries with
  | nil => rfl
  | cons entry rest ih =>
    obtain ⟨own, old⟩ := entry
    by_cases same : own = handle
    · simp [putEntry, same]
    · have differs : (handle == own) = false := beq_eq_false_iff_ne.2 fun equal => same equal.symm
      simp only [putEntry, same, if_false, List.length_cons, List.lookup_cons, differs, ih]
      exact apply_ite (· + 1) _ _ _

namespace Alike

variable {table other third : HandleTable} {xs ys : List (Int × Json)}

theorem refl (table : HandleTable) : table.Alike table := ⟨fun _ => rfl, rfl⟩

theorem symm (alike : table.Alike other) : other.Alike table :=
  ⟨fun handle => (alike.get? handle).symm, alike.size.symm⟩

theorem trans (first : table.Alike other) (second : other.Alike third) : table.Alike third :=
  ⟨fun handle => (first.get? handle).trans (second.get? handle), first.size.trans second.size⟩

theorem put (alike : table.Alike other) (handle : Int) (raw : Json) :
    (table.put handle raw).Alike (other.put handle raw) := by
  constructor
  · intro asked
    rw [get?_put, get?_put, alike.get?]
  · rw [size_put, size_put, alike.get?, alike.size]

theorem putAll (alike : table.Alike other) (entries : List (Int × Json)) :
    (table.putAll entries).Alike (other.putAll entries) := by
  induction entries generalizing table other with
  | nil => exact alike
  | cons entry rest ih => exact ih (alike.put entry.1 entry.2)

theorem put_put (table : HandleTable) {handle other : Int} (differs : handle ≠ other)
    (raw otherRaw : Json) :
    ((table.put handle raw).put other otherRaw).Alike
      ((table.put other otherRaw).put handle raw) := by
  constructor
  · intro asked
    simp only [get?_put]
    by_cases first : asked = handle
    · simp [first, differs]
    · simp [first]
  · simp only [size_put, get?_put, differs, differs.symm, if_false]
    split <;> split <;> rfl

theorem put_putAll (table : HandleTable) {handle : Int} (raw : Json)
    (apart : ∀ entry ∈ ys, handle ≠ entry.1) :
    ((table.put handle raw).putAll ys).Alike ((table.putAll ys).put handle raw) := by
  induction ys generalizing table with
  | nil => exact refl _
  | cons entry rest ih =>
    have swapped := (put_put table (apart entry List.mem_cons_self) raw entry.2).putAll rest
    exact swapped.trans (ih (table.put entry.1 entry.2) fun other mem =>
      apart other (List.mem_cons_of_mem entry mem))

theorem putAll_putAll (table : HandleTable) (apart : ∀ x ∈ xs, ∀ y ∈ ys, x.1 ≠ y.1) :
    ((table.putAll xs).putAll ys).Alike ((table.putAll ys).putAll xs) := by
  induction xs generalizing table with
  | nil => exact refl _
  | cons entry rest ih =>
    have later := ih (table.put entry.1 entry.2) fun x mem =>
      apart x (List.mem_cons_of_mem entry mem)
    exact later.trans ((put_putAll table entry.2 (apart entry List.mem_cons_self)).putAll rest)

theorem foldl_same (lists : List (List (Int × Json))) (alike : table.Alike other) :
    (lists.foldl HandleTable.putAll table).Alike (lists.foldl HandleTable.putAll other) := by
  induction lists generalizing table other with
  | nil => exact alike
  | cons entries rest ih => exact ih (alike.putAll entries)

/-- Tables that take in lists of entries with no handle in two of them are alike in any order. -/
theorem foldl_putAll {lists others : List (List (Int × Json))} (reordered : lists.Perm others)
    (alike : table.Alike other)
    (apart : lists.Pairwise fun xs ys => ∀ x ∈ xs, ∀ y ∈ ys, x.1 ≠ y.1) :
    (lists.foldl HandleTable.putAll table).Alike (others.foldl HandleTable.putAll other) := by
  have symmetric : ∀ {xs ys : List (Int × Json)}, (∀ x ∈ xs, ∀ y ∈ ys, x.1 ≠ y.1) →
      ∀ y ∈ ys, ∀ x ∈ xs, y.1 ≠ x.1 :=
    fun differ y memY x memX => (differ x memX y memY).symm
  induction reordered generalizing table other with
  | nil => exact alike
  | cons entries perm ih => exact ih (alike.putAll entries) (List.pairwise_cons.1 apart).2
  | swap first second rest =>
    have differ := (List.pairwise_cons.1 apart).1 first List.mem_cons_self
    have swapped := putAll_putAll table differ
    have same := swapped.trans ((alike.putAll first).putAll second)
    exact foldl_same rest same
  | trans first second ih later =>
    exact (ih alike apart).trans (later (refl other) ((first.pairwise_iff symmetric).1 apart))

end Alike

end HandleTable

/-! ## What a response does -/

namespace Session

/-- What a response does for a call that waits for it: the call is gone, objects are noted and a
callback runs, unless the response comes too late. -/
structure Reaction where
  id : UInt64
  notes : List (Int × Json)
  request : Option Request

def Reaction.outcome? (id : UInt64) (reaction : Reaction) : Option (Except CallFailure Reply) :=
  reaction.request.bind fun request => Emission.outcome? id (.request request)

def reaction? (s : Session) (text : String) : Option Reaction :=
  (Json.parse? text).bind fun raw =>
    match (s.dialect.classify s.binder raw).result with
    | .ok (.event _) => none
    | .ok (.response frame) =>
      (s.call? frame.id).map fun call =>
        ⟨frame.id, if s.isStale call then [] else frame.refs,
          if s.isStale call then none
          else some (.complete call.id (s.settle call frame.outcome))⟩
    | .error error =>
      (s.dialect.responseId? raw).bind fun id =>
        (Machine.failureOf? error).bind fun failure =>
          (s.call? id).map fun call =>
            ⟨id, [], if s.isStale call then none else some (.complete call.id (.error failure))⟩

def reactions (s : Session) (texts : List String) : List Reaction :=
  texts.filterMap s.reaction?

def react (s : Session) (reaction : Reaction) : Session :=
  { s.removeCall reaction.id with handles := s.handles.putAll reaction.notes }

def reactAll (s : Session) (reactions : List Reaction) : Session :=
  reactions.foldl react s

/-- Frames that answer different calls, none of which reports that the program runs. -/
structure Apart (s : Session) (texts : List String) : Prop where
  answers : ∀ text ∈ texts, ∃ id, s.answered? text = some id
  distinct : texts.Pairwise fun text other => s.answered? text ≠ s.answered? other
  stopped : ∀ text ∈ texts, ∀ frame, s.Reads text (.response frame) → frame.running ≠ some true

def DescribesApart (s : Session) (texts : List String) : Prop :=
  texts.Pairwise fun text other => ∀ frame otherFrame,
    s.Reads text (.response frame) → s.Reads other (.response otherFrame) →
    ∀ entry ∈ frame.refs, ∀ otherEntry ∈ otherFrame.refs, entry.1 ≠ otherEntry.1

variable {s : Session} {text other : String} {texts others : List String} {reaction : Reaction}

theorem reaction?_of_response {frame : ResponseFrame} (read : s.Reads text (.response frame)) :
    s.reaction? text = (s.call? frame.id).map fun call =>
      ⟨frame.id, if s.isStale call then [] else frame.refs,
        if s.isStale call then none
        else some (.complete call.id (s.settle call frame.outcome))⟩ := by
  obtain ⟨raw, parsed, decoded⟩ := read
  simp only [reaction?, parsed, Option.bind_some, decoded]

theorem reaction?_of_refused {raw : Json} {error : FrameError} {id : UInt64}
    (parsed : Json.parse? text = some raw)
    (refused : (s.dialect.classify s.binder raw).result = .error error)
    (addressed : s.dialect.responseId? raw = some id) :
    s.reaction? text = (Machine.failureOf? error).bind fun failure =>
      (s.call? id).map fun call =>
        ⟨id, [], if s.isStale call then none else some (.complete call.id (.error failure))⟩ := by
  simp only [reaction?, parsed, Option.bind_some, refused, addressed]

theorem of_reaction? (reacts : s.reaction? text = some reaction) :
    s.answered? text = some reaction.id ∧
      (reaction.notes = [] ∨
        ∃ frame, s.Reads text (.response frame) ∧ reaction.notes = frame.refs) ∧
      ∀ request, reaction.request = some request →
        ∃ outcome, request = .complete reaction.id outcome := by
  obtain ⟨raw, parsed, reacts⟩ := Option.bind_eq_some_iff.1 reacts
  split at reacts
  · cases reacts
  · rename_i frame decoded
    have read : s.Reads text (.response frame) := ⟨raw, parsed, decoded⟩
    obtain ⟨call, pending, rfl⟩ := Option.map_eq_some_iff.1 reacts
    have named := (call?_eq_some pending).2
    dsimp only
    split
    · exact ⟨read.answered?, .inl rfl, nofun⟩
    · refine ⟨read.answered?, .inr ⟨frame, read, rfl⟩, ?_⟩
      rintro request ⟨⟩
      exact ⟨_, congrArg (Request.complete · _) named⟩
  · rename_i error refused
    obtain ⟨id, addressed, reacts⟩ := Option.bind_eq_some_iff.1 reacts
    obtain ⟨failure, -, reacts⟩ := Option.bind_eq_some_iff.1 reacts
    obtain ⟨call, pending, rfl⟩ := Option.map_eq_some_iff.1 reacts
    have named := (call?_eq_some pending).2
    refine ⟨(answered?_of_refused parsed refused).trans addressed, .inl rfl, ?_⟩
    intro request due
    dsimp only at due
    split at due <;> cases due
    exact ⟨_, congrArg (Request.complete · _) named⟩

theorem call?_removeCall {id other : UInt64} (differs : other ≠ id) :
    (s.removeCall id).call? other = s.call? other := by
  simp only [call?, removeCall]
  induction s.calls with
  | nil => rfl
  | cons call rest ih =>
    by_cases named : call.id = id
    · have others : (call.id == other) = false := by
        rw [named]
        exact beq_eq_false_iff_ne.2 fun equal => differs equal.symm
      rw [List.eraseP_cons_of_pos (by simpa using named), List.find?_cons_of_neg (by simp [others])]
    · rw [List.eraseP_cons_of_neg (by simpa using named), List.find?_cons, List.find?_cons]
      split
      · rfl
      · exact ih

/-- A response does the same before and after another call has been answered. -/
theorem reaction?_react {id : UInt64} (answers : s.answered? other = some id)
    (differs : id ≠ reaction.id) : (s.react reaction).reaction? other = s.reaction? other := by
  have setup : s.SameSetup (s.react reaction) := ⟨rfl, rfl, rfl, rfl⟩
  have kept : (s.react reaction).call? id = s.call? id := call?_removeCall differs
  have stale : ∀ call, (s.react reaction).isStale call = s.isStale call := fun _ => rfl
  rcases response_or_refused_of_answered? answers with
    ⟨frame, read, rfl⟩ | ⟨raw, error, parsed, refused, addressed⟩
  · have later : (s.react reaction).Reads other (.response frame) := read
    simp only [reaction?_of_response read, reaction?_of_response later, kept, stale, setup.settle]
  · rw [reaction?_of_refused parsed refused addressed,
      reaction?_of_refused (s := s.react reaction) parsed refused addressed, kept]
    rfl

theorem filterMap_reactions_cons {α : Type} (s : Session) (text : String) (texts : List String)
    (f : Reaction → Option α) :
    (s.reactions (text :: texts)).filterMap f
      = ((s.reaction? text).bind f).toList ++ (s.reactions texts).filterMap f := by
  unfold reactions
  rw [List.filterMap_cons]
  cases s.reaction? text with
  | none => rfl
  | some reaction => cases given : f reaction <;> simp [given]

theorem reactAll_eq (s : Session) (reactions : List Reaction) :
    s.reactAll reactions =
      { s with
        calls := reactions.foldl (fun calls reaction => calls.eraseP (·.id == reaction.id)) s.calls
        handles := (reactions.map Reaction.notes).foldl HandleTable.putAll s.handles } := by
  induction reactions generalizing s with
  | nil => rfl
  | cons reaction rest ih => exact ih (s.react reaction)

theorem erase_calls_perm (calls : List PendingCall) {reactions swapped : List Reaction}
    (reordered : reactions.Perm swapped) :
    reactions.foldl (fun calls reaction => calls.eraseP (·.id == reaction.id)) calls
      = swapped.foldl (fun calls reaction => calls.eraseP (·.id == reaction.id)) calls := by
  refine reordered.foldl_eq' (fun first _ second _ calls => ?_) calls
  by_cases same : first.id = second.id
  · rw [same]
  · refine List.eraseP_comm fun call _ => ?_
    simp only [beq_iff_eq]
    by_contra both
    push Not at both
    exact same (both.1.symm.trans both.2)

namespace Apart

variable (apart : s.Apart (text :: texts))

include apart in
theorem tail : (s.reactAll (s.reaction? text).toList).Apart texts ∧
    (s.reactAll (s.reaction? text).toList).reactions texts = s.reactions texts := by
  obtain ⟨differs, distinct⟩ := List.pairwise_cons.1 apart.distinct
  have answers := fun other mem => apart.answers other (List.mem_cons_of_mem text mem)
  have stopped := fun other mem => apart.stopped other (List.mem_cons_of_mem text mem)
  cases reacts : s.reaction? text with
  | none => exact ⟨⟨answers, distinct, stopped⟩, rfl⟩
  | some reaction =>
    refine ⟨⟨answers, distinct, stopped⟩, List.filterMap_congr fun other mem => ?_⟩
    obtain ⟨id, answered⟩ := answers other mem
    refine reaction?_react answered ?_
    rintro rfl
    exact differs other mem ((of_reaction? reacts).1.trans answered.symm)

theorem perm (apart : s.Apart texts) (reordered : texts.Perm others) : s.Apart others where
  answers text mem := apart.answers text (reordered.mem_iff.2 mem)
  distinct := (reordered.pairwise_iff Ne.symm).1 apart.distinct
  stopped text mem := apart.stopped text (reordered.mem_iff.2 mem)

theorem reactions_distinct (apart : s.Apart texts) :
    (s.reactions texts).Pairwise fun one other => one.id ≠ other.id := by
  refine List.Pairwise.filterMap _ ?_ apart.distinct
  rintro text other differ one reacts second reactsOther same
  exact differ (by rw [(of_reaction? reacts).1, (of_reaction? reactsOther).1, same])

end Apart

theorem notes_apart (apart : s.DescribesApart texts) :
    ((s.reactions texts).map Reaction.notes).Pairwise
      fun xs ys => ∀ x ∈ xs, ∀ y ∈ ys, x.1 ≠ y.1 := by
  rw [List.pairwise_map, reactions]
  refine List.Pairwise.filterMap _ ?_ apart
  intro text other disjoint reaction reacts second reactsOther x memX y memY
  rcases (of_reaction? reacts).2.1 with none | ⟨frame, read, refs⟩
  · rw [none] at memX
    cases memX
  · rcases (of_reaction? reactsOther).2.1 with none | ⟨otherFrame, readOther, otherRefs⟩
    · rw [none] at memY
      cases memY
    · exact disjoint frame otherFrame read readOther x (refs ▸ memX) y (otherRefs ▸ memY)

end Session

/-! ## Taking one response in -/

/-- A machine in the midst of taking in a response to the call of `id` above the waits `base`: the
session is `s` from now on, and the callback that is due has still to run. -/
inductive Machine.Delivers (id : UInt64) (s : Session) (base : List Waiting) :
    Option Request → Machine → Prop where
  | ended : Delivers id s base none ⟨s, base⟩
  | running (label : String) : Delivers id s base none ⟨s, .completing label .finish :: base⟩
  | toldOfResponse (call : PendingCall) (outcome : Except RemoteError Json) (stale : Bool)
      (named : call.id = id) :
      Delivers id s base (if stale then none else some (.complete call.id (s.settle call outcome)))
        ⟨s, .announcedResponse call outcome stale .finish :: base⟩
  | toldOfMalformed (call : PendingCall) (failure : CallFailure) (named : call.id = id) :
      Delivers id s base
        (if s.isStale call then none else some (.complete call.id (.error failure)))
        ⟨s, .announcedMalformed call failure .finish :: base⟩

/-- A turn in the midst of taking in a response, for which a callback was due from its start. -/
def Turn.Delivers (turn : Turn) (id : UInt64) (s : Session) (base : List Waiting)
    (due : Option Request) : Prop :=
  ∃ left, turn.machine.Delivers id s base left ∧ asked turn.emitted ++ left.toList = due.toList

namespace Turn.Delivers

variable {turn : Turn} {id : UInt64} {s : Session} {base : List Waiting} {due : Option Request}

theorem preceded (delivers : turn.Delivers id s base due) {emissions : List Emission}
    (silent : asked emissions = []) : (turn.preceded emissions).Delivers id s base due := by
  obtain ⟨left, machine, split⟩ := delivers
  exact ⟨left, machine, by rw [Turn.preceded, asked_append, silent, List.nil_append, split]⟩

theorem noticed (delivers : turn.Delivers id s base due) (notices : List Notice) :
    (turn.noticed notices).Delivers id s base due :=
  delivers.preceded (asked_notices notices)

theorem conclude : (Machine.conclude ⟨s, base⟩ .finish).Delivers id s base none :=
  ⟨none, .ended, rfl⟩

theorem announce {waiting : Waiting} {next : Machine → Turn}
    (told : Machine.Delivers id s base due ⟨s, waiting :: base⟩)
    (untold : (next ⟨s, base⟩).Delivers id s base due) :
    (Machine.announce ⟨s, base⟩ waiting next).Delivers id s base due := by
  rcases Machine.announce_cases ⟨s, base⟩ waiting next with direct | ⟨listener, tells⟩
  · rwa [direct]
  · rw [tells]
    exact ⟨due, told, rfl⟩

theorem completeResponse (call : PendingCall) (outcome : Except RemoteError Json) (stale : Bool) :
    (Machine.completeResponse ⟨s, base⟩ call outcome stale .finish).Delivers id s base
      (if stale then none else some (.complete call.id (s.settle call outcome))) := by
  cases stale with
  | true => exact conclude.preceded rfl
  | false =>
    obtain ⟨log, timely⟩ := Machine.completeResponse_timely ⟨s, base⟩ call outcome .finish
    rw [timely]
    refine noticed ⟨none, .running call.command, ?_⟩ _
    exact congrArg (· ++ []) (asked_complete _ _)

theorem completeMalformed (call : PendingCall) (failure : CallFailure) :
    (Machine.completeMalformed ⟨s, base⟩ call failure .finish).Delivers id s base
      (if s.isStale call then none else some (.complete call.id (.error failure))) := by
  unfold Machine.completeMalformed
  split
  · exact conclude.preceded rfl
  · exact noticed ⟨none, .running call.command, rfl⟩ _

end Turn.Delivers

namespace Machine

variable {m : Machine} {id : UInt64} {s : Session} {base : List Waiting} {due : Option Request}

theorem Delivers.of_ended (delivers : m.Delivers id s base due)
    (ended : m.stack.length ≤ base.length) : m = ⟨s, base⟩ ∧ due = none := by
  cases delivers with
  | ended => exact ⟨rfl, rfl⟩
  | running | toldOfResponse | toldOfMalformed => exact absurd ended (Nat.not_succ_le_self _)

/-- A listener that breaks down on the response takes the callback with it that is due. -/
theorem Delivers.step {input : Input} (delivers : m.Delivers id s base due)
    (running : base.length < m.stack.length) (answer : ∀ operation, input ≠ .start operation) :
    (m.step input).Delivers id s base due ∨
      m.BreaksTelling id input ∧ m.step input = ⟨⟨s, base⟩, [.abandoned id, .unwound]⟩ := by
  have idle : Turn.Delivers ⟨m, []⟩ id s base due := ⟨due, delivers, rfl⟩
  cases delivers with
  | ended => exact absurd running (Nat.lt_irrefl _)
  | running label =>
    cases input with
    | start operation => exact absurd rfl (answer operation)
    | done => exact .inl .conclude
    | crashed => exact .inl (Turn.Delivers.conclude.noticed _)
    | accepted | refused | pulled => exact .inl idle
  | toldOfResponse call outcome stale named =>
    cases input with
    | start operation => exact absurd rfl (answer operation)
    | done => exact .inl (.completeResponse call outcome stale)
    | crashed =>
      subst named
      exact .inr ⟨⟨rfl, _, base, call, rfl, rfl, rfl⟩, rfl⟩
    | accepted | refused | pulled => exact .inl idle
  | toldOfMalformed call failure named =>
    cases input with
    | start operation => exact absurd rfl (answer operation)
    | done => exact .inl (.completeMalformed call failure)
    | crashed =>
      subst named
      exact .inr ⟨⟨rfl, _, base, call, rfl, rfl, rfl⟩, rfl⟩
    | accepted | refused | pulled => exact .inl idle

theorem Delivers.run {body : List Input} (delivers : m.Delivers id s base due)
    (alone : ∀ input ∈ body, ∀ operation, input ≠ .start operation)
    (running : ∀ before input rest, body = before ++ input :: rest →
      base.length < (m.after before).stack.length) :
    ∃ last, (m.after body).Delivers id s base last ∧ asked (m.emitted body) ⊆ due.toList ∧
      (¬ m.Happens (BreaksTelling id) body →
        asked (m.emitted body) ++ last.toList = due.toList) := by
  induction body generalizing m due with
  | nil => exact ⟨due, delivers, List.nil_subset _, fun _ => rfl⟩
  | cons input body ih =>
    have first := running [] input body rfl
    have later : ∀ before other rest, body = before ++ other :: rest →
        base.length < ((m.step input).machine.after before).stack.length :=
      fun before other rest split => running (input :: before) other rest (by rw [split]; rfl)
    rw [after_cons, emitted_cons, asked_append]
    rcases delivers.step first (alone input List.mem_cons_self) with
      ⟨next, stays, split⟩ | ⟨broken, taken⟩
    · obtain ⟨last, ends, among, rest⟩ :=
        ih stays (fun other mem => alone other (List.mem_cons_of_mem input mem)) later
      rw [← split]
      refine ⟨last, ends, fun request mem => ?_, fun sound => ?_⟩
      · exact (List.mem_append.1 mem).elim (List.mem_append_left _)
          fun mem => List.mem_append_right _ (among mem)
      · rw [happens_cons, not_or] at sound
        rw [List.append_assoc, rest sound.2]
    · -- Nothing is left above the waits, so the operation has ended.
      rw [taken] at later ⊢
      cases body with
      | cons other body => exact absurd (later [] other body rfl) (Nat.lt_irrefl _)
      | nil =>
        refine ⟨none, .ended, List.nil_subset _, fun sound => ?_⟩
        exact absurd (happens_cons.2 (.inl broken)) sound

theorem absorb_of_stopped (s : Session) {frame : ResponseFrame}
    (stopped : frame.running ≠ some true) (stale : Bool) (request : Option Request) :
    absorb (s.removeCall frame.id) frame stale
      = s.react ⟨frame.id, if stale then [] else frame.refs, request⟩ := by
  have lasting : (s.removeCall frame.id).dialect.responseLifecycle? frame ≠ some .resume := by
    unfold Dialect.responseLifecycle?
    split
    · exact absurd ‹_› stopped
    · nofun
  unfold absorb
  rw [if_neg lasting]
  cases stale <;> rfl

/-- What a response does is settled by the session that takes it in. -/
theorem receive_delivers (m : Machine) {text : String} {id : UInt64}
    (opened : m.session.phase ≠ .closed) (answers : m.session.answered? text = some id)
    (stopped : ∀ frame, m.session.Reads text (.response frame) → frame.running ≠ some true) :
    (m.receive text .finish).Delivers id (m.session.reactAll (m.session.reaction? text).toList)
      m.stack ((m.session.reaction? text).bind Session.Reaction.request) := by
  rcases Session.response_or_refused_of_answered? answers with
    ⟨frame, read, rfl⟩ | ⟨raw, error, parsed, refused, addressed⟩
  · rw [Session.reaction?_of_response read]
    have goes := stopped frame read
    obtain ⟨raw, parsed, decoded⟩ := read
    rw [receive_of_response m .finish opened parsed decoded]
    refine .preceded (.noticed ?_ _) (asked_transcribe m "<-" text)
    unfold deliverResponse
    cases pending : m.session.call? frame.id with
    | none => exact Turn.Delivers.conclude.noticed _
    | some call =>
      let reaction : Session.Reaction :=
        ⟨frame.id, if m.session.isStale call then [] else frame.refs,
          if m.session.isStale call then none
          else some (.complete call.id (m.session.settle call frame.outcome))⟩
      have setup : m.session.SameSetup (m.session.react reaction) := ⟨rfl, rfl, rfl, rfl⟩
      have due : (if m.session.isStale call then none
          else some (Request.complete call.id
            ((m.session.react reaction).settle call frame.outcome))) = reaction.request := by
        rw [setup.settle]
      have absorbed : m.modify (fun session =>
          absorb (session.removeCall frame.id) frame (m.session.isStale call))
            = ⟨m.session.react reaction, m.stack⟩ :=
        congrArg (Machine.mk · m.stack)
          (absorb_of_stopped m.session goes (m.session.isStale call) reaction.request)
      change Turn.Delivers _ frame.id (m.session.react reaction) m.stack reaction.request
      dsimp only
      rw [absorbed, ← due]
      exact Turn.Delivers.noticed (.announce
        (.toldOfResponse call frame.outcome _ (Session.call?_eq_some pending).2)
        (.completeResponse call frame.outcome _)) _
  · rw [Session.reaction?_of_refused parsed refused addressed,
      receive_of_undecodable m .finish opened parsed refused addressed]
    refine .preceded (.noticed ?_ _) (asked_transcribe m "<-" text)
    unfold deliverMalformed
    cases failureOf? error with
    | none => exact Turn.Delivers.conclude.noticed _
    | some failure =>
      cases pending : m.session.call? id with
      | none => exact Turn.Delivers.conclude.noticed _
      | some call =>
        exact .announce (.toldOfMalformed call failure (Session.call?_eq_some pending).2)
          (.completeMalformed call failure)

inductive TakesIn : Machine → List String → List Input → Prop where
  | nil (m : Machine) : TakesIn m [] []
  | cons {m : Machine} {text : String} {body : List Input} {texts : List String}
      {inputs : List Input} (undisturbed : m.Undisturbed (.receive text) body)
      (ended : (m.after (.start (.receive text) :: body)).stack.length ≤ m.stack.length)
      (rest : TakesIn (m.after (.start (.receive text) :: body)) texts inputs) :
      TakesIn m (text :: texts) (.start (.receive text) :: body ++ inputs)

/-- Whatever the frames, user code can answer so that they are all taken in. -/
theorem exists_takesIn (m : Machine) (texts : List String) : ∃ inputs, m.TakesIn texts inputs := by
  induction texts generalizing m with
  | nil => exact ⟨[], .nil m⟩
  | cons text texts ih =>
    obtain ⟨waiting, stack⟩ := (start_works (m := m) (.receive text)).stack_eq
    obtain ⟨body, orderly, spans⟩ := Turn.finishes waiting.toList stack
    obtain ⟨inputs, rest⟩ := ih (m.after (.start (.receive text) :: body))
    refine ⟨_, .cons ⟨?_, spans.running⟩ spans.finished rest⟩
    rintro input mem operation rfl
    cases orderly _ mem

variable {texts others : List String} {inputs swapped : List Input}

theorem after_receive {text : String} {body : List Input} {id : UInt64}
    (opened : m.session.phase ≠ .closed) (answers : m.session.answered? text = some id)
    (stopped : ∀ frame, m.session.Reads text (.response frame) → frame.running ≠ some true)
    (undisturbed : m.Undisturbed (.receive text) body)
    (ended : (m.after (.start (.receive text) :: body)).stack.length ≤ m.stack.length) :
    m.after (.start (.receive text) :: body)
        = ⟨m.session.reactAll (m.session.reaction? text).toList, m.stack⟩ ∧
      asked (m.emitted (.start (.receive text) :: body))
        ⊆ ((m.session.reaction? text).bind Session.Reaction.request).toList ∧
      (¬ m.Happens (BreaksTelling id) (.start (.receive text) :: body) →
        asked (m.emitted (.start (.receive text) :: body))
          = ((m.session.reaction? text).bind Session.Reaction.request).toList) := by
  obtain ⟨left, delivers, first⟩ := m.receive_delivers opened answers stopped
  obtain ⟨last, ends, among, rest⟩ := delivers.run undisturbed.alone undisturbed.running
  obtain ⟨same, rfl⟩ := ends.of_ended ended
  rw [emitted_cons, asked_append, ← first]
  refine ⟨same, fun request mem => ?_, fun sound => ?_⟩
  · exact (List.mem_append.1 mem).elim (List.mem_append_left _)
      fun mem => List.mem_append_right _ (among mem)
  · rw [happens_cons, not_or] at sound
    rw [← rest sound.2, Option.toList_none, List.append_nil]
    rfl

theorem outcomes_eq_of_asked (id : UInt64) (emitted : List Emission) :
    outcomes id emitted
      = (asked emitted).filterMap fun request => Emission.outcome? id (.request request) := by
  rw [outcomes, asked, List.filterMap_filterMap]
  refine List.filterMap_congr fun emission _ => ?_
  cases emission with
  | request request => cases request <;> rfl
  | _ => rfl

theorem outcome?_of_reaction? {s : Session} {text : String} {reaction : Session.Reaction}
    {own id : UInt64} {outcome : Except CallFailure Reply} (answers : s.answered? text = some own)
    (reacts : s.reaction? text = some reaction) (given : reaction.outcome? id = some outcome) :
    own = id := by
  obtain ⟨answered, -, completes⟩ := Session.of_reaction? reacts
  obtain ⟨request, due, runs⟩ := Option.bind_eq_some_iff.1 given
  obtain ⟨verdict, rfl⟩ := completes request due
  obtain rfl : reaction.id = own := Option.some.inj (answered.symm.trans answers)
  by_contra differs
  cases verdict <;> simp [Request.complete, Emission.outcome?, differs] at runs

/-- A call gets the outcome that its response has for it, unless the listener breaks down on that
response. -/
theorem outcomes_of_receive {text : String} {body : List Input} {own id : UInt64}
    (opened : m.session.phase ≠ .closed) (answers : m.session.answered? text = some own)
    (stopped : ∀ frame, m.session.Reads text (.response frame) → frame.running ≠ some true)
    (undisturbed : m.Undisturbed (.receive text) body)
    (ended : (m.after (.start (.receive text) :: body)).stack.length ≤ m.stack.length)
    (sound : ¬ m.Happens (BreaksTelling id) (.start (.receive text) :: body)) :
    outcomes id (m.emitted (.start (.receive text) :: body))
      = ((m.session.reaction? text).bind (·.outcome? id)).toList := by
  obtain ⟨-, among, requests⟩ := after_receive opened answers stopped undisturbed ended
  have due : (m.session.reaction? text).bind (·.outcome? id)
      = ((m.session.reaction? text).bind Session.Reaction.request).bind
          fun request => Emission.outcome? id (.request request) := by
    cases m.session.reaction? text <;> rfl
  rw [outcomes_eq_of_asked]
  by_cases same : own = id
  · rw [requests (same ▸ sound), due]
    cases (m.session.reaction? text).bind Session.Reaction.request with
    | none => rfl
    | some request =>
      cases given : Emission.outcome? id (.request request) <;> simp [given]
  · -- What is asked of user code has no outcome for the call, even if the listener breaks down.
    have none : (m.session.reaction? text).bind (·.outcome? id) = none := by
      by_contra some
      obtain ⟨outcome, given⟩ := Option.ne_none_iff_exists'.1 some
      obtain ⟨reaction, reacts, given⟩ := Option.bind_eq_some_iff.1 given
      exact same (outcome?_of_reaction? answers reacts given)
    rw [none, Option.toList_none, List.filterMap_eq_nil_iff]
    intro request mem
    rw [due, Option.mem_toList.1 (among mem), Option.bind_some] at none
    exact none

/-- Responses to different calls do, one after the other, what each does alone. -/
theorem TakesIn.after_eq (takes : m.TakesIn texts inputs) (opened : m.session.phase ≠ .closed)
    (apart : m.session.Apart texts) :
    m.after inputs = ⟨m.session.reactAll (m.session.reactions texts), m.stack⟩ ∧
      ((∀ id, ¬ m.Happens (BreaksTelling id) inputs) →
        asked (m.emitted inputs)
          = (m.session.reactions texts).filterMap Session.Reaction.request) ∧
      ∀ id, ¬ m.Happens (BreaksTelling id) inputs →
        outcomes id (m.emitted inputs)
          = (m.session.reactions texts).filterMap (Session.Reaction.outcome? id) := by
  induction takes with
  | nil m => exact ⟨rfl, fun _ => rfl, fun _ _ => rfl⟩
  | @cons m text body texts inputs undisturbed ended rest ih =>
    obtain ⟨own, answers⟩ := apart.answers text List.mem_cons_self
    have stopped := apart.stopped text List.mem_cons_self
    obtain ⟨same, -, first⟩ := after_receive opened answers stopped undisturbed ended
    obtain ⟨aparts, reactions⟩ := apart.tail
    have split : m.session.reactions (text :: texts)
        = (m.session.reaction? text).toList ++ m.session.reactions texts := by
      unfold Session.reactions
      rw [List.filterMap_cons]
      cases m.session.reaction? text <;> rfl
    have still : (m.after (.start (.receive text) :: body)).session.phase ≠ .closed := by
      rw [same, Session.reactAll_eq]
      exact opened
    obtain ⟨last, others, later⟩ := ih still (same ▸ aparts)
    rw [same, reactions] at last
    simp only [same] at others later
    rw [reactions] at others later
    refine ⟨?_, fun sound => ?_, fun id sound => ?_⟩
    · rw [after_append, same, last, split, Session.reactAll, Session.reactAll, Session.reactAll,
        List.foldl_append]
    · have sound_rest := fun id => (not_or.1 (mt happens_append.2 (sound id))).2
      have sound_first := (not_or.1 (mt happens_append.2 (sound own))).1
      rw [emitted_append, asked_append, first sound_first, same, others (same ▸ sound_rest),
        Session.filterMap_reactions_cons]
    · rw [happens_append, not_or] at sound
      rw [emitted_append, outcomes_append, same, later id (same ▸ sound.2),
        Session.filterMap_reactions_cons,
        outcomes_of_receive opened answers stopped undisturbed ended sound.1]

/-! ## Any order -/

theorem outcomes_of_reactions {s : Session} (apart : s.Apart texts) (id : UInt64) :
    ((s.reactions texts).filterMap (Session.Reaction.outcome? id)).Pairwise fun _ _ => False := by
  have named : ∀ reaction ∈ s.reactions texts, ∀ outcome,
      reaction.outcome? id = some outcome → reaction.id = id := by
    intro reaction mem outcome given
    obtain ⟨text, -, reacts⟩ := List.mem_filterMap.1 mem
    exact outcome?_of_reaction? (Session.of_reaction? reacts).1 reacts given
  rw [List.pairwise_filterMap]
  refine apart.reactions_distinct.imp_of_mem ?_
  intro one other memOne memOther differ outcome given verdict givenOther
  exact differ
    ((named one memOne outcome given).trans (named other memOther verdict givenOther).symm)

/-- Responses to different calls may arrive in any order, while user code leaves the session alone:
the same session is left, and the handles are the same too, unless two of the responses describe
one. Each call gets the same outcome, as the session before the first response has it, provided
that the listener breaks down on its response in neither order; and if it breaks down on none, what
is asked of user code is what the responses ask for. -/
theorem responses_commute (opened : m.session.phase ≠ .closed) (apart : m.session.Apart texts)
    (reordered : texts.Perm others) (first : m.TakesIn texts inputs)
    (second : m.TakesIn others swapped) :
    (∃ table, m.after swapped = (m.after inputs).modify ({ · with handles := table })) ∧
    (m.session.DescribesApart texts →
      (m.after inputs).session.handles.Alike (m.after swapped).session.handles) ∧
    ((∀ id, ¬ m.Happens (BreaksTelling id) inputs) →
      asked (m.emitted inputs)
        = (m.session.reactions texts).filterMap Session.Reaction.request) ∧
    (∀ id, ¬ m.Happens (BreaksTelling id) inputs → ¬ m.Happens (BreaksTelling id) swapped →
      outcomes id (m.emitted inputs) = outcomes id (m.emitted swapped)) := by
  obtain ⟨left, requests, told⟩ := first.after_eq opened apart
  obtain ⟨leftSwapped, -, toldSwapped⟩ := second.after_eq opened (apart.perm reordered)
  have perm : (m.session.reactions texts).Perm (m.session.reactions others) :=
    reordered.filterMap m.session.reaction?
  rw [left, leftSwapped]
  refine ⟨?_, ?_, requests, ?_⟩
  · rw [Session.reactAll_eq, Session.reactAll_eq, Session.erase_calls_perm _ perm]
    exact ⟨_, rfl⟩
  · intro disjoint
    rw [Session.reactAll_eq, Session.reactAll_eq]
    exact .foldl_putAll (perm.map _) (.refl _) (Session.notes_apart disjoint)
  · intro id sound soundSwapped
    rw [told id sound, toldSwapped id soundSwapped]
    exact List.Perm.eq_of_pairwise (fun _ _ _ _ never => never.elim)
      (outcomes_of_reactions apart id) (outcomes_of_reactions (apart.perm reordered) id)
      (perm.filterMap _)

def askedTwice : Machine :=
  (initial .default Catalog.registry .off).after
    (askingRun ++ [.start (.send ⟨"version", none, none⟩ none), .accepted])

/-- A response without a verdict, which cannot be decoded. -/
def verdictlessText : String :=
  "\x7b\"command\":\"version\",\"request_seq\":2,\"type\":\"response\"\x7d"

def brokenFirst : List Input :=
  [.start (.receive verdictlessText), .done, .start (.receive versionText), .done]

def brokenLast : List Input :=
  [.start (.receive versionText), .done, .start (.receive verdictlessText), .done]

theorem TakesIn.of_spans {m : Machine} {text : String} (body : List Input)
    (alone : ∀ input ∈ body, ∀ operation, input ≠ .start operation)
    (spans : (m.step (.start (.receive text))).Spans m.stack body)
    (rest : TakesIn (m.after (.start (.receive text) :: body)) texts inputs) :
    TakesIn m (text :: texts) (.start (.receive text) :: (body ++ inputs)) :=
  .cons ⟨alone, spans.running⟩ spans.finished rest

/-- What was read does not let the program run on. -/
def leavesStopped : Except FrameError Incoming → Bool
  | .ok (.response frame) => frame.running != some true
  | _ => true

def describesOnly (handle : Int) : Except FrameError Incoming → Bool
  | .ok (.response frame) => frame.refs.all (·.1 == handle)
  | _ => true

theorem check_of_reads {s : Session} {text : String} {frame : ResponseFrame}
    {check : Except FrameError Incoming → Bool}
    (checked : (Json.parse? text).all
      (fun raw => check (s.dialect.classify s.binder raw).result) = true)
    (read : s.Reads text (.response frame)) : check (.ok (.response frame)) = true := by
  obtain ⟨raw, parsed, decoded⟩ := read
  simpa only [parsed, Option.all_some, decoded] using checked

theorem apart_of_ids {s : Session} (ids : List UInt64)
    (answers : texts.map s.answered? = ids.map some) (distinct : ids.Nodup)
    (stopped : ∀ text ∈ texts, (Json.parse? text).all
      (fun raw => leavesStopped (s.dialect.classify s.binder raw).result) = true) :
    s.Apart texts where
  answers text mem := by
    have among := List.mem_map_of_mem (f := s.answered?) mem
    rw [answers] at among
    obtain ⟨id, -, given⟩ := List.mem_map.1 among
    exact ⟨id, given.symm⟩
  distinct := by
    have differ : (ids.map some).Pairwise (· ≠ ·) :=
      List.pairwise_map.2 (distinct.imp fun differs same => differs (Option.some.inj same))
    rw [← answers] at differ
    exact List.pairwise_map.1 differ
  stopped text mem frame read := by
    simpa [leavesStopped] using check_of_reads (stopped text mem) read

theorem responses_commute_version :
    (askedTwice.after brokenLast).session.calls = (askedTwice.after brokenFirst).session.calls ∧
      ∀ id, outcomes id (askedTwice.emitted brokenFirst)
        = outcomes id (askedTwice.emitted brokenLast) := by
  have apart : askedTwice.session.Apart [verdictlessText, versionText] :=
    apart_of_ids [2, 1] (by decide +kernel) (by decide) (by decide +kernel)
  have first : askedTwice.TakesIn [verdictlessText, versionText] brokenFirst :=
    .of_spans [.done] (by simp) (by decide +kernel)
      (.of_spans [.done] (by simp) (by decide +kernel) (.nil _))
  have second : askedTwice.TakesIn [versionText, verdictlessText] brokenLast :=
    .of_spans [.done] (by simp) (by decide +kernel)
      (.of_spans [.done] (by simp) (by decide +kernel) (.nil _))
  have sound : ∀ inputs : List Input, .crashed ∉ inputs →
      ∀ id, ¬ askedTwice.Happens (BreaksTelling id) inputs :=
    fun inputs quiet id broken => quiet (broken.mem fun _ _ broken => broken.1)
  obtain ⟨⟨table, left⟩, -, -, same⟩ :=
    responses_commute (by decide +kernel) apart (.swap _ _ []) first second
  exact ⟨by rw [left, modify], fun id =>
    same id (sound _ (by simp [brokenFirst]) id) (sound _ (by simp [brokenLast]) id)⟩

def watchedTwice : Machine := askedTwice.after [.start (.listen 0)]

/-- The listener breaks down the first time that it is told something. -/
def breakingFirst : List Input :=
  [.start (.receive verdictlessText), .crashed, .start (.receive versionText), .done, .done]

def breakingLast : List Input :=
  [.start (.receive versionText), .crashed, .start (.receive verdictlessText), .done, .done]

def noting (id handle : String) : String :=
  "\x7b\"refs\":[\x7b\"handle\":" ++ handle ++ "\x7d],\"request_seq\":" ++ id ++
    ",\"success\":true,\"type\":\"response\"\x7d"

/-- The callback of the first call empties the table of handles. -/
def resettingFirst : List Input :=
  [.start (.receive (noting "1" "5")), .start .resetHandles, .done,
    .start (.receive (noting "2" "6")), .done]

def resettingLast : List Input :=
  [.start (.receive (noting "2" "6")), .done,
    .start (.receive (noting "1" "5")), .start .resetHandles, .done]

/-- With a listener that breaks down once, the call that is answered first runs no callback. And
with a callback that empties the table of handles, the table has the objects of the later responses
only, though no handle is described twice. -/
theorem responses_differ_by_order :
    (watchedTwice.session.Apart [verdictlessText, versionText] ∧
      watchedTwice.TakesIn [verdictlessText, versionText] breakingFirst ∧
      watchedTwice.TakesIn [versionText, verdictlessText] breakingLast ∧
      (outcomes 1 (watchedTwice.emitted breakingFirst)).length = 1 ∧
      outcomes 1 (watchedTwice.emitted breakingLast) = []) ∧
    askedTwice.session.Apart [noting "1" "5", noting "2" "6"] ∧
    askedTwice.session.DescribesApart [noting "1" "5", noting "2" "6"] ∧
    ((askedTwice.after resettingFirst).isResting = true ∧
      (askedTwice.after resettingFirst).session.handles.size = 1) ∧
    (askedTwice.after resettingLast).isResting = true ∧
    (askedTwice.after resettingLast).session.handles.size = 0 := by
  refine ⟨⟨?_, ?_, ?_, by decide +kernel, ?_⟩, ?_, ?_, by decide +kernel, by decide +kernel⟩
  · exact apart_of_ids [2, 1] (by decide +kernel) (by decide) (by decide +kernel)
  · exact .of_spans [.crashed] (by simp) (by decide +kernel)
      (.of_spans [.done, .done] (by simp) (by decide +kernel) (.nil _))
  · exact .of_spans [.crashed] (by simp) (by decide +kernel)
      (.of_spans [.done, .done] (by simp) (by decide +kernel) (.nil _))
  · exact List.isEmpty_iff.1 (by decide +kernel)
  · exact apart_of_ids [1, 2] (by decide +kernel) (by decide) (by decide +kernel)
  · refine List.pairwise_pair.2 fun frame other read readOther entry mem otherEntry memOther => ?_
    have five : describesOnly 5 (.ok (.response frame)) = true :=
      check_of_reads (by decide +kernel) read
    have six : describesOnly 6 (.ok (.response other)) = true :=
      check_of_reads (by decide +kernel) readOther
    have own := beq_iff_eq.1 (List.all_eq_true.1 five entry mem)
    have others := beq_iff_eq.1 (List.all_eq_true.1 six otherEntry memOther)
    rw [own, others]
    decide

end Machine

end DebugLink
