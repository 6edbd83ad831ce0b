import DebugLink.Proofs.Binding.Result
import DebugLink.Session.Machine

/-!
# Runs of a session and what is seen of them

A run is the machine after several inputs. What is seen of one call is read off the emissions: the
outcomes its callbacks were run with, whether its send was accepted, and whether it was abandoned.
-/

set_option autoImplicit false

namespace DebugLink

namespace Emission

def outcome? (id : UInt64) : Emission → Option (Except CallFailure Reply)
  | .request (.succeed i reply) => if i = id then some (.ok reply) else none
  | .request (.fail i failure) => if i = id then some (.error failure) else none
  | _ => none

def issued? : Emission → Option UInt64
  | .request (.transmit id _) => some id
  | _ => none

def accepted? : Emission → Option UInt64
  | .returned (.call id) => some id
  | _ => none

def abandoned? : Emission → Option UInt64
  | .abandoned id => some id
  | _ => none

def minted? : Emission → Option ContextToken
  | .notice (.suspended token) => some token
  | _ => none

/-- Whether an operation has ended without a value. -/
def endsPlainly : Emission → Bool
  | .returned .unit => true
  | _ => false

theorem eq_of_endsPlainly {emission : Emission} (plain : emission.endsPlainly = true) :
    emission = .returned .unit := by
  unfold endsPlainly at plain
  split at plain
  · rfl
  · cases plain

end Emission

/-- The outcomes that the callbacks of a call have been run with. -/
def outcomes (id : UInt64) (emitted : List Emission) : List (Except CallFailure Reply) :=
  emitted.filterMap (Emission.outcome? id)

def issuedIds (emitted : List Emission) : List UInt64 :=
  emitted.filterMap Emission.issued?

def acceptedIds (emitted : List Emission) : List UInt64 :=
  emitted.filterMap Emission.accepted?

def abandonedIds (emitted : List Emission) : List UInt64 :=
  emitted.filterMap Emission.abandoned?

def mintedTokens (emitted : List Emission) : List ContextToken :=
  emitted.filterMap Emission.minted?

theorem outcomes_append (id : UInt64) (xs ys : List Emission) :
    outcomes id (xs ++ ys) = outcomes id xs ++ outcomes id ys :=
  List.filterMap_append

theorem issuedIds_append (xs ys : List Emission) :
    issuedIds (xs ++ ys) = issuedIds xs ++ issuedIds ys :=
  List.filterMap_append

theorem acceptedIds_append (xs ys : List Emission) :
    acceptedIds (xs ++ ys) = acceptedIds xs ++ acceptedIds ys :=
  List.filterMap_append

theorem abandonedIds_append (xs ys : List Emission) :
    abandonedIds (xs ++ ys) = abandonedIds xs ++ abandonedIds ys :=
  List.filterMap_append

theorem mintedTokens_append (xs ys : List Emission) :
    mintedTokens (xs ++ ys) = mintedTokens xs ++ mintedTokens ys :=
  List.filterMap_append

/-- The id that a JSON value answers: that of a response or, when the value is no frame, the id
that can be read from it all the same. -/
def Dialect.answeredId? (dialect : Dialect) (binder : Binder) (raw : Json) : Option UInt64 :=
  match (dialect.classify binder raw).result with
  | .ok (.response frame) => some frame.id
  | .ok (.event _) => none
  | .error _ => dialect.responseId? raw

namespace Machine

def after (m : Machine) (inputs : List Input) : Machine :=
  (m.run inputs).machine

def emitted (m : Machine) (inputs : List Input) : List Emission :=
  (m.run inputs).emitted

@[simp] theorem after_nil (m : Machine) : m.after [] = m := rfl

@[simp] theorem emitted_nil (m : Machine) : m.emitted [] = [] := rfl

theorem after_cons (m : Machine) (input : Input) (inputs : List Input) :
    m.after (input :: inputs) = (m.step input).machine.after inputs := rfl

theorem emitted_cons (m : Machine) (input : Input) (inputs : List Input) :
    m.emitted (input :: inputs) = (m.step input).emitted ++ (m.step input).machine.emitted inputs :=
  rfl

theorem after_append (m : Machine) (xs ys : List Input) :
    m.after (xs ++ ys) = (m.after xs).after ys := by
  induction xs generalizing m with
  | nil => rfl
  | cons x xs ih => exact ih (m.step x).machine

theorem emitted_append (m : Machine) (xs ys : List Input) :
    m.emitted (xs ++ ys) = m.emitted xs ++ (m.after xs).emitted ys := by
  induction xs generalizing m with
  | nil => rfl
  | cons x xs ih =>
    simp only [List.cons_append, emitted_cons, after_cons, ih, List.append_assoc]

theorem after_concat (m : Machine) (inputs : List Input) (input : Input) :
    m.after (inputs ++ [input]) = ((m.after inputs).step input).machine :=
  after_append m inputs [input]

theorem emitted_concat (m : Machine) (inputs : List Input) (input : Input) :
    m.emitted (inputs ++ [input]) = m.emitted inputs ++ ((m.after inputs).step input).emitted := by
  rw [emitted_append, emitted_cons, emitted_nil, List.append_nil]

/-- Some step of a run is of a kind. -/
def Happens (kind : Machine → Input → Prop) (m : Machine) (inputs : List Input) : Prop :=
  ∃ before input rest, inputs = before ++ input :: rest ∧ kind (m.after before) input

theorem not_happens_nil (kind : Machine → Input → Prop) (m : Machine) : ¬ m.Happens kind [] := by
  rintro ⟨before, input, rest, split, -⟩
  cases before <;> cases split

theorem happens_cons {kind : Machine → Input → Prop} {m : Machine} {input : Input}
    {inputs : List Input} :
    m.Happens kind (input :: inputs) ↔
      kind m input ∨ (m.step input).machine.Happens kind inputs := by
  constructor
  · rintro ⟨before, other, rest, split, holds⟩
    cases before with
    | nil =>
      obtain ⟨rfl, rfl⟩ := List.cons.inj split
      exact .inl holds
    | cons first before =>
      obtain ⟨rfl, rfl⟩ := List.cons.inj split
      exact .inr ⟨before, other, rest, rfl, holds⟩
  · rintro (holds | ⟨before, other, rest, rfl, holds⟩)
    · exact ⟨[], input, inputs, rfl, holds⟩
    · exact ⟨input :: before, other, rest, rfl, holds⟩

theorem happens_append {kind : Machine → Input → Prop} {m : Machine} {xs ys : List Input} :
    m.Happens kind (xs ++ ys) ↔ m.Happens kind xs ∨ (m.after xs).Happens kind ys := by
  induction xs generalizing m with
  | nil => simp [not_happens_nil]
  | cons x xs ih => rw [List.cons_append, happens_cons, happens_cons, ih, after_cons, or_assoc]

theorem Happens.imp {kind other : Machine → Input → Prop} {m : Machine} {inputs : List Input}
    (happens : m.Happens kind inputs) (weaken : ∀ n input, kind n input → other n input) :
    m.Happens other inputs := by
  obtain ⟨before, input, rest, split, holds⟩ := happens
  exact ⟨before, input, rest, split, weaken _ input holds⟩

theorem Happens.mem {kind : Machine → Input → Prop} {m : Machine} {inputs : List Input}
    {answer : Input} (happens : m.Happens kind inputs)
    (only : ∀ n input, kind n input → input = answer) : answer ∈ inputs := by
  obtain ⟨before, input, rest, rfl, holds⟩ := happens
  rw [only _ input holds]
  exact List.mem_append_right before List.mem_cons_self

theorem happens_single {kind : Machine → Input → Prop} {m : Machine} {input : Input} :
    m.Happens kind [input] ↔ kind m input := by
  simp [happens_cons, not_happens_nil]

instance decidableHappens (kind : Machine → Input → Prop) [∀ m input, Decidable (kind m input)]
    (m : Machine) : (inputs : List Input) → Decidable (m.Happens kind inputs)
  | [] => .isFalse (not_happens_nil kind m)
  | input :: inputs =>
    have := decidableHappens kind (m.step input).machine inputs
    decidable_of_iff _ happens_cons.symm

def incoming? (m : Machine) : Input → Option String
  | .start (.receive text) => some text
  | .pulled (.frame text) =>
    match m.stack with
    | .pulling :: _ => some text
    | _ => none
  | _ => none

structure Receives (m : Machine) (input : Input) (raw : Json) : Prop where
  text : (m.incoming? input).bind Json.parse? = some raw
  opened : m.session.phase ≠ .closed

/-- A step takes in a response addressed to a pending call. -/
structure Answers (m : Machine) (input : Input) (raw : Json) (call : PendingCall) : Prop where
  receives : m.Receives input raw
  addressed : m.session.dialect.answeredId? m.session.binder raw = some call.id
  pending : m.session.call? call.id = some call

inductive Hears (m : Machine) (input : Input) : PendingCall → Except RemoteError Json → Prop where
  | intro {raw : Json} {frame : ResponseFrame} {call : PendingCall}
      (received : m.Receives input raw)
      (decoded : (m.session.dialect.classify m.session.binder raw).result = .ok (.response frame))
      (pending : m.session.call? frame.id = some call) : Hears m input call frame.outcome

inductive Mishears (m : Machine) (input : Input) : PendingCall → CallFailure → Prop where
  | intro {raw : Json} {error : FrameError} {failure : CallFailure} {id : UInt64}
      {call : PendingCall} (received : m.Receives input raw)
      (refused : (m.session.dialect.classify m.session.binder raw).result = .error error)
      (addressed : m.session.dialect.responseId? raw = some id)
      (meant : failureOf? error = some failure) (pending : m.session.call? id = some call) :
      Mishears m input call failure

/-- A step decides whether a response addressed to a call comes too late: on its receipt or, if it
cannot be decoded, once the listener has been told of it. -/
inductive Judges (m : Machine) : Input → PendingCall → Prop where
  | onReceipt {input : Input} {raw : Json} {call : PendingCall} (answers : m.Answers input raw call) :
      Judges m input call
  | onceTold {call : PendingCall} {failure : CallFailure} {after : After} {rest : List Waiting}
      (waited : m.stack = .announcedMalformed call failure after :: rest) : Judges m .done call

end Machine

end DebugLink
