import DebugLink.Proofs.Session.Containment
import DebugLink.Proofs.Session.Reader
import DebugLink.Proofs.Session.Receipt

/-!
# What a breakdown of user code costs

No callback and no handler that breaks down costs anything: frames, closes and readers come to
their ends, and every call that was sent is accounted for. A listener that breaks down takes the
operation with it that tells it something and, if that was the response to a call, the call too.
-/

set_option autoImplicit false

namespace DebugLink

/-- Frames and closes: what such an operation runs may be user code of any kind, and it gives no
value. -/
def Operation.runsCallbacks : Operation → Bool
  | .receive _ | .close _ | .transportClosed _ => true
  | _ => false

namespace Machine

variable {m : Machine} {id : UInt64}

/-- The transport has refused the frame of a pending call, and the send ends with that error when
it ends, unless it breaks down before. -/
def RefusedSend (m : Machine) (inputs : List Input) (id : UInt64) : Prop :=
  ∃ before refusal rest call invalidating base,
    inputs = before ++ .refused refusal :: rest ∧ call.id = id ∧
    (m.after before).stack = .transmitting call invalidating :: base ∧
    ∀ body later, rest = body ++ later →
      ((m.after before).step (.refused refusal)).Spans base body →
      ((m.after before).step (.refused refusal)).Concludes base body
          (.failed (.transport refusal)) ∨
        ((m.after before).step (.refused refusal)).machine.Happens (BreaksAt base) body

inductive Accounted (m : Machine) (inputs : List Input) (id : UInt64) : Prop
  | waiting (pending : (m.after inputs).session.isPending id = true)
  | inProgress (withheld : (m.after inputs).Withholds id)
  | completed {outcome : Except CallFailure Reply} (told : outcome ∈ outcomes id (m.emitted inputs))
  | dropped (late : m.HandledLate inputs id)
  | refused (failed : m.RefusedSend inputs id)
  | untold (broken : m.Happens (BreaksTelling id) inputs)

/-- An operation returns, whatever breaks down meanwhile, except when the listener breaks down that
it waits for, or the transport while it is closed. -/
structure Returns (m : Machine) (operation : Operation) : Prop where
  plainly : ∀ body, m.Spans operation body →
    m.Performs operation body .unit ∨
      (m.step (.start operation)).machine.Happens (BreaksAt m.stack) body
  /-- No answers, however many breakdowns are among them, keep it from its end for long. -/
  soon : ∀ before, (m.step (.start operation)).Runs m.stack before →
    (m.step (.start operation)).machine.answered m.stack.length before
      ≤ m.session.calls.length + 2
  /-- So far as it has come, answers see it to its end. -/
  onward : ∀ before, (m.step (.start operation)).Runs m.stack before →
    ∃ answers : List Input, (∀ answer ∈ answers, answer.isOrderly = true) ∧
      m.Spans operation (before ++ answers)

/-- A reader takes in each frame that it is given, and ends only when the session is closed or its
source has ended, whatever breaks down meanwhile; the exceptions are those of `Returns`. -/
structure KeepsReading (m : Machine) : Prop where
  handled : ∀ before input rest text, m.Spans .read (before ++ input :: rest) →
    (m.after (.start .read :: before)).pulledAt? m.stack.length input = some (.frame text) →
    (m.after (.start .read :: before)).step input
      = receive ⟨(m.after (.start .read :: before)).session, m.stack⟩ text .read
  exhausted : ∀ body, m.Spans .read body →
    (m.step (.start .read)).ReadsOn m.stack body ∨
      (m.step (.start .read)).machine.Happens (BreaksAt m.stack) body
  onward : ∀ before, (m.step (.start .read)).Runs m.stack before →
    ∃ answers : List Input, (∀ answer ∈ answers, answer.isOrderly = true) ∧
      m.Spans .read (before ++ answers)

/-! ## Operations -/

theorem start_shares {operation : Operation} (m : Machine)
    (shared : operation.runsCallbacks = true) :
    (m.step (.start operation)).Shares m.stack .finish (m.session.calls.length + 2) := by
  cases operation with
  | receive text => exact (Turn.Shares.receive m text .finish).mono (Nat.le_add_left _ _)
  | close reason => exact .close m reason .finish
  | transportClosed reason => exact .transportClosed m reason .finish
  | _ => cases shared

theorem finishes_from {operation : Operation} {before : List Input}
    (runs : (m.step (.start operation)).Runs m.stack before) :
    ∃ answers : List Input, (∀ answer ∈ answers, answer.isOrderly = true) ∧
      m.Spans operation (before ++ answers) := by
  obtain ⟨waiting, begun⟩ := (start_works (m := m) operation).stack_eq
  obtain ⟨upper, stack⟩ := runs.above ⟨waiting.toList, begun⟩
  obtain ⟨answers, orderly, spans⟩ :
      Turn.Finishes ⟨(m.step (.start operation)).machine.after before, []⟩ m.stack :=
    Turn.finishes upper stack
  exact ⟨answers, orderly, runs.append spans⟩

theorem returns (m : Machine) {operation : Operation} (shared : operation.runsCallbacks = true) :
    m.Returns operation where
  plainly _ spans := (start_shares m shared).concludes rfl spans
  soon _ runs := (start_shares m shared).answered_le rfl runs
  onward _ runs := finishes_from runs

theorem keepsReading (m : Machine) : m.KeepsReading where
  handled _ _ _ _ spans pull := step_of_pull spans pull
  exhausted _ spans := @Turn.readsOn _ _ _ 0 (.inl rfl) spans
  onward _ runs := finishes_from runs

/-! ## Calls -/

theorem refusedSend_of_withdraws {inputs : List Input}
    (withdrawn : m.Happens (Withdraws id) inputs) : m.RefusedSend inputs id := by
  obtain ⟨before, input, rest, split, pending, ⟨refusal, rfl⟩, call, invalidating, base, stack,
    named⟩ := withdrawn
  refine ⟨before, refusal, rest, call, invalidating, base, split, named, stack, ?_⟩
  intro body later _ spans
  let withdrawn := (modify ⟨(m.after before).session, base⟩ (·.removeCall call.id)).transmitted
    invalidating
  have below : withdrawn.stack = base := transmitted_stack _ invalidating
  have shares := Turn.Shares.close withdrawn ("transport failure: " ++ refusal.message)
    (.refuse refusal)
  rw [below] at shares
  rw [step_of_refused refusal stack (named.symm ▸ pending)] at spans ⊢
  exact (shares.noticed _).concludes rfl spans

theorem accounted_of_issued {inputs : List Input} (rest : m.stack = []) (fresh : m.heldCalls = [])
    (issued : id ∈ issuedIds (m.emitted inputs)) : m.Accounted inputs id := by
  obtain ⟨withdrawn, calls, -, refusing⟩ := balance_run m inputs id
  have some := List.count_pos_iff.2 issued
  have none : m.held id = 0 := by rw [held, fresh, copies_nil]
  by_cases refused : withdrawn = 0
  · by_cases abandoned : id ∈ abandonedIds (m.emitted inputs)
    · exact ((traced_run rest inputs).2 id abandoned).elim .dropped .untold
    · cases told : outcomes id (m.emitted inputs) with
      | cons outcome others => exact .completed (told ▸ List.mem_cons_self)
      | nil =>
        rw [told, List.length_nil, List.count_eq_zero_of_not_mem abandoned] at calls
        by_cases withheld : (m.after inputs).Withholds id
        · exact .inProgress withheld
        · refine .waiting (Session.isPending_iff_copies.2 ?_)
          have free := copies_of_not_withholds withheld
          rw [held, heldCalls, copies_append, free] at calls
          omega
  · exact .refused (refusedSend_of_withdraws (refusing refused))

/-- Callbacks, handlers and the listener may break down whenever they run, in any run. Wherever
they are begun, frames and closes return and readers go on, and every call whose frame was handed
over is accounted for: it is pending or in progress, has run one of its callbacks, came too late to
its response, has a send that fails, or was lost with the listener that was told of its response. -/
theorem breakdowns_are_contained {config : Config} {registry : Registry} {transcript : Transcript}
    {m : Machine} (began : m = initial config registry transcript) (history : List Input) :
    (∀ operation : Operation, operation.runsCallbacks = true →
      (m.after history).Returns operation) ∧
    (m.after history).KeepsReading ∧
    ∀ id ∈ issuedIds (m.emitted history), m.Accounted history id := by
  refine ⟨fun operation shared => returns _ shared, keepsReading _, fun id issued => ?_⟩
  have rested : m.stack = [] := by
    rw [began]
    rfl
  exact accounted_of_issued rested (by rw [began, heldCalls_initial]) issued

theorem breakdowns_are_contained_version :
    ((initial .default Catalog.registry .off).after askingRun).Performs (.receive versionText)
      [.crashed] .unit ∧
    (initial .default Catalog.registry .off).Accounted
      (askingRun ++ [.start (.receive versionText), .crashed]) 1 := by
  let m := initial .default Catalog.registry .off
  have spans : ((m.after askingRun).step (.start (.receive versionText))).Spans
      (m.after askingRun).stack [.crashed] := by decide +kernel
  have contained : ((((m.after askingRun).step (.start (.receive versionText))).machine.stack.all
      Waiting.isContained)) = true := by decide +kernel
  have sound : ¬ ((m.after askingRun).step (.start (.receive versionText))).machine.Happens
      (BreaksAt (m.after askingRun).stack) [.crashed] := by
    rw [happens_single]
    rintro ⟨-, waiting, stack, uncontained⟩
    rw [stack, List.all_cons, uncontained] at contained
    cases contained
  have frames := (breakdowns_are_contained (m := m) rfl askingRun).1 (.receive versionText) rfl
  have calls := (breakdowns_are_contained (m := m) rfl
    (askingRun ++ [.start (.receive versionText), .crashed])).2.2
  exact ⟨(frames.plainly [.crashed] spans).resolve_right sound, calls 1 (by decide +kernel)⟩

/-- A listener is told of the response to a call and breaks down. -/
def strandingRun : List Input :=
  [.start (.listen 0), .start (.send ⟨"version", none, none⟩ none), .accepted, .done,
    .start (.receive versionText), .crashed]

/-- A reader is given a frame; the success callback that it runs closes the session and breaks
down. -/
def quittingRun : List Input :=
  [.pulled (.frame versionText), .start (.close "done"), .done, .crashed]

/-- The frame that the listener breaks down on does not return, and its call is lost, though its
send was accepted and there was no episode for it to outlive. A reader whose session is closed by a
callback that breaks down takes no further frame. -/
theorem breakdown_of_listener_strands_call :
    (1 ∈ acceptedIds ((initial .default Catalog.registry .off).emitted strandingRun) ∧
      (((initial .default Catalog.registry .off).after (strandingRun.take 5)).step
        .crashed).emitted.any Emission.endsPlainly = false ∧
      ((initial .default Catalog.registry .off).after strandingRun).isResting = true ∧
      ((initial .default Catalog.registry .off).after strandingRun).session.isPending 1 = false ∧
      outcomes 1 ((initial .default Catalog.registry .off).emitted strandingRun) = [] ∧
      mintedTokens ((initial .default Catalog.registry .off).emitted strandingRun) = []) ∧
    ((initial .default Catalog.registry .off).after askingRun).Performs .read quittingRun .unit ∧
    (((initial .default Catalog.registry .off).after askingRun).pulls 0
      (.start .read :: quittingRun)).length = 1 := by
  refine ⟨⟨by decide +kernel, by decide +kernel, by decide +kernel, by decide +kernel, ?_, ?_⟩, ?_,
    by decide +kernel⟩
  · exact List.isEmpty_iff.1 (by decide +kernel)
  · exact List.isEmpty_iff.1 (by decide +kernel)
  · exact .of_endsPlainly (by decide +kernel) (by decide +kernel)

end Machine

end DebugLink
