import DebugLink.Proofs.Session.Work

/-!
# Suspend episodes over runs

Whatever a session does, its tracker only mints and dismisses. The generation counts the tokens
minted, so as long as it does not run over, a token that has been dismissed stays so.
-/

set_option autoImplicit false

namespace DebugLink

namespace ContextTracker

inductive Changes : ContextTracker → List ContextToken → ContextTracker → Prop where
  | same (tracker : ContextTracker) : Changes tracker [] tracker
  | resumed {tracker last : ContextTracker} {minted : List ContextToken}
      (rest : Changes tracker.resume minted last) : Changes tracker minted last
  | suspended {tracker last : ContextTracker} {minted : List ContextToken}
      (rest : Changes tracker.suspend.2 minted last) :
      Changes tracker (tracker.suspend.1 :: minted) last

/-- A token is known to a tracker: minted, or older than all that was. -/
def Knows (tracker : ContextTracker) (token : ContextToken) : Prop :=
  token.generation.toNat ≤ tracker.generation.toNat

/-- A token has been minted and is not current any more. -/
def HasDismissed (tracker : ContextTracker) (token : ContextToken) : Prop :=
  tracker.Knows token ∧ tracker.current ≠ some token

theorem isCurrent_iff {tracker : ContextTracker} {token : ContextToken} :
    tracker.isCurrent token = true ↔ tracker.current = some token := by
  simp [isCurrent]

variable {tracker last : ContextTracker} {minted : List ContextToken}

theorem Changes.trans {middle : ContextTracker} {more : List ContextToken}
    (first : Changes tracker minted middle) (second : Changes middle more last) :
    Changes tracker (minted ++ more) last := by
  induction first with
  | same tracker => exact second
  | resumed rest ih => exact .resumed (ih second)
  | suspended rest ih => exact .suspended (ih second)

theorem suspend_generation (tracker : ContextTracker)
    (room : tracker.generation.toNat + 1 < 2 ^ 64) :
    tracker.suspend.2.generation.toNat = tracker.generation.toNat + 1 := by
  change (tracker.generation + 1).toNat = _
  rw [UInt64.toNat_add]
  exact Nat.mod_eq_of_lt room

theorem Changes.generation_eq (changes : Changes tracker minted last)
    (room : tracker.generation.toNat + minted.length < 2 ^ 64) :
    last.generation.toNat = tracker.generation.toNat + minted.length := by
  induction changes with
  | same tracker => rfl
  | resumed rest ih => exact ih room
  | @suspended tracker last minted rest ih =>
    rw [List.length_cons] at room ⊢
    have next := suspend_generation tracker (by omega)
    rw [ih (by omega), next]
    omega

theorem Changes.hasDismissed {token : ContextToken} (changes : Changes tracker minted last)
    (room : tracker.generation.toNat + minted.length < 2 ^ 64)
    (dismissed : tracker.HasDismissed token) : last.HasDismissed token := by
  induction changes with
  | same tracker => exact dismissed
  | resumed rest ih => exact ih room ⟨dismissed.1, by simp [resume]⟩
  | @suspended tracker last minted rest ih =>
    rw [List.length_cons] at room
    have next := suspend_generation tracker (by omega)
    have older := dismissed.1
    unfold Knows at older
    refine ih (by omega) ⟨?_, ?_⟩
    · unfold Knows
      omega
    · intro current
      have same : (⟨tracker.generation + 1⟩ : ContextToken) = token := Option.some.inj current
      rw [← same] at older
      change (tracker.generation + 1).toNat ≤ _ at older
      change (tracker.generation + 1).toNat = _ at next
      omega

theorem Changes.knows_current (changes : Changes tracker minted last)
    (room : tracker.generation.toNat + minted.length < 2 ^ 64)
    (known : ∀ token, tracker.current = some token → tracker.Knows token) :
    ∀ token, last.current = some token → last.Knows token := by
  induction changes with
  | same tracker => exact known
  | resumed rest ih => exact ih room (by simp [resume])
  | @suspended tracker last minted rest ih =>
    rw [List.length_cons] at room
    have next := suspend_generation tracker (by omega)
    apply ih (by omega)
    intro token current
    rw [← Option.some.inj current]
    exact Nat.le_refl _

end ContextTracker

open ContextTracker (Changes)

variable {m : Machine} {input : Input}

theorem Work.changes {s t : Session} {hand next : Hand} {es : List Emission}
    (work : Work m input s hand es t next) : Changes s.context (mintedTokens es) t.context := by
  cases work with
  | noticed notice quiet =>
    have none : mintedTokens [.notice notice] = [] := by
      cases notice <;> first | rfl | cases quiet
    rw [none]
    exact .same _
  | suspended cause => exact .suspended (.same _)
  | resumed cause => exact .resumed (.same _)
  | responded received decoded pending =>
    rename_i frame call
    obtain ⟨context, handles, absorbed, kept | dismissed⟩ := Machine.absorb_eq
      (m.session.removeCall frame.id) frame (m.session.isStale call)
    · rw [absorbed, kept]
      exact .same _
    · rw [absorbed, dismissed]
      exact .resumed (.same _)
  | _ => exact .same _

theorem Ends.changes {s t : Session} {hand : Hand} {es : List Emission}
    {waiting : Option Waiting} (last : Ends m input s hand es t waiting) :
    Changes s.context (mintedTokens es) t.context := by
  cases last with
  | released reason after => exact .resumed (.same _)
  | completed call outcome after =>
    cases s.settle call outcome <;> exact .same _
  | _ => exact .same _

theorem Works.changes {base : List Waiting} {s : Session} {hand : Hand} {turn : Turn}
    (works : Works m input base s hand turn) :
    Changes s.context (mintedTokens turn.emitted) turn.machine.session.context := by
  induction works with
  | ends last => exact last.changes
  | work first rest ih =>
    rw [Turn.preceded, mintedTokens_append]
    exact first.changes.trans ih

namespace Machine

theorem changes_step (m : Machine) (input : Input) :
    Changes m.session.context (mintedTokens (m.step input).emitted)
      (m.step input).machine.session.context := by
  rcases step_works m input with idle | works
  · rw [idle]
    exact .same _
  · exact works.changes

theorem changes_run (m : Machine) (inputs : List Input) :
    Changes m.session.context (mintedTokens (m.emitted inputs))
      (m.after inputs).session.context := by
  induction inputs generalizing m with
  | nil => exact .same _
  | cons input inputs ih =>
    rw [emitted_cons, mintedTokens_append]
    exact (changes_step m input).trans (ih (m.step input).machine)

def HasRoom (m : Machine) (inputs : List Input) : Prop :=
  m.session.context.generation.toNat + (mintedTokens (m.emitted inputs)).length < 2 ^ 64

theorem HasRoom.front {m : Machine} {xs ys : List Input} (room : m.HasRoom (xs ++ ys)) :
    m.HasRoom xs := by
  unfold HasRoom at room ⊢
  rw [emitted_append, mintedTokens_append, List.length_append] at room
  omega

theorem HasRoom.back {m : Machine} {xs ys : List Input} (room : m.HasRoom (xs ++ ys)) :
    (m.after xs).HasRoom ys := by
  have counted := (changes_run m xs).generation_eq room.front
  unfold HasRoom at room ⊢
  rw [emitted_append, mintedTokens_append, List.length_append] at room
  omega

/-- A token that was current in a run and is not any more never becomes current again. -/
theorem dismissed_for_good {m : Machine} {xs ys zs : List Input} {token : ContextToken}
    (unused : m.session.context.current = none) (room : m.HasRoom (xs ++ ys ++ zs))
    (was : (m.after xs).session.context.isCurrent token = true)
    (past : (m.after (xs ++ ys)).session.context.isCurrent token = false) :
    (m.after (xs ++ ys ++ zs)).session.context.isCurrent token = false := by
  have known := (changes_run m xs).knows_current room.front.front (by simp [unused]) token
    (ContextTracker.isCurrent_iff.1 was)
  have counted := (changes_run (m.after xs) ys).generation_eq room.front.back
  have dismissed : (m.after (xs ++ ys)).session.context.HasDismissed token := by
    constructor
    · rw [after_append]
      unfold ContextTracker.Knows at known ⊢
      omega
    · intro current
      rw [ContextTracker.isCurrent_iff.2 current] at past
      cases past
  have later := (changes_run (m.after (xs ++ ys)) zs).hasDismissed room.back dismissed
  rw [← after_append] at later
  rw [← Bool.not_eq_true, ContextTracker.isCurrent_iff]
  exact later.2

end Machine

end DebugLink
