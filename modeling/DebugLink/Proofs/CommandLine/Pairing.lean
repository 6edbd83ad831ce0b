import Mathlib.Data.List.Basic
import Mathlib.Data.List.Induction
import DebugLink.CommandLine.Invocation

/-!
# Parameters go to the command before them

Names of commands and texts of parameters are collected apart, each with its place among all
values. Giving each text to the closest command before its place is the same as one scan from left
to right, in which a text goes to the command named last; so it also fails where the scan fails.
-/

set_option autoImplicit false

namespace DebugLink.CommandLine

inductive Occurrence where
  | command (name : String)
  | params (text : String)

namespace Occurrence

def name? : Occurrence → Option String
  | .command name => some name
  | .params _ => none

def text? : Occurrence → Option String
  | .command _ => none
  | .params text => some text

end Occurrence

def commandsOf (given : List (Nat × Occurrence)) : List (Nat × String) :=
  given.filterMap fun (place, occurrence) => occurrence.name?.map (place, ·)

def paramsOf (given : List (Nat × Occurrence)) : List (Nat × String) :=
  given.filterMap fun (place, occurrence) => occurrence.text?.map (place, ·)

def namesOf (occurrences : List Occurrence) : List String :=
  occurrences.filterMap Occurrence.name?

def bare (name : String) : Command :=
  ⟨name, none, none⟩

/-- Parameters go to the command named last, in place of what it had. -/
def scanOne (commands : List Command) : Occurrence → Except PairingError (List Command)
  | .command name => .ok (commands ++ [bare name])
  | .params text =>
    match commands.getLast? with
    | none => .error (.noCommand text)
    | some last =>
      match Json.parse? text with
      | some params => .ok (commands.dropLast ++ [{ last with params := some params }])
      | none => .error (.notJson last.name text)

def scan (occurrences : List Occurrence) : Except PairingError (List Command) :=
  occurrences.foldlM scanOne []

def fault? (before : List Occurrence) (text : String) : Option PairingError :=
  match (namesOf before).getLast? with
  | none => some (.noCommand text)
  | some name => if (Json.parse? text).isSome then none else some (.notJson name text)

def FirstFault (occurrences : List Occurrence) (error : PairingError) : Prop :=
  ∃ before text after, occurrences = before ++ .params text :: after ∧
    (∀ early other late, before = early ++ .params other :: late → fault? early other = none) ∧
    fault? before text = some error

/-! ## The scan -/

theorem namesOf_append (xs ys : List Occurrence) : namesOf (xs ++ ys) = namesOf xs ++ namesOf ys :=
  List.filterMap_append

theorem scan_append (xs ys : List Occurrence) :
    scan (xs ++ ys) = (scan xs).bind (ys.foldlM scanOne ·) :=
  List.foldlM_append

theorem scan_concat (occurrences : List Occurrence) (last : Occurrence) :
    scan (occurrences ++ [last]) = (scan occurrences).bind (scanOne · last) := by
  rw [scan_append]
  cases scan occurrences with
  | error error => rfl
  | ok commands =>
    change (scanOne commands last).bind (fun next => .ok next) = scanOne commands last
    cases scanOne commands last <;> rfl

theorem names_scanOne {commands next : List Command} {occurrence : Occurrence}
    (scanned : scanOne commands occurrence = .ok next) :
    next.map Command.name = commands.map Command.name ++ occurrence.name?.toList := by
  cases occurrence with
  | command name =>
    cases scanned
    simp [Occurrence.name?, bare]
  | params text =>
    rcases commands.eq_nil_or_concat' with rfl | ⟨front, last, rfl⟩
    · cases scanned
    · simp only [scanOne, List.getLast?_concat, List.dropLast_concat] at scanned
      split at scanned
      · cases scanned
        simp [Occurrence.name?]
      · cases scanned

theorem names_scan {occurrences : List Occurrence} {commands : List Command}
    (scanned : scan occurrences = .ok commands) :
    commands.map Command.name = namesOf occurrences := by
  induction occurrences using List.reverseRecOn generalizing commands with
  | nil =>
    cases scanned
    rfl
  | append_singleton occurrences last ih =>
    rw [scan_concat] at scanned
    cases front : scan occurrences with
    | error error =>
      rw [front] at scanned
      cases scanned
    | ok before =>
      rw [front] at scanned
      rw [names_scanOne scanned, ih front, namesOf_append]
      cases last <;> rfl

theorem scanOne_params_eq_error_iff {occurrences : List Occurrence} {commands : List Command}
    (scanned : scan occurrences = .ok commands) (text : String) (error : PairingError) :
    scanOne commands (.params text) = .error error ↔ fault? occurrences text = some error := by
  have names := names_scan scanned
  rw [fault?, ← names]
  rcases commands.eq_nil_or_concat' with rfl | ⟨front, last, rfl⟩
  · simp [scanOne]
  · simp only [scanOne, List.getLast?_concat]
    cases Json.parse? text <;> simp

theorem fault_of_scan {early late : List Occurrence} {text : String} {commands : List Command}
    (scanned : scan (early ++ .params text :: late) = .ok commands) :
    fault? early text = none := by
  rw [scan_append] at scanned
  cases front : scan early with
  | error error =>
    rw [front] at scanned
    cases scanned
  | ok before =>
    refine Option.eq_none_iff_forall_ne_some.2 fun error wrong => ?_
    have refused := (scanOne_params_eq_error_iff front text error).2 wrong
    rw [front] at scanned
    simp [Except.bind, refused, bind] at scanned

theorem firstFault_of_scan {occurrences : List Occurrence} {error : PairingError}
    (failed : scan occurrences = .error error) : FirstFault occurrences error := by
  induction occurrences using List.reverseRecOn with
  | nil => cases failed
  | append_singleton occurrences last ih =>
    rw [scan_concat] at failed
    cases front : scan occurrences with
    | error earlier =>
      rw [front] at failed
      cases failed
      obtain ⟨before, text, after, rfl, fine, wrong⟩ := ih front
      exact ⟨before, text, after ++ [last], by simp, fine, wrong⟩
    | ok commands =>
      rw [front] at failed
      cases last with
      | command name => cases failed
      | params text =>
        refine ⟨occurrences, text, [], rfl, ?_, ?_⟩
        · rintro early other late rfl
          exact fault_of_scan front
        · exact (scanOne_params_eq_error_iff front text error).1 failed

theorem scan_eq_error_iff {occurrences : List Occurrence} {error : PairingError} :
    scan occurrences = .error error ↔ FirstFault occurrences error := by
  constructor
  · exact firstFault_of_scan
  · rintro ⟨before, text, after, rfl, fine, wrong⟩
    -- Nothing is wrong before the text, so the scan reaches it.
    cases front : scan before with
    | error earlier =>
      obtain ⟨early, other, late, split, -, faulty⟩ := firstFault_of_scan front
      rw [fine early other late split] at faulty
      cases faulty
    | ok commands =>
      have refused := (scanOne_params_eq_error_iff front text error).2 wrong
      rw [scan_append, front]
      simp [Except.bind, refused, bind]

/-! ## The command before a place -/

theorem commandBefore?_append {front later : List (Nat × String)} {place : Nat}
    (beyond : ∀ entry ∈ later, place ≤ entry.1) :
    commandBefore? (front ++ later) place = commandBefore? front place := by
  have missed : (later.zipIdx front.length).reverse.find? (fun entry => entry.1.1 < place)
      = none := by
    rw [List.find?_eq_none]
    rintro ⟨entry, index⟩ mem
    have bound := beyond entry (List.fst_mem_of_mem_zipIdx (List.mem_reverse.1 mem))
    simpa using bound
  rw [commandBefore?, List.zipIdx_append, List.reverse_append, List.find?_append, Nat.zero_add,
    missed, Option.none_or]
  rfl

theorem commandBefore?_concat {front : List (Nat × String)} {last : Nat × String} {place : Nat}
    (within : last.1 < place) : commandBefore? (front ++ [last]) place = some front.length := by
  rw [commandBefore?, List.zipIdx_append, List.reverse_append, List.find?_append]
  simp [within]

/-! ## Pairing and scanning agree -/

/-- Parameters at a place before which `front` lists the commands, which have become `done`. -/
theorem pairOne_eq_scanOne {front later : List (Nat × String)} {done rest : List Command}
    {place : Nat} (text : String) (named : done.map Command.name = front.map Prod.snd)
    (within : ∀ entry ∈ front, entry.1 < place) (beyond : ∀ entry ∈ later, place ≤ entry.1) :
    pairOne (front ++ later) (done ++ rest) (place, text)
      = (scanOne done (.params text)).map (· ++ rest) := by
  rw [pairOne, commandBefore?_append beyond]
  rcases front.eq_nil_or_concat' with rfl | ⟨front, last, rfl⟩
  · obtain rfl : done = [] := List.map_eq_nil_iff.1 named
    rfl
  · rcases done.eq_nil_or_concat' with rfl | ⟨done, current, rfl⟩
    · simp at named
    · rw [List.map_append, List.map_append] at named
      obtain ⟨fronts, names⟩ := List.append_inj' named rfl
      have lengths : done.length = front.length := by
        simpa using congrArg List.length fronts
      have name : current.name = last.2 := by simpa using names
      have here : ((front ++ [last]) ++ later)[front.length]? = some last := by simp
      rw [commandBefore?_concat (within last (by simp))]
      simp only [scanOne, List.getLast?_concat, List.dropLast_concat]
      cases Json.parse? text with
      | none =>
        rw [here, name]
        rfl
      | some params =>
        rw [← lengths, List.append_assoc]
        refine congrArg Except.ok ?_
        simp [List.modify_eq_set_getElem?]

/-- From any place on, with the commands so far in `front` and `done`. -/
theorem foldlM_pairOne_eq {given : List (Nat × Occurrence)} {front : List (Nat × String)}
    {done : List Command} (named : done.map Command.name = front.map Prod.snd)
    (within : ∀ entry ∈ front, ∀ other ∈ given, entry.1 < other.1)
    (ordered : (given.map Prod.fst).Pairwise (· < ·)) :
    (paramsOf given).foldlM (pairOne (front ++ commandsOf given))
        (done ++ (commandsOf given).map fun entry => bare entry.2)
      = (given.map Prod.snd).foldlM scanOne done := by
  induction given generalizing front done with
  | nil => simp [paramsOf, commandsOf]
  | cons first given ih =>
    obtain ⟨place, occurrence⟩ := first
    rw [List.map_cons, List.pairwise_cons] at ordered
    obtain ⟨after, ordered⟩ := ordered
    cases occurrence with
    | command name =>
      have entered : (done ++ [bare name]).map Command.name
          = (front ++ [(place, name)]).map Prod.snd := by
        simp [named, bare]
      have further : ∀ entry ∈ front ++ [(place, name)], ∀ other ∈ given, entry.1 < other.1 := by
        intro entry mem other later
        rcases List.mem_append.1 mem with earlier | here
        · exact within entry earlier other (List.mem_cons_of_mem _ later)
        · obtain rfl := List.mem_singleton.1 here
          exact after other.1 (List.mem_map_of_mem later)
      have rest := ih entered further ordered
      rw [List.append_assoc, List.append_assoc] at rest
      exact rest
    | params text =>
      have beyond : ∀ entry ∈ commandsOf given, place ≤ entry.1 := by
        intro entry mem
        obtain ⟨other, later, same⟩ := List.mem_filterMap.1 mem
        obtain ⟨name, -, rfl⟩ := Option.map_eq_some_iff.1 same
        exact Nat.le_of_lt (after other.1 (List.mem_map_of_mem later))
      have here : ∀ entry ∈ front, entry.1 < place :=
        fun entry mem => within entry mem (place, .params text) List.mem_cons_self
      change (pairOne (front ++ commandsOf given) _ (place, text)).bind _
        = (scanOne done (.params text)).bind _
      rw [pairOne_eq_scanOne text named here beyond]
      cases scanned : scanOne done (.params text) with
      | error error => rfl
      | ok next =>
        have kept : next.map Command.name = front.map Prod.snd := by
          rw [names_scanOne scanned, named]
          exact List.append_nil _
        exact ih kept (fun entry mem other later => within entry mem other (.tail _ later)) ordered

theorem pair_eq_scan {given : List (Nat × Occurrence)}
    (ordered : (given.map Prod.fst).Pairwise (· < ·)) :
    pair (commandsOf given) (paramsOf given) = scan (given.map Prod.snd) :=
  @foldlM_pairOne_eq given [] [] rfl (by simp) ordered

/-- Arguments at increasing places are paired as a scan from left to right pairs them: it fails
with the fault of the first parameter text that has one, and otherwise gives the commands that were
named, in their order. -/
theorem pairing_scans_arguments (given : List (Nat × Occurrence))
    (ordered : (given.map Prod.fst).Pairwise (· < ·)) :
    pair (commandsOf given) (paramsOf given) = scan (given.map Prod.snd) ∧
    (∀ error, pair (commandsOf given) (paramsOf given) = .error error ↔
      FirstFault (given.map Prod.snd) error) ∧
    (∀ commands, pair (commandsOf given) (paramsOf given) = .ok commands →
      commands.map Command.name = namesOf (given.map Prod.snd)) := by
  rw [pair_eq_scan ordered]
  exact ⟨rfl, fun error => scan_eq_error_iff, fun commands scanned => names_scan scanned⟩

/-- Parameters are replaced, another command is named, and its parameters are no JSON. -/
def mixedArguments : List (Nat × Occurrence) :=
  [(1, .command "scripts"), (3, .params "1"), (4, .params "[]"), (7, .command "lookup"),
    (9, .params "x")]

theorem pairing_scans_arguments_mixed :
    FirstFault (mixedArguments.map Prod.snd) (.notJson "lookup" "x") ∧
    pair (commandsOf mixedArguments) (paramsOf mixedArguments)
      = .error (.notJson "lookup" "x") := by
  have failed : pair (commandsOf mixedArguments) (paramsOf mixedArguments)
      = .error (.notJson "lookup" "x") := by
    rfl
  obtain ⟨-, fails, -⟩ := pairing_scans_arguments mixedArguments (by decide)
  exact ⟨(fails _).1 failed, failed⟩

/-! ## The places of the values that are read -/

theorem exists_of_bind_eq_ok {ε α β : Type} {x : Except ε α} {f : α → Except ε β} {b : β}
    (bound : x >>= f = .ok b) : ∃ a, x = .ok a ∧ f a = .ok b := by
  cases x with
  | error error => cases bound
  | ok a => exact ⟨a, rfl, bound⟩

/-- The commands and parameters read so far are those of arguments at increasing places. -/
def Options.Placed (options : Options) : Prop :=
  ∃ given : List (Nat × Occurrence), (given.map Prod.fst).Pairwise (· < ·) ∧
    (∀ entry ∈ given, entry.1 ≤ options.next) ∧
    options.commands = commandsOf given ∧ options.params = paramsOf given

namespace Options.Placed

variable {options next : Options}

theorem keep (placed : options.Placed) (later : options.next ≤ next.next)
    (commands : next.commands = options.commands) (params : next.params = options.params) :
    next.Placed := by
  obtain ⟨given, ordered, below, named, described⟩ := placed
  exact ⟨given, ordered, fun entry mem => Nat.le_trans (below entry mem) later,
    commands.trans named, params.trans described⟩

theorem add (placed : options.Placed) (occurrence : Occurrence)
    (later : options.next < next.next)
    (commands : next.commands = options.commands ++ commandsOf [(next.next, occurrence)])
    (params : next.params = options.params ++ paramsOf [(next.next, occurrence)]) :
    next.Placed := by
  obtain ⟨given, ordered, below, named, described⟩ := placed
  refine ⟨given ++ [(next.next, occurrence)], ?_, ?_, ?_, ?_⟩
  · rw [List.map_append, List.pairwise_append]
    refine ⟨ordered, List.pairwise_singleton _ _, ?_⟩
    intro place mem last here
    obtain ⟨entry, earlier, rfl⟩ := List.mem_map.1 mem
    obtain rfl := List.mem_singleton.1 here
    exact Nat.lt_of_le_of_lt (below entry earlier) later
  · intro entry mem
    rcases List.mem_append.1 mem with earlier | here
    · exact Nat.le_of_lt (Nat.lt_of_le_of_lt (below entry earlier) later)
    · obtain rfl := List.mem_singleton.1 here
      exact Nat.le_refl _
  · rw [commands, named, commandsOf, commandsOf, commandsOf, List.filterMap_append]
  · rw [params, described, paramsOf, paramsOf, paramsOf, List.filterMap_append]

theorem assign {name : Name} {value : String} (placed : options.Placed)
    (assigned : options.assign name value = .ok next) : next.Placed := by
  have later : options.next < options.next + 1 := Nat.lt_succ_self _
  cases name with
  | command =>
    cases assigned
    exact placed.add (.command value) later rfl (List.append_nil _).symm
  | params =>
    cases assigned
    exact placed.add (.params value) later (List.append_nil _).symm rfl
  | endpoint | config | dialect | timeout =>
    obtain ⟨read, -, given⟩ := exists_of_bind_eq_ok assigned
    cases given
    exact placed.keep (Nat.le_succ _) rfl rfl

end Options.Placed

namespace State

variable {state next : State} {options : Options}

theorem placed_resolve (placed : state.options.Placed) (resolved : state.resolve = .ok options) :
    options.Placed := by
  unfold resolve at resolved
  split at resolved
  · cases resolved
    exact placed
  · cases resolved
  · exact placed.assign resolved

theorem placed_step {argument : String} (placed : state.options.Placed)
    (taken : state.step argument = .ok next) : next.options.Placed := by
  unfold step at taken
  split at taken
  · cases taken
  · split at taken
    · cases taken
      exact placed
    · unfold long at taken
      split at taken
      split at taken
      · obtain ⟨resolved, before, rest⟩ := exists_of_bind_eq_ok taken
        obtain ⟨assigned, now, last⟩ := exists_of_bind_eq_ok rest
        cases last
        exact (placed_resolve placed before).assign now
      · obtain ⟨resolved, before, last⟩ := exists_of_bind_eq_ok taken
        cases last
        exact placed_resolve placed before
      · split at taken
        · split at taken
          · cases taken
          · obtain ⟨-, -, last⟩ := exists_of_bind_eq_ok taken
            cases last
        · cases taken
    · unfold short at taken
      split at taken
      · obtain ⟨-, -, last⟩ := exists_of_bind_eq_ok taken
        cases last
      · cases taken
    · split at taken
      · cases taken
        exact placed
      · cases taken

theorem placed_foldlM {arguments : List String} (placed : state.options.Placed)
    (taken : arguments.foldlM step state = .ok next) : next.options.Placed := by
  induction arguments generalizing state with
  | nil =>
    cases taken
    exact placed
  | cons argument arguments ih =>
    obtain ⟨after, first, rest⟩ := exists_of_bind_eq_ok taken
    exact ih (placed_step placed first) rest

end State

/-- The places that reading gives to commands and parameters increase along the arguments, so what
is read is paired as by a scan. -/
theorem exists_scan_of_readOptions {arguments : List String} {endpoint : Endpoint}
    {options : Options} (taken : readOptions arguments = .ok (endpoint, options)) :
    ∃ given : List (Nat × Occurrence), (given.map Prod.fst).Pairwise (· < ·) ∧
      options.commands = commandsOf given ∧ options.params = paramsOf given ∧
      pair options.commands options.params = scan (given.map Prod.snd) := by
  obtain ⟨last, stepped, rest⟩ := exists_of_bind_eq_ok taken
  obtain ⟨resolved, resolves, rest⟩ := exists_of_bind_eq_ok rest
  have initial : State.initial.options.Placed :=
    ⟨[], List.Pairwise.nil, by simp, rfl, rfl⟩
  have placed := State.placed_resolve (State.placed_foldlM initial stepped) resolves
  split at rest
  · cases rest
    obtain ⟨given, ordered, -, named, described⟩ := placed
    refine ⟨given, ordered, named, described, ?_⟩
    rw [named, described, pair_eq_scan ordered]
  · cases rest

end DebugLink.CommandLine
