import DebugLink.Json.Basic

/-!
# Remote objects by handle

The last JSON seen for each handle of a remote object. Handles are only good until the program
being debugged runs on.
-/

set_option autoImplicit false

namespace DebugLink

/-- The entries by handle, each handle at most once. -/
structure HandleTable where
  entries : List (Int × Json)

namespace HandleTable

def empty : HandleTable := ⟨[]⟩

/-- Puts an entry at the end, or in place of the one with its handle. -/
def putEntry (handle : Int) (raw : Json) : List (Int × Json) → List (Int × Json)
  | [] => [(handle, raw)]
  | (h, r) :: rest =>
    if h = handle then (handle, raw) :: rest else (h, r) :: putEntry handle raw rest

def put (table : HandleTable) (handle : Int) (raw : Json) : HandleTable :=
  ⟨putEntry handle raw table.entries⟩

def putAll (table : HandleTable) (entries : List (Int × Json)) : HandleTable :=
  entries.foldl (fun table entry => table.put entry.1 entry.2) table

def get? (table : HandleTable) (handle : Int) : Option Json :=
  table.entries.lookup handle

def size (table : HandleTable) : Nat :=
  table.entries.length

theorem get?_empty (handle : Int) : empty.get? handle = none := rfl

theorem get?_put (table : HandleTable) (handle other : Int) (raw : Json) :
    (table.put handle raw).get? other = if other = handle then some raw else table.get? other := by
  obtain ⟨entries⟩ := table
  simp only [put, get?]
  induction entries with
  | nil =>
    by_cases same : other = handle
    · simp [putEntry, same]
    · simp [putEntry, same, List.lookup_cons, beq_eq_false_iff_ne.mpr same]
  | cons entry rest ih =>
    obtain ⟨h, r⟩ := entry
    by_cases replaced : h = handle
    · subst replaced
      by_cases same : other = h
      · simp [putEntry, same]
      · simp [putEntry, same, List.lookup_cons, beq_eq_false_iff_ne.mpr same]
    · by_cases same : other = h
      · subst same
        simp [putEntry, replaced]
      · simp [putEntry, replaced, List.lookup_cons, beq_eq_false_iff_ne.mpr same, ih]

theorem get?_putAll (table : HandleTable) (entries : List (Int × Json)) (handle : Int) :
    (table.putAll entries).get? handle
      = (entries.reverse.lookup handle).or (table.get? handle) := by
  induction entries generalizing table with
  | nil => rfl
  | cons entry rest ih =>
    change ((table.put entry.1 entry.2).putAll rest).get? handle = _
    rw [ih, get?_put, List.reverse_cons, List.lookup_append, Option.or_assoc]
    obtain ⟨own, raw⟩ := entry
    by_cases same : handle = own
    · rw [if_pos same, same, List.lookup_cons_self, Option.some_or]
    · rw [if_neg same, List.lookup_cons, beq_eq_false_iff_ne.mpr same]
      rfl

end HandleTable

end DebugLink
