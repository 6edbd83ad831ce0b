import DebugLink.Proofs.Json.RoundTrip
import DebugLink.Wire.Dialect

/-!
# Encoded commands read back

The text of a command has no line break, and the parser of frames reads it as the object with
exactly the members `Dialect.written` lists, as long as the parameters are plain: without doubles,
and nested at most one level less deep than a frame may be. So the text tells apart commands with
another id, another name or other parameters (`Dialect.encode_reads_back`).
-/

set_option autoImplicit false

namespace DebugLink

/-- Parameters without doubles that leave a level of nesting for the frame around them. -/
structure Json.Plain (params : Json) : Prop where
  ordered : params.Ordered
  integral : params.Integral
  shallow : params.depth ≤ 126

theorem Json.ofUInt64_inj {a b : UInt64} : ofUInt64 a = ofUInt64 b ↔ a = b := by
  rw [ofUInt64, ofUInt64, Json.number.injEq, Number.integer.injEq, Int.natCast_inj,
    UInt64.toNat_inj]

namespace Command

def Plain (command : Command) : Prop := ∀ params ∈ command.params, params.Plain

end Command

namespace Dialect

/-- The members an encoded command is read as, in the order of their keys. -/
def written (dialect : Dialect) (id : UInt64) (command : Command) : List (String × Json) :=
  match dialect with
  | .v8 =>
    (command.params.map fun params => ("arguments", params)).toList ++
      [("command", .string command.name), ("seq", .ofUInt64 id), ("type", .string "request")]
  | .wip =>
    [("id", .ofUInt64 id), ("method", .string command.name)] ++
      (command.params.map fun params => ("params", params)).toList

/-- The text of a command shows an id where its dialect has it: before the type of the frame, which
comes last, or first of all. -/
def ShowsId (dialect : Dialect) (id : UInt64) (text : String) : Prop :=
  match dialect with
  | .v8 => ∃ before, text = before ++ "\"seq\":" ++ toString id.toNat ++ ",\"type\":\"request\"\x7d"
  | .wip => ∃ after, text = "\x7b\"id\":" ++ toString id.toNat ++ "," ++ after

variable {dialect : Dialect} {id otherId : UInt64} {command other : Command}

theorem ofMembers_members (dialect : Dialect) (id : UInt64) (command : Command) :
    Json.ofMembers (dialect.members id command) = .object (dialect.written id command) := by
  obtain ⟨name, params, result⟩ := command
  cases dialect <;> cases params <;>
    simp (disch := decide) only [Json.ofMembers, members, written, Option.map_none,
      Option.map_some, Option.toList_none, Option.toList_some, List.cons_append, List.nil_append,
      List.append_nil, List.foldl_cons, List.foldl_nil, Json.insert, if_pos, if_neg]

theorem sorted_written (dialect : Dialect) (id : UInt64) (command : Command) :
    ((dialect.written id command).map Prod.fst).Pairwise (· < ·) := by
  obtain ⟨name, params, result⟩ := command
  cases dialect <;> cases params
  · exact (by decide : ["command", "seq", "type"].Pairwise (· < ·))
  · exact (by decide : ["arguments", "command", "seq", "type"].Pairwise (· < ·))
  · exact (by decide : ["id", "method"].Pairwise (· < ·))
  · exact (by decide : ["id", "method", "params"].Pairwise (· < ·))

theorem ordered_written (plain : command.Plain) :
    (Json.object (dialect.written id command)).Ordered := by
  refine ⟨sorted_written dialect id command, ?_⟩
  obtain ⟨name, params, result⟩ := command
  cases params with
  | none => cases dialect <;> simp [written, Json.Ordered, Json.OrderedMembers, Json.ofUInt64]
  | some params =>
    have ordered := (plain params rfl).ordered
    cases dialect <;>
      simp [written, Json.Ordered, Json.OrderedMembers, Json.ofUInt64, ordered]

theorem integral_written (plain : command.Plain) :
    (Json.object (dialect.written id command)).Integral := by
  obtain ⟨name, params, result⟩ := command
  cases params with
  | none => cases dialect <;> simp [written, Json.Integral, Json.IntegralMembers, Json.ofUInt64]
  | some params =>
    have integral := (plain params rfl).integral
    cases dialect <;>
      simp [written, Json.Integral, Json.IntegralMembers, Json.ofUInt64, integral]

theorem depth_written (plain : command.Plain) :
    (Json.object (dialect.written id command)).depth ≤ Json.nestingLimit := by
  obtain ⟨name, params, result⟩ := command
  cases params with
  | none =>
    cases dialect <;>
      simp [written, Json.depth, Json.depthMembers, Json.ofUInt64, Json.nestingLimit]
  | some params =>
    have shallow := (plain params rfl).shallow
    cases dialect <;>
      simpa [written, Json.depth, Json.depthMembers, Json.ofUInt64, Json.nestingLimit] using
        Nat.succ_le_succ shallow

theorem written_injective (same : dialect.written otherId other = dialect.written id command) :
    otherId = id ∧ other.name = command.name ∧ other.params = command.params := by
  obtain ⟨name, params, result⟩ := command
  obtain ⟨otherName, otherParams, otherResult⟩ := other
  cases dialect <;> cases params <;> cases otherParams <;>
    simp_all [written, Json.ofUInt64_inj]

theorem parse?_encode (plain : command.Plain) :
    Json.parse? (dialect.encode id command) = some (.object (dialect.written id command)) := by
  rw [encode, ofMembers_members]
  exact Json.parse?_render (ordered_written plain) (integral_written plain) (depth_written plain)

/-! ## The id in the text -/

theorem chars_ofUInt64 (id : UInt64) :
    (Json.ofUInt64 id).chars = (toString id.toNat).toList := by
  have natural : ¬ (id.toNat : Int) < 0 := by omega
  rw [Nat.toString_eq_ofList_toDigits, String.toList_ofList, Json.ofUInt64, Json.chars, Number.chars,
    if_neg natural, Int.natAbs_natCast]

theorem charsMembers_append (members : List (String × Json)) {last : List (String × Json)}
    (some : last ≠ []) :
    ∃ before, Json.charsMembers (members ++ last) = before ++ Json.charsMembers last := by
  induction members with
  | nil => exact ⟨[], rfl⟩
  | cons member members ih =>
    obtain ⟨before, written⟩ := ih
    obtain ⟨next, rest, more⟩ :=
      List.exists_cons_of_ne_nil (List.append_ne_nil_of_right_ne_nil members some)
    have first : Json.charsMembers (member :: next :: rest)
        = Json.quote member.1 ++ ':' :: member.2.chars ++ ',' :: Json.charsMembers (next :: rest) :=
      rfl
    refine ⟨Json.quote member.1 ++ ':' :: member.2.chars ++ ',' :: before, ?_⟩
    rw [List.cons_append, more, first, ← more, written, List.append_assoc _ (',' :: before),
      List.cons_append]

/-- Every text of a command shows the id that it was written under, whatever the parameters. -/
theorem encode_showsId (dialect : Dialect) (id : UInt64) (command : Command) :
    dialect.ShowsId id (dialect.encode id command) := by
  rw [encode, ofMembers_members, Json.render, Json.chars]
  cases dialect with
  | v8 =>
    have split : Dialect.written .v8 id command
        = ((command.params.map fun params => ("arguments", params)).toList
            ++ [("command", .string command.name)])
          ++ [("seq", .ofUInt64 id), ("type", .string "request")] := by
      simp [Dialect.written]
    obtain ⟨before, printed⟩ := charsMembers_append
      ((command.params.map fun params => ("arguments", params)).toList
        ++ [("command", .string command.name)])
      (List.cons_ne_nil ("seq", Json.ofUInt64 id) [("type", .string "request")])
    refine ⟨String.ofList ('\x7b' :: before), String.toList_inj.1 ?_⟩
    rw [split, printed]
    simp [Json.charsMembers, chars_ofUInt64, Json.chars, Json.quote, Json.escape]
  | wip =>
    refine ⟨String.ofList (Json.charsMembers (("method", .string command.name) ::
      (command.params.map fun params => ("params", params)).toList) ++ ['\x7d']),
      String.toList_inj.1 ?_⟩
    simp [Dialect.written, Json.charsMembers, chars_ofUInt64, Json.quote, Json.escape]

theorem digits_inj {ds es rest more : List Char} {c : Char} (other : c.isDigit = false)
    (digits : ∀ d ∈ ds, d.isDigit = true) (others : ∀ e ∈ es, e.isDigit = true)
    (same : ds ++ c :: rest = es ++ c :: more) : ds = es := by
  have taken : ∀ xs ys : List Char, (∀ x ∈ xs, x.isDigit = true) →
      (xs ++ c :: ys).takeWhile Char.isDigit = xs := by
    intro xs ys all
    rw [List.takeWhile_append_of_pos all, List.takeWhile_cons_of_neg (by simp [other]),
      List.append_nil]
  rw [← taken ds rest digits, same, taken es more others]

theorem id_of_digits (same : (toString otherId.toNat).toList = (toString id.toNat).toList) :
    otherId = id := by
  simp only [Nat.toString_eq_ofList_toDigits, String.toList_ofList] at same
  have value := congrArg (Nat.ofDigitChars 10 · 0) same
  simpa only [Nat.ofDigitChars_ten_toDigits, UInt64.toNat_inj] using value

theorem isDigit_of_mem_toString {n : Nat} : ∀ c ∈ (toString n).toList, c.isDigit = true := by
  rw [Nat.toString_eq_ofList_toDigits, String.toList_ofList]
  exact fun _ => Number.isDigit_of_mem_toDigits

theorem ShowsId.unique {text : String} (showsId : dialect.ShowsId id text)
    (others : dialect.ShowsId otherId text) : otherId = id := by
  cases dialect with
  | v8 =>
    obtain ⟨before, rfl⟩ := showsId
    obtain ⟨beforeOther, same⟩ := others
    -- From the end of the text backwards, the digits of the id come before a colon.
    have colon : "\"seq\":".toList.reverse = ':' :: "\"qes\"".toList := rfl
    have backwards := congrArg (·.toList.reverse) same
    simp only [String.toList_append, List.reverse_append, List.append_assoc,
      List.append_cancel_left_eq, colon, List.cons_append] at backwards
    refine id_of_digits (List.reverse_inj.1 (digits_inj (by decide) ?_ ?_ backwards.symm)) <;>
      simpa using isDigit_of_mem_toString
  | wip =>
    obtain ⟨after, rfl⟩ := showsId
    obtain ⟨afterOther, same⟩ := others
    have texts := congrArg String.toList same
    simp only [String.toList_append, List.append_assoc, List.append_cancel_left_eq] at texts
    exact id_of_digits
      (digits_inj (by decide) isDigit_of_mem_toString isDigit_of_mem_toString texts.symm)

/-- Every command with plain parameters, or with none, is written on one line, and read back as the
object of its members. What is written for another id, another name or other parameters differs;
parameters that are null are not the same as none. -/
theorem encode_reads_back (dialect : Dialect) (id : UInt64) (command : Command)
    (plain : command.Plain) :
    (∀ c ∈ (dialect.encode id command).toList, c ≠ '\r' ∧ c ≠ '\n') ∧
    Json.parse? (dialect.encode id command) = some (.object (dialect.written id command)) ∧
    ∀ (otherId : UInt64) (other : Command), other.Plain →
      dialect.encode otherId other = dialect.encode id command →
      otherId = id ∧ other.name = command.name ∧ other.params = command.params := by
  refine ⟨fun c mem => ?_, parse?_encode plain, fun otherId other otherPlain same => ?_⟩
  · rw [encode, Json.render, String.toList_ofList] at mem
    have printable := Json.printable_chars _ c mem
    constructor <;> (rintro rfl; exact absurd printable (by decide))
  · have read := @parse?_encode dialect otherId other otherPlain
    rw [same, parse?_encode plain, Option.some.injEq, Json.object.injEq] at read
    exact written_injective read.symm

def greeting : Command where
  name := "say \"hé\"\r\n\u0001"
  params := some (.object [("at", .array [.number (.integer (-9) (by decide) (by decide))]),
    ("in", .null)])
  result := none

theorem encode_reads_back_greeting :
    greeting.Plain ∧ Command.Plain ⟨greeting.name, none, none⟩ ∧
    Json.parse? (encode .v8 18446744073709551615 greeting)
      = some (.object (written .v8 18446744073709551615 greeting)) ∧
    encode .v8 18446744073709551615 ⟨greeting.name, none, none⟩
      ≠ encode .v8 18446744073709551615 greeting := by
  have plain : greeting.Plain := by
    rintro _ ⟨⟩
    constructor
    · refine ⟨(by decide : ["at", "in"].Pairwise (· < ·)), ?_⟩
      simp [Json.Ordered, Json.OrderedMembers, Json.OrderedItems]
    · simp [Json.Integral, Json.IntegralMembers, Json.IntegralItems]
    · simp [Json.depth, Json.depthMembers, Json.depthItems]
  have bare : Command.Plain ⟨greeting.name, none, none⟩ := nofun
  obtain ⟨-, read, apart⟩ := encode_reads_back .v8 18446744073709551615 greeting plain
  refine ⟨plain, bare, read, fun same => ?_⟩
  cases (apart _ _ bare same).2.2

end Dialect

end DebugLink
