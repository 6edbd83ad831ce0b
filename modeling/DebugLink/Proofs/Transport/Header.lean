import Mathlib.Algebra.Group.Nat.Defs
import Mathlib.Data.List.DropRight
import DebugLink.Transport.Framing

/-!
# Header lines

What the bytes of a header line say. The line that announces the length of a payload is read back as
that length, and only a line of nothing but carriage returns counts as the empty one that ends a
header.
-/

set_option autoImplicit false

namespace DebugLink

namespace Text

theorem dropEnd_eq_rdropWhile (p : Char → Bool) (cs : List Char) :
    dropEnd p cs = cs.rdropWhile p := rfl

theorem isBlank_of_isDigit {c : Char} (digit : c.isDigit = true) : isBlank c = false := by
  have bounds : 48 ≤ c.toNat ∧ c.toNat ≤ 57 := by
    simp only [Char.isDigit, Bool.and_eq_true, decide_eq_true_eq, UInt32.le_iff_toNat_le] at digit
    exact digit
  simp only [isBlank]
  grind

theorem natural64?_toString {n : Nat} (small : n < 2 ^ 64) : natural64? (toString n) = some n := by
  have digits : (toString n).toList = Nat.toDigits 10 n := by
    rw [Nat.toString_eq_ofList_toDigits, String.toList_ofList]
  have all : ∀ c ∈ Nat.toDigits 10 n, c.isDigit = true :=
    fun c mem => Nat.isDigit_of_mem_toDigits (by decide) (by decide) mem
  have value : (Nat.toDigits 10 n).foldl
      (fun value c => value * 10 + (c.toNat - '0'.toNat)) 0 = n := by
    have read := Nat.ofDigitChars_ten_toDigits (n := n)
    rw [Nat.ofDigitChars_eq_foldl] at read
    simpa only [Nat.mul_comm] using read
  unfold natural64?
  rw [digits]
  cases shown : Nat.toDigits 10 n with
  | nil => exact absurd shown Nat.toDigits_ne_nil
  | cons first rest =>
    rw [shown] at all value
    have plain : first ≠ '+' := by
      rintro rfl
      exact absurd (all '+' List.mem_cons_self) (by decide)
    split
    · simp_all
    · simp_all

end Text

namespace Framing

theorem text?_bytesOf (text : String) : text? (bytesOf text) = some text := by
  simp only [text?, bytesOf, Array.toArray_toList, String.fromUTF8?]
  exact dif_pos text.isValidUTF8

theorem bytesOf_of_text? {bytes : List UInt8} {text : String} (shown : text? bytes = some text) :
    bytesOf text = bytes := by
  unfold text? String.fromUTF8? at shown
  split at shown
  · cases shown
    rfl
  · cases shown

theorem length_bytesOf (text : String) : (bytesOf text).length = text.utf8ByteSize := rfl

theorem bytesOf_append (first second : String) :
    bytesOf (first ++ second) = bytesOf first ++ bytesOf second := by
  simp [bytesOf, String.toByteArray_append]

theorem bytesOf_of_ascii {text : String} (ascii : ∀ c ∈ text.toList, c.val < 128) :
    bytesOf text = text.toList.map fun c => c.val.toUInt8 := by
  have encoded : ∀ cs : List Char, (∀ c ∈ cs, c.val < 128) →
      cs.utf8Encode.data.toList = cs.map fun c => c.val.toUInt8 := by
    intro cs
    induction cs with
    | nil => intro _; rfl
    | cons c cs ih =>
      intro ascii
      have one : c.utf8Size = 1 := by
        have below := ascii c List.mem_cons_self
        rw [Char.utf8Size_eq_one_iff]
        grind
      rw [List.utf8Encode_cons, List.utf8Encode_singleton, String.utf8EncodeChar_eq_singleton one]
      simp [ih fun other mem => ascii other (List.mem_cons_of_mem c mem)]
  unfold bytesOf
  rw [← String.utf8Encode_toList]
  exact encoded _ ascii

/-! ## Lines -/

def carriageReturn : UInt8 := 13

theorem nextLine?_append {line : List UInt8} (plain : lineFeed ∉ line) (rest : List UInt8) :
    nextLine? (line ++ lineFeed :: rest) = some (line, rest) := by
  have inside : ∀ b ∈ line, (b != lineFeed) = true := by
    intro b mem
    simp only [bne_iff_ne, ne_eq]
    rintro rfl
    exact plain mem
  have nonempty : line ++ lineFeed :: rest ≠ [] := by simp
  unfold nextLine?
  split
  · exact absurd ‹_› nonempty
  · rw [List.takeWhile_append_of_pos inside, List.dropWhile_append_of_pos inside]
    simp

theorem nextLine?_last {line : List UInt8} (plain : lineFeed ∉ line) (nonempty : line ≠ []) :
    nextLine? line = some (line, []) := by
  have inside : ∀ b ∈ line, (b != lineFeed) = true := by
    intro b mem
    simp only [bne_iff_ne, ne_eq]
    rintro rfl
    exact plain mem
  unfold nextLine?
  split
  · exact absurd rfl nonempty
  · rw [List.takeWhile_eq_self_iff.2 inside, List.dropWhile_eq_nil_iff.2 inside, List.drop_nil]

theorem eq_carriageReturn_of_blank {line : List UInt8} (blank : readHeader line = .ok .blank) :
    ∀ b ∈ line, b = carriageReturn := by
  unfold readHeader at blank
  split at blank
  · cases blank
  · rename_i text shown
    have bytes := bytesOf_of_text? shown
    dsimp only at blank
    split at blank
    · rename_i empty
      rw [List.isEmpty_iff, Text.dropEnd_eq_rdropWhile, List.rdropWhile_eq_nil_iff] at empty
      have returns : ∀ c ∈ text.toList, c = '\r' := fun c mem => by simpa using empty c mem
      have ascii : ∀ c ∈ text.toList, c.val < 128 := by
        intro c mem
        rw [returns c mem]
        decide
      rw [← bytes, bytesOf_of_ascii ascii]
      intro b mem
      obtain ⟨c, among, rfl⟩ := List.mem_map.1 mem
      rw [returns c among]
      rfl
    · split at blank
      · cases blank
      · split at blank
        · split at blank <;> cases blank
        · cases blank

/-! ## The header of a frame -/

def announcement (length : Nat) : String :=
  lengthHeader ++ ": " ++ toString length

theorem toList_announcement (length : Nat) :
    (announcement length).toList
      = lengthHeader.toList ++ ':' :: ' ' :: Nat.toDigits 10 length := by
  simp [announcement]

theorem isDigit_of_mem_digits {length : Nat} {c : Char} (mem : c ∈ Nat.toDigits 10 length) :
    c.isDigit = true :=
  Nat.isDigit_of_mem_toDigits (by decide) (by decide) mem

theorem printable_of_mem_announcement {length : Nat} {c : Char}
    (mem : c ∈ (announcement length).toList) : 32 ≤ c.val ∧ c.val < 128 := by
  rw [toList_announcement, List.mem_append, List.mem_cons, List.mem_cons] at mem
  rcases mem with name | rfl | rfl | digit
  · have all : (lengthHeader.toList.all fun c => 32 ≤ c.val ∧ c.val < 128) = true := by decide
    exact of_decide_eq_true (List.all_eq_true.1 all c name)
  · decide
  · decide
  · have shown := isDigit_of_mem_digits digit
    simp only [Char.isDigit, Bool.and_eq_true, decide_eq_true_eq] at shown
    grind

theorem bytesOf_announcement (length : Nat) :
    bytesOf (announcement length)
      = (announcement length).toList.map fun c => c.val.toUInt8 :=
  bytesOf_of_ascii fun _ mem => (printable_of_mem_announcement mem).2

theorem printable_of_mem_bytes {length : Nat} {b : UInt8}
    (mem : b ∈ bytesOf (announcement length)) : 32 ≤ b := by
  rw [bytesOf_announcement] at mem
  obtain ⟨c, among, rfl⟩ := List.mem_map.1 mem
  obtain ⟨lower, upper⟩ := printable_of_mem_announcement among
  rw [UInt32.le_iff_toNat_le] at lower
  rw [UInt32.lt_iff_toNat_lt] at upper
  rw [UInt8.le_iff_toNat_le, UInt32.toNat_toUInt8, Nat.mod_eq_of_lt (by grind)]
  exact lower

theorem readHeader_announcement {length : Nat} (small : length < 2 ^ 64) :
    readHeader (bytesOf (announcement length) ++ [carriageReturn])
      = .ok (.contentLength length) := by
  have shown : text? (bytesOf (announcement length) ++ [carriageReturn])
      = some (announcement length ++ "\r") := by
    have bytes : bytesOf (announcement length) ++ [carriageReturn]
        = bytesOf (announcement length ++ "\r") := by
      rw [bytesOf_append]
      rfl
    rw [bytes, text?_bytesOf]
  have stripped : Text.dropEnd (· == '\r') (announcement length ++ "\r").toList
      = (announcement length).toList := by
    rw [String.toList_append, Text.dropEnd_eq_rdropWhile]
    change List.rdropWhile _ (_ ++ ['\r']) = _
    rw [List.rdropWhile_concat_pos _ _ _ (by decide), List.rdropWhile_eq_self_iff]
    intro nonempty last
    have printable := printable_of_mem_announcement (List.getLast_mem nonempty)
    rw [eq_of_beq last] at printable
    exact absurd printable (by decide)
  have name : (announcement length).toList.takeWhile (· != ':') = lengthHeader.toList := by
    rw [toList_announcement, List.takeWhile_append_of_pos (List.all_eq_true.1 (by decide))]
    simp
  have value : (announcement length).toList.dropWhile (· != ':')
      = ':' :: ' ' :: Nat.toDigits 10 length := by
    rw [toList_announcement, List.dropWhile_append_of_pos (List.all_eq_true.1 (by decide))]
    simp
  have trimmed : Text.trimChars (' ' :: Nat.toDigits 10 length) = Nat.toDigits 10 length := by
    have plain : ∀ c ∈ Nat.toDigits 10 length, Text.isBlank c = false :=
      fun c mem => Text.isBlank_of_isDigit (isDigit_of_mem_digits mem)
    have front : (' ' :: Nat.toDigits 10 length).dropWhile Text.isBlank
        = Nat.toDigits 10 length := by
      rw [List.dropWhile_cons_of_pos (by decide), List.dropWhile_eq_self_iff]
      intro nonempty
      simp [plain _ (List.getElem_mem nonempty)]
    rw [Text.trimChars, front, Text.dropEnd_eq_rdropWhile, List.rdropWhile_eq_self_iff]
    intro nonempty
    simp [plain _ (List.getLast_mem nonempty)]
  have nonempty : (announcement length).toList.isEmpty = false := by
    rw [toList_announcement]
    rfl
  have same : Text.equalIgnoringCase
      (String.ofList (Text.trimChars lengthHeader.toList)) lengthHeader = true := by decide
  unfold readHeader
  simp only [shown, stripped, nonempty, name, value, trimmed, same,
    ← Nat.toString_eq_ofList_toDigits, Text.natural64?_toString small]
  rfl

def headerLine (payload : String) : List UInt8 :=
  bytesOf (announcement payload.utf8ByteSize) ++ [carriageReturn]

theorem plain_headerLine (payload : String) : lineFeed ∉ headerLine payload := by
  rw [headerLine, List.mem_append, List.mem_singleton, not_or]
  exact ⟨fun mem => absurd (printable_of_mem_bytes mem) (by decide), by decide⟩

/-- However short a header line is cut, something other than a carriage return is left of it. -/
theorem printable_of_cut_headerLine {payload : String} {k : Nat} (some : 0 < k) :
    ∃ b ∈ (headerLine payload).take k, b ≠ carriageReturn := by
  cases start : bytesOf (announcement payload.utf8ByteSize) with
  | nil =>
    have shown := bytesOf_announcement payload.utf8ByteSize
    rw [start, toList_announcement] at shown
    exact absurd shown.symm (by simp)
  | cons b others =>
    have printable := printable_of_mem_bytes (start ▸ List.mem_cons_self : b ∈ _)
    refine ⟨b, ?_, ?_⟩
    · obtain ⟨less, rfl⟩ := Nat.exists_eq_add_of_lt some
      simp [headerLine, start]
    · rintro rfl
      exact absurd printable (by decide)

theorem readHeader_headerLine {payload : String} (small : payload.utf8ByteSize < 2 ^ 64) :
    readHeader (headerLine payload) = .ok (.contentLength payload.utf8ByteSize) :=
  readHeader_announcement small

theorem readHeader_carriageReturn : readHeader [carriageReturn] = .ok .blank := by
  have shown : text? [carriageReturn] = some "\r" := text?_bytesOf "\r"
  unfold readHeader
  rw [shown]
  rfl

end Framing

end DebugLink
