import DebugLink.Proofs.Transport.Grammar

/-!
# Where a stream may end

A stream that ends within a payload is at fault. One that ends within a header is not, as long as
the lines that have come can stand in a header: it counts as ended, just as if no further frame had
begun.
-/

set_option autoImplicit false

namespace DebugLink.Framing

variable {length : Option Nat} {bytes line rest : List UInt8} {lines : List (List UInt8)} {n : Nat}

/-- A stream ends before the empty line of a header: at its start, or after lines that can stand in
one, of which the last may lack its line feed. -/
def EndsInHeader (bytes : List UInt8) : Prop :=
  ∃ lines last, bytes = joinLines lines ++ last ∧ (∀ line ∈ lines, HeaderLine line) ∧
    (last = [] ∨ HeaderLine last)

theorem endsInHeader_nil : EndsInHeader [] :=
  ⟨[], [], rfl, by simp, .inl rfl⟩

theorem EndsInHeader.cons (header : HeaderLine line) (ends : EndsInHeader rest) :
    EndsInHeader (line ++ lineFeed :: rest) := by
  obtain ⟨lines, last, rfl, each, final⟩ := ends
  have whole : ∀ own ∈ line :: lines, HeaderLine own := List.forall_mem_cons.2 ⟨header, each⟩
  exact ⟨line :: lines, last, (joinLines_cons ..).symm, whole, final⟩

theorem endsInHeader_of_last (header : HeaderLine line) : EndsInHeader line :=
  ⟨[], line, by simp [joinLines], by simp, .inr header⟩

theorem endsInHeader_of_next (header : HeaderLine line) (next : nextLine? bytes = some (line, rest))
    (ends : EndsInHeader rest) : EndsInHeader bytes := by
  obtain ⟨-, rfl | ⟨rfl, -, -⟩⟩ := nextLine?_eq_some_iff.1 next
  · exact ends.cons header
  · exact endsInHeader_of_last header

theorem ne_nil_of_filled (filled : Filled line) : line ≠ [] := by
  rintro rfl
  obtain ⟨text, shown, c, mem, -⟩ := filled
  cases (text?_bytesOf "").symm.trans shown
  cases mem

/-- After a line that can stand in a header it is the rest that decides. -/
theorem readHeaders?_of_headerLine (length : Option Nat) (header : HeaderLine line)
    (next : nextLine? bytes = some (line, rest)) :
    ∃ reached, readHeaders? length bytes = readHeaders? reached rest := by
  obtain ⟨n, -, read⟩ | ⟨-, read⟩ := header.read <;> rw [readHeaders?_of_line next, read]
  · exact ⟨some n, rfl⟩
  · exact ⟨length, rfl⟩

theorem readHeaders?_eq_none_iff (length : Option Nat) (bytes : List UInt8) :
    readHeaders? length bytes = .ok none ↔ EndsInHeader bytes := by
  constructor
  · intro read
    fun_induction readHeaders? length bytes with
    | case1 length bytes next =>
      cases bytes with
      | nil => exact endsInHeader_nil
      | cons b bytes => cases next
    | case2 => cases read
    | case3 => cases read
    | case4 => cases read
    | case5 length bytes line rest next n header ih =>
      have unbroken := (nextLine?_eq_some_iff.1 next).1
      exact endsInHeader_of_next (headerLine_of_announces unbroken header) next (ih read)
    | case6 length bytes line rest next header ih =>
      have unbroken := (nextLine?_eq_some_iff.1 next).1
      exact endsInHeader_of_next (headerLine_of_other unbroken header) next (ih read)
  · rintro ⟨lines, last, rfl, each, final⟩
    induction lines generalizing length with
    | nil =>
      change readHeaders? length last = _
      obtain rfl | header := final
      · exact readHeaders?_nil
      · have next := nextLine?_last header.unbroken (ne_nil_of_filled header.filled)
        obtain ⟨reached, same⟩ := readHeaders?_of_headerLine length header next
        rw [same, readHeaders?_nil]
    | cons line lines ih =>
      obtain ⟨first, others⟩ := List.forall_mem_cons.1 each
      have next := nextLine?_append first.unbroken (joinLines lines ++ last)
      obtain ⟨reached, same⟩ := readHeaders?_of_headerLine length first next
      rw [joinLines_cons, same]
      exact ih reached others

theorem read?_eq_none_iff : read? bytes = .ok none ↔ EndsInHeader bytes := by
  simp [read?_eq_ok_iff, readHeaders?_eq_none_iff]

theorem read?_of_cut_payload {blank part : List UInt8} (each : ∀ line ∈ lines, HeaderLine line)
    (announced : LastAnnounced lines n) (empty : EmptyLine blank part) (cut : part.length < n) :
    ∃ error, read? (joinLines lines ++ (blank ++ part)) = .error error := by
  have header : readHeaders? none (joinLines lines ++ (blank ++ part)) = .ok (some (n, part)) :=
    readHeaders?_eq_some_iff.2
      ⟨lines, blank, rfl, leads_iff.2 ⟨each, .inl ⟨n, rfl, announced⟩⟩, empty⟩
  obtain ⟨error, failed⟩ := readPayload_cut cut
  refine ⟨error, ?_⟩
  unfold read?
  rw [header]
  change some <$> readPayload n part = _
  rw [failed]
  rfl

/-- A source has ended when only blank payloads were left and the stream ends before the empty line
of a header. -/
theorem pull_ended_iff :
    (∃ after, pull bytes = (.ended, after)) ↔ ∃ payloads rest, Reads bytes payloads rest ∧
      (∀ payload ∈ payloads, Text.isAllBlank payload = true) ∧ EndsInHeader rest := by
  constructor
  · rintro ⟨after, pulled⟩
    fun_induction pull bytes with
    | case1 => cases pulled
    | case2 bytes read => exact ⟨[], bytes, .nil _, by simp, read?_eq_none_iff.1 read⟩
    | case3 bytes payload next read blank ih =>
      obtain ⟨payloads, rest, reads, blanks, ends⟩ := ih pulled
      exact ⟨payload :: payloads, rest, .cons read reads, List.forall_mem_cons.2 ⟨blank, blanks⟩,
        ends⟩
    | case4 => cases pulled
  · rintro ⟨payloads, rest, reads, blanks, ends⟩
    induction reads with
    | nil bytes =>
      have read := read?_eq_none_iff.2 ends
      refine ⟨[], ?_⟩
      rw [pull]
      split <;> simp_all
    | cons first others ih =>
      obtain ⟨blank, blanks⟩ := List.forall_mem_cons.1 blanks
      obtain ⟨after, pulled⟩ := ih blanks ends
      refine ⟨after, ?_⟩
      rw [pull]
      split <;> simp_all

/-- The end is reported when a stream ends between frames, and also when it ends within a header all
of whose lines so far can stand in one. Within a payload it is a fault. -/
theorem end_reported_before_empty_line (bytes : List UInt8) :
    (read? bytes = .ok none ↔ EndsInHeader bytes) ∧
    ((∃ after, pull bytes = (.ended, after)) ↔ ∃ payloads rest, Reads bytes payloads rest ∧
      (∀ payload ∈ payloads, Text.isAllBlank payload = true) ∧ EndsInHeader rest) ∧
    ∀ lines n blank part, bytes = joinLines lines ++ (blank ++ part) →
      (∀ line ∈ lines, HeaderLine line) → LastAnnounced lines n → EmptyLine blank part →
      part.length < n → ∃ error, read? bytes = .error error := by
  refine ⟨read?_eq_none_iff, pull_ended_iff, ?_⟩
  rintro lines n blank part rfl each announced empty cut
  exact read?_of_cut_payload each announced empty cut

theorem end_reported_within_header :
    0 < 19 ∧ 19 < (write "hello").length ∧ read? ((write "hello").take 19) = .ok none ∧
      ∃ after, pull ((write "hello").take 19) = (.ended, after) := by
  have cut : (write "hello").take 19 = joinLines [headerLine "hello"] ++ [] := by decide +kernel
  have small : "hello".utf8ByteSize < 2 ^ 64 := by decide
  have header : HeaderLine (headerLine "hello") :=
    headerLine_of_announces (plain_headerLine "hello") (readHeader_headerLine small)
  have ends : EndsInHeader ((write "hello").take 19) :=
    ⟨_, _, cut, by simpa using header, .inl rfl⟩
  exact ⟨by decide, by decide +kernel, read?_eq_none_iff.2 ends,
    pull_ended_iff.2 ⟨[], _, .nil _, by simp, ends⟩⟩

end DebugLink.Framing
