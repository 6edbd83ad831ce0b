import DebugLink.Proofs.Transport.Header

/-!
# Reading what was written

A frame that was written is read back whole, whatever its payload. Of a stream that is cut short the
payloads are read that have come. The one frame that can lack a byte is that of the empty payload:
its last line feed is not waited for.
-/

set_option autoImplicit false

namespace DebugLink.Framing

variable {length : Option Nat} {bytes line rest : List UInt8} {payload : String}

theorem write_eq (payload : String) :
    write payload
      = headerLine payload ++ lineFeed :: ([carriageReturn] ++ lineFeed :: bytesOf payload) := by
  have text : lengthHeader ++ ": " ++ toString payload.utf8ByteSize ++ "\r\n\r\n" ++ payload
      = announcement payload.utf8ByteSize ++ ("\r\n\r\n" ++ payload) := by
    simp only [announcement, String.append_assoc]
  have separator : bytesOf "\r\n\r\n" = [carriageReturn, lineFeed, carriageReturn, lineFeed] := rfl
  rw [write, text, bytesOf_append, bytesOf_append, separator, headerLine]
  simp

theorem length_write (payload : String) :
    (write payload).length = (headerLine payload).length + 3 + payload.utf8ByteSize := by
  rw [write_eq]
  simp only [List.length_append, List.length_cons, List.length_nil, length_bytesOf]
  omega

/-! ## Header lines in turn -/

theorem readHeaders?_nil : readHeaders? length [] = .ok none := by
  rw [readHeaders?]
  rfl

theorem read?_nil : read? [] = .ok none := by
  rw [read?, readHeaders?_nil]
  rfl

theorem readHeaders?_of_line (next : nextLine? bytes = some (line, rest)) :
    readHeaders? length bytes = (readHeader line).bind fun
      | .blank => length.elim (.error .missingLength) fun n => .ok (some (n, rest))
      | .contentLength n => readHeaders? (some n) rest
      | .other => readHeaders? length rest := by
  rw [readHeaders?]
  split
  · rename_i ended
    rw [next] at ended
    cases ended
  · rename_i own others found
    rw [next] at found
    cases found
    cases readHeader line with
    | error error => rfl
    | ok header => cases header <;> cases length <;> rfl

def GivesNothing (bytes : List UInt8) : Prop :=
  read? bytes = .ok none ∨ ∃ error, read? bytes = .error error

theorem givesNothing_of_last (plain : lineFeed ∉ line) (filled : ∃ b ∈ line, b ≠ carriageReturn) :
    GivesNothing line := by
  obtain ⟨b, mem, other⟩ := filled
  unfold GivesNothing read?
  rw [readHeaders?_of_line (nextLine?_last plain (List.ne_nil_of_mem mem))]
  cases header : readHeader line with
  | error error => exact .inr ⟨error, rfl⟩
  | ok kind =>
    left
    cases kind with
    | blank => exact absurd (eq_carriageReturn_of_blank header b mem) other
    | contentLength n =>
      change (readHeaders? (some n) []).bind _ = _
      rw [readHeaders?_nil]
      rfl
    | other =>
      change (readHeaders? none []).bind _ = _
      rw [readHeaders?_nil]
      rfl

theorem read?_of_headerLine (fits : payload.utf8ByteSize ≤ maxFrameBytes) (rest : List UInt8) :
    read? (headerLine payload ++ lineFeed :: rest)
      = (readHeaders? (some payload.utf8ByteSize) rest).bind fun
        | none => .ok none
        | some (n, rest) => some <$> readPayload n rest := by
  have small : payload.utf8ByteSize < 2 ^ 64 := Nat.lt_of_le_of_lt fits (by decide)
  rw [read?, readHeaders?_of_line (nextLine?_append (plain_headerLine payload) rest),
    readHeader_headerLine small]
  rfl

theorem read?_of_separator (fits : payload.utf8ByteSize ≤ maxFrameBytes)
    {separator : List UInt8} (separates : nextLine? separator = some ([carriageReturn], rest)) :
    read? (headerLine payload ++ lineFeed :: separator)
      = some <$> readPayload payload.utf8ByteSize rest := by
  rw [read?_of_headerLine fits, readHeaders?_of_line separates, readHeader_carriageReturn]
  rfl

/-! ## One frame -/

theorem readPayload_whole (fits : payload.utf8ByteSize ≤ maxFrameBytes) (rest : List UInt8) :
    readPayload payload.utf8ByteSize (bytesOf payload ++ rest) = .ok (payload, rest) := by
  have size := length_bytesOf payload
  have whole : (bytesOf payload ++ rest).take payload.utf8ByteSize = bytesOf payload := by
    rw [← size, List.take_left']
    rfl
  have left : (bytesOf payload ++ rest).drop payload.utf8ByteSize = rest := by
    rw [← size, List.drop_left']
    rfl
  have fitting : ¬ maxFrameBytes < payload.utf8ByteSize := Nat.not_lt.2 fits
  unfold readPayload
  simp only [whole, left, text?_bytesOf, size, fitting, Nat.lt_irrefl, if_false]

theorem readPayload_cut {n : Nat} (short : bytes.length < n) :
    ∃ error, readPayload n bytes = .error error := by
  unfold readPayload
  dsimp only
  split
  · exact ⟨_, rfl⟩
  · rw [if_pos]
    · exact ⟨_, rfl⟩
    · rw [List.length_take]
      omega

theorem read?_write (fits : payload.utf8ByteSize ≤ maxFrameBytes) (rest : List UInt8) :
    read? (write payload ++ rest) = .ok (some (payload, rest)) := by
  have whole : write payload ++ rest
      = headerLine payload ++ lineFeed :: ([carriageReturn] ++ lineFeed ::
        (bytesOf payload ++ rest)) := by
    rw [write_eq]
    simp
  rw [whole, read?_of_separator fits (nextLine?_append (by decide) _), readPayload_whole fits]
  rfl

theorem givesNothing_of_cut_payload (fits : payload.utf8ByteSize ≤ maxFrameBytes)
    {separator : List UInt8} (separates : nextLine? separator = some ([carriageReturn], rest))
    (short : rest.length < payload.utf8ByteSize) :
    GivesNothing (headerLine payload ++ lineFeed :: separator) := by
  obtain ⟨error, failed⟩ := readPayload_cut short
  right
  refine ⟨error, ?_⟩
  rw [read?_of_separator fits separates, failed]
  rfl

/-- A frame that lacks bytes at its end is never read as another payload. -/
theorem read?_cut (fits : payload.utf8ByteSize ≤ maxFrameBytes) {k : Nat}
    (short : k < (write payload).length) :
    GivesNothing ((write payload).take k) ∨
    (payload = "" ∧ k + 1 = (write payload).length ∧
      read? ((write payload).take k) = .ok (some (payload, []))) := by
  have size := length_write payload
  by_cases inHeader : k ≤ (headerLine payload).length
  · left
    rw [write_eq, List.take_append_of_le_length inHeader]
    cases k with
    | zero => exact .inl read?_nil
    | succ k =>
      apply givesNothing_of_last
      · exact fun mem => plain_headerLine payload (List.mem_of_mem_take mem)
      · exact printable_of_cut_headerLine (Nat.succ_pos k)
  · obtain ⟨more, rfl⟩ : ∃ more, k = (headerLine payload).length + (more + 1) :=
      ⟨k - (headerLine payload).length - 1, by omega⟩
    rw [write_eq, List.take_length_add_append, List.take_succ_cons]
    match more with
    | 0 =>
      left
      left
      rw [read?_of_headerLine fits, List.take_zero, readHeaders?_nil]
      rfl
    | 1 =>
      -- The empty line lacks its line feed but counts, so an empty payload is complete.
      have separates : nextLine? [carriageReturn] = some ([carriageReturn], []) :=
        nextLine?_last (by decide) (by decide)
      by_cases empty : payload = ""
      · right
        refine ⟨empty, ?_, ?_⟩
        · rw [← write_eq, size, empty]
          rfl
        · change read? (headerLine payload ++ lineFeed :: [carriageReturn]) = _
          rw [read?_of_separator fits separates, empty]
          rfl
      · left
        have filled : 0 < payload.utf8ByteSize := by
          rw [Nat.pos_iff_ne_zero, ne_eq, String.utf8ByteSize_eq_zero_iff]
          exact empty
        exact givesNothing_of_cut_payload fits separates filled
    | more + 2 =>
      left
      have missing : ((bytesOf payload).take more).length < payload.utf8ByteSize := by
        rw [List.length_take]
        omega
      have separates : nextLine? ([carriageReturn] ++ lineFeed :: (bytesOf payload).take more)
          = some ([carriageReturn], (bytesOf payload).take more) :=
        nextLine?_append (by decide) _
      exact givesNothing_of_cut_payload fits separates missing

/-! ## Reading to the end -/

def stream (payloads : List String) : List UInt8 :=
  payloads.flatMap write

theorem stream_cons (payload : String) (payloads : List String) :
    stream (payload :: payloads) = write payload ++ stream payloads :=
  List.flatMap_cons

theorem readAll_of_read? (read : read? bytes = .ok (some (payload, rest))) :
    readAll bytes = (payload :: (readAll rest).1, (readAll rest).2) := by
  rw [readAll]
  split <;> simp_all

theorem readAll_of_end (read : read? bytes = .ok none) : readAll bytes = ([], none) := by
  rw [readAll]
  split <;> simp_all

theorem readAll_nil : readAll [] = ([], none) :=
  readAll_of_end read?_nil

theorem readAll_of_givesNothing (nothing : GivesNothing bytes) : (readAll bytes).1 = [] := by
  rcases nothing with ended | ⟨error, failed⟩
  · rw [readAll_of_end ended]
  · rw [readAll]
    split <;> simp_all

theorem readAll_stream {payloads : List String}
    (fit : ∀ payload ∈ payloads, payload.utf8ByteSize ≤ maxFrameBytes) :
    readAll (stream payloads) = (payloads, none) := by
  induction payloads with
  | nil => exact readAll_nil
  | cons payload others ih =>
    rw [stream_cons, readAll_of_read? (read?_write (fit payload List.mem_cons_self) _),
      ih fun other mem => fit other (List.mem_cons_of_mem payload mem)]

/-- Of a stream cut short the payloads are read that have come, each as it was written. -/
theorem readAll_take {payloads : List String}
    (fit : ∀ payload ∈ payloads, payload.utf8ByteSize ≤ maxFrameBytes) (k : Nat) :
    ∃ n ≤ payloads.length, (readAll ((stream payloads).take k)).1 = payloads.take n ∧
      (stream (payloads.take n)).length ≤ k + 1 ∧
      (n < payloads.length → k < (stream (payloads.take (n + 1))).length) := by
  induction payloads generalizing k with
  | nil => exact ⟨0, Nat.le_refl _, by simp [stream, readAll_nil], by simp [stream], by simp⟩
  | cons payload others ih =>
    have fits := fit payload List.mem_cons_self
    have first : ∀ n, (stream ((payload :: others).take (n + 1))).length
        = (write payload).length + (stream (others.take n)).length := by
      intro n
      rw [List.take_succ_cons, stream_cons, List.length_append]
    rw [stream_cons]
    by_cases whole : (write payload).length ≤ k
    · obtain ⟨n, bound, read, came, missing⟩ :=
        ih (fun other mem => fit other (List.mem_cons_of_mem payload mem))
          (k - (write payload).length)
      refine ⟨n + 1, Nat.succ_le_succ bound, ?_, ?_, ?_⟩
      · rw [List.take_append, List.take_of_length_le whole,
          readAll_of_read? (read?_write fits _), read, List.take_succ_cons]
      · rw [first]
        omega
      · intro more
        rw [first]
        have later := missing (Nat.lt_of_succ_lt_succ more)
        omega
    · have short : k < (write payload).length := Nat.not_le.1 whole
      have within : k < (stream ((payload :: others).take 1)).length := by
        rw [first]
        omega
      rw [List.take_append_of_le_length (Nat.le_of_lt short)]
      rcases read?_cut fits short with nothing | ⟨empty, almost, read⟩
      · exact ⟨0, Nat.zero_le _, readAll_of_givesNothing nothing, Nat.zero_le _, fun _ => within⟩
      · refine ⟨1, by simp, ?_, ?_, ?_⟩
        · rw [readAll_of_read? read, readAll_nil]
          rfl
        · rw [first, almost]
          rfl
        · intro _
          rw [first]
          omega

/-! ## Sources -/

theorem length_of_pull {text : String} (pulled : pull bytes = (.frame text, rest)) :
    rest.length < bytes.length := by
  fun_induction pull bytes with
  | case1 => cases pulled
  | case2 => cases pulled
  | case3 bytes payload next read blank ih => exact Nat.lt_trans (ih pulled) (length_of_read? read)
  | case4 bytes payload next read blank =>
    cases pulled
    exact length_of_read? read

def pullAll (bytes : List UInt8) : List String × Option TransportError :=
  match _h : pull bytes with
  | (.frame text, rest) =>
    let (frames, error) := pullAll rest
    (text :: frames, error)
  | (.failed error, _) => ([], some error)
  | (.ended, _) | (.broken, _) => ([], none)
termination_by bytes.length
decreasing_by exact length_of_pull _h

def followedBy : Pulled → List String × Option TransportError →
    List String × Option TransportError
  | .frame text, (frames, error) => (text :: frames, error)
  | .failed error, _ => ([], some error)
  | .ended, _ | .broken, _ => ([], none)

theorem pullAll_of_pull {pulled : Pulled} (first : pull bytes = (pulled, rest)) :
    pullAll bytes = followedBy pulled (pullAll rest) := by
  rw [pullAll]
  split <;>
  · rename_i found
    obtain ⟨rfl, rfl⟩ := Prod.mk.inj (first.symm.trans found)
    rfl

theorem pullAll_eq (bytes : List UInt8) :
    pullAll bytes = ((readAll bytes).1.filter fun payload => !Text.isAllBlank payload,
      (readAll bytes).2.map .stream) := by
  fun_induction readAll bytes with
  | case1 bytes error read =>
    have pulled : pull bytes = (.failed (.stream error), []) := by
      rw [pull]
      split <;> simp_all
    rw [pullAll_of_pull pulled]
    rfl
  | case2 bytes read =>
    have pulled : pull bytes = (.ended, []) := by
      rw [pull]
      split <;> simp_all
    rw [pullAll_of_pull pulled]
    rfl
  | case3 bytes payload rest read payloads error all ih =>
    by_cases blank : Text.isAllBlank payload = true
    · have pulled : pull bytes = pull rest := by
        rw [pull]
        split <;> simp_all
      rw [pullAll_of_pull pulled, ← pullAll_of_pull rfl, ih, all]
      simp [blank]
    · have pulled : pull bytes = (.frame payload, rest) := by
        rw [pull]
        split <;> simp_all
      rw [pullAll_of_pull pulled, ih, all]
      simp [followedBy, blank]

/-- Payloads that have been written are read back in order, and the stream ends after them; a
source leaves out the blank ones. Of a stream cut short those are read whose frames have come, but
for the last byte of an empty one. -/
theorem reads_what_was_written {payloads : List String}
    (fit : ∀ payload ∈ payloads, payload.utf8ByteSize ≤ maxFrameBytes) :
    readAll (stream payloads) = (payloads, none) ∧
    pullAll (stream payloads) = (payloads.filter fun payload => !Text.isAllBlank payload, none) ∧
    ∀ k, ∃ n ≤ payloads.length,
      (readAll ((stream payloads).take k)).1 = payloads.take n ∧
      (pullAll ((stream payloads).take k)).1
        = (payloads.take n).filter (fun payload => !Text.isAllBlank payload) ∧
      (stream (payloads.take n)).length ≤ k + 1 ∧
      (n < payloads.length → k < (stream (payloads.take (n + 1))).length) := by
  have whole := readAll_stream fit
  refine ⟨whole, ?_, ?_⟩
  · rw [pullAll_eq, whole]
    rfl
  · intro k
    obtain ⟨n, bound, read, came, missing⟩ := readAll_take fit k
    refine ⟨n, bound, read, ?_, came, missing⟩
    rw [pullAll_eq, read]

theorem reads_what_was_written_lookalike :
    (∀ payload ∈ ["Content-Length: 2\r\n\r\n{}", "", "\u00e9\n"],
      payload.utf8ByteSize ≤ maxFrameBytes) ∧
    readAll (stream ["Content-Length: 2\r\n\r\n{}", "", "\u00e9\n"])
      = (["Content-Length: 2\r\n\r\n{}", "", "\u00e9\n"], none) := by
  have fit : ∀ payload ∈ ["Content-Length: 2\r\n\r\n{}", "", "\u00e9\n"],
      payload.utf8ByteSize ≤ maxFrameBytes := by decide
  exact ⟨fit, (reads_what_was_written fit).1⟩

end DebugLink.Framing
