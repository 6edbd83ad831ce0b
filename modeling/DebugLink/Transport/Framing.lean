import DebugLink.Text.Blank
import DebugLink.Transport.Error

/-!
# Frames in a byte stream

A frame is a block of header lines, an empty line and a payload. The header `Content-Length` gives
the length of the payload in bytes; of several the last counts, and other headers are skipped.
`Framing.read?` takes one frame off a stream and `Framing.write` gives the bytes of one.
-/

set_option autoImplicit false

namespace DebugLink.Framing

def lineFeed : UInt8 := 10

def text? (bytes : List UInt8) : Option String :=
  String.fromUTF8? ⟨bytes.toArray⟩

def bytesOf (text : String) : List UInt8 :=
  text.toByteArray.data.toList

/-- The first line without its line feed, and what follows; none at the end of the stream. The
last line need not have a line feed. -/
def nextLine? : List UInt8 → Option (List UInt8 × List UInt8)
  | [] => none
  | bytes =>
    some (bytes.takeWhile (· != lineFeed), (bytes.dropWhile (· != lineFeed)).drop 1)

inductive Header where
  | blank
  | contentLength (length : Nat)
  | other

def lengthHeader : String := "Content-Length"

def readHeader (line : List UInt8) : Except StreamError Header :=
  match text? line with
  | none => .error .lineNotText
  | some line =>
    let line := Text.dropEnd (· == '\r') line.toList
    if line.isEmpty then .ok .blank
    else
      match line.dropWhile (· != ':') with
      | [] => .ok .other
      | _ :: value =>
        let name := Text.trimChars (line.takeWhile (· != ':'))
        if Text.equalIgnoringCase (String.ofList name) lengthHeader then
          let value := String.ofList (Text.trimChars value)
          match Text.natural64? value with
          | some length => .ok (.contentLength length)
          | none => .error (.invalidLength value)
        else
          .ok .other

theorem length_of_nextLine? {bytes line rest : List UInt8}
    (h : nextLine? bytes = some (line, rest)) : rest.length < bytes.length := by
  cases bytes with
  | nil => cases h
  | cons b bs =>
    simp only [nextLine?, Option.some.injEq, Prod.mk.injEq] at h
    obtain ⟨-, rfl⟩ := h
    have bound : ((b :: bs).dropWhile (· != lineFeed)).length ≤ (b :: bs).length :=
      (List.dropWhile_sublist _).length_le
    simp only [List.length_drop, List.length_cons] at bound ⊢
    omega

/-- Reads header lines up to the empty one: the length announced last, and what follows. None
when the stream ends before that. -/
def readHeaders? (length : Option Nat) (bytes : List UInt8) :
    Except StreamError (Option (Nat × List UInt8)) :=
  match _h : nextLine? bytes with
  | none => .ok none
  | some (line, rest) =>
    match readHeader line with
    | .error error => .error error
    | .ok .blank =>
      match length with
      | some length => .ok (some (length, rest))
      | none => .error .missingLength
    | .ok (.contentLength length) => readHeaders? (some length) rest
    | .ok .other => readHeaders? length rest
termination_by bytes.length
decreasing_by all_goals exact length_of_nextLine? _h

def readPayload (length : Nat) (bytes : List UInt8) : Except StreamError (String × List UInt8) :=
  let payload := bytes.take length
  if maxFrameBytes < length then .error (.tooLong length)
  else if payload.length < length then .error .truncated
  else
    match text? payload with
    | some payload => .ok (payload, bytes.drop length)
    | none => .error .payloadNotText

/-- Takes one frame off a stream: its payload and what follows. None at the end of the stream. -/
def read? (bytes : List UInt8) : Except StreamError (Option (String × List UInt8)) := do
  match ← readHeaders? none bytes with
  | none => pure none
  | some (length, rest) => some <$> readPayload length rest

def write (payload : String) : List UInt8 :=
  bytesOf (lengthHeader ++ ": " ++ toString payload.utf8ByteSize ++ "\r\n\r\n" ++ payload)

theorem length_of_readHeaders? {length : Option Nat} {bytes : List UInt8} {n : Nat}
    {rest : List UInt8} (h : readHeaders? length bytes = .ok (some (n, rest))) :
    rest.length < bytes.length := by
  fun_induction readHeaders? length bytes with
  | case1 => cases h
  | case2 => cases h
  | case3 bytes line rest next blank length =>
    cases h
    exact length_of_nextLine? next
  | case4 => cases h
  | case5 length bytes line rest next announced header ih =>
    exact Nat.lt_trans (ih h) (length_of_nextLine? next)
  | case6 length bytes line rest next header ih =>
    exact Nat.lt_trans (ih h) (length_of_nextLine? next)

/-- A frame takes at least one byte off the stream. -/
theorem length_of_read? {bytes rest : List UInt8} {payload : String}
    (h : read? bytes = .ok (some (payload, rest))) : rest.length < bytes.length := by
  simp only [read?, bind, Except.bind] at h
  split at h
  · cases h
  · split at h
    · cases h
    · rename_i found
      have bound := length_of_readHeaders? found
      simp only [readPayload] at h
      split at h
      · cases h
      · split at h
        · cases h
        · split at h
          · cases h
            simp only [List.length_drop]
            omega
          · cases h

/-- All payloads of a stream, and the error that ends it if one does. -/
def readAll (bytes : List UInt8) : List String × Option StreamError :=
  match _h : read? bytes with
  | .error error => ([], some error)
  | .ok none => ([], none)
  | .ok (some (payload, rest)) =>
    let (payloads, error) := readAll rest
    (payload :: payloads, error)
termination_by bytes.length
decreasing_by exact length_of_read? _h

/-- Pulls the next frame that is not blank, and what follows it. -/
def pull (bytes : List UInt8) : Pulled × List UInt8 :=
  match _h : read? bytes with
  | .error error => (.failed (.stream error), [])
  | .ok none => (.ended, [])
  | .ok (some (payload, rest)) =>
    if Text.isAllBlank payload then pull rest else (.frame payload, rest)
termination_by bytes.length
decreasing_by exact length_of_read? _h

/-- Whether a stream that goes on may still hold its next frame or fault in what is to come. -/
def isPartial (length : Option Nat) (bytes : List UInt8) : Bool :=
  match _h : nextLine? bytes with
  | none => true
  | some (line, rest) =>
    if !bytes.contains lineFeed then true
    else
      match readHeader line with
      | .error _ => false
      | .ok .blank => length.any fun length => length ≤ maxFrameBytes && rest.length < length
      | .ok (.contentLength length) => isPartial (some length) rest
      | .ok .other => isPartial length rest
termination_by bytes.length
decreasing_by all_goals exact length_of_nextLine? _h

/-- Pulls the next frame that is not blank from a stream that goes on; none when it is still to
come. -/
def pullOpen? (bytes : List UInt8) : Option (Pulled × List UInt8) :=
  if isPartial none bytes then none
  else
    match _h : read? bytes with
    | .error error => some (.failed (.stream error), [])
    | .ok none => none
    | .ok (some (payload, rest)) =>
      if Text.isAllBlank payload then pullOpen? rest else some (.frame payload, rest)
termination_by bytes.length
decreasing_by exact length_of_read? _h

end DebugLink.Framing
