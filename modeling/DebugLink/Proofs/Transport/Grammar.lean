import DebugLink.Proofs.Transport.RoundTrip

/-!
# The grammar of a frame

A frame is a block of header lines, an empty line, and as many bytes of text as the last header that
gives a length says. What is read from the front of a stream is read just when such a frame stands
there, and what follows the frame is left.
-/

set_option autoImplicit false

namespace DebugLink

/-! ## Numbers and blanks -/

namespace Text

/-- A number below 2 ^ 64 is written in digits, with or without a plus sign. -/
def Denotes (written : List Char) (n : Nat) : Prop :=
  ∃ digits, digits ≠ [] ∧ (∀ c ∈ digits, c.isDigit = true) ∧
    (written = digits ∨ written = '+' :: digits) ∧ Nat.ofDigitChars 10 digits 0 = n ∧ n < 2 ^ 64

def unsigned : List Char → List Char
  | '+' :: rest => rest
  | cs => cs

theorem unsigned_eq_iff {written digits : List Char} (plain : ∀ c ∈ digits, c.isDigit = true) :
    unsigned written = digits ↔ written = digits ∨ written = '+' :: digits := by
  unfold unsigned
  split
  · rename_i rest
    constructor
    · rintro rfl
      exact .inr rfl
    · rintro (rfl | same)
      · exact absurd (plain '+' List.mem_cons_self) (by decide)
      · exact (List.cons.inj same).2
  · rename_i unsigned
    exact ⟨.inl, fun same => same.resolve_right (unsigned digits)⟩

theorem natural64?_eq_some_iff {written : List Char} {n : Nat} :
    natural64? (String.ofList written) = some n ↔ Denotes written n := by
  have value : ∀ digits : List Char,
      digits.foldl (fun value c => value * 10 + (c.toNat - '0'.toNat)) 0
        = Nat.ofDigitChars 10 digits 0 := by
    intro digits
    simp only [Nat.ofDigitChars_eq_foldl, Nat.mul_comm]
  have unfolded : natural64? (String.ofList written)
      = if (unsigned written).isEmpty || !(unsigned written).all Char.isDigit then none
        else if Nat.ofDigitChars 10 (unsigned written) 0 < 2 ^ 64 then
          some (Nat.ofDigitChars 10 (unsigned written) 0)
        else none := by
    rw [← value]
    unfold natural64?
    rw [String.toList_ofList]
    rfl
  rw [unfolded]
  constructor
  · intro read
    split at read
    · cases read
    · rename_i digits
      split at read
      · rename_i small
        simp only [Bool.or_eq_true, List.isEmpty_iff, Bool.not_eq_true', not_or,
          Bool.not_eq_false, List.all_eq_true] at digits
        cases read
        exact ⟨_, digits.1, digits.2, (unsigned_eq_iff digits.2).1 rfl, rfl, small⟩
      · cases read
  · rintro ⟨digits, filled, plain, signed, rfl, small⟩
    rw [(unsigned_eq_iff plain).2 signed, if_neg, if_pos small]
    simpa using ⟨filled, plain⟩

theorem trimChars_append_blanks {cs back : List Char} (blank : ∀ c ∈ back, isBlank c = true) :
    trimChars (cs ++ back) = trimChars cs := by
  have dropped : ∀ front : List Char, dropEnd isBlank (front ++ back) = dropEnd isBlank front := by
    intro front
    have reversed : ∀ c ∈ back.reverse, isBlank c = true :=
      fun c mem => blank c (List.mem_reverse.1 mem)
    rw [dropEnd, List.reverse_append, List.dropWhile_append_of_pos reversed, ← dropEnd]
  unfold trimChars
  by_cases all : ∀ c ∈ cs, isBlank c = true
  · have nothing : back.dropWhile isBlank = [] := List.dropWhile_eq_nil_iff.2 blank
    rw [List.dropWhile_append_of_pos all, nothing, List.dropWhile_eq_nil_iff.2 all]
  · have more : cs.dropWhile isBlank ≠ [] := fun empty => all (List.dropWhile_eq_nil_iff.1 empty)
    have kept : (cs ++ back).dropWhile isBlank = cs.dropWhile isBlank ++ back := by
      rw [List.dropWhile_append, if_neg]
      simpa using more
    rw [kept, dropped]

end Text

/-! ## Header lines -/

namespace Framing

variable {length : Option Nat} {bytes line rest : List UInt8} {lines : List (List UInt8)}
  {payload : String} {n : Nat}

/-- A line is a text with more on it than carriage returns. -/
def Filled (line : List UInt8) : Prop :=
  ∃ text, text? line = some text ∧ ∃ c ∈ text.toList, c ≠ '\r'

/-- Before its first colon a line has the name of the header that gives the length, and this value
behind it. Neither case nor blanks around the name count. -/
def GivesLength (line : List UInt8) (value : List Char) : Prop :=
  ∃ text name, text? line = some text ∧ text.toList = name ++ ':' :: value ∧ ':' ∉ name ∧
    Text.equalIgnoringCase (String.ofList (Text.trimChars name)) lengthHeader = true

def Announces (line : List UInt8) (n : Nat) : Prop :=
  ∃ value, GivesLength line value ∧ Text.Denotes (Text.trimChars value) n

theorem splits_unique {name value other more : List Char} (before : ':' ∉ name)
    (apart : ':' ∉ other) (same : name ++ ':' :: value = other ++ ':' :: more) :
    name = other ∧ value = more := by
  induction name generalizing other with
  | nil =>
    cases other with
    | nil => exact ⟨rfl, (List.cons.inj same).2⟩
    | cons c other => exact absurd ((List.cons.inj same).1 ▸ List.mem_cons_self) apart
  | cons c name ih =>
    cases other with
    | nil => exact absurd ((List.cons.inj same).1 ▸ List.mem_cons_self) before
    | cons d other =>
      obtain ⟨rfl, rest⟩ := List.cons.inj same
      obtain ⟨rfl, values⟩ := ih (fun mem => before (List.mem_cons_of_mem c mem))
        (fun mem => apart (List.mem_cons_of_mem c mem)) rest
      exact ⟨rfl, values⟩

theorem GivesLength.unique {value other : List Char} (first : GivesLength line value)
    (second : GivesLength line other) : value = other := by
  obtain ⟨text, name, shown, split, before, -⟩ := first
  obtain ⟨own, named, again, apart, behind, -⟩ := second
  cases shown.symm.trans again
  exact (splits_unique before behind (split.symm.trans apart)).2

theorem Announces.unique {m : Nat} (first : Announces line n) (second : Announces line m) :
    n = m := by
  obtain ⟨value, gives, denotes⟩ := first
  obtain ⟨other, given, own⟩ := second
  cases gives.unique given
  exact Option.some.inj ((Text.natural64?_eq_some_iff.2 denotes).symm.trans
    (Text.natural64?_eq_some_iff.2 own))

/-- Carriage returns at the end of a line do not matter to what it says. -/
theorem readHeader_of_text {text : String} (shown : text? line = some text)
    (filled : ∃ c ∈ text.toList, c ≠ '\r') :
    readHeader line = match text.toList.dropWhile (· != ':') with
      | [] => .ok .other
      | _ :: value =>
        if Text.equalIgnoringCase
            (String.ofList (Text.trimChars (text.toList.takeWhile (· != ':')))) lengthHeader then
          match Text.natural64? (String.ofList (Text.trimChars value)) with
          | some length => .ok (.contentLength length)
          | none => .error (.invalidLength (String.ofList (Text.trimChars value)))
        else .ok .other := by
  obtain ⟨c, mem, other⟩ := filled
  let stripped := Text.dropEnd (· == '\r') text.toList
  let returns := text.toList.rtakeWhile (· == '\r')
  have whole : text.toList = stripped ++ returns :=
    (List.rdropWhile_append_rtakeWhile (p := fun c => c == '\r')).symm
  have all : ∀ d ∈ returns, d = '\r' := fun d mem => by
    simpa using List.mem_rtakeWhile_imp mem
  have unbroken : ∀ d ∈ returns, (d != ':') = true := fun d mem => by rw [all d mem]; rfl
  have blank : ∀ d ∈ returns, Text.isBlank d = true := fun d mem => by rw [all d mem]; rfl
  have nonempty : stripped.isEmpty = false := by
    rw [List.isEmpty_eq_false_iff]
    intro empty
    rw [whole, empty, List.nil_append] at mem
    exact other (all c mem)
  unfold readHeader
  rw [shown]
  simp only [stripped] at nonempty
  simp only [nonempty, Bool.false_eq_true, if_false]
  -- The colon, if there is one, stands before the carriage returns at the end.
  cases found : stripped.dropWhile (· != ':') with
  | nil =>
    have none_whole : text.toList.dropWhile (· != ':') = [] := by
      rw [whole, List.dropWhile_append, found]
      exact List.dropWhile_eq_nil_iff.2 unbroken
    rw [none_whole]
  | cons colon value =>
    have value_whole : text.toList.dropWhile (· != ':') = colon :: (value ++ returns) := by
      rw [whole, List.dropWhile_append, found]
      rfl
    have name_whole : text.toList.takeWhile (· != ':') = stripped.takeWhile (· != ':') := by
      have shorter := congrArg List.length (List.takeWhile_append_dropWhile (p := (· != ':'))
        (l := stripped))
      rw [found, List.length_append, List.length_cons] at shorter
      rw [whole, List.takeWhile_append, if_neg (by omega)]
    have trimmed : Text.trimChars (value ++ returns) = Text.trimChars value :=
      Text.trimChars_append_blanks blank
    rw [value_whole, name_whole]
    dsimp only
    generalize Text.trimChars (value ++ returns) = own at trimmed ⊢
    subst trimmed
    rfl

theorem readHeader_of_filled (filled : Filled line) :
    (∃ n, Announces line n ∧ readHeader line = .ok (.contentLength n)) ∨
    ((∀ value, ¬ GivesLength line value) ∧ readHeader line = .ok .other) ∨
    ∃ value error, GivesLength line value ∧ (∀ n, ¬ Text.Denotes (Text.trimChars value) n) ∧
      readHeader line = .error error := by
  obtain ⟨text, shown, some_other⟩ := filled
  rw [readHeader_of_text shown some_other]
  have pieces := List.takeWhile_append_dropWhile (p := (· != ':')) (l := text.toList)
  have before : ':' ∉ text.toList.takeWhile (· != ':') := by
    intro mem
    have differs := List.mem_takeWhile_imp mem
    simp at differs
  cases found : text.toList.dropWhile (· != ':') with
  | nil =>
    refine .inr (.inl ⟨?_, rfl⟩)
    rintro value ⟨own, name, again, split, -, -⟩
    cases shown.symm.trans again
    have colon : ':' ∈ text.toList := by simp [split]
    exact absurd (List.dropWhile_eq_nil_iff.1 found ':' colon) (by decide)
  | cons colon value =>
    obtain rfl : colon = ':' := by
      have first := List.head?_dropWhile_not (· != ':') text.toList
      simpa [found] using first
    rw [found] at pieces
    dsimp only
    split
    · rename_i named
      have gives : GivesLength line value := ⟨text, _, shown, pieces.symm, before, named⟩
      cases number : Text.natural64? (String.ofList (Text.trimChars value)) with
      | some n => exact .inl ⟨n, ⟨value, gives, Text.natural64?_eq_some_iff.1 number⟩, rfl⟩
      | none =>
        refine .inr (.inr ⟨value, _, gives, ?_, rfl⟩)
        intro n denotes
        cases number.symm.trans (Text.natural64?_eq_some_iff.2 denotes)
    · rename_i named
      refine .inr (.inl ⟨?_, rfl⟩)
      rintro other ⟨own, name, again, split, apart, lengthy⟩
      cases shown.symm.trans again
      obtain ⟨rfl, rfl⟩ := splits_unique before apart (pieces.trans split)
      exact named lengthy

theorem filled_of_readHeader {header : Header} (read : readHeader line = .ok header)
    (other : header ≠ .blank) : Filled line := by
  unfold readHeader at read
  split at read
  · cases read
  · rename_i text shown
    refine ⟨text, shown, ?_⟩
    by_contra none
    have returns : ∀ c ∈ text.toList, c = '\r' :=
      fun c mem => by_contra fun differs => none ⟨c, mem, differs⟩
    have stripped : (Text.dropEnd (· == '\r') text.toList).isEmpty = true := by
      rw [List.isEmpty_iff, Text.dropEnd_eq_rdropWhile, List.rdropWhile_eq_nil_iff]
      exact fun c mem => by simp [returns c mem]
    simp only [stripped, if_true] at read
    exact other (Except.ok.inj read).symm

theorem readHeader_eq_contentLength_iff :
    readHeader line = .ok (.contentLength n) ↔ Filled line ∧ Announces line n := by
  constructor
  · intro read
    have filled := filled_of_readHeader read (by simp)
    obtain ⟨m, announces, same⟩ | ⟨-, same⟩ | ⟨value, error, -, -, same⟩ :=
      readHeader_of_filled filled
    · cases read.symm.trans same
      exact ⟨filled, announces⟩
    · cases read.symm.trans same
    · cases read.symm.trans same
  · rintro ⟨filled, announces⟩
    obtain ⟨m, own, same⟩ | ⟨silent, -⟩ | ⟨other, error, given, wrong, -⟩ :=
      readHeader_of_filled filled
    · rw [same, announces.unique own]
    · obtain ⟨value, gives, -⟩ := announces
      exact absurd gives (silent value)
    · obtain ⟨value, gives, denotes⟩ := announces
      cases gives.unique given
      exact absurd denotes (wrong n)

theorem readHeader_eq_other_iff :
    readHeader line = .ok .other ↔ Filled line ∧ ∀ value, ¬ GivesLength line value := by
  constructor
  · intro read
    have filled := filled_of_readHeader read (by simp)
    obtain ⟨m, -, same⟩ | ⟨silent, -⟩ | ⟨value, error, -, -, same⟩ := readHeader_of_filled filled
    · cases read.symm.trans same
    · exact ⟨filled, silent⟩
    · cases read.symm.trans same
  · rintro ⟨filled, silent⟩
    obtain ⟨m, ⟨value, gives, -⟩, -⟩ | ⟨-, same⟩ | ⟨value, error, gives, -, -⟩ :=
      readHeader_of_filled filled
    · exact absurd gives (silent value)
    · exact same
    · exact absurd gives (silent value)

theorem readHeader_returns (k : Nat) :
    readHeader (List.replicate k carriageReturn) = .ok .blank := by
  have ascii : ∀ c ∈ (String.ofList (List.replicate k '\r')).toList, c.val < 128 := by
    intro c mem
    rw [String.toList_ofList] at mem
    rw [List.eq_of_mem_replicate mem]
    decide
  have bytes : bytesOf (String.ofList (List.replicate k '\r'))
      = List.replicate k carriageReturn := by
    rw [bytesOf_of_ascii ascii, String.toList_ofList, List.map_replicate]
    rfl
  have stripped : (Text.dropEnd (· == '\r') (List.replicate k '\r')).isEmpty = true := by
    rw [List.isEmpty_iff, Text.dropEnd_eq_rdropWhile, List.rdropWhile_eq_nil_iff]
    exact fun c mem => by simp [List.eq_of_mem_replicate mem]
  unfold readHeader
  rw [← bytes, text?_bytesOf]
  simp only [String.toList_ofList, stripped, if_true]

theorem readHeader_eq_blank_iff :
    readHeader line = .ok .blank ↔ line = List.replicate line.length carriageReturn := by
  constructor
  · intro blank
    exact List.eq_replicate_of_mem (eq_carriageReturn_of_blank blank)
  · intro returns
    rw [returns]
    exact readHeader_returns _

/-! ## Blocks of header lines -/

def joinLines (lines : List (List UInt8)) : List UInt8 :=
  lines.flatMap (· ++ [lineFeed])

theorem joinLines_cons (line : List UInt8) (lines : List (List UInt8)) (rest : List UInt8) :
    joinLines (line :: lines) ++ rest = line ++ lineFeed :: (joinLines lines ++ rest) := by
  simp [joinLines]

/-- Each line can stand in a header: it is not empty, and if it gives a length, that is a number. -/
structure HeaderLine (line : List UInt8) : Prop where
  unbroken : lineFeed ∉ line
  filled : Filled line
  numbered : ∀ value, GivesLength line value → ∃ n, Text.Denotes (Text.trimChars value) n

/-- Of the lines that give a length this is the last, and the length. -/
def LastAnnounced (lines : List (List UInt8)) (n : Nat) : Prop :=
  ∃ front line back, lines = front ++ line :: back ∧ Announces line n ∧
    ∀ other ∈ back, ∀ value, ¬ GivesLength other value

inductive Leads : Option Nat → List (List UInt8) → Option Nat → Prop where
  | nil (length : Option Nat) : Leads length [] length
  | announced {length last : Option Nat} {line : List UInt8} {lines : List (List UInt8)} {n : Nat}
      (unbroken : lineFeed ∉ line) (header : readHeader line = .ok (.contentLength n))
      (rest : Leads (some n) lines last) : Leads length (line :: lines) last
  | other {length last : Option Nat} {line : List UInt8} {lines : List (List UInt8)}
      (unbroken : lineFeed ∉ line) (header : readHeader line = .ok .other)
      (rest : Leads length lines last) : Leads length (line :: lines) last

theorem headerLine_of_announces (unbroken : lineFeed ∉ line)
    (header : readHeader line = .ok (.contentLength n)) : HeaderLine line := by
  obtain ⟨filled, value, gives, denotes⟩ := readHeader_eq_contentLength_iff.1 header
  exact ⟨unbroken, filled, fun other given => ⟨n, gives.unique given ▸ denotes⟩⟩

theorem headerLine_of_other (unbroken : lineFeed ∉ line) (header : readHeader line = .ok .other) :
    HeaderLine line := by
  obtain ⟨filled, silent⟩ := readHeader_eq_other_iff.1 header
  exact ⟨unbroken, filled, fun value gives => absurd gives (silent value)⟩

theorem HeaderLine.read (header : HeaderLine line) :
    (∃ n, Announces line n ∧ readHeader line = .ok (.contentLength n)) ∨
      (∀ value, ¬ GivesLength line value) ∧ readHeader line = .ok .other := by
  obtain announced | other | ⟨value, error, gives, wrong, -⟩ := readHeader_of_filled header.filled
  · exact .inl announced
  · exact .inr other
  · obtain ⟨n, denotes⟩ := header.numbered value gives
    exact absurd denotes (wrong n)

theorem lastAnnounced_cons :
    LastAnnounced (line :: lines) n ↔ LastAnnounced lines n ∨
      Announces line n ∧ ∀ other ∈ lines, ∀ value, ¬ GivesLength other value := by
  constructor
  · rintro ⟨front, last, back, split, announces, silent⟩
    cases front with
    | nil =>
      obtain ⟨rfl, rfl⟩ := List.cons.inj split
      exact .inr ⟨announces, silent⟩
    | cons first front =>
      obtain ⟨rfl, rfl⟩ := List.cons.inj split
      exact .inl ⟨front, last, back, rfl, announces, silent⟩
  · rintro (⟨front, last, back, rfl, announces, silent⟩ | ⟨announces, silent⟩)
    · exact ⟨line :: front, last, back, rfl, announces, silent⟩
    · exact ⟨[], line, lines, rfl, announces, silent⟩

/-- Lines lead to the length that the last of them gives, and to none if they give none. -/
theorem leads_iff {last : Option Nat} :
    Leads length lines last ↔ (∀ line ∈ lines, HeaderLine line) ∧
      ((∃ n, last = some n ∧ LastAnnounced lines n) ∨
        last = length ∧ ∀ line ∈ lines, ∀ value, ¬ GivesLength line value) := by
  constructor
  · intro leads
    induction leads with
    | nil length => simp
    | @announced length last line lines n unbroken header rest ih =>
      obtain ⟨each, ends⟩ := ih
      refine ⟨List.forall_mem_cons.2 ⟨headerLine_of_announces unbroken header, each⟩, .inl ?_⟩
      obtain ⟨m, rfl, announced⟩ | ⟨rfl, silent⟩ := ends
      · exact ⟨m, rfl, lastAnnounced_cons.2 (.inl announced)⟩
      · have announces := (readHeader_eq_contentLength_iff.1 header).2
        exact ⟨n, rfl, lastAnnounced_cons.2 (.inr ⟨announces, silent⟩)⟩
    | @other length last line lines unbroken header rest ih =>
      obtain ⟨each, ends⟩ := ih
      refine ⟨List.forall_mem_cons.2 ⟨headerLine_of_other unbroken header, each⟩, ?_⟩
      obtain ⟨m, rfl, announced⟩ | ⟨rfl, silent⟩ := ends
      · exact .inl ⟨m, rfl, lastAnnounced_cons.2 (.inl announced)⟩
      · exact .inr ⟨rfl, List.forall_mem_cons.2 ⟨(readHeader_eq_other_iff.1 header).2, silent⟩⟩
  · rintro ⟨each, ends⟩
    induction lines generalizing length with
    | nil =>
      obtain ⟨n, -, front, line, back, split, -⟩ | ⟨rfl, -⟩ := ends
      · simp at split
      · exact .nil _
    | cons line lines ih =>
      obtain ⟨first, others⟩ := List.forall_mem_cons.1 each
      simp only [lastAnnounced_cons, List.forall_mem_cons] at ends
      obtain ⟨m, announces, header⟩ | ⟨silent, header⟩ := first.read
      · refine .announced first.unbroken header (ih others ?_)
        obtain ⟨n, rfl, announced | ⟨given, after⟩⟩ | ⟨-, none, -⟩ := ends
        · exact .inl ⟨n, rfl, announced⟩
        · exact .inr ⟨congrArg some (given.unique announces), after⟩
        · obtain ⟨value, gives, -⟩ := announces
          exact absurd gives (none value)
      · refine .other first.unbroken header (ih others ?_)
        obtain ⟨n, rfl, announced | ⟨⟨value, gives, -⟩, -⟩⟩ | ⟨rfl, -, after⟩ := ends
        · exact .inl ⟨n, rfl, announced⟩
        · exact absurd gives (silent value)
        · exact .inr ⟨rfl, after⟩

/-! ## Reading a header -/

theorem nextLine?_eq_some_iff :
    nextLine? bytes = some (line, rest) ↔ lineFeed ∉ line ∧
      (bytes = line ++ lineFeed :: rest ∨ bytes = line ∧ rest = [] ∧ line ≠ []) := by
  constructor
  · intro next
    have pieces := List.takeWhile_append_dropWhile (p := (· != lineFeed)) (l := bytes)
    have plain : lineFeed ∉ bytes.takeWhile (· != lineFeed) := by
      intro mem
      have differs := List.mem_takeWhile_imp mem
      simp at differs
    cases bytes with
    | nil => cases next
    | cons b bytes =>
      obtain ⟨rfl, rfl⟩ := Prod.mk.inj (Option.some.inj next)
      refine ⟨plain, ?_⟩
      cases found : (b :: bytes).dropWhile (· != lineFeed) with
      | nil =>
        rw [found, List.append_nil] at pieces
        exact .inr ⟨pieces.symm, rfl, by simp [pieces]⟩
      | cons c rest =>
        obtain rfl : c = lineFeed := by
          have first := List.head?_dropWhile_not (· != lineFeed) (b :: bytes)
          simpa [found] using first
        rw [found] at pieces
        exact .inl pieces.symm
  · rintro ⟨plain, rfl | ⟨rfl, rfl, filled⟩⟩
    · exact nextLine?_append plain rest
    · exact nextLine?_last plain filled

/-- The line that ends a header has nothing but carriage returns on it. Only at the end of the
stream may its line feed be missing. -/
inductive EmptyLine : List UInt8 → List UInt8 → Prop where
  | broken (k : Nat) (rest : List UInt8) :
      EmptyLine (List.replicate k carriageReturn ++ [lineFeed]) rest
  | last (k : Nat) : EmptyLine (List.replicate (k + 1) carriageReturn) []

theorem plain_returns (k : Nat) : lineFeed ∉ List.replicate k carriageReturn :=
  fun mem => absurd (List.eq_of_mem_replicate mem) (by decide)

theorem EmptyLine.next {blank : List UInt8} (empty : EmptyLine blank rest) :
    ∃ k, nextLine? (blank ++ rest) = some (List.replicate k carriageReturn, rest) := by
  cases empty with
  | broken k rest =>
    refine ⟨k, nextLine?_eq_some_iff.2 ⟨plain_returns k, .inl ?_⟩⟩
    simp
  | last k =>
    refine ⟨k + 1, nextLine?_eq_some_iff.2 ⟨plain_returns _, .inr ⟨?_, rfl, by simp⟩⟩⟩
    simp

theorem readHeaders?_eq_some_iff :
    readHeaders? length bytes = .ok (some (n, rest)) ↔
      ∃ lines blank, bytes = joinLines lines ++ (blank ++ rest) ∧ Leads length lines (some n) ∧
        EmptyLine blank rest := by
  constructor
  · intro read
    fun_induction readHeaders? length bytes with
    | case1 => cases read
    | case2 => cases read
    | case3 bytes line rest next header length =>
      cases read
      obtain ⟨-, rfl | ⟨rfl, rfl, filled⟩⟩ := nextLine?_eq_some_iff.1 next
      · refine ⟨[], line ++ [lineFeed], by simp [joinLines], .nil _, ?_⟩
        rw [readHeader_eq_blank_iff.1 header]
        exact .broken _ _
      · refine ⟨[], bytes, by simp [joinLines], .nil _, ?_⟩
        obtain ⟨k, long⟩ := Nat.exists_eq_succ_of_ne_zero
          (fun short => filled (List.length_eq_zero_iff.1 short))
        rw [readHeader_eq_blank_iff.1 header, long]
        exact .last k
    | case4 => cases read
    | case5 length bytes line rest next m header ih =>
      obtain ⟨unbroken, rfl | ⟨rfl, rfl, -⟩⟩ := nextLine?_eq_some_iff.1 next
      · obtain ⟨lines, blank, rfl, leads, empty⟩ := ih read
        exact ⟨line :: lines, blank, (joinLines_cons ..).symm, .announced unbroken header leads,
          empty⟩
      · rw [readHeaders?_nil] at read
        cases read
    | case6 length bytes line rest next header ih =>
      obtain ⟨unbroken, rfl | ⟨rfl, rfl, -⟩⟩ := nextLine?_eq_some_iff.1 next
      · obtain ⟨lines, blank, rfl, leads, empty⟩ := ih read
        exact ⟨line :: lines, blank, (joinLines_cons ..).symm, .other unbroken header leads, empty⟩
      · rw [readHeaders?_nil] at read
        cases read
  · rintro ⟨lines, blank, rfl, leads, empty⟩
    generalize reached : some n = last at leads
    induction leads with
    | nil length =>
      obtain ⟨k, next⟩ := empty.next
      subst reached
      change readHeaders? (some n) (blank ++ rest) = _
      rw [readHeaders?_of_line next, readHeader_returns]
      rfl
    | announced unbroken header others ih =>
      rw [joinLines_cons, readHeaders?_of_line (nextLine?_append unbroken _), header]
      exact ih reached
    | other unbroken header others ih =>
      rw [joinLines_cons, readHeaders?_of_line (nextLine?_append unbroken _), header]
      exact ih reached

/-! ## Frames -/

/-- A frame with this payload stands at the front of a stream. -/
def FrameAt (bytes : List UInt8) (payload : String) (rest : List UInt8) : Prop :=
  ∃ lines blank n, bytes = joinLines lines ++ (blank ++ (bytesOf payload ++ rest)) ∧
    (∀ line ∈ lines, HeaderLine line) ∧ LastAnnounced lines n ∧
    EmptyLine blank (bytesOf payload ++ rest) ∧ n ≤ maxFrameBytes ∧ (bytesOf payload).length = n

theorem readPayload_eq_ok_iff :
    readPayload n bytes = .ok (payload, rest) ↔
      n ≤ maxFrameBytes ∧ bytes = bytesOf payload ++ rest ∧ (bytesOf payload).length = n := by
  constructor
  · intro read
    unfold readPayload at read
    dsimp only at read
    split at read
    · cases read
    · rename_i fits
      split at read
      · cases read
      · rename_i long
        split at read
        · rename_i text shown
          cases read
          rw [bytesOf_of_text? shown]
          refine ⟨Nat.not_lt.1 fits, (List.take_append_drop n bytes).symm, ?_⟩
          rw [List.length_take] at long ⊢
          omega
        · cases read
  · rintro ⟨fits, rfl, size⟩
    rw [length_bytesOf] at size
    rw [← size] at fits ⊢
    exact readPayload_whole fits rest

theorem read?_eq_ok_iff {found : Option (String × List UInt8)} :
    read? bytes = .ok found ↔ (found = none ∧ readHeaders? none bytes = .ok none) ∨
      ∃ n after frame, found = some frame ∧ readHeaders? none bytes = .ok (some (n, after)) ∧
        readPayload n after = .ok frame := by
  unfold read?
  cases readHeaders? none bytes with
  | error error => simp [bind, Except.bind]
  | ok header =>
    cases header with
    | none => simp [bind, Except.bind, pure, Except.pure, eq_comm]
    | some header =>
      obtain ⟨n, after⟩ := header
      change (some <$> readPayload n after) = _ ↔ _
      cases read : readPayload n after with
      | error error => simp [Functor.map, Except.map, read]
      | ok frame =>
        constructor
        · intro same
          exact .inr ⟨n, after, frame, (Except.ok.inj same).symm, rfl, read⟩
        · rintro (⟨-, header⟩ | ⟨m, own, other, rfl, header, given⟩)
          · cases header
          · cases header
            cases read.symm.trans given
            rfl

theorem read?_eq_some_iff :
    read? bytes = .ok (some (payload, rest)) ↔ FrameAt bytes payload rest := by
  have opened : read? bytes = .ok (some (payload, rest)) ↔
      ∃ n after, readHeaders? none bytes = .ok (some (n, after)) ∧
        readPayload n after = .ok (payload, rest) := by
    simp [read?_eq_ok_iff]
  rw [opened]
  simp only [readHeaders?_eq_some_iff, readPayload_eq_ok_iff, leads_iff]
  constructor
  · rintro ⟨n, after, ⟨lines, blank, rfl, ⟨each, announced⟩, empty⟩, fits, rfl, size⟩
    obtain ⟨m, same, last⟩ | ⟨absent, -⟩ := announced
    · cases same
      exact ⟨lines, blank, n, rfl, each, last, empty, fits, size⟩
    · cases absent
  · rintro ⟨lines, blank, n, rfl, each, last, empty, fits, size⟩
    exact ⟨n, _, ⟨lines, blank, rfl, ⟨each, .inl ⟨n, rfl, last⟩⟩, empty⟩, fits, rfl, size⟩

/-! ## Frame after frame -/

inductive Reads : List UInt8 → List String → List UInt8 → Prop where
  | nil (bytes : List UInt8) : Reads bytes [] bytes
  | cons {bytes rest last : List UInt8} {payload : String} {payloads : List String}
      (first : read? bytes = .ok (some (payload, rest))) (others : Reads rest payloads last) :
      Reads bytes (payload :: payloads) last

theorem Reads.length_le {payloads : List String} (reads : Reads bytes payloads rest) :
    payloads.length + rest.length ≤ bytes.length := by
  induction reads with
  | nil bytes => simp
  | cons first others ih =>
    have shorter := length_of_read? first
    rw [List.length_cons]
    omega

theorem reads_readAll (bytes : List UInt8) :
    ∃ rest, Reads bytes (readAll bytes).1 rest ∧ GivesNothing rest := by
  fun_induction readAll bytes with
  | case1 bytes error read => exact ⟨bytes, .nil _, .inr ⟨error, read⟩⟩
  | case2 bytes read => exact ⟨bytes, .nil _, .inl read⟩
  | case3 bytes payload rest read payloads error all ih =>
    obtain ⟨last, reads, nothing⟩ := ih
    rw [all] at reads
    exact ⟨last, .cons read reads, nothing⟩

/-- From the front of a stream a payload is read when a frame with this payload stands there, and
then the stream goes on behind the frame. Otherwise nothing is given. Frames can be read one after
the other no more often than there are bytes, until nothing is given. -/
theorem reads_exactly_frames (bytes : List UInt8) :
    (∀ payload rest, read? bytes = .ok (some (payload, rest)) ↔ FrameAt bytes payload rest) ∧
    ((∀ payload rest, ¬ FrameAt bytes payload rest) → GivesNothing bytes) ∧
    (∀ payloads rest, Reads bytes payloads rest → payloads.length ≤ bytes.length) ∧
    ∃ payloads rest, Reads bytes payloads rest ∧ GivesNothing rest := by
  refine ⟨fun payload rest => read?_eq_some_iff, ?_, ?_, ?_⟩
  · intro noFrame
    cases read : read? bytes with
    | error error => exact .inr ⟨error, read⟩
    | ok found =>
      cases found with
      | none => exact .inl read
      | some found => exact absurd (read?_eq_some_iff.1 read) (noFrame found.1 found.2)
  · intro payloads rest reads
    exact Nat.le_trans (Nat.le_add_right _ _) reads.length_le
  · obtain ⟨rest, reads, nothing⟩ := reads_readAll bytes
    exact ⟨_, rest, reads, nothing⟩

end Framing

end DebugLink
