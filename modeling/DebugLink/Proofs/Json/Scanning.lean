import DebugLink.Json.Parser
import DebugLink.Json.Printer
import Mathlib.Data.List.TakeDrop
import Mathlib.Data.List.TakeWhile

/-!
# Scanning what was written

A value without doubles is written as the tokens `Json.tokens` lists, in brackets, colons and
commas. `Json.scanFrom_chars` says that the scanner takes its text for these tokens, whatever text
comes after it. Only a number has to be kept apart from what follows (`Json.Apart`): it ends at the
first character that no number goes on with.
-/

set_option autoImplicit false

namespace DebugLink

/-! ## Integers -/

namespace Number

theorem exists_toDigits (n : Nat) : ∃ first more, Nat.toDigits 10 n = first :: more :=
  List.exists_cons_of_ne_nil Nat.toDigits_ne_nil

theorem eq_zero_of_head? (n : Nat) (zero : (Nat.toDigits 10 n).head? = some '0') : n = 0 := by
  induction n using Nat.strongRecOn with
  | ind n ih =>
    rw [Nat.toDigits_eq_if (by decide)] at zero
    split at zero
    · next small =>
      have digits : ∀ m < 10, Nat.digitChar m = '0' → m = 0 := by decide
      exact digits n small (Option.some.inj zero)
    · next large =>
      obtain ⟨first, more, written⟩ := exists_toDigits (n / 10)
      have := ih (n / 10) (by omega) (by simpa [written] using zero)
      omega

theorem isDigit_of_mem_toDigits {n : Nat} {c : Char} (mem : c ∈ Nat.toDigits 10 n) :
    c.isDigit = true :=
  Nat.isDigit_of_mem_toDigits (by decide) (by decide) mem

theorem splitDigits_toDigits (n : Nat) :
    splitDigits (Nat.toDigits 10 n) = (Nat.toDigits 10 n, []) := by
  have digits : ∀ c ∈ Nat.toDigits 10 n, c.isDigit = true := fun _ => isDigit_of_mem_toDigits
  rw [splitDigits, List.span_eq_takeWhile_dropWhile, List.takeWhile_eq_self_iff.2 digits,
    List.dropWhile_eq_nil_iff.2 digits]

/-- The digits of a natural, with a sign or without, are read as the integer they spell. -/
theorem readTail_toDigits {negative : Bool} {n : Nat} {value : Int}
    {lower : -0x8000000000000000 ≤ value} {upper : value < 0x10000000000000000}
    (signed : Double.applySign negative n = value) (nonzero : negative = true → n ≠ 0) :
    readTail negative (Nat.toDigits 10 n) [] = some (.integer value lower upper) := by
  have whole : ofInt? value = some (.integer value lower upper) := dif_pos ⟨lower, upper⟩
  have unmarked : (!(negative && n == 0)) = true := by cases negative <;> simp_all
  simp [readTail, ofParts?, Nat.ofDigitChars_ten_toDigits, unmarked, signed, whole]

theorem read?_chars (value : Int) (lower : -0x8000000000000000 ≤ value)
    (upper : value < 0x10000000000000000) :
    read? (chars (.integer value lower upper)) = some (.integer value lower upper) := by
  obtain ⟨first, more, written⟩ := exists_toDigits value.natAbs
  have digit : first.isDigit = true :=
    isDigit_of_mem_toDigits (n := value.natAbs) (by simp [written])
  have led : ¬ (first = '0' ∧ more ≠ []) := by
    rintro ⟨rfl, longer⟩
    have zero := eq_zero_of_head? value.natAbs (by rw [written]; rfl)
    rw [zero] at written
    cases written
    exact longer rfl
  have unsigned : first ≠ '-' := by
    rintro rfl
    cases digit
  have split := splitDigits_toDigits value.natAbs
  rw [chars]
  split
  · next negative =>
    have signed : Double.applySign true value.natAbs = value := by
      rw [Double.applySign, if_pos rfl]
      omega
    have tail := @readTail_toDigits true value.natAbs value lower upper signed (by omega)
    simp_all [read?]
  · next nonnegative =>
    have signed : Double.applySign false value.natAbs = value := by
      rw [Double.applySign, if_neg Bool.false_ne_true]
      omega
    have tail := @readTail_toDigits false value.natAbs value lower upper signed nofun
    simp_all [read?]

end Number

namespace Json

/-! ## Tokens -/

mutual

def tokens : Json → List Token
  | .string s => [.text s]
  | .array items => .openArray :: tokensItems items ++ [.closeArray]
  | .object members => .openObject :: tokensMembers members ++ [.closeObject]
  | value => [.scalar value]

def tokensItems : List Json → List Token
  | [] => []
  | [item] => tokens item
  | item :: rest => tokens item ++ .comma :: tokensItems rest

def tokensMembers : List (String × Json) → List Token
  | [] => []
  | [(key, value)] => .text key :: .colon :: tokens value
  | (key, value) :: rest => .text key :: .colon :: tokens value ++ .comma :: tokensMembers rest

end

mutual

def Integral : Json → Prop
  | .number (.double _) => False
  | .array items => IntegralItems items
  | .object members => IntegralMembers members
  | _ => True

def IntegralItems : List Json → Prop
  | [] => True
  | item :: rest => Integral item ∧ IntegralItems rest

def IntegralMembers : List (String × Json) → Prop
  | [] => True
  | (_, value) :: rest => Integral value ∧ IntegralMembers rest

end

/-! ## Scanning on -/

open Scanner

/-- The tokens of a text of which a part has been scanned. -/
def scanFrom (s : Scanner.State) (cs : List Char) : Option (List Token) :=
  (Scanner.run s cs).bind Scanner.finish

/-- A text that no number goes on with. -/
def Apart (rest : List Char) : Prop := ∀ c ∈ rest.head?, isNumberPart c = false

theorem scanFrom_append {s t : Scanner.State} {cs : List Char} (scanned : Scanner.run s cs = some t)
    (ds : List Char) : scanFrom s (cs ++ ds) = scanFrom t ds := by
  rw [scanFrom, Scanner.run_append, scanned]
  rfl

theorem scanFrom_cons {s next : Scanner.State} {c : Char} (stepped : Scanner.step s c = some next)
    (cs : List Char) : scanFrom s (c :: cs) = scanFrom next cs :=
  scanFrom_append (by rw [Scanner.run, stepped]; rfl : Scanner.run s [c] = some next) cs

variable {ts : List Token} {seen rest : List Char}

/-! ## Strings -/

theorem hexValue?_digitChar : ∀ d < 16, hexValue? (Nat.digitChar d) = some d := by decide

theorem scanFrom_unicode {c : Char} (control : c.toNat < 0x20) :
    scanFrom ⟨ts, .unicode seen none 4 0⟩
        ('0' :: '0' :: Nat.digitChar (c.toNat / 16) :: Nat.digitChar (c.toNat % 16) :: rest)
      = scanFrom ⟨ts, .text (c :: seen)⟩ rest := by
  have high := hexValue?_digitChar (c.toNat / 16) (by omega)
  have low := hexValue?_digitChar (c.toNat % 16) (by omega)
  have code : c.toNat / 16 * 16 + c.toNat % 16 = c.toNat := by omega
  have plane : finishUnicode seen none c.toNat = some (.text (c :: seen)) := by
    have below : ¬ 0xDC00 ≤ c.toNat := by omega
    have under : ¬ 0xD800 ≤ c.toNat := by omega
    simp [finishUnicode, below, under, Char.ofNat_toNat]
  have zero : hexValue? '0' = some 0 := rfl
  have stepped : Scanner.run ⟨ts, .unicode seen none 4 0⟩
      ['0', '0', Nat.digitChar (c.toNat / 16), Nat.digitChar (c.toNat % 16)]
      = some ⟨ts, .text (c :: seen)⟩ := by
    simp [Scanner.run, Scanner.step, zero, high, low, code, plane]
  exact scanFrom_append stepped rest

theorem scanFrom_escape (c : Char) :
    scanFrom ⟨ts, .text seen⟩ (escape c ++ rest) = scanFrom ⟨ts, .text (c :: seen)⟩ rest := by
  rw [escape]
  split_ifs with quote slash back feed line carriage tab control
  · subst quote; rfl
  · subst slash; rfl
  · subst back; rfl
  · subst feed; rfl
  · subst line; rfl
  · subst carriage; rfl
  · subst tab; rfl
  · exact scanFrom_unicode control
  · exact scanFrom_cons (by simp [Scanner.step, quote, slash, control]) rest

theorem scanFrom_escapes (cs : List Char) :
    scanFrom ⟨ts, .text seen⟩ (cs.flatMap escape ++ '"' :: rest)
      = scanFrom ⟨.text (String.ofList (seen.reverse ++ cs)) :: ts, .between⟩ rest := by
  induction cs generalizing seen with
  | nil =>
    rw [List.append_nil]
    exact scanFrom_cons rfl rest
  | cons c cs ih =>
    rw [List.flatMap_cons, List.append_assoc, scanFrom_escape, ih]
    simp

theorem scanFrom_quote (s : String) :
    scanFrom ⟨ts, .between⟩ (quote s ++ rest) = scanFrom ⟨.text s :: ts, .between⟩ rest := by
  rw [quote, List.cons_append, List.cons_append, List.append_assoc, scanFrom_cons rfl]
  simpa using @scanFrom_escapes ts [] rest s.toList

/-! ## Numbers -/

/-- A number ends where the text goes on with something else, or not at all. -/
theorem scanFrom_number {n : Number} (apart : Apart rest) (cs : List Char)
    (parts : ∀ c ∈ cs, isNumberPart c = true) (read : Number.read? (seen.reverse ++ cs) = some n) :
    scanFrom ⟨ts, .number seen⟩ (cs ++ rest)
      = scanFrom ⟨.scalar (.number n) :: ts, .between⟩ rest := by
  induction cs generalizing seen with
  | nil =>
    rw [List.append_nil] at read
    cases rest with
    | nil => simp [scanFrom, Scanner.run, Scanner.finish, read]
    | cons c rest =>
      have other : isNumberPart c = false := apart c rfl
      simp [scanFrom, Scanner.run, Scanner.step, other, read]
  | cons c cs ih =>
    have part : isNumberPart c = true := parts c List.mem_cons_self
    have kept : Scanner.step ⟨ts, .number seen⟩ c = some ⟨ts, .number (c :: seen)⟩ := if_pos part
    rw [List.cons_append, scanFrom_cons kept]
    exact ih (fun d mem => parts d (List.mem_cons_of_mem _ mem)) (by simpa using read)

theorem step_digit {c : Char} (digit : c.isDigit = true) :
    Scanner.step ⟨ts, .between⟩ c = some ⟨ts, .number [c]⟩ := by
  have other : ∀ d, d.isDigit = false → c ≠ d := by
    rintro d letter rfl
    exact absurd digit (by simp [letter])
  simp [Scanner.step, stepBetween, isBlank, other, digit]

theorem scanFrom_integer {value : Int} {lower : -0x8000000000000000 ≤ value}
    {upper : value < 0x10000000000000000} (apart : Apart rest) :
    scanFrom ⟨ts, .between⟩ (Number.chars (.integer value lower upper) ++ rest)
      = scanFrom ⟨.scalar (.number (.integer value lower upper)) :: ts, .between⟩ rest := by
  have read := Number.read?_chars value lower upper
  have parts : ∀ c ∈ Nat.toDigits 10 value.natAbs, isNumberPart c = true := by
    intro c mem
    simp [isNumberPart, Number.isDigit_of_mem_toDigits mem]
  rw [Number.chars] at read ⊢
  split at read
  · next negative =>
    rw [if_pos negative, List.cons_append, scanFrom_cons rfl]
    exact scanFrom_number apart _ parts read
  · next nonnegative =>
    obtain ⟨first, more, written⟩ := Number.exists_toDigits value.natAbs
    have digit : first.isDigit = true :=
      Number.isDigit_of_mem_toDigits (n := value.natAbs) (by simp [written])
    rw [if_neg nonnegative]
    rw [written] at read parts ⊢
    rw [List.cons_append, scanFrom_cons (step_digit digit)]
    exact scanFrom_number apart more (fun c mem => parts c (List.mem_cons_of_mem _ mem)) read

/-! ## Values -/

theorem apart_cons {c : Char} (other : isNumberPart c = false) : Apart (c :: rest) := by
  rintro _ ⟨⟩
  exact other

mutual

/-- A value without doubles is scanned as its tokens, and the scan goes on with the text after. -/
theorem scanFrom_chars (ts : List Token) {rest : List Char} (apart : Apart rest) :
    ∀ value : Json, value.Integral →
      scanFrom ⟨ts, .between⟩ (value.chars ++ rest)
        = scanFrom ⟨value.tokens.reverse ++ ts, .between⟩ rest
  | .null, _ => rfl
  | .bool true, _ => rfl
  | .bool false, _ => rfl
  | .number (.integer value lower upper), _ => scanFrom_integer apart
  | .number (.double _), integral => integral.elim
  | .string s, _ => scanFrom_quote s
  | .array items, integral => by
    have close : Apart (']' :: rest) := apart_cons rfl
    rw [chars, List.cons_append, List.cons_append, List.append_assoc, List.singleton_append,
      scanFrom_cons rfl, scanFrom_charsItems _ close items integral, scanFrom_cons rfl]
    simp [tokens]
  | .object members, integral => by
    have close : Apart ('\x7d' :: rest) := apart_cons rfl
    rw [chars, List.cons_append, List.cons_append, List.append_assoc, List.singleton_append,
      scanFrom_cons rfl, scanFrom_charsMembers _ close members integral, scanFrom_cons rfl]
    simp [tokens]

theorem scanFrom_charsItems (ts : List Token) {rest : List Char} (apart : Apart rest) :
    ∀ items : List Json, IntegralItems items →
      scanFrom ⟨ts, .between⟩ (charsItems items ++ rest)
        = scanFrom ⟨(tokensItems items).reverse ++ ts, .between⟩ rest
  | [], _ => rfl
  | [item], integral => scanFrom_chars ts apart item integral.1
  | item :: next :: more, integral => by
    have comma : Apart (',' :: (charsItems (next :: more) ++ rest)) := apart_cons rfl
    have written : charsItems (item :: next :: more)
        = item.chars ++ ',' :: charsItems (next :: more) := rfl
    rw [written, List.append_assoc, List.cons_append, scanFrom_chars ts comma item integral.1,
      scanFrom_cons rfl, scanFrom_charsItems _ apart (next :: more) integral.2]
    simp [tokensItems]

theorem scanFrom_charsMembers (ts : List Token) {rest : List Char} (apart : Apart rest) :
    ∀ members : List (String × Json), IntegralMembers members →
      scanFrom ⟨ts, .between⟩ (charsMembers members ++ rest)
        = scanFrom ⟨(tokensMembers members).reverse ++ ts, .between⟩ rest
  | [], _ => rfl
  | [(key, value)], integral => by
    rw [charsMembers, List.append_assoc, List.cons_append, scanFrom_quote, scanFrom_cons rfl,
      scanFrom_chars _ apart value integral.1]
    simp [tokensMembers]
  | (key, value) :: next :: more, integral => by
    have comma : Apart (',' :: (charsMembers (next :: more) ++ rest)) := apart_cons rfl
    have written : charsMembers ((key, value) :: next :: more)
        = quote key ++ ':' :: (value.chars ++ ',' :: charsMembers (next :: more)) := by
      simp [charsMembers]
    rw [written, List.append_assoc, List.cons_append, List.append_assoc, List.cons_append,
      scanFrom_quote, scanFrom_cons rfl, scanFrom_chars _ comma value integral.1,
      scanFrom_cons rfl, scanFrom_charsMembers _ apart (next :: more) integral.2]
    simp [tokensMembers]

end

theorem scan_chars {value : Json} (integral : value.Integral) :
    Token.scan value.chars = some value.tokens := by
  have apart : Apart [] := fun _ none => nomatch none
  have scanned := scanFrom_chars [] apart value integral
  simpa [Token.scan, scanFrom, Scanner.run, Scanner.finish, Scanner.State.start] using scanned

end Json

end DebugLink
