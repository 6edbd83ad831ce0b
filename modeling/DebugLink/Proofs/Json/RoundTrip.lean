import DebugLink.Proofs.Json.Scanning

/-!
# Reading back what was written

The reader takes the tokens of an ordered value for that value when there is room for its nesting,
and goes on with the tokens after it (`Json.run_tokens`). With the scan of the text it follows that
printing and reading are inverse on values without doubles (`Json.parse?_render`).
-/

set_option autoImplicit false

namespace DebugLink.Json

/-! ## Members in order -/

theorem insert_last {key : String} {value : Json} {members : List (String × Json)}
    (after : ∀ member ∈ members, member.1 < key) :
    insert key value members = members ++ [(key, value)] := by
  induction members with
  | nil => rfl
  | cons first rest ih =>
    obtain ⟨k, v⟩ := first
    have before : k < key := after (k, v) List.mem_cons_self
    have unequal : key ≠ k := by
      rintro rfl
      exact String.lt_irrefl key before
    rw [insert, if_neg (String.lt_asymm before), if_neg unequal,
      ih fun member mem => after member (List.mem_cons_of_mem _ mem)]
    rfl

theorem keys_before {key : String} {value : Json} {members more : List (String × Json)}
    (sorted : ((members ++ (key, value) :: more).map Prod.fst).Pairwise (· < ·)) :
    ∀ member ∈ members, member.1 < key := by
  rw [List.map_append, List.pairwise_append] at sorted
  intro member mem
  exact sorted.2.2 _ (List.mem_map_of_mem mem) _ List.mem_cons_self

/-! ## Reading the tokens of a value -/

variable {limit : Nat} {stack : List Reader.Frame} {rest : List Token}

theorem run_cons {s next : Reader.State} {t : Token} (stepped : Reader.step limit s t = some next)
    (ts : List Token) : Reader.run limit s (t :: ts) = Reader.run limit next ts := by
  rw [Reader.run, stepped]

theorem step_firstItem {t : Token} (item : t ≠ .closeArray) :
    Reader.step limit ⟨stack, .firstItem⟩ t = Reader.step limit ⟨.array [] :: stack, .value⟩ t := by
  cases t with
  | closeArray => exact absurd rfl item
  | _ => rfl

theorem exists_tokens (value : Json) : ∃ t ts, value.tokens = t :: ts ∧ t ≠ .closeArray := by
  cases value <;> exact ⟨_, _, rfl, by simp⟩

theorem exists_tokensItems (item : Json) (more : List Json) :
    ∃ t ts, tokensItems (item :: more) = t :: ts ∧ t ≠ .closeArray := by
  obtain ⟨t, ts, spelled, opens⟩ := exists_tokens item
  cases more with
  | nil => exact ⟨t, ts, spelled, opens⟩
  | cons next more =>
    have written : tokensItems (item :: next :: more)
        = item.tokens ++ .comma :: tokensItems (next :: more) := rfl
    exact ⟨t, _, by rw [written, spelled]; rfl, opens⟩

theorem run_firstItem (item : Json) (more : List Json) :
    Reader.run limit ⟨stack, .firstItem⟩ (tokensItems (item :: more) ++ rest)
      = Reader.run limit ⟨.array [] :: stack, .value⟩ (tokensItems (item :: more) ++ rest) := by
  obtain ⟨t, ts, spelled, opens⟩ := exists_tokensItems item more
  rw [spelled, List.cons_append, Reader.run, Reader.run, step_firstItem opens]

theorem run_firstKey (member : String × Json) (more : List (String × Json)) :
    Reader.run limit ⟨stack, .firstKey⟩ (tokensMembers (member :: more) ++ rest)
      = Reader.run limit ⟨stack, .key []⟩ (tokensMembers (member :: more) ++ rest) := by
  cases more <;> rfl

mutual

/-- The tokens of an ordered value are read as that value, which takes its place in the innermost
open container; the reader goes on with the tokens after it. -/
theorem run_tokens (stack : List Reader.Frame) (rest : List Token) :
    ∀ value : Json, value.Ordered → stack.length + value.depth ≤ limit →
      Reader.run limit ⟨stack, .value⟩ (value.tokens ++ rest)
        = Reader.run limit (Reader.place stack value) rest
  | .null, _, _ => rfl
  | .bool _, _, _ => rfl
  | .number _, _, _ => rfl
  | .string _, _, _ => rfl
  | .array items, ordered, room => by
    rw [depth] at room
    have within : stack.length < limit := by omega
    have opened : Reader.step limit ⟨stack, .value⟩ .openArray = some ⟨stack, .firstItem⟩ :=
      if_pos within
    rw [tokens, List.cons_append, List.cons_append, run_cons opened, List.append_assoc]
    cases items with
    | nil => rfl
    | cons item more =>
      rw [run_firstItem, List.singleton_append]
      exact run_tokensItems stack [] rest (item :: more) ordered (by simp) (by omega)
  | .object members, ordered, room => by
    rw [depth] at room
    have within : stack.length < limit := by omega
    have opened : Reader.step limit ⟨stack, .value⟩ .openObject = some ⟨stack, .firstKey⟩ :=
      if_pos within
    rw [tokens, List.cons_append, List.cons_append, run_cons opened, List.append_assoc]
    cases members with
    | nil => rfl
    | cons member more =>
      rw [run_firstKey, List.singleton_append]
      exact run_tokensMembers stack [] rest (member :: more) ordered.2 ordered.1 (by simp)
        (by omega)

theorem run_tokensItems (stack : List Reader.Frame) (seen : List Json) (rest : List Token) :
    ∀ items : List Json, OrderedItems items → items ≠ [] →
      stack.length + 1 + depthItems items ≤ limit →
      Reader.run limit ⟨.array seen :: stack, .value⟩ (tokensItems items ++ .closeArray :: rest)
        = Reader.run limit (Reader.place stack (.array (seen.reverse ++ items))) rest
  | [item], ordered, _, room => by
    rw [depthItems] at room
    have within : (Reader.Frame.array seen :: stack).length + item.depth ≤ limit := by
      rw [List.length_cons]
      omega
    rw [tokensItems, run_tokens _ _ item ordered.1 within, Reader.place, run_cons rfl,
      List.reverse_cons]
  | item :: next :: more, ordered, _, room => by
    rw [depthItems] at room
    have within : (Reader.Frame.array seen :: stack).length + item.depth ≤ limit := by
      rw [List.length_cons]
      omega
    have written : tokensItems (item :: next :: more)
        = item.tokens ++ .comma :: tokensItems (next :: more) := rfl
    rw [written, List.append_assoc, List.cons_append, run_tokens _ _ item ordered.1 within,
      Reader.place, run_cons rfl,
      run_tokensItems stack (item :: seen) rest (next :: more) ordered.2 (by simp) (by omega)]
    simp

theorem run_tokensMembers (stack : List Reader.Frame) (seen : List (String × Json))
    (rest : List Token) :
    ∀ members : List (String × Json), OrderedMembers members →
      ((seen ++ members).map Prod.fst).Pairwise (· < ·) → members ≠ [] →
      stack.length + 1 + depthMembers members ≤ limit →
      Reader.run limit ⟨stack, .key seen⟩ (tokensMembers members ++ .closeObject :: rest)
        = Reader.run limit (Reader.place stack (.object (seen ++ members))) rest
  | [(key, value)], ordered, sorted, _, room => by
    rw [depthMembers] at room
    have within : (Reader.Frame.object seen key :: stack).length + value.depth ≤ limit := by
      rw [List.length_cons]
      omega
    rw [tokensMembers, List.cons_append, List.cons_append, run_cons rfl, run_cons rfl,
      run_tokens _ _ value ordered.1 within, Reader.place, insert_last (keys_before sorted),
      run_cons rfl]
  | (key, value) :: next :: more, ordered, sorted, _, room => by
    rw [depthMembers] at room
    have within : (Reader.Frame.object seen key :: stack).length + value.depth ≤ limit := by
      rw [List.length_cons]
      omega
    have written : tokensMembers ((key, value) :: next :: more)
        = .text key :: .colon :: (value.tokens ++ .comma :: tokensMembers (next :: more)) := by
      simp [tokensMembers]
    rw [written, List.cons_append, List.cons_append, run_cons rfl, run_cons rfl,
      List.append_assoc, List.cons_append, run_tokens _ _ value ordered.1 within, Reader.place,
      insert_last (keys_before sorted), run_cons rfl,
      run_tokensMembers stack (seen ++ [(key, value)]) rest (next :: more) ordered.2
        (by simpa using sorted) (by simp) (by omega)]
    simp

end

theorem ofTokens?_tokens {value : Json} (ordered : value.Ordered) (room : value.depth ≤ limit) :
    ofTokens? limit value.tokens = some value := by
  have read := @run_tokens limit [] [] value ordered (by simpa using room)
  rw [List.append_nil] at read
  rw [ofTokens?, Reader.State.start, read]
  rfl

/-! ## Texts -/

/-- An ordered value without doubles is read back from its text, up to the nesting limit. -/
theorem parse?_render {value : Json} (ordered : value.Ordered) (integral : value.Integral)
    (room : value.depth ≤ nestingLimit) : parse? value.render = some value := by
  rw [parse?, parseWithin?, render, String.toList_ofList, scan_chars integral]
  exact ofTokens?_tokens ordered room

/-- No control character stands in a text; so it is one line. -/
def Printable (cs : List Char) : Prop := ∀ c ∈ cs, 0x20 ≤ c.toNat

@[simp]
theorem printable_nil : Printable [] := nofun

@[simp]
theorem printable_cons {c : Char} {cs : List Char} :
    Printable (c :: cs) ↔ 0x20 ≤ c.toNat ∧ Printable cs :=
  List.forall_mem_cons

@[simp]
theorem printable_append {cs ds : List Char} :
    Printable (cs ++ ds) ↔ Printable cs ∧ Printable ds :=
  List.forall_mem_append

theorem printable_digits (n : Nat) : Printable (Nat.toDigits 10 n) := by
  intro d mem
  have := (Char.isDigit_iff_toNat.1 (Number.isDigit_of_mem_toDigits mem)).1
  have zero : '0'.toNat = 0x30 := rfl
  omega

theorem printable_layout {ds : List Char} (printable : Printable ds) (exponent : Int) :
    Printable (Double.layout ds exponent) := by
  have zeros (n : Nat) : Printable (List.replicate n '0') := by
    intro c mem
    simp [List.eq_of_mem_replicate mem]
  have before (n : Nat) : Printable (ds.take n) :=
    fun c mem => printable c (List.mem_of_mem_take mem)
  have after (n : Nat) : Printable (ds.drop n) :=
    fun c mem => printable c (List.mem_of_mem_drop mem)
  have power (n : Nat) := printable_digits n
  unfold Double.layout
  dsimp only
  split_ifs
  · simp [printable, zeros]
  · simp [before, after]
  · simp [printable, zeros]
  · cases ds with
    | nil => simp [power]
    | cons first rest => cases rest <;> simp_all
  · cases ds with
    | nil => simp [power]
    | cons first rest => cases rest <;> simp_all

theorem printable_number (n : Number) : Printable n.chars := by
  cases n with
  | integer value lower upper =>
    rw [Number.chars]
    split_ifs <;> simp [printable_digits]
  | double value =>
    have body := printable_layout (printable_digits value.shortest.1) value.shortest.2
    rw [Number.chars, Double.chars]
    split_ifs <;> simpa using body

theorem printable_escape (c : Char) : Printable (escape c) := by
  unfold escape
  split_ifs with quote slash back feed line carriage tab control
  iterate 7 simp
  · have digit : ∀ d < 16, 0x20 ≤ (Nat.digitChar d).toNat := by decide
    simp [digit (c.toNat / 16) (by omega), digit (c.toNat % 16) (by omega)]
  · simpa using control

theorem printable_quote (s : String) : Printable (quote s) := by
  have escaped : Printable (s.toList.flatMap escape) := by
    intro d mem
    obtain ⟨c, -, mem⟩ := List.mem_flatMap.1 mem
    exact printable_escape c d mem
  simp [quote, escaped]

mutual

theorem printable_chars : ∀ value : Json, Printable value.chars
  | .null => by simp [chars]
  | .bool true => by simp [chars]
  | .bool false => by simp [chars]
  | .number n => printable_number n
  | .string s => printable_quote s
  | .array items => by simp [chars, printable_charsItems items]
  | .object members => by simp [chars, printable_charsMembers members]

theorem printable_charsItems : ∀ items : List Json, Printable (charsItems items)
  | [] => printable_nil
  | [item] => printable_chars item
  | item :: next :: more => by
    simp [charsItems, printable_chars item, printable_charsItems (next :: more)]

theorem printable_charsMembers : ∀ members : List (String × Json), Printable (charsMembers members)
  | [] => printable_nil
  | [(key, value)] => by simp [charsMembers, printable_quote, printable_chars value]
  | (key, value) :: next :: more => by
    simp [charsMembers, printable_quote, printable_chars value,
      printable_charsMembers (next :: more)]

end

end DebugLink.Json
