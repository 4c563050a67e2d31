import Symphony.Serve.RuneIdentifier

/-! Which rune identifiers the routes read from a string, and which strings they refuse. -/

namespace Symphony.Serve

open Encdec

/-- Decimal digits, the most significant one first, and their value. -/
structure DecimalDigits (digits : List Char) (value : Nat) : Prop where
  some : digits ≠ []
  each : ∀ digit ∈ digits, digit.isDigit
  value : Nat.ofDigitChars 10 digits 0 = value

def DecimalOf {width : Nat} (text : List Char) (number : BitVec width) : Prop :=
  DecimalDigits text number.toNat ∨ ∃ digits, text = '+' :: digits ∧ DecimalDigits digits number.toNat

/-- What a string says: two numbers with a colon between them, or a name without its spacers. -/
inductive Identifies (fromStr : String → Option U128) (string : String) : RuneIdentifier → Prop
  | id {left right : List Char} {block : U64} {tx : U32}
      (parts : string.toList = left ++ ':' :: right) (block_is : DecimalOf left block)
      (tx_is : DecimalOf right tx) : Identifies fromStr string (.id ⟨block, tx⟩)
  | name {number : U128} (plain : ':' ∉ string.toList)
      (named : fromStr (withoutSpacers string) = some number) :
      Identifies fromStr string (.name number)

/-- A string is parsed to what it says, and refused as malformed if it says nothing. -/
structure Handled (fromStr : String → Option U128) (string : String) : Prop where
  identified : ∀ identifier, RuneIdentifier.parse fromStr string = .ok (.ok identifier) ↔
    Identifies fromStr string identifier
  refused : (∀ identifier, ¬ Identifies fromStr string identifier) →
    ∃ message, RuneIdentifier.parse fromStr string = .ok (.error (.malformedRequest message))

/-- Where a string has one colon, both of its sides are numbers. -/
def Numbered (string : String) : Prop :=
  ∀ left right, string.toList = left ++ ':' :: right → ':' ∉ left → ':' ∉ right →
    (∃ block : U64, DecimalOf left block) ∧ ∃ tx : U32, DecimalOf right tx

section Digits

theorem le_ofDigitChars (digits : List Char) (start : Nat) :
    start ≤ Nat.ofDigitChars 10 digits start := by
  induction digits generalizing start with
  | nil => rw [Nat.ofDigitChars_nil]
  | cons digit digits ih =>
      rw [Nat.ofDigitChars_cons]
      have later := ih (10 * start + (digit.toNat - '0'.toNat))
      omega

theorem parseDigits_iff {width : Nat} (digits : List Char) {start value : Nat}
    (fits : start < 2 ^ width) :
    parseDigits width digits start = .ok value ↔
      (∀ digit ∈ digits, digit.isDigit) ∧ Nat.ofDigitChars 10 digits start = value ∧
        value < 2 ^ width := by
  induction digits generalizing start with
  | nil =>
      rw [parseDigits, Nat.ofDigitChars_nil, Except.ok.injEq]
      constructor
      · rintro rfl
        exact ⟨by simp, rfl, fits⟩
      · intro same
        exact same.2.1
  | cons digit digits ih =>
      rw [parseDigits, List.forall_mem_cons, Nat.ofDigitChars_cons]
      by_cases decimal : digit.isDigit
      · by_cases small : 10 * start + (digit.toNat - '0'.toNat) < 2 ^ width
        · simp only [decimal, small, if_true, true_and]
          exact ih small
        · simp only [decimal, small, if_true, if_false, true_and]
          constructor
          · intro failed
            cases failed
          · rintro ⟨_, rfl, bound⟩
            have grows := le_ofDigitChars digits (10 * start + (digit.toNat - '0'.toNat))
            omega
      · simp [decimal]

theorem parseDigits_decimal {width : Nat} {digits : List Char} {number : BitVec width}
    (some : digits ≠ []) :
    (parseDigits width digits 0).map (BitVec.ofNat width) = .ok number ↔
      DecimalDigits digits number.toNat := by
  have bound := number.isLt
  constructor
  · intro parsed
    cases result : parseDigits width digits 0 with
    | error kind =>
        rw [result] at parsed
        cases parsed
    | ok value =>
        rcases (parseDigits_iff digits (Nat.two_pow_pos width)).mp result with ⟨each, total, fits⟩
        rw [result, Except.map, Except.ok.injEq] at parsed
        rw [← parsed, BitVec.toNat_ofNat, Nat.mod_eq_of_lt fits]
        exact ⟨some, each, total⟩
  · intro decimal
    have result := (parseDigits_iff digits (Nat.two_pow_pos width)).mpr
      ⟨decimal.each, decimal.value, bound⟩
    rw [result, Except.map, BitVec.ofNat_toNat, BitVec.setWidth_eq]

theorem DecimalDigits.unsigned {digits : List Char} {value : Nat} :
    ¬ DecimalDigits ('+' :: digits) value := by
  intro decimal
  exact absurd (decimal.each '+' List.mem_cons_self) (by decide)

theorem parseUInt_iff {width : Nat} {text : List Char} {number : BitVec width} :
    parseUInt width text = .ok number ↔ DecimalOf text number := by
  rw [parseUInt]
  by_cases empty : text = []
  · subst empty
    rw [if_pos rfl]
    constructor
    · intro failed
      cases failed
    · rintro (decimal | ⟨digits, signed, _⟩)
      · exact absurd rfl decimal.some
      · cases signed
  rw [if_neg empty]
  by_cases sign : text = ['+'] ∨ text = ['-']
  · rw [if_pos sign]
    constructor
    · intro failed
      cases failed
    · rcases sign with rfl | rfl
      · rintro (decimal | ⟨digits, signed, decimal⟩)
        · exact absurd decimal DecimalDigits.unsigned
        · cases signed
          exact absurd rfl decimal.some
      · rintro (decimal | ⟨digits, signed, _⟩)
        · exact absurd (decimal.each '-' List.mem_cons_self) (by decide)
        · cases signed
  rw [if_neg sign]
  rcases text with _ | ⟨head, tail⟩
  · exact absurd rfl empty
  by_cases plus : head = '+'
  · subst plus
    have some : tail ≠ [] := by
      rintro rfl
      exact sign (.inl rfl)
    simp only [List.head?_cons, if_true, List.tail_cons]
    rw [parseDigits_decimal some, DecimalOf, or_iff_right DecimalDigits.unsigned]
    simp
  · simp only [List.head?_cons, Option.some.injEq, plus, if_false]
    rw [parseDigits_decimal empty, DecimalOf, or_iff_left]
    rintro ⟨digits, signed, _⟩
    exact plus (List.cons.inj signed).1

theorem DecimalDigits.plain {digits : List Char} {value : Nat} (decimal : DecimalDigits digits value) :
    ':' ∉ digits := by
  intro member
  exact absurd (decimal.each ':' member) (by decide)

theorem DecimalOf.plain {width : Nat} {text : List Char} {number : BitVec width}
    (decimal : DecimalOf text number) : ':' ∉ text := by
  rcases decimal with digits | ⟨digits, rfl, rest⟩
  · exact digits.plain
  · rw [List.mem_cons, not_or]
    exact ⟨by decide, rest.plain⟩

theorem DecimalOf.display {width : Nat} (number : BitVec width) :
    DecimalOf (Nat.toDigits 10 number.toNat) number := by
  refine .inl ⟨Nat.toDigits_ne_nil, ?_, Nat.ofDigitChars_toDigits (by decide) (by decide)⟩
  intro digit member
  exact Nat.isDigit_of_mem_toDigits (by decide) (by decide) member

end Digits

section Parse

variable {fromStr : String → Option U128} {string : String}

theorem unwrapParsed_iff {width : Nat} {parsed : Except IntErrorKind (BitVec width)}
    {number : BitVec width} : unwrapParsed parsed = .ok number ↔ parsed = .ok number := by
  cases parsed with
  | error kind => simp [unwrapParsed]
  | ok other => simp [unwrapParsed]

theorem splitOn_colon (text : List Char) :
    ':' ∉ text ∨
      (∃ left right, text = left ++ ':' :: right ∧ ':' ∉ left ∧ ':' ∉ right ∧
        text.splitOn ':' = [left, right]) ∨
      (':' ∈ text ∧ (∀ left right, text = left ++ ':' :: right → ':' ∈ left ∨ ':' ∈ right) ∧
        ∃ first second third rest, text.splitOn ':' = first :: second :: third :: rest) := by
  by_cases colon : ':' ∈ text
  swap
  · exact .inl colon
  rcases List.eq_append_cons_of_mem colon with ⟨left, right, rfl, before⟩
  have split := List.splitOn_append_cons_self_of_not_mem before right
  by_cases again : ':' ∈ right
  · refine .inr (.inr ⟨colon, ?_, ?_⟩)
    · intro other after same
      by_contra neither
      rw [not_or] at neither
      have counted := congrArg (List.count ':') same
      rw [List.count_append, List.count_append, List.count_cons_self, List.count_cons_self,
        List.count_eq_zero.mpr before, List.count_eq_zero.mpr neither.1,
        List.count_eq_zero.mpr neither.2] at counted
      have positive := List.count_pos_iff.mpr again
      omega
    · rcases List.eq_append_cons_of_mem again with ⟨second, more, rfl, middle⟩
      rw [List.splitOn_append_cons_self_of_not_mem middle more] at split
      rcases List.exists_cons_of_ne_nil (List.splitOn_ne_nil ':' more) with ⟨third, rest, last⟩
      rw [last] at split
      exact ⟨left, second, third, rest, split⟩
  · rw [List.splitOn_eq_singleton again] at split
    exact .inr (.inl ⟨left, right, rfl, before, again, split⟩)

theorem colon_unique {left right before after : List Char} (plain : ':' ∉ left) (rest : ':' ∉ right)
    (clean : ':' ∉ before) (same : left ++ ':' :: right = before ++ ':' :: after) :
    before = left ∧ after = right := by
  have first := List.splitOn_append_cons_self_of_not_mem plain right
  have second := List.splitOn_append_cons_self_of_not_mem clean after
  rw [same, second, List.splitOn_eq_singleton rest, List.cons.injEq] at first
  refine ⟨first.1, ?_⟩
  rw [first.1] at same
  exact ((List.cons.inj (List.append_cancel_left same)).2).symm

theorem handled_name (plain : ':' ∉ string.toList) : Handled fromStr string := by
  have only (identifier : RuneIdentifier) : Identifies fromStr string identifier ↔
      ∃ number, fromStr (withoutSpacers string) = some number ∧ identifier = .name number := by
    constructor
    · intro identifies
      cases identifies with
      | id parts => rw [parts] at plain; simp at plain
      | name _ named => exact ⟨_, named, rfl⟩
    · rintro ⟨number, named, rfl⟩
      exact .name plain named
  cases named : fromStr (withoutSpacers string) with
  | none =>
      have parsed : RuneIdentifier.parse fromStr string =
          .ok (.error (.malformedRequest "unable to decode rune name")) := by
        simp only [RuneIdentifier.parse, if_neg plain, named]
      refine ⟨?_, fun _ => ⟨_, parsed⟩⟩
      intro identifier
      simp [only, parsed, named]
  | some number =>
      have parsed : RuneIdentifier.parse fromStr string = .ok (.ok (.name number)) := by
        simp only [RuneIdentifier.parse, if_neg plain, named]
      refine ⟨?_, fun silent => absurd (.name plain named) (silent (.name number))⟩
      intro identifier
      simp [only, parsed, named, eq_comm]

theorem handled_colons (colon : ':' ∈ string.toList)
    (several : ∀ left right, string.toList = left ++ ':' :: right → ':' ∈ left ∨ ':' ∈ right)
    {first second third : List Char} {rest : List (List Char)}
    (split : string.toList.splitOn ':' = first :: second :: third :: rest) :
    Handled fromStr string := by
  have parsed : RuneIdentifier.parse fromStr string = .ok (.error (.malformedRequest
      "rune id must be etching block and transaction index in form '30562:50'")) := by
    rw [RuneIdentifier.parse, if_pos colon, split]
  refine ⟨?_, fun _ => ⟨_, parsed⟩⟩
  intro identifier
  rw [parsed]
  constructor
  · intro impossible
    cases impossible
  · intro identifies
    cases identifies with
    | id parts block tx =>
        rcases several _ _ parts with left | right
        · exact absurd left block.plain
        · exact absurd right tx.plain
    | name plain _ => exact absurd colon plain

theorem parse_id {left right : List Char} (parts : string.toList = left ++ ':' :: right)
    (before : ':' ∉ left) (after : ':' ∉ right)
    (split : string.toList.splitOn ':' = [left, right]) :
    (∀ identifier, RuneIdentifier.parse fromStr string = .ok (.ok identifier) ↔
      Identifies fromStr string identifier) ∧
    ∀ message, RuneIdentifier.parse fromStr string ≠ .ok (.error (.malformedRequest message)) := by
  have colon : ':' ∈ string.toList := by
    rw [parts]
    simp
  have only (identifier : RuneIdentifier) : Identifies fromStr string identifier ↔
      ∃ (block : U64) (tx : U32), DecimalOf left block ∧ DecimalOf right tx ∧
        identifier = .id ⟨block, tx⟩ := by
    constructor
    · intro identifies
      cases identifies with
      | id others block tx =>
          rw [parts] at others
          rcases colon_unique before after block.plain others with ⟨rfl, rfl⟩
          exact ⟨_, _, block, tx, rfl⟩
      | name plain _ => exact absurd colon plain
    · rintro ⟨block, tx, first, second, rfl⟩
      exact .id parts first second
  simp only [RuneIdentifier.parse, if_pos colon, split, only, ← parseUInt_iff, ← unwrapParsed_iff]
  cases unwrapParsed (parseUInt 64 left) with
  | error failure => simp
  | ok block =>
      cases unwrapParsed (parseUInt 32 right) with
      | error failure => simp
      | ok tx => simp [eq_comm]

theorem handled_id_iff {left right : List Char} (parts : string.toList = left ++ ':' :: right)
    (before : ':' ∉ left) (after : ':' ∉ right)
    (split : string.toList.splitOn ':' = [left, right]) :
    Handled fromStr string ↔ Numbered string := by
  have parse := @parse_id fromStr string left right parts before after split
  constructor
  · intro handled other rest same clean _
    rw [parts] at same
    rcases colon_unique before after clean same with ⟨rfl, rfl⟩
    by_contra unnumbered
    have silent (identifier : RuneIdentifier) : ¬ Identifies fromStr string identifier := by
      intro identifies
      cases identifies with
      | id others block tx =>
          rw [parts] at others
          rcases colon_unique before after block.plain others with ⟨rfl, rfl⟩
          exact unnumbered ⟨⟨_, block⟩, _, tx⟩
      | name plain _ =>
          rw [parts] at plain
          simp at plain
    rcases handled.refused silent with ⟨message, refused⟩
    exact parse.2 message refused
  · intro numbered
    rcases numbered left right parts before after with ⟨⟨block, first⟩, tx, second⟩
    refine ⟨parse.1, ?_⟩
    intro silent
    exact absurd (.id parts first second) (silent (.id ⟨block, tx⟩))

/-- What is printed of a rune id is parsed to it. -/
theorem parse_display {id : RuneId}
    (printed : string = toString id.block.toNat ++ ":" ++ toString id.tx.toNat) :
    RuneIdentifier.parse fromStr string = .ok (.ok (.id id)) := by
  have parts : string.toList =
      Nat.toDigits 10 id.block.toNat ++ ':' :: Nat.toDigits 10 id.tx.toNat := by
    rw [printed]
    simp
  have block := DecimalOf.display id.block
  have tx := DecimalOf.display id.tx
  have split : string.toList.splitOn ':' =
      [Nat.toDigits 10 id.block.toNat, Nat.toDigits 10 id.tx.toNat] := by
    rw [parts, List.splitOn_append_cons_self_of_not_mem block.plain,
      List.splitOn_eq_singleton tx.plain]
  exact ((parse_id parts block.plain tx.plain split).1 _).mpr (.id parts block tx)

end Parse

/-- `RuneIdentifier::parse` does with every string what it should, except that it panics on a
string with one colon and something other than a number on one of its sides. What is printed of a
rune id is parsed to it. -/
theorem rune_identifier_parse (fromStr : String → Option U128) (display : RuneId → String)
    (displays : ∀ id, display id = toString id.block.toNat ++ ":" ++ toString id.tx.toNat) :
    (∀ string, Handled fromStr string ↔ Numbered string) ∧
    ∀ id, RuneIdentifier.parse fromStr (display id) = .ok (.ok (.id id)) := by
  refine ⟨?_, fun id => parse_display (displays id)⟩
  intro string
  rcases splitOn_colon string.toList with
    plain | ⟨left, right, parts, before, after, split⟩ | ⟨colon, several, _, _, _, _, split⟩
  · rw [iff_true_left (handled_name plain)]
    intro left right parts
    rw [parts] at plain
    simp at plain
  · exact handled_id_iff parts before after split
  · rw [iff_true_left (handled_colons colon several split)]
    intro left right parts before after
    rcases several left right parts with first | second
    · exact absurd first before
    · exact absurd second after

def lettersNumber : (letters : List Char) → (number : Nat) → Option U128
  | [], number => some (BitVec.ofNat 128 number)
  | letter :: letters, number =>
      let next := (number + 1) * 26 + (letter.toNat - 'A'.toNat)
      if letter.isUpper ∧ next < 2 ^ 128 then lettersNumber letters next else none

def nameNumber (name : String) : Option U128 :=
  match name.toList with
  | [] => some 0
  | letter :: letters =>
      if letter.isUpper then lettersNumber letters (letter.toNat - 'A'.toNat) else none

def displayRuneId (id : RuneId) : String :=
  toString id.block.toNat ++ ":" ++ toString id.tx.toNat

theorem rune_identifier_parse_letters :
    (∀ string, Handled nameNumber string ↔ Numbered string) ∧
    ∀ id, RuneIdentifier.parse nameNumber (displayRuneId id) = .ok (.ok (.id id)) :=
  rune_identifier_parse nameNumber displayRuneId (fun _ => rfl)

/-- A block that is no number panics. -/
theorem parse_panics :
    RuneIdentifier.parse nameNumber "latest:1" = .error (.panicked
      "called `Result::unwrap()` on an `Err` value: ParseIntError \x7b kind: InvalidDigit \x7d") ∧
    ¬ ∀ string, Handled nameNumber string := by
  have panicked : RuneIdentifier.parse nameNumber "latest:1" = .error (.panicked
      "called `Result::unwrap()` on an `Err` value: ParseIntError \x7b kind: InvalidDigit \x7d") := by
    decide
  refine ⟨panicked, ?_⟩
  intro handled
  have claimed := handled "latest:1"
  rcases claimed.refused (by
    intro identifier identifies
    have parsed := (claimed.identified identifier).mpr identifies
    rw [panicked] at parsed
    cases parsed) with ⟨message, refused⟩
  rw [panicked] at refused
  cases refused

end Symphony.Serve
