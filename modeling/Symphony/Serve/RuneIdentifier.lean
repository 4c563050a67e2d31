import Symphony.Serve.RuneRoutes

/-! The rune in the path or the body of a request (`serve/utils.rs`). -/

namespace Symphony.Serve

open Encdec

/-- The kinds of a `ParseIntError` of an unsigned integer. -/
inductive IntErrorKind where
  | empty
  | invalidDigit
  | posOverflow
  deriving DecidableEq

def IntErrorKind.debug : IntErrorKind → String
  | .empty => "Empty"
  | .invalidDigit => "InvalidDigit"
  | .posOverflow => "PosOverflow"

/-- The digits after the sign, each taken in with a checked product and a checked sum. -/
def parseDigits (width : Nat) : (digits : List Char) → (result : Nat) → Except IntErrorKind Nat
  | [], result => .ok result
  | digit :: digits, result =>
      if digit.isDigit then
        let next := 10 * result + (digit.toNat - '0'.toNat)
        if next < 2 ^ width then parseDigits width digits next else .error .posOverflow
      else .error .invalidDigit

/-- `str::parse` of the unsigned integers: a plus sign may stand before the digits. -/
def parseUInt (width : Nat) (text : List Char) : Except IntErrorKind (BitVec width) :=
  if text = [] then .error .empty
  else if text = ['+'] ∨ text = ['-'] then .error .invalidDigit
  else
    let digits := if text.head? = some '+' then text.tail else text
    (parseDigits width digits 0).map (BitVec.ofNat width)

def unwrapParsed {width : Nat} (parsed : Except IntErrorKind (BitVec width)) :
    Except Error (BitVec width) :=
  match parsed with
  | .ok number => .ok number
  | .error kind => .error (.panicked
      ("called `Result::unwrap()` on an `Err` value: ParseIntError \x7b kind: " ++ kind.debug ++ " \x7d"))

def withoutSpacers (string : String) : String :=
  String.ofList (string.toList.filter (fun char => char ≠ '•'))

/-- `RuneIdentifier::parse`; the outer error is a panic. `fromStr` stands for the `Rune::from_str`
of the ordinals crate and the number of the rune. -/
def RuneIdentifier.parse (fromStr : String → Option U128) (string : String) :
    Except Error (Except ServeError RuneIdentifier) :=
  if ':' ∈ string.toList then
    match string.toList.splitOn ':' with
    | [block, tx] => match unwrapParsed (parseUInt 64 block) with
        | .error failure => .error failure
        | .ok block => match unwrapParsed (parseUInt 32 tx) with
            | .error failure => .error failure
            | .ok tx => .ok (.ok (.id ⟨block, tx⟩))
    | _ => .ok (.error (.malformedRequest
        "rune id must be etching block and transaction index in form '30562:50'"))
  else
    match fromStr (withoutSpacers string) with
    | none => .ok (.error (.malformedRequest "unable to decode rune name"))
    | some number => .ok (.ok (.name number))

end Symphony.Serve
