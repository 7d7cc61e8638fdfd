import TradingStrategy.Number.Decimal

set_option autoImplicit false

namespace TradingStrategy.Text

def digits? (cs : List Char) : Option Nat :=
  if cs ≠ [] ∧ cs.all Char.isDigit then some (Nat.ofDigitChars 10 cs 0) else none

/-- A sign, if one is there, and what follows it; `true` is minus. -/
def sign : List Char → Bool × List Char
  | '-' :: rest => (true, rest)
  | '+' :: rest => (false, rest)
  | cs => (false, cs)

def natural? (limit : Nat) (cs : List Char) : Option Nat :=
  let body := match cs with
    | '+' :: rest => rest
    | cs => cs
  (digits? body).filter (· < limit)

def integer? (cs : List Char) : Option Int :=
  let (minus, body) := sign cs
  (digits? body).bind fun n =>
    let value : Int := if minus then -(n : Int) else n
    if -0x8000000000000000 ≤ value ∧ value < 0x8000000000000000 then some value else none

def exponent? : List Char → Option (Bool × List Char)
  | [] => some (false, [])
  | c :: rest =>
    if c = 'e' ∨ c = 'E' then
      let (minus, body) := sign rest
      if body ≠ [] ∧ body.all Char.isDigit then some (minus, body) else none
    else none

/-- A decimal numeral: digits with at most one point among or beside them, and an exponent. -/
def decimal? (cs : List Char) : Option DecimalParts :=
  let (minus, body) := sign cs
  let whole := body.takeWhile Char.isDigit
  let rest := body.dropWhile Char.isDigit
  let (fraction, rest) := match rest with
    | '.' :: rest => (rest.takeWhile Char.isDigit, rest.dropWhile Char.isDigit)
    | rest => ([], rest)
  if whole = [] ∧ fraction = [] then none
  else (exponent? rest).map fun (exponentMinus, exponent) =>
    { negative := minus, whole, fraction, exponentNegative := exponentMinus, exponent }

end TradingStrategy.Text
