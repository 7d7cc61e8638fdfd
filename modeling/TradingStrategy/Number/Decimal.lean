import TradingStrategy.Number.Binary64

/-!
Binary64 values and decimal digits. `shortest` finds the fewest digits that read back, the
nearest of those, a tie going to the even digit; `FloatLayout` lays digits out as text; `nearest`
reads a decimal with one rounding; `scaled?` reads it as a 64-bit significand times a power of ten.
-/

set_option autoImplicit false

namespace TradingStrategy

/-- Number of decimal digits, 1 for 0. The logarithm is off by at most one place. -/
def digitCount (n : Nat) : Nat :=
  let guess := n.log2 * 30103 / 100000
  if n < tenTo guess then max guess 1
  else if n < tenTo (guess + 1) then guess + 1
  else guess + 2

/-- A positive decimal `0.d₁d₂… * 10 ^ exponent`, the first and last digits not zero. -/
structure Digits where
  chars : List Char
  exponent : Int
deriving DecidableEq, Repr

namespace Digits

def ofGrid (d : Nat) (exponent : Int) : Digits :=
  let text := Nat.toDigits 10 d
  { chars := (text.reverse.dropWhile (· == '0')).reverse, exponent := exponent + text.length }

end Digits

namespace Binary64

/-- The decimals that read back as a positive finite value, as `low ≤ v ≤ high` quarter units of
`2 ^ -1074`; the ends belong to the interval when the significand is even. -/
structure Interval where
  low : Nat
  value : Nat
  high : Nat
  closed : Bool

def interval (x : Binary64) : Interval :=
  let (m, e) := x.parts
  let step := twoTo e
  { low := 4 * m * step - (if m = fieldUnit ∧ 0 < e then step else 2 * step)
    value := 4 * m * step
    high := 4 * m * step + 2 * step
    closed := m % 2 = 0 }

def Interval.holds (r : Interval) (num den : Nat) : Bool :=
  if r.closed then r.low * den ≤ num && num ≤ r.high * den
  else r.low * den < num && num < r.high * den

def decimalPlaces (v : Nat) : Int :=
  (digitCount (v * tenTo 400 / (4 * unitsPerOne)) : Int) - 400

/-- The nearer of the value's two neighbours among the multiples of `10 ^ place`, if one reads
back. -/
def onGrid? (r : Interval) (place : Int) : Option Nat :=
  -- a grid point `d` stands for `d * up / down` quarter units
  let up := 4 * unitsPerOne * tenTo place.toNat
  let down := tenTo (-place).toNat
  let d := r.value * down / up
  let below := r.holds (d * up) down
  let above := r.holds ((d + 1) * up) down
  let gapBelow := r.value * down - d * up
  let gapAbove := (d + 1) * up - r.value * down
  match below, above with
  | false, false => none
  | true, false => some d
  | false, true => some (d + 1)
  | true, true =>
    if gapBelow < gapAbove then some d
    else if gapAbove < gapBelow then some (d + 1)
    else some (d + d % 2)

def shortestFrom (r : Interval) (places : Int) : Nat → Nat → Digits
  | 0, count => Digits.ofGrid ((onGrid? r (places - count)).getD 0) (places - count)
  | fuel + 1, count =>
    match onGrid? r (places - count) with
    | some d => Digits.ofGrid d (places - count)
    | none => shortestFrom r places fuel (count + 1)

/-- The fewest digits that read back as a positive finite value; 17 always do. -/
def shortest (x : Binary64) : Digits :=
  let r := x.interval
  shortestFrom r (decimalPlaces r.value) 16 1

end Binary64

/-- How digits become text: positional for `low ≤ exponent ≤ high`, else scientific. -/
structure FloatLayout where
  low : Int
  high : Int
  mark : Char
  plus : Bool

namespace FloatLayout

def zeros (n : Nat) : List Char := List.replicate n '0'

def positional (d : Digits) : List Char :=
  if d.exponent ≤ 0 then '0' :: '.' :: zeros (-d.exponent).toNat ++ d.chars
  else
    let whole := d.exponent.toNat
    if d.chars.length ≤ whole then d.chars ++ zeros (whole - d.chars.length) ++ ['.', '0']
    else d.chars.take whole ++ '.' :: d.chars.drop whole

def scientific (l : FloatLayout) (d : Digits) : List Char :=
  let fraction := match d.chars.drop 1 with
    | [] => []
    | rest => '.' :: rest
  let power := d.exponent - 1
  let sign := if power < 0 then ['-'] else if l.plus then ['+'] else []
  d.chars.take 1 ++ fraction ++ l.mark :: sign ++ Nat.toDigits 10 power.natAbs

def text (l : FloatLayout) (x : Binary64) : List Char :=
  let body :=
    if x.magnitude = 0 then ['0', '.', '0']
    else
      let d := x.shortest
      if l.low ≤ d.exponent ∧ d.exponent ≤ l.high then positional d else l.scientific d
  if x.negative then '-' :: body else body

end FloatLayout

-- Values from 0.00001 to below 10 ^ 16 are positional.
def wireLayout : FloatLayout := ⟨-4, 16, 'e', true⟩

/-- A decimal numeral taken apart: `whole.fraction` times ten to a signed exponent. -/
structure DecimalParts where
  negative : Bool
  whole : List Char
  fraction : List Char
  exponentNegative : Bool
  exponent : List Char

namespace DecimalParts

def significant (p : DecimalParts) : Nat := Nat.ofDigitChars 10 (p.whole ++ p.fraction) 0

def power (p : DecimalParts) : Int :=
  let e := Nat.ofDigitChars 10 p.exponent 0
  (if p.exponentNegative then -(e : Int) else e) - p.fraction.length

-- Far outside the range of a double the power of ten is not computed.
def nearest (p : DecimalParts) : Binary64 :=
  let n := p.significant
  let size := p.power + digitCount n
  if n = 0 then .ofMagnitude p.negative 0
  else if 400 < size then .infinity p.negative
  else if size < -400 then .ofMagnitude p.negative 0
  else .nearest p.negative (n * tenTo p.power.toNat) (tenTo (-p.power).toNat)

/-- Takes digits onto `acc` while the result is below `2 ^ 64`; also how many were taken and how
many were left. -/
def absorb (acc : Nat) : List Char → Nat × Nat × Nat
  | [] => (acc, 0, 0)
  | c :: rest =>
    let next := acc * 10 + (c.toNat - '0'.toNat)
    if 0x10000000000000000 ≤ next then (acc, 0, rest.length + 1)
    else
      let (total, taken, left) := absorb next rest
      (total, taken + 1, left)

def scaleOf (n : Nat) : Binary64 := .nearest false (tenTo n) 1

def scaleDown (f : Binary64) (n : Nat) : Binary64 :=
  if n ≤ 308 then f.div (scaleOf n)
  else
    let g := f.div (scaleOf 308)
    if g.magnitude = 0 then g else scaleDown g (n - 308)
termination_by n

def scale? (significand : Nat) (power : Int) : Option Binary64 :=
  let f := Binary64.nearest false significand 1
  if power < 0 then some (scaleDown f power.natAbs)
  else if significand = 0 then some f
  else if 308 < power then none
  else
    let g := f.mul (scaleOf power.toNat)
    if g.isFinite then some g else none

/-- The value read through a significand of 64 bits: digits beyond it are dropped, and one product
or quotient with a power of ten follows. `none` if the result is not finite. -/
def scaled? (p : DecimalParts) : Option Binary64 :=
  let (n, _, dropped) := absorb 0 p.whole
  let (n, taken, _) := absorb n p.fraction
  let base : Int := (dropped : Int) - taken
  let e := Nat.ofDigitChars 10 p.exponent 0
  let unsigned :=
    if 0x80000000 ≤ e then
      if n = 0 || p.exponentNegative then some Binary64.zero else none
    else scale? n (if p.exponentNegative then base - e else base + e)
  unsigned.map fun f => if p.negative then f.neg else f

end DecimalParts

end TradingStrategy
