import TradingStrategy.Number.Power

/-!
Double-precision numbers, kept as their 64 bits. Equality of bits tells 0.0 from -0.0; `rank` is
the total order that sorting uses; `same` is numeric equality. Arithmetic is exact on integers
(a finite value is a whole number of `2 ^ -1074`) and rounds once, half to even.
-/

set_option autoImplicit false

namespace TradingStrategy

structure Binary64 where
  bits : UInt64
deriving DecidableEq, Repr

namespace Binary64

def zero : Binary64 := ⟨0⟩

instance : Inhabited Binary64 := ⟨zero⟩

def signBit : Nat := 0x8000000000000000

/-- The weight of the exponent field in the bits; also the least full significand. -/
def fieldUnit : Nat := 0x10000000000000

def unitsPerOne : Nat := twoTo 1074

def negative (x : Binary64) : Bool := signBit ≤ x.bits.toNat

def magnitude (x : Binary64) : Nat := x.bits.toNat % signBit

/-- The magnitude of the infinities; every larger one is a NaN. -/
def infiniteMagnitude : Nat := 2047 * fieldUnit

def isFinite (x : Binary64) : Bool := x.magnitude < infiniteMagnitude

def isNaN (x : Binary64) : Bool := infiniteMagnitude < x.magnitude

def ofMagnitude (neg : Bool) (m : Nat) : Binary64 :=
  ⟨UInt64.ofNat ((if neg then signBit else 0) + m)⟩

def infinity (neg : Bool) : Binary64 := ofMagnitude neg infiniteMagnitude

def nan : Binary64 := ofMagnitude false (infiniteMagnitude + fieldUnit / 2)

def neg (x : Binary64) : Binary64 := ofMagnitude (!x.negative) x.magnitude

/-- Position in the total order: -0.0 comes just before 0.0. -/
def rank (x : Binary64) : Int :=
  if x.negative then -(x.magnitude : Int) - 1 else x.magnitude

def same (x y : Binary64) : Bool :=
  !x.isNaN && !y.isNaN && (x == y || (x.magnitude == 0 && y.magnitude == 0))

/-- Significand and exponent of a finite value: it is `± m * 2 ^ e` in units of `2 ^ -1074`. -/
def parts (x : Binary64) : Nat × Nat :=
  let field := x.magnitude / fieldUnit
  if field = 0 then (x.magnitude, 0)
  else (fieldUnit + x.magnitude % fieldUnit, field - 1)

def units (x : Binary64) : Nat :=
  let (m, e) := x.parts
  m * twoTo e

def halfToEven (num den : Nat) : Nat :=
  let q := num / den
  let r := num % den
  if 2 * r < den then q
  else if den < 2 * r then q + 1
  else q + q % 2

/-- The value nearest to `num / den` units of `2 ^ -1074`, a half going to the even neighbour. -/
def nearestUnits (neg : Bool) (num den : Nat) : Binary64 :=
  let shift := (num / den).log2 - 52
  let m := halfToEven num (den * twoTo shift)
  ofMagnitude neg (min (shift * fieldUnit + m) infiniteMagnitude)

def nearest (neg : Bool) (num den : Nat) : Binary64 :=
  nearestUnits neg (num * unitsPerOne) den

def ofInt (n : Int) : Binary64 := nearest (n < 0) n.natAbs 1

def mul (x y : Binary64) : Binary64 :=
  nearestUnits (x.negative != y.negative) (x.units * y.units) unitsPerOne

-- For finite values, the second not zero.
def div (x y : Binary64) : Binary64 :=
  nearest (x.negative != y.negative) x.units y.units

def signedUnits (x : Binary64) : Int :=
  if x.negative then -(x.units : Int) else x.units

/-- Sum; an exact zero is -0.0 only when both terms are. -/
def add (x y : Binary64) : Binary64 :=
  if x.isNaN || y.isNaN then nan
  else if !x.isFinite then
    if y.isFinite || x == y then x else nan
  else if !y.isFinite then y
  else
    let total := x.signedUnits + y.signedUnits
    if total = 0 then ofMagnitude (x.negative && y.negative) 0
    else nearestUnits (total < 0) total.natAbs 1

instance : Add Binary64 := ⟨add⟩

end Binary64

end TradingStrategy
