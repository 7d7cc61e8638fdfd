import TradingStrategy.Json.Record
import TradingStrategy.Json.Writer
import TradingStrategy.Text.Numeral

set_option autoImplicit false

namespace TradingStrategy

inductive Period where
  | current
  | prev
  | prevN (n : UInt32)
deriving DecidableEq, Repr

namespace Period

def chars : Period → List Char
  | .current => "current".toList
  | .prev => "prev".toList
  | .prevN n => "prev-".toList ++ Nat.toDigits 10 n.toNat

def text (p : Period) : String := String.ofList p.chars

/-- The number after `prev-`, which may have a plus and leading zeros. -/
def count? (cs : List Char) : Option UInt32 :=
  (Text.natural? 0x100000000 cs).bind fun n => if 0 < n then some (UInt32.ofNat n) else none

def ofChars? : List Char → Option Period
  | 'c' :: 'u' :: 'r' :: 'r' :: 'e' :: 'n' :: 't' :: [] => some .current
  | 'p' :: 'r' :: 'e' :: 'v' :: [] => some .prev
  | 'p' :: 'r' :: 'e' :: 'v' :: '-' :: digits => (count? digits).map .prevN
  | _ => none

def ofText? (s : String) : Option Period := ofChars? s.toList

def invalidMessage (s : String) : String := "Invalid period token '" ++ s ++ "'"

def count : Period → Option UInt32
  | .prevN n => some n
  | _ => none

instance : Wire Period where
  toJson p := .string p.text
  ofJson?
    | .string s => ofText? s
    | _ => none

end Period

end TradingStrategy
