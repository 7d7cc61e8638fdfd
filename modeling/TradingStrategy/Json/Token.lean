import TradingStrategy.Json.Basic
import TradingStrategy.Text.Numeral

set_option autoImplicit false

namespace TradingStrategy.Json

inductive Token where
  | startObject
  | endObject
  | startArray
  | endArray
  | colon
  | comma
  /-- A quoted string; `none` if its escapes name no character. -/
  | text (s : Option String)
  | scalar (j : Json)

def number? (cs : List Char) : Option Json :=
  let (negative, body) := match cs with
    | '-' :: rest => (true, rest)
    | cs => (false, cs)
  let whole := body.takeWhile Char.isDigit
  let rest := body.dropWhile Char.isDigit
  let (point, fraction, rest) := match rest with
    | '.' :: rest => (true, rest.takeWhile Char.isDigit, rest.dropWhile Char.isDigit)
    | rest => (false, [], rest)
  if whole = [] || (whole.head? = some '0' && 1 < whole.length) || (point && fraction = []) then none
  else
    (Text.exponent? rest).map fun (exponentNegative, exponent) =>
      let parts : DecimalParts := { negative, whole, fraction, exponentNegative, exponent }
      let n := Nat.ofDigitChars 10 whole 0
      if !point && exponent = [] && !negative && n < 0x10000000000000000 then .integer n
      else if !point && exponent = [] && negative && 0 < n && n ≤ 0x8000000000000000 then .integer (-n)
      else
        match parts.scaled? with
        | some x => .float x
        | none => .unreadable

def word? (cs : List Char) : Option Token :=
  if cs = "null".toList then some (.scalar .null)
  else if cs = "true".toList then some (.scalar (.bool true))
  else if cs = "false".toList then some (.scalar (.bool false))
  else (number? cs).map .scalar

def hexDigit? (c : Char) : Option Nat :=
  if c.isDigit then some (c.toNat - '0'.toNat)
  else if 'a' ≤ c ∧ c ≤ 'f' then some (c.toNat - 'a'.toNat + 10)
  else if 'A' ≤ c ∧ c ≤ 'F' then some (c.toNat - 'A'.toNat + 10)
  else none

/-- A quoted string read so far: its characters in reverse, whether all escapes named characters,
and the first half of a surrogate pair if the last escape was one. -/
structure Quoted where
  chars : List Char := []
  sound : Bool := true
  high : Option Nat := none

namespace Quoted

def push (q : Quoted) (c : Char) : Quoted :=
  { chars := c :: q.chars, sound := q.sound && q.high.isNone }

def pushUnit (q : Quoted) (n : Nat) : Quoted :=
  match q.high with
  | some h =>
    if 0xDC00 ≤ n ∧ n < 0xE000 then
      { q with
        chars := Char.ofNat (0x10000 + (h - 0xD800) * 0x400 + (n - 0xDC00)) :: q.chars
        high := none }
    else { q with sound := false, high := none }
  | none =>
    if 0xD800 ≤ n ∧ n < 0xDC00 then { q with high := some n }
    else if 0xDC00 ≤ n ∧ n < 0xE000 then { q with sound := false }
    else q.push (Char.ofNat n)

def token (q : Quoted) : Token :=
  .text (if q.sound && q.high.isNone then some (String.ofList q.chars.reverse) else none)

end Quoted

inductive Mode where
  | between
  | word (chars : List Char)
  | quoted (q : Quoted)
  | escape (q : Quoted)
  | unicode (q : Quoted) (value : Nat) (missing : Nat)

def isGap (c : Char) : Bool := c = ' ' || c = '\n' || c = '\t' || c = '\r'

def punctuation? : Char → Option Token
  | '{' => some .startObject
  | '}' => some .endObject
  | '[' => some .startArray
  | ']' => some .endArray
  | ':' => some .colon
  | ',' => some .comma
  | _ => none

def escape? : Char → Option Char
  | '"' => some '"'
  | '\\' => some '\\'
  | '/' => some '/'
  | 'b' => some '\x08'
  | 'f' => some '\x0c'
  | 'n' => some '\n'
  | 'r' => some '\r'
  | 't' => some '\t'
  | _ => none

structure Scan where
  tokens : List Token := []
  mode : Mode := .between

namespace Scan

def outside (tokens : List Token) (c : Char) : Scan :=
  if isGap c then ⟨tokens, .between⟩
  else
    match punctuation? c with
    | some t => ⟨t :: tokens, .between⟩
    | none => ⟨tokens, if c = '"' then .quoted {} else .word [c]⟩

def step (s : Scan) (c : Char) : Option Scan :=
  match s.mode with
  | .between => some (outside s.tokens c)
  | .word chars =>
    if isGap c || (punctuation? c).isSome || c = '"' then
      (word? chars.reverse).map fun t => outside (t :: s.tokens) c
    else some ⟨s.tokens, .word (c :: chars)⟩
  | .quoted q =>
    if c = '"' then some ⟨q.token :: s.tokens, .between⟩
    else if c = '\\' then some ⟨s.tokens, .escape q⟩
    else if c.toNat < 0x20 then none
    else some ⟨s.tokens, .quoted (q.push c)⟩
  | .escape q =>
    if c = 'u' then some ⟨s.tokens, .unicode q 0 4⟩
    else (escape? c).map fun d => ⟨s.tokens, .quoted (q.push d)⟩
  | .unicode q value missing =>
    (hexDigit? c).map fun d =>
      let value := value * 16 + d
      if missing ≤ 1 then ⟨s.tokens, .quoted (q.pushUnit value)⟩
      else ⟨s.tokens, .unicode q value (missing - 1)⟩

def finish (s : Scan) : Option (List Token) :=
  match s.mode with
  | .between => some s.tokens.reverse
  | .word chars => (word? chars.reverse).map fun t => (t :: s.tokens).reverse
  | _ => none

end Scan

def tokens? (cs : List Char) : Option (List Token) :=
  (cs.foldlM Scan.step {}).bind Scan.finish

end TradingStrategy.Json
