import TradingStrategy.Json.Basic
import TradingStrategy.Number.Decimal

set_option autoImplicit false

namespace TradingStrategy

def Binary64.text (x : Binary64) : String :=
  if x.isFinite then String.ofList (wireLayout.text x) else "null"

def integerText (n : Int) : String :=
  String.ofList ((if n < 0 then ['-'] else []) ++ Nat.toDigits 10 n.natAbs)

namespace Json

def hexText (width : Nat) (n : Nat) : List Char :=
  let digits := Nat.toDigits 16 n
  List.replicate (width - digits.length) '0' ++ digits

def escapeChar (c : Char) : List Char :=
  match c with
  | '"' => ['\\', '"']
  | '\\' => ['\\', '\\']
  | '\x08' => ['\\', 'b']
  | '\x0c' => ['\\', 'f']
  | '\n' => ['\\', 'n']
  | '\r' => ['\\', 'r']
  | '\t' => ['\\', 't']
  | c => if c.toNat < 0x20 then '\\' :: 'u' :: hexText 4 c.toNat else [c]

def quote (s : String) : String := String.ofList ('"' :: s.toList.flatMap escapeChar ++ ['"'])

mutual

def compact : Json → String
  | .null | .unreadable => "null"
  | .bool true => "true"
  | .bool false => "false"
  | .integer n => integerText n
  | .float x => x.text
  | .string s => quote s
  | .array items => "[" ++ ",".intercalate (compactItems items) ++ "]"
  | .object entries => "\x7b" ++ ",".intercalate (compactEntries entries) ++ "\x7d"

def compactItems : List Json → List String
  | [] => []
  | j :: rest => compact j :: compactItems rest

def compactEntries : List (String × Json) → List String
  | [] => []
  | (key, j) :: rest => (quote key ++ ":" ++ compact j) :: compactEntries rest

end

def newLine (level : Nat) : String := String.ofList ('\n' :: List.replicate (2 * level) ' ')

def block (opening closing : String) (level : Nat) (parts : List String) : String :=
  if parts.isEmpty then opening ++ closing
  else
    opening ++ newLine (level + 1) ++ ("," ++ newLine (level + 1)).intercalate parts
      ++ newLine level ++ closing

mutual

def indented (level : Nat) : Json → String
  | .array items => block "[" "]" level (indentedItems (level + 1) items)
  | .object entries => block "\x7b" "\x7d" level (indentedEntries (level + 1) entries)
  | j => compact j

def indentedItems (level : Nat) : List Json → List String
  | [] => []
  | j :: rest => indented level j :: indentedItems level rest

def indentedEntries (level : Nat) : List (String × Json) → List String
  | [] => []
  | (key, j) :: rest => (quote key ++ ": " ++ indented level j) :: indentedEntries level rest

end

def pretty (j : Json) : String := indented 0 j

end Json

end TradingStrategy
