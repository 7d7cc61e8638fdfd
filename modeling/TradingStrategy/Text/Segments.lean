set_option autoImplicit false

namespace TradingStrategy.Text

def pieces (sep : Char) : List Char → List (List Char)
  | [] => [[]]
  | c :: rest =>
    if c = sep then [] :: pieces sep rest
    else
      match pieces sep rest with
      | [] => [[c]]
      | first :: others => (c :: first) :: others

def segments (sep : Char) (s : String) : List String := (pieces sep s.toList).map String.ofList

def beforeFirst (sep : Char) (s : String) : String :=
  String.ofList (s.toList.takeWhile (· ≠ sep))

def cutLast (sep : Char) : List Char → Option (List Char × List Char)
  | [] => none
  | c :: rest =>
    match cutLast sep rest with
    | some (before, after) => some (c :: before, after)
    | none => if c = sep then some ([], rest) else none

def splitLast (sep : Char) (s : String) : Option (String × String) :=
  (cutLast sep s.toList).map fun (before, after) => (String.ofList before, String.ofList after)

end TradingStrategy.Text
