import TradingStrategy.Json.Record
import TradingStrategy.Text.Segments

set_option autoImplicit false

namespace TradingStrategy

inductive Border where
  | top
  | bottom
  | left
  | right
  /-- A side that is not laid out, kept as it was written. -/
  | other (name : String)
deriving DecidableEq, Repr

def Border.text : Border → String
  | .top => "top"
  | .bottom => "bottom"
  | .left => "left"
  | .right => "right"
  | .other name => name

-- The point of a node where an edge attaches, written `node-side`.
structure Handle where
  node : String
  side : Border
deriving DecidableEq, Repr

inductive HandleError where
  | noSide (text : String)
  | unknownSide (side text : String)
deriving DecidableEq, Repr

def HandleError.message : HandleError → String
  | .noSide text => "Handle '" ++ text ++ "' has no side suffix"
  | .unknownSide side text => "Unknown handle side '" ++ side ++ "' in '" ++ text ++ "'"

namespace Handle

-- Without a node, the side alone.
def text (h : Handle) : String :=
  if h.node = "" then h.side.text else h.node ++ "-" ++ h.side.text

def parse (s : String) : Except HandleError Handle :=
  match Text.splitLast '-' s with
  | none => .error (.noSide s)
  | some (node, side) =>
    if side = "top" then .ok ⟨node, .top⟩
    else if side = "bottom" then .ok ⟨node, .bottom⟩
    else if side = "left" then .ok ⟨node, .left⟩
    else if side = "right" then .ok ⟨node, .right⟩
    else .error (.unknownSide side s)

/-- Reads any text: what is no known side is kept, and all of a text without a dash. -/
def ofText (s : String) : Handle :=
  match parse s with
  | .ok h => h
  | .error _ =>
    match Text.splitLast '-' s with
    | some (node, side) => ⟨node, .other side⟩
    | none => ⟨"", .other s⟩

instance : Wire Handle where
  toJson h := .string h.text
  ofJson?
    | .string s => some (ofText s)
    | _ => none

end Handle

end TradingStrategy
