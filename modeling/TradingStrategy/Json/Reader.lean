import TradingStrategy.Json.Token

set_option autoImplicit false

namespace TradingStrategy.Json

inductive Frame where
  | array (items : List Json)
  | object (entries : List (String × Json)) (key : String) (sound : Bool)

/-- What may come next; `first` is set right after an opening bracket. -/
inductive Awaiting where
  | value (first : Bool)
  | key (first : Bool)
  | colon
  | separator
  | nothing (result : Json)

structure Stack where
  frames : List Frame := []
  awaiting : Awaiting := .value false

namespace Stack

/-- Containers inside more than this many others, themselves included, are not read. -/
def maxDepth : Nat := 127

def deliver (frames : List Frame) (j : Json) : Stack :=
  match frames with
  | [] => ⟨[], .nothing j⟩
  | .array items :: rest => ⟨.array (j :: items) :: rest, .separator⟩
  | .object entries key sound :: rest => ⟨.object ((key, j) :: entries) key sound :: rest, .separator⟩

def closed (s : Stack) (j : Json) (rest : List Frame) : Stack :=
  deliver rest (if maxDepth < s.frames.length then .unreadable else j)

def closeArray (s : Stack) : Option Stack :=
  match s.frames with
  | .array items :: rest => some (s.closed (.array items.reverse) rest)
  | _ => none

def closeObject (s : Stack) : Option Stack :=
  match s.frames with
  | .object entries _ sound :: rest =>
    some (s.closed (if sound then .object entries.reverse else .unreadable) rest)
  | _ => none

def openArray (s : Stack) : Stack := ⟨.array [] :: s.frames, .value true⟩

def openObject (s : Stack) : Stack := ⟨.object [] "" true :: s.frames, .key true⟩

def takeValue (s : Stack) (first : Bool) : Token → Option Stack
  | .scalar j => some (deliver s.frames j)
  | .text (some t) => some (deliver s.frames (.string t))
  | .text none => some (deliver s.frames .unreadable)
  | .startArray => some s.openArray
  | .startObject => some s.openObject
  | .endArray => if first then s.closeArray else none
  | _ => none

def takeKey (s : Stack) (first : Bool) (t : Token) : Option Stack :=
  match t, s.frames with
  | .text key, .object entries _ sound :: rest =>
    some ⟨.object entries (key.getD "") (sound && key.isSome) :: rest, .colon⟩
  | .endObject, _ => if first then s.closeObject else none
  | _, _ => none

def takeSeparator (s : Stack) : Token → Option Stack
  | .comma =>
    match s.frames with
    | .array _ :: _ => some { s with awaiting := .value false }
    | .object .. :: _ => some { s with awaiting := .key false }
    | [] => none
  | .endArray => s.closeArray
  | .endObject => s.closeObject
  | _ => none

def step (s : Stack) (t : Token) : Option Stack :=
  match s.awaiting, t with
  | .value first, t => s.takeValue first t
  | .key first, t => s.takeKey first t
  | .colon, .colon => some { s with awaiting := .value false }
  | .colon, _ => none
  | .separator, t => s.takeSeparator t
  | .nothing _, _ => none

def result? (s : Stack) : Option Json :=
  match s.awaiting with
  | .nothing j => some j
  | _ => none

end Stack

def ofTokens? (ts : List Token) : Option Json :=
  (ts.foldlM Stack.step {}).bind Stack.result?

def ofText? (text : String) : Option Json := (tokens? text.toList).bind ofTokens?

end TradingStrategy.Json
