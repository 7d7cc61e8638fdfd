import TradingStrategy.Graph.Basic

set_option autoImplicit false

namespace TradingStrategy

-- An edge without a number comes last.
def Edge.sequenceKey (e : Edge) : Nat := (e.sequence.map UInt32.toNat).getD 0xFFFFFFFF

namespace Graph

def isFanOut (condition : String) (e : Edge) : Bool := e.isAction && e.source == condition

def fansOut (g : Graph) (condition action : String) : Bool :=
  g.edges.any fun e => isFanOut condition e && e.target == action

def fanOut (g : Graph) (condition : String) : List Edge :=
  (g.edges.filter (isFanOut condition)).mergeSort fun a b => a.sequenceKey ≤ b.sequenceKey

def fanOutTargets (g : Graph) (condition : String) : List String :=
  (g.fanOut condition).map (·.target)

structure Ranked where
  place : Nat
  height : Int
  key : Nat

def Ranked.le (a b : Ranked) : Bool :=
  a.height < b.height || (a.height = b.height && a.key ≤ b.key)

/-- Edges of the fan-out by their place in the edge list, lowest rank first. An edge whose target
is missing is not ranked. -/
def ranked (g : Graph) (condition : String) : List Ranked :=
  let found := g.edges.zipIdx.filterMap fun (e, place) =>
    if isFanOut condition e then
      (g.node? e.target).map fun n => ⟨place, n.position.y.rank, e.sequenceKey⟩
    else none
  found.mergeSort Ranked.le

def numberFanOut (g : Graph) (condition : String) : Graph :=
  let places := (g.ranked condition).map (·.place)
  { g with
    edges := g.edges.zipIdx.map fun (e, place) =>
      match places.idxOf? place with
      | some k => e.setSequence (UInt32.ofNat (k + 1))
      | none => e }

def numberFanOuts (g : Graph) (conditions : List String) : Graph :=
  conditions.foldl numberFanOut g

def feeders (g : Graph) (action : String) : List String :=
  ((g.edges.filter fun e => e.isAction && e.target == action).map (·.source)).eraseDups

end Graph

end TradingStrategy
