import TradingStrategy.Graph.Basic

set_option autoImplicit false

namespace TradingStrategy.Graph

def next? (g : Graph) (n : Node) : Option Node :=
  (g.outgoing? n.id).bind fun e => g.node? e.target

def without (ids : List String) (id : String) : List String := ids.filter (· ≠ id)

theorem length_without_lt {ids : List String} {id : String} (h : id ∈ ids) :
    (without ids id).length < ids.length :=
  Nat.lt_of_le_of_ne (List.length_filter_le ..) fun e => by
    simpa using List.length_filter_eq_length_iff.1 e id h

-- Ends where no edge leads on, or one leads to a node that is missing or was visited.
def walk (g : Graph) (unvisited : List String) (n : Node) : List Node :=
  if _ : n.id ∈ unvisited then
    n :: match g.next? n with
      | some m => walk g (without unvisited n.id) m
      | none => []
  else []
termination_by unvisited.length
decreasing_by exact length_without_lt ‹_›

def chain (g : Graph) : List Node :=
  match g.start? with
  | some s => g.walk (g.nodes.map (·.id)) s
  | none => []

def chainedConditions (g : Graph) : List String :=
  (g.chain.filter Node.isCondition).map (·.id)

def tail? (g : Graph) : Option Node := g.chain.getLast?

end TradingStrategy.Graph
