import TradingStrategy.Graph.FanOut
import TradingStrategy.Strategy.Basic

set_option autoImplicit false

namespace TradingStrategy.Strategy

def connect (s : Strategy) (condition action : String) : Except Refusal Strategy :=
  match s.graph.node? condition, s.graph.node? action with
  | none, _ => .error (.nodeNotFound condition)
  | some _, none => .error (.nodeNotFound action)
  | some source, some target =>
    if !source.isCondition then
      .error (.invalidConnection condition action "source is not a condition node")
    else if !target.isAction then
      .error (.invalidConnection condition action "target is not an action node")
    else if s.graph.fansOut condition action then
      .error (.duplicateActionEdge condition action)
    else
      .ok { s with graph := (s.graph.addEdge (.action condition action)).numberFanOut condition }

/-- An edge that is not there need not be removed; one of the chain must not be. -/
def disconnect (s : Strategy) (edge : String) : Except Refusal Strategy :=
  match s.graph.edge? edge with
  | none => .ok s
  | some e =>
    if e.isCondition then .error (.chainEdge edge)
    else
      let g := { s.graph with edges := s.graph.edges.filter (·.id != edge) }
      .ok { s with graph := g.numberFanOut e.source }

def deleteAction (s : Strategy) (id : String) : Strategy :=
  { s with
    actions := s.actions.erase id
    graph := (s.graph.removeNode id).numberFanOuts (s.graph.feeders id) }

def deleteCondition (s : Strategy) (id : String) : Strategy :=
  let rest := s.graph.removeNode id
  { s with
    conditions := s.conditions.erase id
    graph :=
      match s.graph.incoming? id, s.graph.outgoing? id with
      | some before, some after => rest.addEdge (.condition before.source after.target)
      | _, _ => rest }

def deleteNode (s : Strategy) (id : String) : Strategy :=
  match s.graph.node? id with
  | none => s
  | some n =>
    match n.kind with
    | .action => s.deleteAction id
    | .condition => s.deleteCondition id
    | .start => s

-- Of several that are equally high, the first.
def topmost? : List Node → Option Node
  | [] => none
  | n :: rest =>
    match topmost? rest with
    | some m => if m.position.y.rank < n.position.y.rank then some m else some n
    | none => some n

def heads (g : Graph) : List Node :=
  (g.nodesOf .condition).filter fun n => !g.edges.any fun e => e.isCondition && e.target == n.id

/-- Links START to the topmost condition without a predecessor when it has no link. -/
def linkStart (g : Graph) : Graph :=
  match g.start? with
  | none => g
  | some start =>
    if (g.outgoing? start.id).isSome then g
    else
      match topmost? (heads g) with
      | some head => g.addEdge (.condition start.id head.id)
      | none => g

def deleteNodes (s : Strategy) (ids : List String) : Except Refusal Strategy :=
  if ids.any (s.graph.isKind .start) then .error .cannotDeleteStart
  else
    let rest := ids.foldl deleteNode s
    .ok { rest with graph := linkStart rest.graph }

def exchanged (a b id : String) : String := if id = a then b else if id = b then a else id

/-- Exchanges the positions of two neighbours of the chain and repoints the links around them.
Their fan-outs stay. -/
def swapConditions (s : Strategy) (a b : String) : Except Refusal Strategy :=
  match s.graph.node? a, s.graph.node? b with
  | none, _ => .error (.nodeNotFound a)
  | some _, none => .error (.nodeNotFound b)
  | some first, some second =>
    let adjacent := s.graph.edges.any fun e =>
      e.isLink && ((e.source == a && e.target == b) || (e.source == b && e.target == a))
    if !first.isCondition || !second.isCondition || !adjacent then .error (.notAdjacent a b)
    else
      let nodes := s.graph.nodes.map fun n =>
        if n.id = a then { n with position := second.position }
        else if n.id = b then { n with position := first.position }
        else n
      let edges := s.graph.edges.map fun e =>
        if e.isLink && (e.touches a || e.touches b) then
          .condition (exchanged a b e.source) (exchanged a b e.target)
        else e
      .ok { s with graph := { nodes, edges } }

def moveNode (s : Strategy) (id : String) (position : Position) : Strategy :=
  match s.graph.node? id with
  | none => s
  | some n =>
    let g := s.graph.setPosition id position
    { s with graph := if n.isAction then g.numberFanOuts (g.feeders id) else g }

end TradingStrategy.Strategy
