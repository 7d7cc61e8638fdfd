import TradingStrategy.Graph.Handle

set_option autoImplicit false

namespace TradingStrategy

structure Position where
  x : Binary64
  y : Binary64
deriving DecidableEq, Repr

namespace Position

def origin : Position := ⟨.zero, .zero⟩

def offset (p : Position) (dx dy : Binary64) : Position := ⟨p.x + dx, p.y + dy⟩

end Position

inductive Node.Kind where
  | start
  | condition
  | action
deriving DecidableEq, Repr

structure Node where
  id : String
  kind : Node.Kind
  position : Position
deriving DecidableEq, Repr

inductive Edge.Kind where
  | condition
  | action
deriving DecidableEq, Repr

structure EdgeDetail where
  sequence : Option UInt32 := none
  sourceCondition : Option String := none
deriving DecidableEq, Repr

structure Edge where
  id : String
  source : String
  target : String
  sourceHandle : Option Handle
  targetHandle : Option Handle
  kind : Edge.Kind
  data : Option EdgeDetail
deriving DecidableEq, Repr

namespace Node

def isCondition (n : Node) : Bool := n.kind = .condition

def isAction (n : Node) : Bool := n.kind = .action

end Node

namespace Edge

def standardId (source target : String) : String := "e_" ++ source ++ "_" ++ target

def condition (source target : String) : Edge :=
  { id := standardId source target, source, target
    sourceHandle := some ⟨source, .bottom⟩, targetHandle := some ⟨target, .top⟩
    kind := .condition, data := none }

def action (source target : String) : Edge :=
  { id := standardId source target, source, target
    sourceHandle := some ⟨source, .right⟩, targetHandle := some ⟨target, .left⟩
    kind := .action, data := some { sourceCondition := some source } }

def isCondition (e : Edge) : Bool := e.kind = .condition

def isAction (e : Edge) : Bool := e.kind = .action

def isLink (e : Edge) : Bool :=
  e.isCondition && !e.sourceHandle.any fun h => h.side = .right

def touches (e : Edge) (id : String) : Bool := e.source == id || e.target == id

def sequence (e : Edge) : Option UInt32 := e.data.bind EdgeDetail.sequence

def setSequence (e : Edge) (n : UInt32) : Edge :=
  { e with data := some { e.data.getD {} with sequence := some n } }

end Edge

structure Graph where
  nodes : List Node
  edges : List Edge
deriving DecidableEq, Repr

namespace Graph

def startId : String := "start"

def initial (start : Position) : Graph := ⟨[⟨startId, .start, start⟩], []⟩

def node? (g : Graph) (id : String) : Option Node := g.nodes.find? (·.id == id)

def contains (g : Graph) (id : String) : Bool := (g.node? id).isSome

def start? (g : Graph) : Option Node := g.nodes.find? (·.kind = .start)

def edge? (g : Graph) (id : String) : Option Edge := g.edges.find? (·.id == id)

def nodesOf (g : Graph) (kind : Node.Kind) : List Node := g.nodes.filter (·.kind = kind)

def isKind (g : Graph) (kind : Node.Kind) (id : String) : Bool :=
  (g.node? id).any (·.kind = kind)

def outgoing? (g : Graph) (id : String) : Option Edge :=
  g.edges.find? fun e => e.isCondition && e.source == id

def incoming? (g : Graph) (id : String) : Option Edge :=
  g.edges.find? fun e => e.isCondition && e.target == id

def setPosition (g : Graph) (id : String) (p : Position) : Graph :=
  match g.nodes.findIdx? (·.id == id) with
  | some i => { g with nodes := g.nodes.modify i fun n => { n with position := p } }
  | none => g

def removeNode (g : Graph) (id : String) : Graph :=
  { nodes := g.nodes.filter (·.id != id), edges := g.edges.filter fun e => !e.touches id }

def addNode (g : Graph) (n : Node) : Graph := { g with nodes := g.nodes ++ [n] }

def addEdge (g : Graph) (e : Edge) : Graph := { g with edges := g.edges ++ [e] }

end Graph

namespace Node.Kind

def words : List (String × Node.Kind) :=
  [("START", .start), ("CONDITION", .condition), ("ACTION", .action)]

instance : Wire Node.Kind where
  toJson
    | .start => .string "START"
    | .condition => .string "CONDITION"
    | .action => .string "ACTION"
  ofJson? := Wire.word? words

end Node.Kind

namespace Edge.Kind

def words : List (String × Edge.Kind) := [("conditionEdge", .condition), ("actionEdge", .action)]

instance : Wire Edge.Kind where
  toJson
    | .condition => .string "conditionEdge"
    | .action => .string "actionEdge"
  ofJson? := Wire.word? words

end Edge.Kind

instance : Wire Position where
  toJson p := .record [("x", some (Wire.toJson p.x)), ("y", some (Wire.toJson p.y))]
  ofJson? j := do
    let f ← Fields.ofJson? ["x", "y"] j
    return { x := ← f.required "x", y := ← f.required "y" }

instance : Wire Node where
  toJson n := .record
    [("id", some (Wire.toJson n.id)),
      ("type", some (Wire.toJson n.kind)),
      ("position", some (Wire.toJson n.position))]
  ofJson? j := do
    let f ← Fields.ofJson? ["id", "type", "position"] j
    return { id := ← f.required "id", kind := ← f.required "type",
             position := ← f.required "position" }

instance : Wire EdgeDetail where
  toJson d := .record
    [("sequence", d.sequence.map Wire.toJson),
      ("sourceCondition", d.sourceCondition.map Wire.toJson)]
  ofJson? j := do
    let f ← Fields.ofJson? ["sequence", "sourceCondition"] j
    return { sequence := ← f.optional "sequence", sourceCondition := ← f.optional "sourceCondition" }

instance : Wire Edge where
  toJson e := .record
    [("id", some (Wire.toJson e.id)),
      ("source", some (Wire.toJson e.source)),
      ("target", some (Wire.toJson e.target)),
      ("sourceHandle", e.sourceHandle.map Wire.toJson),
      ("targetHandle", e.targetHandle.map Wire.toJson),
      ("type", some (Wire.toJson e.kind)),
      ("data", e.data.map Wire.toJson)]
  ofJson? j := do
    let f ← Fields.ofJson? ["id", "source", "target", "sourceHandle", "targetHandle", "type", "data"] j
    return { id := ← f.required "id", source := ← f.required "source",
             target := ← f.required "target", sourceHandle := ← f.optional "sourceHandle",
             targetHandle := ← f.optional "targetHandle", kind := ← f.required "type",
             data := ← f.optional "data" }

instance : Wire Graph where
  toJson g := .record
    [("nodes", some (Wire.toJson g.nodes)),
      ("edges", some (Wire.toJson g.edges))]
  ofJson? j := do
    let f ← Fields.ofJson? ["nodes", "edges"] j
    return { nodes := ← f.required "nodes", edges := ← f.required "edges" }

end TradingStrategy
