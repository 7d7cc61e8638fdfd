import TradingStrategy.Condition.Compiled
import TradingStrategy.Graph.FanOut
import TradingStrategy.Json.Reader
import TradingStrategy.Strategy.Basic

set_option autoImplicit false

namespace TradingStrategy

structure Payload where
  strategyName : String
  settings : ExecutionSettings
  data : List DataDeclaration
  indicators : List IndicatorDeclaration
  actions : Dict SentAction
  conditions : Dict SentCondition
  sequence : List String
  nodes : List Node
  edges : List Edge
  listing : Option Listing
deriving DecidableEq

namespace Strategy

/-- The payload under a registry. Contents without a node of their kind are left out. -/
def compileWith (registry : Registry) (s : Strategy) : Payload :=
  { strategyName := s.name
    settings := s.settings
    data := s.dataPoints.map (·.declaration)
    indicators := s.indicators.map (·.declaration)
    actions :=
      (s.actions.filter fun id _ => s.graph.isKind .action id).map fun _ a => a.compile
    conditions :=
      (s.conditions.filter fun id _ => s.graph.isKind .condition id).map fun id c =>
        c.compile registry id (s.graph.fanOutTargets id)
    sequence := s.graph.chainedConditions
    nodes := s.graph.nodes
    edges := s.graph.edges
    listing := s.listing }

def compile (s : Strategy) (overrides : List (String × Capabilities)) : Payload :=
  s.compileWith (s.catalog.extend overrides).registry

end Strategy

namespace Payload

def drawIds {α β : Type} (stem : String) (make : String → α → β) :
    List α → List String → Drawing Refusal (List β × List String)
  | [], taken => return ([], taken)
  | a :: rest, taken => do
    let (id, taken) ← Drawing.uniqueAmong stem taken
    let (made, taken) ← drawIds stem make rest taken
    return (make id a :: made, taken)

def restoreActions : List (String × SentAction) →
    Drawing RestoreError (List (String × Action))
  | [] => return []
  | (id, compiled) :: rest => do
    let node ← compiled.restore id
    let others ← restoreActions rest
    return (id, node) :: others

def restoreConditions (registry : Registry) : List (String × SentCondition) →
    Drawing RestoreError (List (String × Condition))
  | [] => return []
  | (id, compiled) :: rest => do
    let condition ← Drawing.relabel .ids (compiled.restore registry)
    let others ← restoreConditions registry rest
    return (id, condition) :: others

/-- The saved graph; a START node is put in front if it has none. -/
def graph (p : Payload) : Graph :=
  let g : Graph := ⟨p.nodes, p.edges⟩
  if g.start?.isSome then g
  else { g with nodes := ⟨Graph.startId, .start, .origin⟩ :: g.nodes }

/-- An editable strategy. Ids are drawn for data, indicators, actions and conditions in turn, nodes
in key order. -/
def restore (p : Payload) (overrides : List (String × Capabilities)) :
    Drawing RestoreError Strategy := do
  let (dataPoints, taken) ← Drawing.relabel .ids (drawIds "data" DataPoint.mk p.data [])
  let (indicators, _) ← Drawing.relabel .ids
    (drawIds "indicator" (fun id d => ⟨id, d.spec⟩) p.indicators taken)
  let catalog := (Catalog.ofDeclared p.data (p.indicators.map (·.spec))).extend overrides
  let actions ← restoreActions p.actions.entries
  let conditions ← restoreConditions catalog.registry p.conditions.entries
  return { name := p.strategyName, settings := p.settings, graph := p.graph,
           conditions := .ofList conditions, actions := .ofList actions, dataPoints, indicators,
           listing := p.listing }

end Payload

instance : Wire Payload where
  toJson p := .record
    [("strategyName", some (Wire.toJson p.strategyName)),
      ("settings", some (Wire.toJson p.settings)),
      ("data", some (Wire.toJson p.data)),
      ("indicators", some (Wire.toJson p.indicators)),
      ("actions", some (Wire.toJson p.actions)),
      ("conditions", some (Wire.toJson p.conditions)),
      ("conditions_seq", some (Wire.toJson p.sequence)),
      ("conditions_loc", some (Wire.toJson p.nodes)),
      ("actions_loc", some (Wire.toJson p.edges)),
      ("stratinfo", p.listing.map Wire.toJson)]
  ofJson? j := do
    let f ← Fields.ofJson? ["strategyName", "settings", "data", "indicators", "actions",
      "conditions", "conditions_seq", "conditions_loc", "actions_loc", "stratinfo"] j
    return { strategyName := ← f.required "strategyName", settings := ← f.required "settings",
             data := ← f.withDefault "data" [], indicators := ← f.withDefault "indicators" [],
             actions := ← f.withDefault "actions" .empty,
             conditions := ← f.withDefault "conditions" .empty,
             sequence := ← f.withDefault "conditions_seq" [],
             nodes := ← f.withDefault "conditions_loc" [],
             edges := ← f.withDefault "actions_loc" [], listing := ← f.optional "stratinfo" }

def ofText? {α : Type} [Wire α] (text : String) : Option α :=
  (Json.ofText? text).bind Wire.ofJson?

namespace Payload

def load (text : String) : Drawing LoadError Strategy := do
  match (ofText? text : Option Payload) with
  | none => throw .json
  | some p => Drawing.relabel .restore (p.restore [])

def same (p q : Payload) : Bool := Wire.same p q && p.edges == q.edges

end Payload

end TradingStrategy
