import TradingStrategy.Action.Node
import TradingStrategy.Condition.Basic
import TradingStrategy.Graph.Chain

set_option autoImplicit false

namespace TradingStrategy

structure OrderLimits where
  timeLimit : Option UInt32 := none
  shouldExecute : Option Bool := none
  priceBuffer : Option Binary64 := none
deriving DecidableEq, Repr

structure ExecutionSettings where
  underlying : String := ""
  strategyType : String := ""
  timeframe : UInt32 := 0
  tradingDays : String := ""
  tradingDaysList : List UInt32 := []
  productType : String := ""
  entryOperation : OrderLimits := {}
  exitOperation : OrderLimits := {}
  orderType : String := ""
  squareOffTime : Option String := none
deriving DecidableEq, Repr

structure Listing where
  visibility : String
  description : String
  capitalRequired : Binary64
  createdOn : String
  status : String
deriving DecidableEq, Repr

structure Strategy where
  name : String
  settings : ExecutionSettings
  graph : Graph
  conditions : Dict Condition
  actions : Dict Action
  dataPoints : List DataPoint
  indicators : List Indicator
  listing : Option Listing
deriving DecidableEq

namespace Strategy

def initial (name : String) (start : Position) : Strategy :=
  { name, settings := {}, graph := .initial start, conditions := .empty, actions := .empty,
    dataPoints := [], indicators := [], listing := none }

def catalog (s : Strategy) : Catalog :=
  Catalog.ofDeclared (s.dataPoints.map (·.declaration)) (s.indicators.map (·.spec))

def usesNodeId (s : Strategy) (id : String) : Bool :=
  s.graph.contains id || s.conditions.contains id || s.actions.contains id

def usesPartId (s : Strategy) (id : String) : Bool :=
  s.conditions.values.any (·.containsId id)

def usesItemId (s : Strategy) (id : String) : Bool := s.actions.values.any (·.containsItem id)

end Strategy

instance : Wire OrderLimits where
  toJson o := .record
    [("timeLimit", o.timeLimit.map Wire.toJson),
      ("shouldExecute", o.shouldExecute.map Wire.toJson),
      ("priceBuffer", o.priceBuffer.map Wire.toJson)]
  ofJson? j := do
    let f ← Fields.ofJson? ["timeLimit", "shouldExecute", "priceBuffer"] j
    return { timeLimit := ← f.optional "timeLimit", shouldExecute := ← f.optional "shouldExecute",
             priceBuffer := ← f.optional "priceBuffer" }

instance : Wire ExecutionSettings where
  toJson s := .record
    [("underlying", some (Wire.toJson s.underlying)),
      ("strategy_type", some (Wire.toJson s.strategyType)),
      ("timeframe", some (Wire.toJson s.timeframe)),
      ("tradingDays", some (Wire.toJson s.tradingDays)),
      ("tradingDaysList", some (Wire.toJson s.tradingDaysList)),
      ("productType", some (Wire.toJson s.productType)),
      ("entryOperation", some (Wire.toJson s.entryOperation)),
      ("exitOperation", some (Wire.toJson s.exitOperation)),
      ("orderType", some (Wire.toJson s.orderType)),
      ("squareoffTime", s.squareOffTime.map Wire.toJson)]
  ofJson? j := do
    let f ← Fields.ofJson? ["underlying", "strategy_type", "timeframe", "tradingDays",
      "tradingDaysList", "productType", "entryOperation", "exitOperation", "orderType",
      "squareoffTime"] j
    return { underlying := ← f.required "underlying", strategyType := ← f.required "strategy_type",
             timeframe := ← f.required "timeframe", tradingDays := ← f.required "tradingDays",
             tradingDaysList := ← f.withDefault "tradingDaysList" [],
             productType := ← f.required "productType",
             entryOperation := ← f.withDefault "entryOperation" {},
             exitOperation := ← f.withDefault "exitOperation" {},
             orderType := ← f.required "orderType", squareOffTime := ← f.optional "squareoffTime" }

instance : Wire Listing where
  toJson l := .record
    [("visibility", some (Wire.toJson l.visibility)),
      ("description", some (Wire.toJson l.description)),
      ("capitalReq", some (Wire.toJson l.capitalRequired)),
      ("createdon", some (Wire.toJson l.createdOn)),
      ("status", some (Wire.toJson l.status))]
  ofJson? j := do
    let f ← Fields.ofJson? ["visibility", "description", "capitalReq", "createdon", "status"] j
    return { visibility := ← f.required "visibility", description := ← f.required "description",
             capitalRequired := ← f.required "capitalReq", createdOn := ← f.required "createdon",
             status := ← f.required "status" }

instance : Wire Strategy where
  toJson s := .record
    [("name", some (Wire.toJson s.name)),
      ("settings", some (Wire.toJson s.settings)),
      ("graph", some (Wire.toJson s.graph)),
      ("conditions", some (Wire.toJson s.conditions)),
      ("actions", some (Wire.toJson s.actions)),
      ("dataPoints", some (Wire.toJson s.dataPoints)),
      ("indicators", some (Wire.toJson s.indicators)),
      ("stratInfo", s.listing.map Wire.toJson)]
  ofJson? j := do
    let f ← Fields.ofJson? ["name", "settings", "graph", "conditions", "actions", "dataPoints",
      "indicators", "stratInfo"] j
    return { name := ← f.required "name", settings := ← f.required "settings",
             graph := ← f.required "graph", conditions := ← f.required "conditions",
             actions := ← f.required "actions", dataPoints := ← f.withDefault "dataPoints" [],
             indicators := ← f.withDefault "indicators" [], listing := ← f.optional "stratInfo" }

end TradingStrategy
