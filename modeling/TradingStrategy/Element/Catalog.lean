import TradingStrategy.Json.Record

set_option autoImplicit false

namespace TradingStrategy

inductive Feed where
  | candleData
  | dte
deriving DecidableEq, Repr

inductive Formula where
  | ema
  | sma
  | supertrend
deriving DecidableEq, Repr

structure IndicatorSettings where
  length : UInt32
  offset : Option Int32
  multiplier : Option Binary64
deriving DecidableEq

structure DataDeclaration where
  name : String
  kind : Feed
  params : Dict Value
deriving DecidableEq

structure DataPoint where
  id : String
  declaration : DataDeclaration
deriving DecidableEq

structure IndicatorSpec where
  name : String
  kind : Formula
  onData : String
  columns : List String
  params : IndicatorSettings
deriving DecidableEq

structure IndicatorDeclaration where
  spec : IndicatorSpec
  onEntireData : Bool
deriving DecidableEq

structure Indicator where
  id : String
  spec : IndicatorSpec
deriving DecidableEq

-- Editing keeps no mark of whole-data indicators, so none is declared as one.
def Indicator.declaration (i : Indicator) : IndicatorDeclaration :=
  { spec := i.spec, onEntireData := false }

inductive ElementClass where
  | candleData
  | dte
  | indicator
  | enumerated
deriving DecidableEq, Repr

structure Capabilities where
  kind : ElementClass
  columns : List String
  candleLocation : Bool
  comparableWith : List String
deriving DecidableEq, Repr

namespace Capabilities

def candleColumns : List String := ["open", "high", "low", "close", "volume"]

def candle : Capabilities :=
  ⟨.candleData, candleColumns, true, ["candleData", "indicator", "values"]⟩

def dte : Capabilities := ⟨.dte, [], false, ["int"]⟩

def indicator (columns : List String) : Capabilities :=
  ⟨.indicator, columns, true, ["candleData", "indicator", "values"]⟩

def enumerated : Capabilities := ⟨.enumerated, [], false, ["enum"]⟩

def hasColumns (o : Capabilities) : Bool := !o.columns.isEmpty

def takesNumbers (o : Capabilities) : Bool :=
  o.kind = .dte || o.comparableWith.contains "int" || o.comparableWith.contains "values"

end Capabilities

def enumeratedNames : List String := ["day_of_week", "candle_time", "candle_close_time"]

def isEnumerated (name : String) : Bool := enumeratedNames.contains name

abbrev Registry := String → Option Capabilities

abbrev Catalog := Dict Capabilities

namespace Catalog

def builtin : Catalog := Dict.ofList (enumeratedNames.map fun n => (n, .enumerated))

def extend (c : Catalog) (es : List (String × Capabilities)) : Catalog :=
  es.foldl (fun c e => c.insert e.1 e.2) c

def ofData (d : DataDeclaration) : String × Capabilities :=
  (d.name, match d.kind with
    | .candleData => .candle
    | .dte => .dte)

def ofIndicator (i : IndicatorSpec) : String × Capabilities := (i.name, .indicator i.columns)

/-- Capabilities implied by declarations; of equal names the last counts, indicators after data. -/
def ofDeclared (data : List DataDeclaration) (indicators : List IndicatorSpec) : Catalog :=
  extend builtin (data.map ofData ++ indicators.map ofIndicator)

def registry (c : Catalog) : Registry := c.get?

end Catalog

namespace Feed

def words : List (String × Feed) := [("candleData", .candleData), ("dte", .dte)]

instance : Wire Feed where
  toJson
    | .candleData => .string "candleData"
    | .dte => .string "dte"
  ofJson? := Wire.word? words

end Feed

namespace Formula

def words : List (String × Formula) :=
  [("ema", .ema), ("sma", .sma), ("supertrend", .supertrend)]

instance : Wire Formula where
  toJson
    | .ema => .string "ema"
    | .sma => .string "sma"
    | .supertrend => .string "supertrend"
  ofJson? := Wire.word? words

end Formula

namespace ElementClass

def words : List (String × ElementClass) :=
  [("candleData", .candleData), ("dte", .dte), ("indicator", .indicator),
    ("enumerated", .enumerated)]

instance : Wire ElementClass where
  toJson
    | .candleData => .string "candleData"
    | .dte => .string "dte"
    | .indicator => .string "indicator"
    | .enumerated => .string "enumerated"
  ofJson? := Wire.word? words

end ElementClass

instance : Wire IndicatorSettings where
  toJson p := .record
    [("length", some (Wire.toJson p.length)),
      ("offset", p.offset.map Wire.toJson),
      ("multiplier", p.multiplier.map Wire.toJson)]
  ofJson? j := do
    let f ← Fields.ofJson? ["length", "offset", "multiplier"] j
    return { length := ← f.required "length", offset := ← f.optional "offset",
             multiplier := ← f.optional "multiplier" }

instance : Wire DataPoint where
  toJson d := .record
    [("id", some (Wire.toJson d.id)),
      ("name", some (Wire.toJson d.declaration.name)),
      ("kind", some (Wire.toJson d.declaration.kind)),
      ("params", some (Wire.toJson d.declaration.params))]
  ofJson? j := do
    let f ← Fields.ofJson? ["id", "name", "kind", "params"] j
    return { id := ← f.required "id"
             declaration :=
               { name := ← f.required "name", kind := ← f.required "kind",
                 params := ← f.withDefault "params" Dict.empty } }

instance : Wire DataDeclaration where
  toJson d := .record
    [("name", some (Wire.toJson d.name)),
      ("type", some (Wire.toJson d.kind)),
      ("params", some (Wire.toJson d.params))]
  ofJson? j := do
    let f ← Fields.ofJson? ["name", "type", "params"] j
    return { name := ← f.required "name", kind := ← f.required "type",
             params := ← f.withDefault "params" Dict.empty }

instance : Wire Indicator where
  toJson i := .record
    [("id", some (Wire.toJson i.id)),
      ("name", some (Wire.toJson i.spec.name)),
      ("kind", some (Wire.toJson i.spec.kind)),
      ("on_data", some (Wire.toJson i.spec.onData)),
      ("columns", some (Wire.toJson i.spec.columns)),
      ("params", some (Wire.toJson i.spec.params))]
  ofJson? j := do
    let f ← Fields.ofJson? ["id", "name", "kind", "on_data", "columns", "params"] j
    return { id := ← f.required "id"
             spec :=
               { name := ← f.required "name", kind := ← f.required "kind",
                 onData := ← f.required "on_data", columns := ← f.withDefault "columns" [],
                 params := ← f.required "params" } }

instance : Wire IndicatorDeclaration where
  toJson i := .record
    [("name", some (Wire.toJson i.spec.name)),
      ("indicator", some (Wire.toJson i.spec.kind)),
      ("onData", some (Wire.toJson i.spec.onData)),
      ("onEntireData", some (Wire.toJson i.onEntireData)),
      ("columns", some (Wire.toJson i.spec.columns)),
      ("params", some (Wire.toJson i.spec.params))]
  ofJson? j := do
    let f ← Fields.ofJson? ["name", "indicator", "onData", "onEntireData", "columns", "params"] j
    return { onEntireData := ← f.withDefault "onEntireData" false
             spec :=
               { name := ← f.required "name", kind := ← f.required "indicator",
                 onData := ← f.required "onData", columns := ← f.withDefault "columns" [],
                 params := ← f.required "params" } }

instance : Wire Capabilities where
  toJson o := .record
    [("kind", some (Wire.toJson o.kind)),
      ("columnsAvailable", some (Wire.toJson o.columns)),
      ("candleLocation", some (Wire.toJson o.candleLocation)),
      ("canComparedWith", some (Wire.toJson o.comparableWith))]
  ofJson? j := do
    let f ← Fields.ofJson? ["kind", "columnsAvailable", "candleLocation", "canComparedWith"] j
    return { kind := ← f.required "kind", columns := ← f.withDefault "columnsAvailable" [],
             candleLocation := ← f.withDefault "candleLocation" false,
             comparableWith := ← f.withDefault "canComparedWith" [] }

end TradingStrategy
