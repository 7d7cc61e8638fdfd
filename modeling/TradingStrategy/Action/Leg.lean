import TradingStrategy.Json.Record

set_option autoImplicit false

namespace TradingStrategy

inductive Segment where
  | opt
  | fut
  | cash
deriving DecidableEq, Repr

inductive Transaction where
  | buy
  | sell
deriving DecidableEq, Repr

inductive OptionKind where
  | call
  | put
deriving DecidableEq, Repr

inductive StrikeBy where
  | moneyness
deriving DecidableEq, Repr

inductive Expiry where
  | weekly
  | monthly
deriving DecidableEq, Repr

inductive RiskUnit where
  | percent
  | currency
deriving DecidableEq, Repr

namespace RiskUnit

def token : RiskUnit → String
  | .percent => "%"
  | .currency => "val"

def ofToken (token : String) : RiskUnit := if token = "val" then .currency else .percent

end RiskUnit

structure LegTerms where
  id : String
  segment : Segment
  transaction : Transaction
  optionKind : Option OptionKind
  quantity : UInt32
  strikeBy : StrikeBy
  strike : String
  expiry : Expiry
  expiryNo : UInt32
deriving DecidableEq, Repr

structure Threshold where
  enabled : Bool := false
  basis : RiskUnit := .percent
  value : Binary64 := .zero
deriving DecidableEq, Repr

/-- A stop that follows the price: it moves by `y` for each move of `x`. -/
structure Trailing where
  enabled : Bool := false
  basis : RiskUnit := .percent
  x : Binary64 := .zero
  y : Binary64 := .zero
deriving DecidableEq, Repr

structure WaitTrade where
  enabled : Bool := false
  basis : String := ""
  value : Binary64 := .zero
deriving DecidableEq, Repr

structure ReEntry where
  enabled : Bool := false
  basis : String := ""
  value : Binary64 := .zero
  maxCount : UInt32 := 0
deriving DecidableEq, Repr

structure Leg where
  terms : LegTerms
  target : Threshold := {}
  stopLoss : Threshold := {}
  trailing : Trailing := {}
  wait : WaitTrade := {}
  targetReEntry : ReEntry := {}
  stopReEntry : ReEntry := {}
deriving DecidableEq, Repr

def Leg.standard (id : String) : Leg :=
  { terms := ⟨id, .opt, .buy, some .call, 1, .moneyness, "ATM", .weekly, 0⟩ }

structure SentFeature where
  enabled : Option Bool := none
  basis : Option String := none
  value : Option Binary64 := none
deriving DecidableEq, Repr

structure SentTrailing where
  enabled : Option Bool := none
  basis : Option String := none
  x : Option Binary64 := none
  y : Option Binary64 := none
deriving DecidableEq, Repr

structure SentReEntry where
  enabled : Option Bool := none
  basis : Option String := none
  value : Option Binary64 := none
  maxCount : Option UInt32 := none
deriving DecidableEq, Repr

structure SentLeg where
  terms : LegTerms
  target : SentFeature := {}
  stopLoss : SentFeature := {}
  trailing : SentTrailing := {}
  wait : SentFeature := {}
  targetReEntry : SentReEntry := {}
  stopReEntry : SentReEntry := {}
deriving DecidableEq, Repr

namespace Threshold

def compile (t : Threshold) : SentFeature :=
  if t.enabled then ⟨some true, some t.basis.token, some t.value⟩ else {}

def ofParams (p : SentFeature) : Threshold :=
  match p.value with
  | some value => ⟨true, (p.basis.map RiskUnit.ofToken).getD .percent, value⟩
  | none => {}

end Threshold

namespace Trailing

def compile (t : Trailing) : SentTrailing :=
  if t.enabled then ⟨some true, some t.basis.token, some t.x, some t.y⟩ else {}

def ofParams (p : SentTrailing) : Trailing :=
  match p.x, p.y with
  | some x, some y => ⟨true, (p.basis.map RiskUnit.ofToken).getD .percent, x, y⟩
  | _, _ => {}

end Trailing

namespace WaitTrade

def compile (w : WaitTrade) : SentFeature :=
  if w.enabled then ⟨some true, some w.basis, some w.value⟩ else {}

def ofParams (p : SentFeature) : WaitTrade :=
  match p.value with
  | some value => ⟨true, p.basis.getD "", value⟩
  | none => {}

end WaitTrade

namespace ReEntry

-- The backend accepts no more.
def limit : UInt32 := 20

def compile (r : ReEntry) : SentReEntry :=
  if r.enabled then ⟨some true, some r.basis, some r.value, some (min r.maxCount limit)⟩ else {}

def ofParams (p : SentReEntry) : ReEntry :=
  match p.value with
  | some value => ⟨true, p.basis.getD "", value, min (p.maxCount.getD 0) limit⟩
  | none => {}

end ReEntry

def Leg.compile (l : Leg) : SentLeg :=
  { terms := l.terms
    target := l.target.compile
    stopLoss := l.stopLoss.compile
    trailing := l.trailing.compile
    wait := l.wait.compile
    targetReEntry := l.targetReEntry.compile
    stopReEntry := l.stopReEntry.compile }

/-- The leg that the params describe; the switches are not read but follow from the values. -/
def SentLeg.restore (p : SentLeg) : Leg :=
  { terms := p.terms
    target := .ofParams p.target
    stopLoss := .ofParams p.stopLoss
    trailing := .ofParams p.trailing
    wait := .ofParams p.wait
    targetReEntry := .ofParams p.targetReEntry
    stopReEntry := .ofParams p.stopReEntry }

namespace Segment

def words : List (String × Segment) := [("OPT", .opt), ("FUT", .fut), ("CASH", .cash)]

instance : Wire Segment where
  toJson
    | .opt => .string "OPT"
    | .fut => .string "FUT"
    | .cash => .string "CASH"
  ofJson? := Wire.word? words

end Segment

namespace Transaction

def words : List (String × Transaction) := [("buy", .buy), ("sell", .sell)]

instance : Wire Transaction where
  toJson
    | .buy => .string "buy"
    | .sell => .string "sell"
  ofJson? := Wire.word? words

end Transaction

namespace OptionKind

def words : List (String × OptionKind) := [("CE", .call), ("PE", .put)]

instance : Wire OptionKind where
  toJson
    | .call => .string "CE"
    | .put => .string "PE"
  ofJson? := Wire.word? words

end OptionKind

namespace StrikeBy

def words : List (String × StrikeBy) := [("moneyness", .moneyness)]

instance : Wire StrikeBy where
  toJson
    | .moneyness => .string "moneyness"
  ofJson? := Wire.word? words

end StrikeBy

namespace Expiry

def words : List (String × Expiry) := [("weekly", .weekly), ("monthly", .monthly)]

instance : Wire Expiry where
  toJson
    | .weekly => .string "weekly"
    | .monthly => .string "monthly"
  ofJson? := Wire.word? words

end Expiry

namespace RiskUnit

def words : List (String × RiskUnit) := [("%", .percent), ("₹", .currency)]

instance : Wire RiskUnit where
  toJson
    | .percent => .string "%"
    | .currency => .string "₹"
  ofJson? := Wire.word? words

end RiskUnit

namespace LegTerms

def fieldNames : List String :=
  ["legID", "segment", "transactionType", "optionType", "qty", "strikeBy", "strikeVal", "expType",
    "expNo"]

def fields (t : LegTerms) : List (String × Option Json) :=
  [("legID", some (Wire.toJson t.id)),
    ("segment", some (Wire.toJson t.segment)),
    ("transactionType", some (Wire.toJson t.transaction)),
    ("optionType", t.optionKind.map Wire.toJson),
    ("qty", some (Wire.toJson t.quantity)),
    ("strikeBy", some (Wire.toJson t.strikeBy)),
    ("strikeVal", some (Wire.toJson t.strike)),
    ("expType", some (Wire.toJson t.expiry)),
    ("expNo", some (Wire.toJson t.expiryNo))]

def ofFields? (f : Fields) : Option LegTerms := do
  return { id := ← f.required "legID", segment := ← f.required "segment",
           transaction := ← f.required "transactionType",
           optionKind := ← f.optional "optionType", quantity := ← f.required "qty",
           strikeBy := ← f.required "strikeBy", strike := ← f.required "strikeVal",
           expiry := ← f.required "expType", expiryNo := ← f.required "expNo" }

def legFieldNames : List String :=
  fieldNames ++
    ["isTarget", "targetOn", "targetValue", "isSL", "SLon", "SLvalue", "isTrailSL", "trailSLon",
      "trailSL_X", "trailSL_Y", "isWT", "wtOn", "wtVal", "isReEntryTg", "reEntryTgOn",
      "reEntryTgVal", "reEntryTgMaxNo", "isReEntrySL", "reEntrySLOn", "reEntrySLVal",
      "reEntrySLMaxNo"]

end LegTerms

instance : Wire Leg where
  toJson l := .record <| l.terms.fields ++
    [("isTarget", some (Wire.toJson l.target.enabled)),
      ("targetOn", some (Wire.toJson l.target.basis)),
      ("targetValue", some (Wire.toJson l.target.value)),
      ("isSL", some (Wire.toJson l.stopLoss.enabled)),
      ("SLon", some (Wire.toJson l.stopLoss.basis)),
      ("SLvalue", some (Wire.toJson l.stopLoss.value)),
      ("isTrailSL", some (Wire.toJson l.trailing.enabled)),
      ("trailSLon", some (Wire.toJson l.trailing.basis)),
      ("trailSL_X", some (Wire.toJson l.trailing.x)),
      ("trailSL_Y", some (Wire.toJson l.trailing.y)),
      ("isWT", some (Wire.toJson l.wait.enabled)),
      ("wtOn", some (Wire.toJson l.wait.basis)),
      ("wtVal", some (Wire.toJson l.wait.value)),
      ("isReEntryTg", some (Wire.toJson l.targetReEntry.enabled)),
      ("reEntryTgOn", some (Wire.toJson l.targetReEntry.basis)),
      ("reEntryTgVal", some (Wire.toJson l.targetReEntry.value)),
      ("reEntryTgMaxNo", some (Wire.toJson l.targetReEntry.maxCount)),
      ("isReEntrySL", some (Wire.toJson l.stopReEntry.enabled)),
      ("reEntrySLOn", some (Wire.toJson l.stopReEntry.basis)),
      ("reEntrySLVal", some (Wire.toJson l.stopReEntry.value)),
      ("reEntrySLMaxNo", some (Wire.toJson l.stopReEntry.maxCount))]
  ofJson? j := do
    let f ← Fields.ofJson? LegTerms.legFieldNames j
    return { terms := ← LegTerms.ofFields? f
             target :=
               { enabled := ← f.required "isTarget", basis := ← f.required "targetOn",
                 value := ← f.required "targetValue" }
             stopLoss :=
               { enabled := ← f.required "isSL", basis := ← f.required "SLon",
                 value := ← f.required "SLvalue" }
             trailing :=
               { enabled := ← f.required "isTrailSL", basis := ← f.required "trailSLon",
                 x := ← f.required "trailSL_X", y := ← f.required "trailSL_Y" }
             wait :=
               { enabled := ← f.required "isWT", basis := ← f.required "wtOn",
                 value := ← f.required "wtVal" }
             targetReEntry :=
               { enabled := ← f.required "isReEntryTg", basis := ← f.required "reEntryTgOn",
                 value := ← f.required "reEntryTgVal", maxCount := ← f.required "reEntryTgMaxNo" }
             stopReEntry :=
               { enabled := ← f.required "isReEntrySL", basis := ← f.required "reEntrySLOn",
                 value := ← f.required "reEntrySLVal",
                 maxCount := ← f.required "reEntrySLMaxNo" } }

instance : Wire SentLeg where
  toJson p := .record <| p.terms.fields ++
    [("isTarget", p.target.enabled.map Wire.toJson),
      ("targetOn", p.target.basis.map Wire.toJson),
      ("targetValue", p.target.value.map Wire.toJson),
      ("isSL", p.stopLoss.enabled.map Wire.toJson),
      ("SLon", p.stopLoss.basis.map Wire.toJson),
      ("SLvalue", p.stopLoss.value.map Wire.toJson),
      ("isTrailSL", p.trailing.enabled.map Wire.toJson),
      ("trailSLon", p.trailing.basis.map Wire.toJson),
      ("trailSL_X", p.trailing.x.map Wire.toJson),
      ("trailSL_Y", p.trailing.y.map Wire.toJson),
      ("isWT", p.wait.enabled.map Wire.toJson),
      ("wtOn", p.wait.basis.map Wire.toJson),
      ("wtVal", p.wait.value.map Wire.toJson),
      ("isReEntryTg", p.targetReEntry.enabled.map Wire.toJson),
      ("reEntryTgOn", p.targetReEntry.basis.map Wire.toJson),
      ("reEntryTgVal", p.targetReEntry.value.map Wire.toJson),
      ("reEntryTgMaxNo", p.targetReEntry.maxCount.map Wire.toJson),
      ("isReEntrySL", p.stopReEntry.enabled.map Wire.toJson),
      ("reEntrySLOn", p.stopReEntry.basis.map Wire.toJson),
      ("reEntrySLVal", p.stopReEntry.value.map Wire.toJson),
      ("reEntrySLMaxNo", p.stopReEntry.maxCount.map Wire.toJson)]
  ofJson? j := do
    let f ← Fields.ofJson? LegTerms.legFieldNames j
    return { terms := ← LegTerms.ofFields? f
             target :=
               { enabled := ← f.optional "isTarget", basis := ← f.optional "targetOn",
                 value := ← f.optional "targetValue" }
             stopLoss :=
               { enabled := ← f.optional "isSL", basis := ← f.optional "SLon",
                 value := ← f.optional "SLvalue" }
             trailing :=
               { enabled := ← f.optional "isTrailSL", basis := ← f.optional "trailSLon",
                 x := ← f.optional "trailSL_X", y := ← f.optional "trailSL_Y" }
             wait :=
               { enabled := ← f.optional "isWT", basis := ← f.optional "wtOn",
                 value := ← f.optional "wtVal" }
             targetReEntry :=
               { enabled := ← f.optional "isReEntryTg", basis := ← f.optional "reEntryTgOn",
                 value := ← f.optional "reEntryTgVal", maxCount := ← f.optional "reEntryTgMaxNo" }
             stopReEntry :=
               { enabled := ← f.optional "isReEntrySL", basis := ← f.optional "reEntrySLOn",
                 value := ← f.optional "reEntrySLVal",
                 maxCount := ← f.optional "reEntrySLMaxNo" } }

end TradingStrategy
