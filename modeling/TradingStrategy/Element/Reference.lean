import TradingStrategy.Element.Catalog
import TradingStrategy.Element.Period
import TradingStrategy.Text.Segments

set_option autoImplicit false

namespace TradingStrategy

structure Reference where
  base : String
  column : Option String
  period : Option Period
deriving DecidableEq, Repr

namespace Reference

def bare (base : String) : Reference := ⟨base, none, none⟩

def parts (r : Reference) : List String :=
  r.base :: (r.column.toList ++ (r.period.map Period.text).toList)

def path (r : Reference) : String := ".".intercalate r.parts

-- What the first segment means depends on the element: a column or a period.
def ofSuffix? (base : String) (o : Capabilities) : List String → Option Reference
  | [] => some (bare base)
  | [s] =>
    if o.hasColumns then some ⟨base, some s, none⟩
    else if o.candleLocation then (Period.ofText? s).map fun p => ⟨base, none, some p⟩
    else none
  | [s, t] =>
    if o.hasColumns then (Period.ofText? t).map fun p => ⟨base, some s, some p⟩ else none
  | _ => none

/-- The reference a path stands for; a path that does not resolve is kept whole as a bare one. -/
def ofPath (registry : Registry) (path : String) : Reference :=
  match Text.segments '.' path with
  | [] => bare path
  | base :: suffix =>
    match registry base with
    | none => bare path
    | some o => (ofSuffix? base o suffix).getD (bare path)

instance : Wire Reference where
  toJson r := .record
    [("base", some (Wire.toJson r.base)),
      ("column", some (Wire.toJson r.column)),
      ("period", some (Wire.toJson r.period))]
  ofJson? j := do
    let f ← Fields.ofJson? ["base", "column", "period"] j
    return { base := ← f.required "base", column := ← f.nullable "column",
             period := ← f.nullable "period" }

end Reference

end TradingStrategy
