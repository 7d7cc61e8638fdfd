import TradingStrategy.Condition.Basic
import TradingStrategy.Ids
import TradingStrategy.Text.Blank

set_option autoImplicit false

namespace TradingStrategy

structure Comparison where
  lhs : String
  operator : String
  rhs : Value
deriving DecidableEq

inductive BlockPart where
  | comparison (c : Comparison)
  | join (r : Relation)
deriving DecidableEq

inductive ConditionPart where
  | block (tokens : List BlockPart)
  | join (r : Relation)
deriving DecidableEq

structure SentCondition where
  node : String
  kind : ConditionKind
  description : String
  maxEntries : UInt32
  checkPositionOpen : Bool
  checkTriggerOpen : Bool
  actions : List String
  parts : List ConditionPart
deriving DecidableEq

inductive Progress where
  | blank
  | started
  | complete
deriving DecidableEq, Repr

/-- The number a literal stands for: an integer of 64 bits if it is one, else a finite double. -/
def numberOfText? (text : String) : Option Value :=
  let cs := Text.trim text.toList
  match Text.integer? cs with
  | some n => Value.ofJson? (.integer n)
  | none => (Text.decimal? cs).bind fun d => Value.ofJson? (.float d.nearest)

namespace Row

def needsColumn (registry : Registry) (name : String) : Bool :=
  (registry name).any Capabilities.hasColumns

def lacksColumn (registry : Registry) (e : Reference) : Bool :=
  needsColumn registry e.base && e.column.isNone

def progress (registry : Registry) (r : Row) : Progress :=
  if r.isBlank then .blank
  else
    match r.left?, r.operator with
    | some left, some _ =>
      if lacksColumn registry left then .started
      else if r.literal.isSome then .complete
      else
        match r.right? with
        | none => .started
        | some right =>
          if isEnumerated left.base then .complete
          else if lacksColumn registry right then .started
          else .complete
    | _, _ => .started

/-- The right side as sent: a literal becomes a number where the left element compares with
numbers, an enumerated element's token is sent as it is, any other element as its path. -/
def compileRight? (registry : Registry) (r : Row) (left : String) : Option Value :=
  match r.literal with
  | some text =>
    if (registry left).any Capabilities.takesNumbers then
      some ((numberOfText? text).getD (.string text))
    else some (.string text)
  | none =>
    if isEnumerated left then r.rhs.base.map Value.string
    else r.right?.map fun e => .string e.path

def compile? (registry : Registry) (r : Row) : Option Comparison := do
  let left ← r.left?
  let operator ← r.operator
  let right ← r.compileRight? registry left.base
  return ⟨left.path, operator, right⟩

def tokens : List (Comparison × Relation) → List BlockPart
  | [] => []
  | [(c, _)] => [.comparison c]
  | (c, badge) :: rest => .comparison c :: .join badge :: tokens rest

/-- The tokens of a block; `none` if a row is only started or none is complete. -/
def compileAll? (registry : Registry) (rows : List Row) : Option (List BlockPart) :=
  let complete := rows.filter fun r => r.progress registry = .complete
  if (rows.any fun r => r.progress registry = .started) || complete.isEmpty then none
  else (complete.mapM fun r => (compile? registry r).map fun c => (c, r.badge)).map tokens

end Row

namespace Condition

def emitted (registry : Registry) (blocks : List Block) : List (Nat × List BlockPart) :=
  blocks.zipIdx.filterMap fun (b, i) => (Row.compileAll? registry b.rows).map fun ts => (i, ts)

/-- Before each block but the first stands the relation of its place among all blocks. -/
def joined (relations : List Relation) : List (Nat × List BlockPart) → List ConditionPart
  | [] => []
  | (_, ts) :: rest =>
    .block ts :: rest.flatMap fun (i, us) => [.join (relations[i - 1]?.getD .and), .block us]

def compile (registry : Registry) (node : String) (actions : List String) (c : Condition) :
    SentCondition :=
  -- An exit is never held back by a position or a trigger that is open.
  let gated := c.header.kind ≠ .exit
  { node
    kind := c.header.kind
    description := c.header.name
    maxEntries := c.header.maxEntries
    checkPositionOpen := gated && c.header.positionOpen
    checkTriggerOpen := gated && c.header.waitTrigger
    actions
    parts := joined c.blockRelations (emitted registry c.blocks) }

end Condition

namespace Row

/-- The row of a comparison. A string on the right is an enumerated element's token, the path of a
registered element, or else a literal; any other value is the literal of its text. -/
def ofComparison (registry : Registry) (c : Comparison) : Row :=
  let left := Reference.ofPath registry c.lhs
  let row := { blank.setLeft left with operator := some c.operator }
  match c.rhs.json with
  | .string raw =>
    if isEnumerated left.base then { row with rhs := { row.rhs with base := some raw } }
    else if (registry (Text.beforeFirst '.' raw)).isSome then
      row.setRight (Reference.ofPath registry raw)
    else row.setLiteral raw
  | other => row.setLiteral other.compact

def setLastBadge (badge : Relation) : List Row → List Row
  | [] => []
  | [r] => [{ r with badge }]
  | r :: rest => r :: setLastBadge badge rest

def take (registry : Registry) (rows : List Row) : BlockPart → List Row
  | .comparison c => rows ++ [ofComparison registry c]
  | .join r => setLastBadge r rows

def ofTokens (registry : Registry) (ts : List BlockPart) : List Row := ts.foldl (take registry) []

end Row

namespace SentCondition

def drawSubSections : List Row → List String → Drawing Refusal (List SubSection × List String)
  | [], taken => return ([], taken)
  | row :: rest, taken => do
    let (id, taken) ← Drawing.uniqueAmong "sub" taken
    let (subs, taken) ← drawSubSections rest taken
    return (⟨id, row⟩ :: subs, taken)

-- Ids of the rows come before the id of their block.
def drawBlock (rows : List Row) (taken : List String) : Drawing Refusal (Block × List String) := do
  let (subSections, taken) ← drawSubSections rows taken
  let (id, taken) ← Drawing.uniqueAmong "block" taken
  return (⟨id, subSections, .and⟩, taken)

/-- Blocks and the relations between them. A block without rows is dropped after its id is drawn;
`pending` is the last relation since the block before, `started` says that there is one. -/
def drawBlocks (registry : Registry) : List ConditionPart → Option Relation → Bool → List String →
    Drawing Refusal (List Block × List Relation × List String)
  | [], _, _, taken => return ([], [], taken)
  | .join r :: rest, _, started, taken => drawBlocks registry rest (some r) started taken
  | .block ts :: rest, pending, started, taken => do
    let (block, taken) ← drawBlock (Row.ofTokens registry ts) taken
    if block.subSections.isEmpty then drawBlocks registry rest pending started taken
    else
      let (blocks, relations, taken) ← drawBlocks registry rest none true taken
      return (block :: blocks,
        if started then pending.getD .and :: relations else relations, taken)

def drawFirst (taken : List String) : Drawing Refusal Block := do
  let (block, taken) ← Drawing.uniqueAmong "block" taken
  let (sub, _) ← Drawing.uniqueAmong "sub" taken
  return .ofFirst block (.blank sub)

def restore (registry : Registry) (c : SentCondition) : Drawing Refusal Condition := do
  let (blocks, relations, taken) ← drawBlocks registry c.parts none false []
  let blocks ← if blocks.isEmpty then (do return [← drawFirst taken]) else pure blocks
  return Condition.mirrored
    { header :=
        { name := c.description, kind := c.kind, maxEntries := c.maxEntries,
          waitTrigger := c.checkTriggerOpen, positionOpen := c.checkPositionOpen }
      blocks
      blockRelations := relations }

end SentCondition

instance : Wire Comparison where
  toJson c := .array [.string c.lhs, .string c.operator, c.rhs.json]
  ofJson?
    | .array [.string lhs, .string operator, rhs] => (Value.ofJson? rhs).map (⟨lhs, operator, ·⟩)
    | _ => none

instance : Wire BlockPart where
  toJson
    | .comparison c => Wire.toJson c
    | .join r => Wire.toJson r
  ofJson? j :=
    ((Wire.ofJson? j).map BlockPart.comparison).or ((Wire.ofJson? j).map BlockPart.join)

instance : Wire ConditionPart where
  toJson
    | .block ts => Wire.toJson ts
    | .join r => Wire.toJson r
  ofJson? j := ((Wire.ofJson? j).map ConditionPart.block).or ((Wire.ofJson? j).map ConditionPart.join)

instance : Wire SentCondition where
  toJson c := .record
    [("node", some (Wire.toJson c.node)),
      ("type", some (Wire.toJson c.kind)),
      ("description", some (Wire.toJson c.description)),
      ("maxentries", some (Wire.toJson c.maxEntries)),
      ("check_when_position_open", some (Wire.toJson c.checkPositionOpen)),
      ("check_when_trigger_open", some (Wire.toJson c.checkTriggerOpen)),
      ("actions", some (Wire.toJson c.actions)),
      ("conditions", some (Wire.toJson c.parts))]
  ofJson? j := do
    let f ← Fields.ofJson? ["node", "type", "description", "maxentries",
      "check_when_position_open", "check_when_trigger_open", "actions", "conditions"] j
    return { node := ← f.required "node", kind := ← f.required "type",
             description := ← f.required "description", maxEntries := ← f.required "maxentries",
             checkPositionOpen := ← f.required "check_when_position_open",
             checkTriggerOpen := ← f.required "check_when_trigger_open",
             actions := ← f.required "actions", parts := ← f.required "conditions" }

end TradingStrategy
