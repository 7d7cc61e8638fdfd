import TradingStrategy.Element.Reference
import TradingStrategy.Refusal

/-!
Condition nodes as they are edited: blocks of comparison rows. Rows of a block are joined by the
badge of the row before, blocks by the relations of the node, which each block repeats for the
block that follows it.
-/

set_option autoImplicit false

namespace TradingStrategy

inductive Relation where
  | and
  | or
deriving DecidableEq, Repr

namespace Relation

def text : Relation → String
  | .and => "and"
  | .or => "or"

def words : List (String × Relation) := [("and", .and), ("AND", .and), ("or", .or), ("OR", .or)]

instance : Wire Relation where
  toJson r := .string r.text
  ofJson? := Wire.word? words

end Relation

inductive ConditionKind where
  | entry
  | exit
  | adjustment
deriving DecidableEq, Repr

structure Side where
  base : Option String := none
  column : Option String := none
  period : Option Period := none
deriving DecidableEq, Repr

namespace Side

def ofReference (r : Reference) : Side := ⟨some r.base, r.column, r.period⟩

def reference? (s : Side) : Option Reference := s.base.map fun b => ⟨b, s.column, s.period⟩

end Side

/-- What a row says: two sides and an operator, or a literal on the right. -/
structure Row where
  /-- Joins the row to the next one of its block. -/
  badge : Relation := .and
  lhs : Side := {}
  operator : Option String := none
  rhs : Side := {}
  literal : Option String := none
deriving DecidableEq, Repr

namespace Row

-- Stands in the place of a right element when the right side is a literal.
def literalMark : String := "value"

def blank : Row := {}

def isBlank (r : Row) : Bool :=
  r.lhs.base.isNone && r.operator.isNone && r.rhs.base.isNone && r.literal.isNone

def left? (r : Row) : Option Reference := r.lhs.reference?

def right? (r : Row) : Option Reference :=
  r.rhs.reference?.filter fun e => e.base ≠ literalMark

def setLeft (r : Row) (e : Reference) : Row := { r with lhs := .ofReference e }

def setRight (r : Row) (e : Reference) : Row := { r with rhs := .ofReference e, literal := none }

def setLiteral (r : Row) (text : String) : Row :=
  { r with rhs := { base := some literalMark }, literal := some text }

end Row

structure SubSection where
  id : String
  row : Row
deriving DecidableEq, Repr

def SubSection.blank (id : String) : SubSection := ⟨id, .blank⟩

structure Block where
  id : String
  subSections : List SubSection
  /-- Joins the block to the next one. -/
  relation : Relation
deriving DecidableEq, Repr

namespace Block

def ofFirst (id : String) (first : SubSection) : Block := ⟨id, [first], .and⟩

def rows (b : Block) : List Row := b.subSections.map (·.row)

def containsId (b : Block) (id : String) : Bool :=
  b.id == id || b.subSections.any (·.id == id)

/-- Gives each block its relation; blocks beyond the last relation get `and`. -/
def mirror : List Relation → List Block → List Block
  | _, [] => []
  | [], b :: bs => { b with relation := .and } :: mirror [] bs
  | r :: rs, b :: bs => { b with relation := r } :: mirror rs bs

end Block

structure ConditionHeader where
  name : String
  kind : ConditionKind
  maxEntries : UInt32
  waitTrigger : Bool
  positionOpen : Bool
deriving DecidableEq, Repr

structure Condition where
  header : ConditionHeader
  blocks : List Block
  blockRelations : List Relation
deriving DecidableEq, Repr

namespace Condition

def ofFirst (name : String) (first : Block) : Condition :=
  { header := ⟨name, .entry, 1, false, false⟩, blocks := [first], blockRelations := [] }

def block? (c : Condition) (id : String) : Option Block := c.blocks.find? (·.id == id)

def containsId (c : Condition) (id : String) : Bool := c.blocks.any (·.containsId id)

def mirrored (c : Condition) : Condition :=
  { c with blocks := Block.mirror c.blockRelations c.blocks }

def addBlock (c : Condition) (block : Block) (relation : Relation) : Condition :=
  mirrored
    { c with
      blocks := c.blocks ++ [block]
      blockRelations := if c.blocks.isEmpty then c.blockRelations else c.blockRelations ++ [relation] }

def blockIndex (c : Condition) (condition block : String) : Except EditError Nat :=
  match c.blocks.findIdx? (·.id == block) with
  | some i => .ok i
  | none => .error (.refused (.blockNotFound condition block))

/-- Takes out a block and the relation before it, or after it if it is the first. A node with too
few relations for that is broken. -/
def removeBlock (c : Condition) (condition block : String) : Except EditError Condition := do
  let i ← c.blockIndex condition block
  if c.blockRelations.isEmpty then
    return mirrored { c with blocks := c.blocks.eraseIdx i }
  else if i - 1 < c.blockRelations.length then
    return mirrored
      { c with blocks := c.blocks.eraseIdx i, blockRelations := c.blockRelations.eraseIdx (i - 1) }
  else throw .broken

def setBlockRelation (c : Condition) (condition : String) (index : Nat) (relation : Relation) :
    Except EditError Condition :=
  if index < c.blockRelations.length then
    .ok (mirrored { c with blockRelations := c.blockRelations.set index relation })
  else .error (.refused (.relationOutOfRange condition index))

def addSubSection (c : Condition) (condition block : String) (s : SubSection) :
    Except EditError Condition := do
  let i ← c.blockIndex condition block
  return { c with
    blocks := c.blocks.modify i fun b => { b with subSections := b.subSections ++ [s] } }

/-- Replaces the first sub-section of the block that has the id of `s`. -/
def updateSubSection (c : Condition) (condition block : String) (s : SubSection) :
    Except EditError Condition := do
  let i ← c.blockIndex condition block
  match (c.blocks[i]?.map Block.subSections |>.getD []).findIdx? (·.id == s.id) with
  | some k =>
    return { c with
      blocks := c.blocks.modify i fun b => { b with subSections := b.subSections.set k s } }
  | none => throw (.refused (.subSectionNotFound block s.id))

def removeSubSection (c : Condition) (condition block subSection : String) :
    Except EditError Condition := do
  let i ← c.blockIndex condition block
  if (c.blocks[i]?.map Block.subSections |>.getD []).any (·.id == subSection) then
    return { c with
      blocks := c.blocks.modify i fun b =>
        { b with subSections := b.subSections.filter (·.id != subSection) } }
  else throw (.refused (.subSectionNotFound block subSection))

def setHeader (c : Condition) (header : ConditionHeader) : Condition := { c with header }

end Condition

namespace ConditionKind

def words : List (String × ConditionKind) :=
  [("entry", .entry), ("exit", .exit), ("adjustment", .adjustment)]

instance : Wire ConditionKind where
  toJson
    | .entry => .string "entry"
    | .exit => .string "exit"
    | .adjustment => .string "adjustment"
  ofJson? := Wire.word? words

end ConditionKind

instance : Wire SubSection where
  toJson s := .record
    [("id", some (Wire.toJson s.id)),
      ("addBadge", some (Wire.toJson s.row.badge)),
      ("lhs", s.row.lhs.base.map Wire.toJson),
      ("column", s.row.lhs.column.map Wire.toJson),
      ("selectedPeriod", s.row.lhs.period.map Wire.toJson),
      ("operator", s.row.operator.map Wire.toJson),
      ("rhs", s.row.rhs.base.map Wire.toJson),
      ("rhs_column", s.row.rhs.column.map Wire.toJson),
      ("rhs_selectedPeriod", s.row.rhs.period.map Wire.toJson),
      ("_rhsValue", s.row.literal.map Wire.toJson)]
  ofJson? j := do
    let f ← Fields.ofJson? ["id", "addBadge", "lhs", "column", "selectedPeriod", "operator", "rhs",
      "rhs_column", "rhs_selectedPeriod", "_rhsValue"] j
    return { id := ← f.required "id"
             row :=
               { badge := ← f.required "addBadge"
                 lhs :=
                   { base := ← f.optional "lhs", column := ← f.optional "column",
                     period := ← f.optional "selectedPeriod" }
                 operator := ← f.optional "operator"
                 rhs :=
                   { base := ← f.optional "rhs", column := ← f.optional "rhs_column",
                     period := ← f.optional "rhs_selectedPeriod" }
                 literal := ← f.optional "_rhsValue" } }

instance : Wire Block where
  toJson b := .record
    [("id", some (Wire.toJson b.id)),
      ("subSections", some (Wire.toJson b.subSections)),
      ("relation", some (Wire.toJson b.relation))]
  ofJson? j := do
    let f ← Fields.ofJson? ["id", "subSections", "relation"] j
    return { id := ← f.required "id", subSections := ← f.required "subSections",
             relation := ← f.required "relation" }

instance : Wire ConditionHeader where
  toJson m := .record
    [("name", some (Wire.toJson m.name)),
      ("type", some (Wire.toJson m.kind)),
      ("maxEntries", some (Wire.toJson m.maxEntries)),
      ("waitTrigger", some (Wire.toJson m.waitTrigger)),
      ("positionOpen", some (Wire.toJson m.positionOpen))]
  ofJson? j := do
    let f ← Fields.ofJson? ["name", "type", "maxEntries", "waitTrigger", "positionOpen"] j
    return { name := ← f.required "name", kind := ← f.required "type",
             maxEntries := ← f.required "maxEntries", waitTrigger := ← f.required "waitTrigger",
             positionOpen := ← f.required "positionOpen" }

instance : Wire Condition where
  toJson c := .record
    [("name", some (Wire.toJson c.header.name)),
      ("type", some (Wire.toJson c.header.kind)),
      ("maxEntries", some (Wire.toJson c.header.maxEntries)),
      ("waitTrigger", some (Wire.toJson c.header.waitTrigger)),
      ("positionOpen", some (Wire.toJson c.header.positionOpen)),
      ("blocks", some (Wire.toJson c.blocks)),
      ("blockRelations", some (Wire.toJson c.blockRelations))]
  ofJson? j := do
    let f ← Fields.ofJson? ["name", "type", "maxEntries", "waitTrigger", "positionOpen", "blocks",
      "blockRelations"] j
    return { header :=
               { name := ← f.required "name", kind := ← f.required "type",
                 maxEntries := ← f.required "maxEntries", waitTrigger := ← f.required "waitTrigger",
                 positionOpen := ← f.required "positionOpen" }
             blocks := ← f.required "blocks"
             blockRelations := ← f.required "blockRelations" }

end TradingStrategy
