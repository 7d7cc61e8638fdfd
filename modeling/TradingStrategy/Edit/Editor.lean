import TradingStrategy.Edit.Command
import TradingStrategy.Edit.Structure

set_option autoImplicit false

namespace TradingStrategy

structure Spacing where
  verticalGap : Binary64
  actionOffset : Binary64
  actionGap : Binary64
  start : Position
deriving DecidableEq, Repr

def Spacing.standard : Spacing := ⟨.ofInt 150, .ofInt 400, .ofInt 150, .origin⟩

structure Editor where
  layout : Spacing
  attempts : Nat

namespace Editor

-- An engine tries at least once.
def make (layout : Spacing) (attempts : Nat) : Editor := ⟨layout, max attempts 1⟩

def initial (e : Editor) (name : String) : Strategy := .initial name e.layout.start

def nodeId (e : Editor) (s : Strategy) (stem : String) : Drawing Refusal String :=
  Drawing.unique stem e.attempts s.usesNodeId

def partId (e : Editor) (s : Strategy) (stem : String) : Drawing Refusal String :=
  Drawing.unique stem e.attempts s.usesPartId

def itemId (e : Editor) (s : Strategy) : Drawing Refusal String :=
  Drawing.unique "item" e.attempts s.usesItemId

def newBlock (e : Editor) (s : Strategy) : Drawing Refusal Block := do
  let block ← e.partId s "block"
  let sub ← e.partId s "sub"
  return .ofFirst block (.blank sub)

def numberedName (stem : String) (existing : Nat) : String :=
  stem ++ " " ++ Nat.repr (existing + 1)

/-- Adds a condition below the end of the chain. Only there: after any other node nothing is
added. -/
def insertCondition (e : Editor) (s : Strategy) (after : Option String) :
    Drawing Refusal (Strategy × Option String) := do
  match s.graph.tail? with
  | none => throw (.nodeNotFound Graph.startId)
  | some tail =>
    if after.any (· ≠ tail.id) then return (s, none)
    else
      let id ← e.nodeId s "condition"
      let block ← e.newBlock s
      let name := numberedName "Condition" (s.graph.nodesOf .condition).length
      let position := tail.position.offset .zero e.layout.verticalGap
      return ({ s with
        graph := (s.graph.addNode ⟨id, .condition, position⟩).addEdge (.condition tail.id id)
        conditions := s.conditions.insert id (.ofFirst name block) }, some id)

-- Of several that are equally low, the last.
def lowest? : List Node → Option Node
  | [] => none
  | n :: rest =>
    match lowest? rest with
    | some m => if m.position.y.rank < n.position.y.rank then some n else some m
    | none => some n

/-- The node beside which the first action is placed: the condition asked for, else the first of
the chain, else START. -/
def anchor (e : Editor) (g : Graph) (via : Option String) : Position :=
  let wanted := (via.bind g.node?).filter Node.isCondition
  let first := g.chainedConditions.head?.bind g.node?
  (((wanted.or first).or g.start?).map (·.position)).getD e.layout.start

def actionPosition (e : Editor) (g : Graph) (via : Option String) : Position :=
  match lowest? (g.nodesOf .action) with
  | some lowest => lowest.position.offset .zero e.layout.actionGap
  | none => (e.anchor g via).offset e.layout.actionOffset .zero

def insertAction (e : Editor) (s : Strategy) (via : Option String) :
    Drawing Refusal (Strategy × String) := do
  let id ← e.nodeId s "action"
  let name := numberedName "Action" (s.graph.nodesOf .action).length
  return ({ s with
    graph := s.graph.addNode ⟨id, .action, e.actionPosition s.graph via⟩
    actions := s.actions.insert id (.empty name) }, id)

def editCondition (s : Strategy) (id : String) (edit : Condition → Except EditError Condition) :
    Except EditError Strategy :=
  match s.conditions.get? id with
  | none => .error (.refused (.nodeNotFound id))
  | some c => (edit c).map fun c => { s with conditions := s.conditions.insert id c }

def editAction (s : Strategy) (id : String) (edit : Action → Except EditError Action) :
    Except EditError Strategy :=
  match s.actions.get? id with
  | none => .error (.refused (.nodeNotFound id))
  | some a => (edit a).map fun a => { s with actions := s.actions.insert id a }

def settled (r : Except EditError Strategy) : Drawing EditError (Strategy × Option String) :=
  ExceptT.mk fun source => (r.map fun s => (s, none), source)

def refusable (r : Except Refusal Strategy) : Except EditError Strategy := r.mapError .refused

def perform (e : Editor) (s : Strategy) : Command → Drawing EditError (Strategy × Option String)
  | .insertCondition after => Drawing.relabel .refused (e.insertCondition s after)
  | .insertAction via => do
    let (t, id) ← Drawing.relabel .refused (e.insertAction s via)
    return (t, some id)
  | .connect condition action => settled (refusable (s.connect condition action))
  | .disconnect edge => settled (refusable (s.disconnect edge))
  | .deleteNodes ids => settled (refusable (s.deleteNodes ids))
  | .swapConditions a b => settled (refusable (s.swapConditions a b))
  | .moveNode id position => settled (.ok (s.moveNode id position))
  | .addBlock condition relation => do
    let block ← Drawing.relabel .refused (e.newBlock s)
    let (t, _) ← settled (editCondition s condition fun c => .ok (c.addBlock block relation))
    return (t, some block.id)
  | .removeBlock condition block =>
    settled (editCondition s condition fun c => c.removeBlock condition block)
  | .setBlockRelation condition index relation =>
    settled (editCondition s condition fun c => c.setBlockRelation condition index relation)
  | .addSubSection condition block => do
    let id ← Drawing.relabel .refused (e.partId s "sub")
    let (t, _) ← settled
      (editCondition s condition fun c => c.addSubSection condition block (.blank id))
    return (t, some id)
  | .updateSubSection condition block subSection =>
    settled (editCondition s condition fun c => c.updateSubSection condition block subSection)
  | .removeSubSection condition block subSection =>
    settled (editCondition s condition fun c => c.removeSubSection condition block subSection)
  | .updateConditionMeta condition header =>
    settled (editCondition s condition fun c => .ok (c.setHeader header))
  | .addItem action body => do
    let id ← Drawing.relabel .refused (e.itemId s)
    let (t, _) ← settled (editAction s action fun a => .ok (a.addItem id body))
    return (t, some id)
  | .updateItem action item body =>
    settled (editAction s action fun a => a.updateItem action item body)
  | .removeItem action item => settled (editAction s action fun a => a.removeItem action item)
  | .moveItem action item place =>
    settled (editAction s action fun a => a.moveItem action item place)

inductive Outcome where
  | applied (created : Option String)
  | refused (reason : Refusal)
  | broken
deriving DecidableEq, Repr

def apply (e : Editor) (s : Strategy) (c : Command) (source : IdSource) :
    Strategy × Outcome × IdSource :=
  match (e.perform s c).exec source with
  | (.ok (t, created), rest) => (t, .applied created, rest)
  | (.error (.refused reason), rest) => (s, .refused reason, rest)
  | (.error .broken, rest) => (s, .broken, rest)

end Editor

instance : Wire Spacing where
  toJson l := .record
    [("vertical_gap", some (Wire.toJson l.verticalGap)),
      ("action_offset_x", some (Wire.toJson l.actionOffset)),
      ("action_gap", some (Wire.toJson l.actionGap)),
      ("start_position", some (Wire.toJson l.start))]
  ofJson? j := do
    let f ← Fields.ofJson? ["vertical_gap", "action_offset_x", "action_gap", "start_position"] j
    let d := Spacing.standard
    return { verticalGap := ← f.withDefault "vertical_gap" d.verticalGap,
             actionOffset := ← f.withDefault "action_offset_x" d.actionOffset,
             actionGap := ← f.withDefault "action_gap" d.actionGap,
             start := ← f.withDefault "start_position" d.start }

end TradingStrategy
