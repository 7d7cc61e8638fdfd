import TradingStrategy.Action.Leg
import TradingStrategy.Ids

set_option autoImplicit false

namespace TradingStrategy

inductive Instruction where
  | squareOffAll
  | stopWaitTriggers
deriving DecidableEq, Repr

namespace Instruction

def func : Instruction → String
  | .squareOffAll => "squareoff_all"
  | .stopWaitTriggers => "stop_WaitTrade_triggers"

def words : List (String × Instruction) :=
  [("squareoff_all", .squareOffAll), ("stop_WaitTrade_triggers", .stopWaitTriggers)]

def ofFunc? (func : String) : Option Instruction := words.lookup func

instance : Wire Instruction where
  toJson a := .string a.func
  ofJson? := Wire.word? words

end Instruction

inductive ItemContent where
  | position (leg : Leg)
  | action (a : Instruction)
deriving DecidableEq, Repr

structure Item where
  id : String
  order : UInt32
  body : ItemContent
deriving DecidableEq, Repr

structure Action where
  name : String
  items : List Item
deriving DecidableEq, Repr

namespace Item

-- The sort is stable: items of one number keep their list order.
def sorted (items : List Item) : List Item := items.mergeSort fun a b => a.order ≤ b.order

def numbered (items : List Item) : List Item :=
  items.zipIdx.map fun (item, i) => { item with order := UInt32.ofNat i }

end Item

namespace Action

def empty (name : String) : Action := ⟨name, []⟩

def containsItem (a : Action) (id : String) : Bool := a.items.any (·.id == id)

def renumber (a : Action) : Action :=
  { a with items := Item.numbered (Item.sorted a.items) }

def addItem (a : Action) (id : String) (body : ItemContent) : Action :=
  let b := a.renumber
  { b with items := b.items ++ [⟨id, UInt32.ofNat b.items.length, body⟩] }

def itemIndex (a : Action) (action item : String) : Except EditError Nat :=
  match a.items.findIdx? (·.id == item) with
  | some i => .ok i
  | none => .error (.refused (.itemNotFound action item))

def removeItem (a : Action) (action item : String) : Except EditError Action := do
  let i ← a.itemIndex action item
  return renumber { a with items := a.items.eraseIdx i }

def updateItem (a : Action) (action item : String) (body : ItemContent) :
    Except EditError Action := do
  let i ← a.itemIndex action item
  return { a with items := a.items.modify i fun it => { it with body } }

/-- Moves an item to a place of the execution order, or to the end if that is nearer. -/
def moveItem (a : Action) (action item : String) (place : Nat) : Except EditError Action := do
  let _ ← a.itemIndex action item
  let ordered := Item.sorted a.items
  match ordered.find? (·.id == item) with
  | none => return a
  | some moved =>
    let rest := ordered.eraseIdx (ordered.findIdx (·.id == item))
    return { a with items := Item.numbered (rest.insertIdx (min place rest.length) moved) }

end Action

structure Call where
  func : String
  params : Option SentLeg
deriving DecidableEq, Repr

structure SentAction where
  description : String
  act : List Call
deriving DecidableEq, Repr

namespace Call

def addLeg : String := "addLeg"

def ofBody : ItemContent → Call
  | .position leg => ⟨addLeg, some leg.compile⟩
  | .action a => ⟨a.func, none⟩

/-- The item body that a call stands for; `none` for a function that is not known. -/
def body? (action : String) (call : Call) : Except RestoreError (Option ItemContent) :=
  if call.func = addLeg then
    match call.params with
    | some params => .ok (some (.position params.restore))
    | none => .error (.missingLegParams action)
  else .ok ((Instruction.ofFunc? call.func).map .action)

end Call

def Action.compile (a : Action) : SentAction :=
  { description := a.name, act := (Item.sorted a.items).map fun item => Call.ofBody item.body }

namespace SentAction

def addItems (action : String) : List Call → List String → Action →
    Drawing RestoreError Action
  | [], _, node => return node
  | call :: rest, taken, node => do
    match ← call.body? action with
    | none => addItems action rest taken node
    | some body =>
      let (id, taken) ← Drawing.relabel .ids (Drawing.uniqueAmong "item" taken)
      addItems action rest taken (node.addItem id body)

def restore (action : String) (c : SentAction) : Drawing RestoreError Action :=
  addItems action c.act [] (.empty c.description)

end SentAction

instance : Wire ItemContent where
  toJson
    | .position leg => .record [("type", some (.string "position")), ("data", some (Wire.toJson leg))]
    | .action a => .record [("type", some (.string "action")), ("data", some (Wire.toJson a))]
  ofJson? j := do
    let t ← Tagged.ofJson? j
    let position ← Wire.word? [("position", true), ("action", false)] t.type
    if position then return .position (← Wire.ofJson? t.data)
    else return .action (← Wire.ofJson? t.data)

instance : Wire Item where
  toJson i := .record
    [("id", some (Wire.toJson i.id)),
      ("order", some (Wire.toJson i.order)),
      ("body", some (Wire.toJson i.body))]
  ofJson? j := do
    let f ← Fields.ofJson? ["id", "order", "body"] j
    return { id := ← f.required "id", order := ← f.required "order", body := ← f.required "body" }

instance : Wire Action where
  toJson a := .record
    [("nodeName", some (Wire.toJson a.name)),
      ("items", some (Wire.toJson a.items))]
  ofJson? j := do
    let f ← Fields.ofJson? ["nodeName", "items"] j
    return { name := ← f.required "nodeName", items := ← f.required "items" }

instance : Wire Call where
  toJson c := .record
    [("func", some (Wire.toJson c.func)),
      ("params", c.params.map Wire.toJson)]
  ofJson? j := do
    let f ← Fields.ofJson? ["func", "params"] j
    return { func := ← f.required "func", params := ← f.optional "params" }

instance : Wire SentAction where
  toJson a := .record
    [("description", some (Wire.toJson a.description)),
      ("act", some (Wire.toJson a.act))]
  ofJson? j := do
    let f ← Fields.ofJson? ["description", "act"] j
    return { description := ← f.required "description", act := ← f.required "act" }

end TradingStrategy
