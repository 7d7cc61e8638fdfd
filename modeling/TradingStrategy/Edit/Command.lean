import TradingStrategy.Action.Node
import TradingStrategy.Condition.Basic
import TradingStrategy.Graph.Basic

set_option autoImplicit false

namespace TradingStrategy

inductive Command where
  | insertCondition (after : Option String)
  | insertAction (via : Option String)
  | connect (condition action : String)
  | disconnect (edge : String)
  | deleteNodes (ids : List String)
  | swapConditions (a b : String)
  | moveNode (id : String) (position : Position)
  | addBlock (condition : String) (relation : Relation)
  | removeBlock (condition block : String)
  | setBlockRelation (condition : String) (index : Nat) (relation : Relation)
  | addSubSection (condition block : String)
  | updateSubSection (condition block : String) (subSection : SubSection)
  | removeSubSection (condition block subSection : String)
  | updateConditionMeta (condition : String) (header : ConditionHeader)
  | addItem (action : String) (body : ItemContent)
  | updateItem (action item : String) (body : ItemContent)
  | removeItem (action item : String)
  | moveItem (action item : String) (place : Nat)
deriving DecidableEq, Repr

def Command.label : Command → String
  | .insertCondition _ => "insert_condition"
  | .insertAction _ => "insert_action"
  | .connect .. => "connect"
  | .disconnect _ => "disconnect"
  | .deleteNodes _ => "delete_nodes"
  | .swapConditions .. => "swap_conditions"
  | .moveNode .. => "move_node"
  | .addBlock .. => "add_block"
  | .removeBlock .. => "remove_block"
  | .setBlockRelation .. => "set_block_relation"
  | .addSubSection .. => "add_sub_section"
  | .updateSubSection .. => "update_sub_section"
  | .removeSubSection .. => "remove_sub_section"
  | .updateConditionMeta .. => "update_condition_meta"
  | .addItem .. => "add_item"
  | .updateItem .. => "update_item"
  | .removeItem .. => "remove_item"
  | .moveItem .. => "move_item"

end TradingStrategy
