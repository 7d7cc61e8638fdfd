set_option autoImplicit false

namespace TradingStrategy

inductive Refusal where
  | duplicateActionEdge (condition action : String)
  | idCollision (stem : String) (attempts : Nat)
  | nodeNotFound (id : String)
  | invalidConnection (source target reason : String)
  | notAdjacent (a b : String)
  | blockNotFound (condition block : String)
  | subSectionNotFound (block subSection : String)
  | relationOutOfRange (condition : String) (index : Nat)
  | itemNotFound (action item : String)
  | chainEdge (edge : String)
  | cannotDeleteStart
deriving DecidableEq, Repr

namespace Refusal

def kind : Refusal → String
  | .duplicateActionEdge .. => "DuplicateActionEdge"
  | .idCollision .. => "IdCollision"
  | .nodeNotFound _ => "NodeNotFound"
  | .invalidConnection .. => "InvalidConnection"
  | .notAdjacent .. => "NotAdjacent"
  | .blockNotFound .. => "BlockNotFound"
  | .subSectionNotFound .. => "SubSectionNotFound"
  | .relationOutOfRange .. => "RelationOutOfRange"
  | .itemNotFound .. => "ItemNotFound"
  | .chainEdge _ => "ChainEdge"
  | .cannotDeleteStart => "CannotDeleteStart"

def message : Refusal → String
  | .duplicateActionEdge condition action =>
    "An action edge from '" ++ condition ++ "' to '" ++ action ++ "' already exists"
  | .idCollision stem attempts =>
    "Could not generate a unique '" ++ stem ++ "' id after " ++ attempts.repr ++ " attempts"
  | .nodeNotFound id => "Node '" ++ id ++ "' not found in the strategy graph"
  | .invalidConnection source target reason =>
    "Cannot connect '" ++ source ++ "' to '" ++ target ++ "': " ++ reason
  | .notAdjacent a b =>
    "Condition nodes '" ++ a ++ "' and '" ++ b ++ "' are not adjacent in the condition chain"
  | .blockNotFound condition block =>
    "Block '" ++ block ++ "' not found in condition '" ++ condition ++ "'"
  | .subSectionNotFound block subSection =>
    "Sub-section '" ++ subSection ++ "' not found in block '" ++ block ++ "'"
  | .relationOutOfRange condition index =>
    "Block relation index " ++ index.repr ++ " is out of range for condition '" ++ condition ++ "'"
  | .itemNotFound action item =>
    "Item '" ++ item ++ "' not found in action node '" ++ action ++ "'"
  | .chainEdge edge =>
    "Edge '" ++ edge ++ "' is part of the condition chain and cannot be disconnected directly"
  | .cannotDeleteStart => "The START node cannot be deleted"

end Refusal

inductive RestoreError where
  | missingLegParams (action : String)
  | ids (reason : Refusal)
deriving DecidableEq, Repr

namespace RestoreError

def kind : RestoreError → String
  | .missingLegParams _ => "MissingLegParams"
  | .ids reason => reason.kind

def message : RestoreError → String
  | .missingLegParams action =>
    "Action '" ++ action ++ "' contains an 'addLeg' call without params"
  | .ids reason => reason.message

end RestoreError

inductive LoadError where
  | json
  | restore (reason : RestoreError)
deriving DecidableEq, Repr

namespace LoadError

def message : LoadError → String
  | .json => "Failed to parse JSON"
  | .restore reason => "Failed to reform payload: " ++ reason.message

end LoadError

inductive EditError where
  | refused (reason : Refusal)
  /-- The snapshot contradicts itself and the edit cannot be carried out at all. -/
  | broken
deriving DecidableEq, Repr

end TradingStrategy
