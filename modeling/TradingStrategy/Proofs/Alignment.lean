import TradingStrategy.Proofs.Contents
import TradingStrategy.Proofs.PayloadRoundTrip

/-!
Alignment of what is stored twice: the relations of a condition with its blocks, and the numbers of
items with their places. Every edit keeps it and loading brings it about, from any payload, so that
no edit of a strategy reaches for a place that is not there.
-/

set_option autoImplicit false

namespace TradingStrategy

namespace EditError

variable {α β : Type}

def Unbroken (r : Except EditError α) : Prop := r ≠ .error .broken

theorem unbroken_ok (a : α) : Unbroken (.ok a) := nofun

theorem unbroken_refused (reason : Refusal) :
    Unbroken (.error (.refused reason) : Except EditError α) := nofun

theorem Unbroken.bind {r : Except EditError α} {f : α → Except EditError β} (first : Unbroken r)
    (second : ∀ a, r = .ok a → Unbroken (f a)) : Unbroken (r >>= f) := by
  cases r with
  | error reason => exact fun broken => first (congrArg Except.error (Except.error.inj broken))
  | ok a => exact second a rfl

theorem Unbroken.map {r : Except EditError α} (unbroken : Unbroken r) (f : α → β) :
    Unbroken (r.map f) := by
  cases r with
  | error reason => exact fun broken => unbroken (congrArg Except.error (Except.error.inj broken))
  | ok a => exact unbroken_ok (f a)

end EditError

open EditError (Unbroken unbroken_ok unbroken_refused)

structure Condition.Aligned (c : Condition) : Prop where
  count : c.blockRelations.length = c.blocks.length - 1
  mirrored : ∀ (i : Nat) (b : Block),
    c.blocks[i]? = some b → b.relation = c.blockRelations[i]?.getD .and

theorem Block.getElem?_mirror (relations : List Relation) (bs : List Block) (i : Nat) :
    (mirror relations bs)[i]? =
      bs[i]?.map fun b => { b with relation := relations[i]?.getD .and } := by
  fun_induction mirror relations bs generalizing i with
  | case1 => rfl
  | case2 b bs ih =>
    cases i with
    | zero => rfl
    | succ i => simp [ih]
  | case3 r rs b bs ih =>
    cases i with
    | zero => rfl
    | succ i => simp [ih]

namespace Condition

variable {c d : Condition} {condition block : String}

theorem aligned_mirrored (count : c.blockRelations.length = c.blocks.length - 1) :
    c.mirrored.Aligned := by
  constructor
  · show c.blockRelations.length = (Block.mirror c.blockRelations c.blocks).length - 1
    rw [Block.length_mirror, count]
  · intro i b place
    have found : (Block.mirror c.blockRelations c.blocks)[i]? = some b := place
    rw [Block.getElem?_mirror] at found
    obtain ⟨_, _, rfl⟩ := Option.map_eq_some_iff.1 found
    rfl

theorem Aligned.congr (aligned : c.Aligned) (relations : d.blockRelations = c.blockRelations)
    (blocks : d.blocks.map Block.relation = c.blocks.map Block.relation) : d.Aligned := by
  constructor
  · have lengths := congrArg List.length blocks
    rw [List.length_map, List.length_map] at lengths
    rw [relations, lengths, aligned.count]
  · intro i b place
    have same : (d.blocks.map Block.relation)[i]? = (c.blocks.map Block.relation)[i]? := by
      rw [blocks]
    simp only [List.getElem?_map, place, Option.map_some] at same
    obtain ⟨old, found, relation⟩ := Option.map_eq_some_iff.1 same.symm
    rw [relations, ← relation, aligned.mirrored i old found]

theorem Aligned.rewrites {b b' : Block} (aligned : c.Aligned) (rewrites : c.Rewrites d block b b')
    (relation : b'.relation = b.relation) : d.Aligned := by
  obtain ⟨before, after, split, rfl⟩ := rewrites
  refine aligned.congr rfl ?_
  simp [split.whole, relation]

theorem aligned_ofFirst (name : String) (id : String) (first : SubSection) :
    (ofFirst name (.ofFirst id first)).Aligned :=
  aligned_mirrored (c := ofFirst name (.ofFirst id first)) rfl

theorem Aligned.addBlock (aligned : c.Aligned) (b : Block) (relation : Relation) :
    (c.addBlock b relation).Aligned := by
  have count := aligned.count
  refine aligned_mirrored ?_
  cases blocks : c.blocks with
  | nil => simpa [blocks] using count
  | cons first rest => simpa [blocks] using count

theorem Aligned.removeBlock (aligned : c.Aligned)
    (done : c.removeBlock condition block = .ok d) : d.Aligned := by
  obtain ⟨before, b, after, split, inside, rfl⟩ := removeBlock_eq_ok_iff.1 done
  have count := aligned.count
  refine aligned_mirrored ?_
  simp only [split.whole, List.length_append, List.length_cons] at count
  rw [List.length_append]
  rcases inside with none | inside
  · simp only [none, List.length_nil, List.eraseIdx_nil] at count ⊢
    omega
  · rw [List.length_eraseIdx_of_lt inside]
    omega

theorem Aligned.setBlockRelation {index : Nat} {relation : Relation} (aligned : c.Aligned)
    (done : c.setBlockRelation condition index relation = .ok d) : d.Aligned := by
  obtain ⟨_, rfl⟩ := setBlockRelation_eq_ok_iff.1 done
  refine aligned_mirrored ?_
  rw [List.length_set]
  exact aligned.count

-- The relation removed with a block is the one before it, or after it if it is the first.
theorem Aligned.inside (aligned : c.Aligned) {i : Nat}
    (place : c.blockIndex condition block = .ok i) :
    i < c.blocks.length ∧ (c.blockRelations = [] ∨ i - 1 < c.blockRelations.length) := by
  obtain ⟨before, b, after, split, rfl⟩ := blockIndex_eq_ok_iff.1 place
  have count := aligned.count
  rw [split.whole, List.length_append, List.length_cons] at count ⊢
  refine ⟨by omega, ?_⟩
  cases relations : c.blockRelations with
  | nil => exact .inl rfl
  | cons r rest =>
    right
    rw [relations] at count
    rw [count]
    simp only [List.length_cons] at count
    omega

theorem unbroken_blockIndex (c : Condition) (condition block : String) :
    Unbroken (c.blockIndex condition block) := by
  rw [blockIndex]
  split
  next => exact unbroken_ok _
  next => exact unbroken_refused _

theorem Aligned.unbroken_removeBlock (aligned : c.Aligned) (condition block : String) :
    Unbroken (c.removeBlock condition block) := by
  refine (c.unbroken_blockIndex condition block).bind fun i place => ?_
  split
  next => exact unbroken_ok _
  next some =>
    rw [List.isEmpty_iff] at some
    rw [if_pos ((aligned.inside place).2.resolve_left some)]
    exact unbroken_ok _

theorem unbroken_setBlockRelation (c : Condition) (condition : String) (index : Nat)
    (relation : Relation) : Unbroken (c.setBlockRelation condition index relation) := by
  rw [setBlockRelation]
  split
  next => exact unbroken_ok _
  next => exact unbroken_refused _

theorem unbroken_addSubSection (c : Condition) (condition block : String) (s : SubSection) :
    Unbroken (c.addSubSection condition block s) :=
  (c.unbroken_blockIndex condition block).bind fun _ _ => unbroken_ok _

theorem unbroken_updateSubSection (c : Condition) (condition block : String) (s : SubSection) :
    Unbroken (c.updateSubSection condition block s) := by
  refine (c.unbroken_blockIndex condition block).bind fun i _ => ?_
  split
  next => exact unbroken_ok _
  next => exact unbroken_refused _

theorem unbroken_removeSubSection (c : Condition) (condition block sub : String) :
    Unbroken (c.removeSubSection condition block sub) := by
  refine (c.unbroken_blockIndex condition block).bind fun i _ => ?_
  split
  next => exact unbroken_ok _
  next => exact unbroken_refused _

theorem Aligned.revises {s : Strategy} (aligned : c.Aligned) (revised : s.RevisesCondition c d) :
    d.Aligned := by
  cases revised with
  | addBlock => exact aligned.addBlock _ _
  | removeBlock done => exact aligned.removeBlock done
  | setBlockRelation done => exact aligned.setBlockRelation done
  | addSubSection _ done =>
    obtain ⟨b, rewrites⟩ := addSubSection_eq_ok_iff.1 done
    exact aligned.rewrites rewrites rfl
  | updateSubSection done =>
    obtain ⟨b, _, _, _, _, rewrites⟩ := updateSubSection_ok done
    exact aligned.rewrites rewrites rfl
  | removeSubSection done =>
    obtain ⟨b, _, rewrites⟩ := removeSubSection_eq_ok_iff.1 done
    exact aligned.rewrites rewrites rfl
  | setHeader => exact aligned.congr rfl rfl

end Condition

namespace ConditionPart

theorem length_layout (parts : List ConditionPart) (pending : Option Relation) (started : Bool) :
    (layout parts pending started).2.length =
      (layout parts pending started).1.length - if started then 0 else 1 := by
  induction parts generalizing pending started with
  | nil => cases started <;> rfl
  | cons part rest ih =>
    cases part with
    | join r => exact ih (some r) started
    | block ts =>
      rw [layout]
      split
      next => exact ih pending started
      next =>
        have later := ih none true
        cases started with
        | false => simpa using later
        | true => simpa using later

end ConditionPart

theorem SentCondition.aligned_of_restore {registry : Registry} {c : SentCondition}
    {source rest : IdSource} {y : Condition}
    (done : (c.restore registry).exec source = (.ok y, rest)) : y.Aligned := by
  obtain ⟨_, relations, rows, bs, mirrored⟩ := restore_ok done
  have count : y.blockRelations.length = bs.length - 1 := by
    have lengths := congrArg List.length rows
    rw [mirrored, List.length_map, Block.length_mirror] at lengths
    rw [relations, ConditionPart.length_layout, lengths]
    by_cases empty : (ConditionPart.layout c.parts none false).1 = []
    · simp [empty]
    · simp [empty]
  have same : y = { y with blocks := bs }.mirrored := by
    show y = { y with blocks := Block.mirror y.blockRelations bs }
    rw [← mirrored]
  rw [same]
  exact Condition.aligned_mirrored count

namespace Action

variable {a b : Action} {action item : String}

theorem inOrder_renumber (a : Action) : Item.InOrder a.renumber.items := Item.inOrder_numbered _

theorem inOrder_updateItem {body : ItemContent} (inOrder : Item.InOrder a.items)
    (done : a.updateItem action item body = .ok b) : Item.InOrder b.items := by
  obtain ⟨before, x, after, split, rfl⟩ := updateItem_eq_ok_iff.1 done
  rw [Item.InOrder, split.whole] at inOrder
  simpa [Item.InOrder] using inOrder

theorem inOrder_revises {s : Strategy} (inOrder : Item.InOrder a.items)
    {source : IdSource}
    (revised : s.RevisesAction source a b) : Item.InOrder b.items := by
  cases revised with
  | addItem => exact inOrder_addItem ..
  | updateItem done => exact inOrder_updateItem inOrder done
  | removeItem done =>
    obtain ⟨_, _, _, _, rfl⟩ := removeItem_eq_ok_iff.1 done
    exact inOrder_renumber _
  | moveItem done =>
    obtain ⟨_, _, _, _, rfl⟩ := moveItem_eq_ok_iff.1 done
    exact Item.inOrder_numbered _

theorem inside (a : Action) {i : Nat} (place : a.itemIndex action item = .ok i) :
    i < a.items.length ∧
      (Item.sorted a.items).findIdx (·.id == item) < (Item.sorted a.items).length := by
  obtain ⟨before, x, after, split, rfl⟩ := itemIndex_eq_ok_iff.1 place
  constructor
  · rw [split.whole, List.length_append, List.length_cons]
    omega
  · exact List.findIdx_lt_length_of_exists ⟨x, mem_sorted.2 split.mem, by simp [split.named]⟩

theorem unbroken_itemIndex (a : Action) (action item : String) :
    Unbroken (a.itemIndex action item) := by
  rw [itemIndex]
  split
  next => exact unbroken_ok _
  next => exact unbroken_refused _

theorem unbroken_removeItem (a : Action) (action item : String) :
    Unbroken (a.removeItem action item) :=
  (a.unbroken_itemIndex action item).bind fun _ _ => unbroken_ok _

theorem unbroken_updateItem (a : Action) (action item : String) (body : ItemContent) :
    Unbroken (a.updateItem action item body) :=
  (a.unbroken_itemIndex action item).bind fun _ _ => unbroken_ok _

theorem unbroken_moveItem (a : Action) (action item : String) (place : Nat) :
    Unbroken (a.moveItem action item place) := by
  refine (a.unbroken_itemIndex action item).bind fun _ _ => ?_
  dsimp only
  split
  next => exact unbroken_ok _
  next => exact unbroken_ok _

end Action

theorem Graph.place_lt (g : Graph) {condition : String} {r : Ranked}
    (member : r ∈ g.ranked condition) : r.place < g.edges.length := by
  rw [ranked_eq] at member
  obtain ⟨e, placed, rfl⟩ := List.mem_map.1 member
  exact (List.getElem?_eq_some_iff.1 (mem_placed.1 placed).1).1

structure Strategy.Aligned (s : Strategy) : Prop where
  conditions : ∀ c ∈ s.conditions.values, c.Aligned
  actions : ∀ a ∈ s.actions.values, Item.InOrder a.items

namespace Strategy

variable {s t : Strategy}

theorem aligned_initial (name : String) (start : Position) : (initial name start).Aligned := by
  constructor
  · intro c member
    exact absurd member List.not_mem_nil
  · intro a member
    exact absurd member List.not_mem_nil

/-- Each place that an edit of the contents looks up is in the list that it takes from. -/
structure WithinBounds (s : Strategy) : Prop where
  blocks : ∀ c ∈ s.conditions.values, ∀ condition block i,
    c.blockIndex condition block = .ok i → i < c.blocks.length
  relations : ∀ c ∈ s.conditions.values, ∀ condition block i,
    c.blockIndex condition block = .ok i →
      c.blockRelations = [] ∨ i - 1 < c.blockRelations.length
  items : ∀ a ∈ s.actions.values, ∀ action item i,
    a.itemIndex action item = .ok i → i < a.items.length
  moved : ∀ a ∈ s.actions.values, ∀ action item i, a.itemIndex action item = .ok i →
    (Item.sorted a.items).findIdx (·.id == item) < (Item.sorted a.items).length
  edges : ∀ condition, ∀ r ∈ s.graph.ranked condition, r.place < s.graph.edges.length

theorem Aligned.withinBounds (aligned : s.Aligned) : s.WithinBounds where
  blocks c member _ _ _ place := ((aligned.conditions c member).inside place).1
  relations c member _ _ _ place := ((aligned.conditions c member).inside place).2
  items a _ _ _ _ place := (a.inside place).1
  moved a _ _ _ _ place := (a.inside place).2
  edges _ _ member := s.graph.place_lt member

theorem Aligned.refills {conditions : Dict Condition} {actions : Dict Action}
    {source : IdSource} (aligned : s.Aligned) (refills : s.Refills source conditions actions) :
    (∀ c ∈ conditions.values, c.Aligned) ∧ ∀ a ∈ actions.values, Item.InOrder a.items := by
  cases refills with
  | fewer left leftActions =>
    exact ⟨fun c member => aligned.conditions c (left.subset member),
      fun a member => aligned.actions a (leftActions.subset member)⟩
  | newCondition name =>
    refine ⟨fun c member => ?_, aligned.actions⟩
    rcases Dict.mem_values_insert member with rfl | held
    · exact Condition.aligned_ofFirst ..
    · exact aligned.conditions c held
  | newAction name =>
    refine ⟨aligned.conditions, fun a member => ?_⟩
    rcases Dict.mem_values_insert member with rfl | held
    · rfl
    · exact aligned.actions a held
  | condition held revised =>
    refine ⟨fun c member => ?_, aligned.actions⟩
    rcases Dict.mem_values_insert member with rfl | other
    · exact (aligned.conditions _ (Dict.mem_values_iff.2 ⟨_, held⟩)).revises revised
    · exact aligned.conditions c other
  | action held revised =>
    refine ⟨aligned.conditions, fun a member => ?_⟩
    rcases Dict.mem_values_insert member with rfl | other
    · exact Action.inOrder_revises (aligned.actions _ (Dict.mem_values_iff.2 ⟨_, held⟩)) revised
    · exact aligned.actions a other

end Strategy

namespace Payload

variable {p : Payload} {overrides : List (String × Capabilities)} {source rest : IdSource}
  {t : Strategy}

theorem mem_restoreActions {sent : List (String × SentAction)} {made : List (String × Action)}
    (done : (restoreActions sent).exec source = (.ok made, rest)) {a : Action}
    (member : a ∈ made.map Prod.snd) :
    ∃ (action : String) (c : SentAction) (before after : IdSource),
      (c.restore action).exec before = (.ok a, after) := by
  induction sent generalizing source made with
  | nil =>
    rw [restoreActions, Drawing.pure_eq_ok_iff] at done
    rw [← done.1] at member
    contradiction
  | cons entry others ih =>
    simp only [restoreActions, Drawing.bind_eq_ok_iff, Drawing.pure_eq_ok_iff] at done
    obtain ⟨action, _, restored, later, _, drawn, rfl, rfl⟩ := done
    rcases List.mem_cons.1 member with rfl | within
    · exact ⟨_, _, _, _, restored⟩
    · exact ih drawn within

theorem contents_of_restore (done : (p.restore overrides).exec source = (.ok t, rest)) :
    (∀ c ∈ t.conditions.values, ∃ (registry : Registry) (sent : SentCondition)
      (before after : IdSource), (sent.restore registry).exec before = (.ok c, after)) ∧
    ∀ a ∈ t.actions.values, ∃ (action : String) (sent : SentAction) (before after : IdSource),
      (sent.restore action).exec before = (.ok a, after) := by
  simp only [restore, Drawing.bind_eq_ok_iff, Drawing.pure_eq_ok_iff] at done
  obtain ⟨⟨_, _⟩, _, _, ⟨_, _⟩, _, _, actions, _, actionsDone, conditions, _, conditionsDone,
    rfl, _⟩ := done
  refine ⟨fun c member => ?_, fun a member => ?_⟩
  · obtain ⟨made, listed, rfl⟩ := List.mem_map.1 (Dict.mem_values_ofList member)
    obtain ⟨e, _, _, before, after, restored⟩ :=
      related_of_mem (restoreConditions_ok conditionsDone) listed
    exact ⟨_, e.2, before, after, restored⟩
  · exact mem_restoreActions actionsDone (Dict.mem_values_ofList member)

theorem aligned_of_restore (done : (p.restore overrides).exec source = (.ok t, rest)) :
    t.Aligned := by
  obtain ⟨conditions, actions⟩ := contents_of_restore done
  constructor
  · intro c member
    obtain ⟨_, _, _, _, restored⟩ := conditions c member
    exact SentCondition.aligned_of_restore restored
  · intro a member
    obtain ⟨_, _, _, _, restored⟩ := actions a member
    exact SentAction.inOrder_of_restore restored

end Payload

namespace Drawing

variable {α β : Type}

def Unbroken (m : Drawing EditError α) : Prop := ∀ source, EditError.Unbroken (m.exec source).1

theorem unbroken_pure (a : α) : (pure a : Drawing EditError α).Unbroken := fun _ => unbroken_ok a

theorem unbroken_relabel (m : Drawing Refusal α) : (Drawing.relabel .refused m).Unbroken := by
  intro source
  rw [exec_relabel]
  split
  next => exact unbroken_ok _
  next => exact EditError.unbroken_refused _

theorem Unbroken.bind {m : Drawing EditError α} {f : α → Drawing EditError β}
    (first : m.Unbroken) (second : ∀ a, (f a).Unbroken) : (m >>= f).Unbroken := by
  intro source
  have before := first source
  rw [exec_bind]
  split
  next a rest done => exact second a rest
  next reason rest done =>
    rw [done] at before
    exact fun broken => before (congrArg Except.error (Except.error.inj broken))

end Drawing

namespace Editor

open Drawing (unbroken_pure unbroken_relabel)

variable {e : Editor} {s t : Strategy}

theorem unbroken_settled {r : Except EditError Strategy} (unbroken : Unbroken r) :
    (settled r).Unbroken := fun _ => unbroken.map _

theorem unbroken_refusable (r : Except Refusal Strategy) : Unbroken (refusable r) := by
  cases r with
  | error reason => exact unbroken_refused reason
  | ok t => exact unbroken_ok t

theorem unbroken_editCondition {id : String} {edit : Condition → Except EditError Condition}
    (each : ∀ c ∈ s.conditions.values, Unbroken (edit c)) :
    Unbroken (editCondition s id edit) := by
  rw [editCondition]
  split
  next => exact unbroken_refused _
  next c held => exact (each c (Dict.mem_values_iff.2 ⟨id, held⟩)).map _

theorem unbroken_editAction {id : String} {edit : Action → Except EditError Action}
    (each : ∀ a, Unbroken (edit a)) : Unbroken (editAction s id edit) := by
  rw [editAction]
  split
  next => exact unbroken_refused _
  next a held => exact (each a).map _

-- Taking out a block is the one edit that alignment is needed for.
theorem unbroken_perform (e : Editor) (aligned : s.Aligned) (command : Command) :
    (e.perform s command).Unbroken := by
  cases command with
  | insertCondition => exact unbroken_relabel _
  | insertAction => exact (unbroken_relabel _).bind fun _ => unbroken_pure _
  | connect | disconnect | deleteNodes | swapConditions =>
    exact unbroken_settled (unbroken_refusable _)
  | moveNode => exact unbroken_settled (unbroken_ok _)
  | addBlock =>
    refine (unbroken_relabel _).bind fun block => Drawing.Unbroken.bind ?_ fun _ => unbroken_pure _
    exact unbroken_settled (unbroken_editCondition fun _ _ => unbroken_ok _)
  | removeBlock =>
    exact unbroken_settled (unbroken_editCondition fun c member =>
      (aligned.conditions c member).unbroken_removeBlock _ _)
  | setBlockRelation =>
    exact unbroken_settled (unbroken_editCondition fun c _ => c.unbroken_setBlockRelation _ _ _)
  | addSubSection =>
    refine (unbroken_relabel _).bind fun sub => Drawing.Unbroken.bind ?_ fun _ => unbroken_pure _
    exact unbroken_settled (unbroken_editCondition fun c _ => c.unbroken_addSubSection _ _ _)
  | updateSubSection =>
    exact unbroken_settled (unbroken_editCondition fun c _ => c.unbroken_updateSubSection _ _ _)
  | removeSubSection =>
    exact unbroken_settled (unbroken_editCondition fun c _ => c.unbroken_removeSubSection _ _ _)
  | updateConditionMeta =>
    exact unbroken_settled (unbroken_editCondition fun _ _ => unbroken_ok _)
  | addItem =>
    refine (unbroken_relabel _).bind fun id => Drawing.Unbroken.bind ?_ fun _ => unbroken_pure _
    exact unbroken_settled (unbroken_editAction fun _ => unbroken_ok _)
  | updateItem => exact unbroken_settled (unbroken_editAction fun a => a.unbroken_updateItem _ _ _)
  | removeItem => exact unbroken_settled (unbroken_editAction fun a => a.unbroken_removeItem _ _)
  | moveItem => exact unbroken_settled (unbroken_editAction fun a => a.unbroken_moveItem _ _ _)

theorem apply_ne_broken (e : Editor) (aligned : s.Aligned) (command : Command)
    (source : IdSource) : (e.apply s command source).2.1 ≠ .broken := by
  have unbroken := e.unbroken_perform aligned command source
  rw [apply]
  split
  next => simp
  next => simp
  next rest done =>
    rw [done] at unbroken
    exact absurd rfl unbroken

theorem Reaches.aligned (reaches : e.Reaches s t) (aligned : s.Aligned) : t.Aligned := by
  induction reaches with
  | refl => exact aligned
  | @command t _ command source ih =>
    obtain ⟨conditions, actions⟩ := ih.refills (e.refills_apply t command source)
    exact ⟨conditions, actions⟩
  | reload _ done => exact Payload.aligned_of_restore done

inductive Begins (e : Editor) : Strategy → Prop
  | new (name : String) : Begins e (e.initial name)
  | loaded {p : Payload} {overrides : List (String × Capabilities)} {source rest : IdSource}
    {s : Strategy} (done : (p.restore overrides).exec source = (.ok s, rest)) : Begins e s

theorem Begins.aligned (begins : e.Begins s) : s.Aligned := by
  cases begins with
  | new name => exact Strategy.aligned_initial name _
  | loaded done => exact Payload.aligned_of_restore done

/-- Blocks and relations, and items and their numbers, stay aligned whatever a strategy is begun
from and whatever is done with it, and every place that an edit takes something from is there. -/
theorem Reaches.orderly (begins : e.Begins s) (reaches : e.Reaches s t) :
    (∀ c ∈ t.conditions.values, c.Aligned) ∧
      (∀ a ∈ t.actions.values, a.items.length < UInt32.size →
        ∀ (i : Nat) (item : Item), a.items[i]? = some item → item.order.toNat = i) ∧
      (∀ command source, (e.apply t command source).2.1 ≠ .broken) ∧ t.WithinBounds := by
  have aligned := reaches.aligned begins.aligned
  refine ⟨aligned.conditions, fun a member few i item place => ?_,
    e.apply_ne_broken aligned, aligned.withinBounds⟩
  obtain ⟨inside, rfl⟩ := List.getElem?_eq_some_iff.1 place
  rw [(aligned.actions a member).order inside,
    UInt32.toNat_ofNat_of_lt' (Nat.lt_trans inside few)]

-- A condition that lost the first of three blocks, and an action with two items.
def sketch : Strategy :=
  standard.session (standard.initial "Sketch")
    [.insertCondition none, .addBlock "condition_00000000" .or,
      .addBlock "condition_00000000" .and, .removeBlock "condition_00000000" "block_00000001",
      .insertAction none, .addItem "action_00000007" (.action .squareOffAll),
      .addItem "action_00000007" (.action .stopWaitTriggers)] .counter

theorem sketch_orderly :
    standard.Begins (standard.initial "Sketch") ∧
      standard.Reaches (standard.initial "Sketch") sketch ∧
      ∃ c ∈ sketch.conditions.values, ∃ a ∈ sketch.actions.values,
        c.blocks.map Block.id = ["block_00000003", "block_00000005"] ∧ c.Aligned ∧
        a.items.map Item.id = ["item_00000008", "item_00000009"] ∧
        (∀ (i : Nat) (item : Item), a.items[i]? = some item → item.order.toNat = i) ∧
        (∀ command source, (standard.apply sketch command source).2.1 ≠ .broken) ∧
        sketch.WithinBounds := by
  have begins : standard.Begins (standard.initial "Sketch") := .new "Sketch"
  have reaches : standard.Reaches (standard.initial "Sketch") sketch := Reaches.refl.session _ _
  obtain ⟨conditions, actions, unbroken, bounds⟩ := Reaches.orderly begins reaches
  have blocks : sketch.conditions.values.map (fun c => c.blocks.map Block.id) =
      [["block_00000003", "block_00000005"]] := by decide +kernel
  have items : sketch.actions.values.map (fun a => a.items.map Item.id) =
      [["item_00000008", "item_00000009"]] := by decide +kernel
  obtain ⟨c, held, blockIds⟩ := List.map_eq_singleton_iff.1 blocks
  obtain ⟨a, heldAction, itemIds⟩ := List.map_eq_singleton_iff.1 items
  have member : c ∈ sketch.conditions.values := held ▸ List.mem_singleton_self c
  have memberAction : a ∈ sketch.actions.values := heldAction ▸ List.mem_singleton_self a
  have few : a.items.length < UInt32.size := by
    rw [← List.length_map (f := Item.id), itemIds]
    decide
  exact ⟨begins, reaches, c, member, a, memberAction, blockIds, conditions c member, itemIds,
    actions a memberAction few, unbroken, bounds⟩

end Editor

end TradingStrategy
