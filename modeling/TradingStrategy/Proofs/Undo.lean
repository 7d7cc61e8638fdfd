import TradingStrategy.Proofs.GraphUndo
import TradingStrategy.Proofs.UniqueIds

set_option autoImplicit false

namespace TradingStrategy

theorem Block.mirror_append (relations : List Relation) (bs others : List Block) :
    mirror relations (bs ++ others) =
      mirror relations bs ++ mirror (relations.drop bs.length) others := by
  fun_induction mirror relations bs with
  | case1 => rfl
  | case2 b bs ih =>
    rw [List.drop_nil] at ih ⊢
    exact congrArg (_ :: ·) ih
  | case3 r rs b bs ih => exact congrArg (_ :: ·) ih

theorem Block.mirror_mirror (first second : List Relation) (bs : List Block) :
    mirror second (mirror first bs) = mirror second bs := by
  apply List.ext_getElem?
  intro i
  simp only [getElem?_mirror, Option.map_map]
  rfl

namespace Condition

variable {c d : Condition} {condition block : String}

theorem Aligned.mirror_eq (aligned : c.Aligned) :
    Block.mirror c.blockRelations c.blocks = c.blocks := by
  apply List.ext_getElem?
  intro i
  rw [Block.getElem?_mirror]
  cases found : c.blocks[i]? with
  | none => rfl
  | some b =>
    rw [Option.map_some, ← aligned.mirrored i b found]

def extended (c : Condition) (relation : Relation) : List Relation :=
  if c.blocks.isEmpty then c.blockRelations else c.blockRelations ++ [relation]

-- The relation that is removed with the last block is the one that came with it.
theorem Aligned.eraseIdx_extended (aligned : c.Aligned) (relation : Relation) :
    (c.extended relation = [] ∨ c.blocks.length - 1 < (c.extended relation).length) ∧
      (c.extended relation).eraseIdx (c.blocks.length - 1) = c.blockRelations := by
  have count := aligned.count
  rw [extended]
  cases blocks : c.blocks with
  | nil =>
    have none : c.blockRelations = [] := List.eq_nil_of_length_eq_zero (by simp [count, blocks])
    simp [none]
  | cons first rest =>
    rw [← blocks, ← count, if_neg (by simp [blocks]), Keyed.eraseIdx_split, List.append_nil]
    simp

theorem Aligned.removeBlock_addBlock (aligned : c.Aligned) {b : Block}
    (fresh : b.id ∉ c.partIds) (relation : Relation) (condition : String) :
    (c.addBlock b relation).removeBlock condition b.id = .ok c := by
  obtain ⟨inside, relations⟩ := aligned.eraseIdx_extended relation
  let before := Block.mirror (c.extended relation) c.blocks
  -- The new block is the last one, whatever relation is left for it.
  obtain ⟨last, single, name⟩ : ∃ last, Block.mirror ((c.extended relation).drop c.blocks.length)
      [b] = [last] ∧ last.id = b.id := by
    cases (c.extended relation).drop c.blocks.length <;> exact ⟨_, rfl, rfl⟩
  have blocks : (c.addBlock b relation).blocks = before ++ [last] := by
    rw [← single]
    exact Block.mirror_append ..
  have ids : before.map Block.id = c.blocks.map Block.id := Block.map_mirror (fun _ _ => rfl) _ _
  have first : ∀ other ∈ before, other.id ≠ b.id := by
    intro other member same
    have listed : b.id ∈ c.blocks.map Block.id := ids ▸ same ▸ List.mem_map_of_mem member
    obtain ⟨held, heldMember, heldSame⟩ := List.mem_map.1 listed
    exact fresh (List.mem_flatMap.2 ⟨held, heldMember, heldSame ▸ List.mem_cons_self⟩)
  have length : before.length = c.blocks.length := Block.length_mirror ..
  refine removeBlock_eq_ok_iff.2 ⟨before, last, [], ⟨blocks, name, first⟩, ?_, ?_⟩
  · rw [length]
    exact inside
  · show c = { c with
      blocks := Block.mirror ((c.extended relation).eraseIdx (before.length - 1)) (before ++ [])
      blockRelations := (c.extended relation).eraseIdx (before.length - 1) }
    rw [length, relations, List.append_nil, Block.mirror_mirror, aligned.mirror_eq]

theorem removeSubSection_addSubSection {s : SubSection}
    (done : c.addSubSection condition block s = .ok d)
    (fresh : s.id ∉ c.partIds) :
    d.removeSubSection condition block s.id = .ok c := by
  obtain ⟨b, before, after, split, rfl⟩ := addSubSection_eq_ok_iff.1 done
  have member : b ∈ c.blocks := split.mem
  have left : (b.subSections ++ [s]).filter (·.id != s.id) = b.subSections := by
    rw [List.filter_append, List.filter_eq_self.2, List.filter_cons_of_neg (by simp),
      List.filter_nil, List.append_nil]
    intro other listed
    have apart : other.id ≠ s.id := by
      intro same
      have part : s.id ∈ b.partIds := List.mem_cons_of_mem _ (same ▸ List.mem_map_of_mem listed)
      exact fresh (List.mem_flatMap.2 ⟨b, member, part⟩)
    simpa using apart
  refine removeSubSection_eq_ok_iff.2 ⟨_, ⟨s, by simp, rfl⟩, before, after,
    ⟨rfl, split.named, split.first⟩, ?_⟩
  rw [left]
  show c = { c with blocks := before ++ b :: after }
  rw [← split.whole]

end Condition

namespace Action

variable {a : Action} {id : String}

theorem removeItem_addItem (inOrder : Item.InOrder a.items) (few : a.items.length ≤ UInt32.size)
    (fresh : id ∉ a.itemIds) (body : ItemContent) (action : String) :
    (a.addItem id body).removeItem action id = .ok a := by
  rw [addItem_of_inOrder inOrder few]
  refine removeItem_eq_ok_iff.2 ⟨a.items, _, [], ⟨rfl, rfl, ?_⟩, ?_⟩
  · intro other member same
    exact fresh (same ▸ List.mem_map_of_mem member)
  · rw [List.append_nil, renumber, inOrder.sorted few, inOrder.numbered]

end Action

namespace Strategy

variable {s t : Strategy}

theorem not_mem_partIds {place id : String} {c : Condition} (fresh : s.usesPartId id = false)
    (held : s.conditions.get? place = some c) : id ∉ c.partIds := by
  rw [usesPartId_eq_false_iff] at fresh
  intro member
  exact fresh (List.mem_flatMap.2 ⟨c, Dict.mem_values_iff.2 ⟨place, held⟩, member⟩)

theorem not_mem_itemIds {place id : String} {a : Action} (fresh : s.usesItemId id = false)
    (held : s.actions.get? place = some a) : id ∉ a.itemIds := by
  rw [usesItemId_eq_false_iff] at fresh
  intro member
  exact fresh (List.mem_flatMap.2 ⟨a, Dict.mem_values_iff.2 ⟨place, held⟩, member⟩)

def ItemsGiven (s : Strategy) : Prop := IdSource.Given "item" s.itemIds

theorem itemsGiven_initial (name : String) (start : Position) : (initial name start).ItemsGiven :=
  ⟨List.nodup_nil, fun _ member => absurd member List.not_mem_nil⟩

theorem ItemsGiven.refills {conditions : Dict Condition} {actions : Dict Action} {source : IdSource}
    (given : s.ItemsGiven) (unique : s.UniqueIds) (narrow : source.Narrow)
    (refills : s.Refills source conditions actions) :
    IdSource.Given "item" (actions.values.flatMap Action.itemIds) := by
  refine ⟨(unique.refills refills).2, ?_⟩
  have known {a : Action} {id : String} (held : a ∈ s.actions.values) (listed : id ∈ a.itemIds) :
      ∃ k < UInt32.size, id = IdSource.idOf "item" k :=
    given.drawn id (List.mem_flatMap.2 ⟨a, held, listed⟩)
  cases refills with
  | newCondition | condition => exact given.drawn
  | fewer _ left => exact fun id member => given.drawn id ((left.flatMap _).subset member)
  | newAction name =>
    intro id member
    obtain ⟨a, held, listed⟩ := List.mem_flatMap.1 member
    rcases Dict.mem_values_insert held with rfl | old
    · exact absurd listed List.not_mem_nil
    · exact known old listed
  | action held revised =>
    intro id member
    obtain ⟨fresh, _, gives, made⟩ := Action.itemIds_revises unique.items revised
    obtain ⟨b, inside, listed⟩ := List.mem_flatMap.1 member
    rcases Dict.mem_values_insert inside with rfl | other
    · rcases List.mem_append.1 (made.subset listed) with new | old
      · exact (gives id new).narrow narrow
      · exact known (Dict.mem_values_iff.2 ⟨_, held⟩) old
    · exact known other listed

theorem ItemsGiven.length_le (given : s.ItemsGiven) {place : String} {a : Action}
    (held : s.actions.get? place = some a) : a.items.length ≤ UInt32.size := by
  have member : a ∈ s.actions.values := Dict.mem_values_iff.2 ⟨place, held⟩
  have within : IdSource.Given "item" a.itemIds := by
    refine ⟨(List.nodup_flatMap.1 given.nodup).1 a member, fun id listed => ?_⟩
    exact given.drawn id (List.mem_flatMap.2 ⟨a, member, listed⟩)
  have few := within.length_le
  rwa [Action.itemIds, List.length_map] at few

end Strategy

namespace Editor

open Drawing (keepsDraws_pure keepsDraws_unique)

variable {e : Editor} {s t : Strategy} {source rest : IdSource} {created : Option String}

theorem keepsDraws_newBlock (e : Editor) (s : Strategy) : (e.newBlock s).KeepsDraws :=
  (keepsDraws_unique _ _ _).bind fun _ => (keepsDraws_unique _ _ _).bind fun _ => keepsDraws_pure _

theorem keepsDraws_insertCondition (e : Editor) (s : Strategy) (after : Option String) :
    (e.insertCondition s after).KeepsDraws := by
  rw [insertCondition]
  split
  next => exact fun _ => rfl
  next tail _ =>
    split
    next => exact keepsDraws_pure _
    next =>
      exact (keepsDraws_unique _ _ _).bind fun _ =>
        (e.keepsDraws_newBlock s).bind fun _ => keepsDraws_pure _

theorem keepsDraws_settled (r : Except EditError Strategy) : (settled r).KeepsDraws := fun _ => rfl

theorem keepsDraws_perform (e : Editor) (s : Strategy) (command : Command) :
    (e.perform s command).KeepsDraws := by
  cases command with
  | insertCondition after => exact (e.keepsDraws_insertCondition s after).relabel _
  | insertAction =>
    refine Drawing.KeepsDraws.bind (Drawing.KeepsDraws.relabel ?_ _) fun _ => keepsDraws_pure _
    exact (keepsDraws_unique _ _ _).bind fun _ => keepsDraws_pure _
  | addBlock =>
    exact ((e.keepsDraws_newBlock s).relabel _).bind fun _ =>
      (keepsDraws_settled _).bind fun _ => keepsDraws_pure _
  | addSubSection | addItem =>
    exact ((keepsDraws_unique _ _ _).relabel _).bind fun _ =>
      (keepsDraws_settled _).bind fun _ => keepsDraws_pure _
  | _ => exact keepsDraws_settled _

theorem rest_apply (e : Editor) (s : Strategy) (command : Command) (source : IdSource) :
    (e.apply s command source).2.2 = ((e.perform s command).exec source).2 := by
  rw [apply]
  split
  next done => rw [done]
  next done => rw [done]
  next done => rw [done]

theorem narrow_apply (narrow : source.Narrow) (e : Editor) (s : Strategy) (command : Command) :
    (e.apply s command source).2.2.Narrow := by
  intro k
  rw [rest_apply, e.keepsDraws_perform s command source]
  exact narrow k

theorem itemsGiven_session (e : Editor) (given : s.ItemsGiven) (unique : s.UniqueIds)
    (narrow : source.Narrow) (commands : List Command) :
    (e.session s commands source).ItemsGiven := by
  induction commands generalizing s source with
  | nil => exact given
  | cons command others ih =>
    exact ih (given.refills unique narrow (e.refills_apply s command source))
      (e.uniqueIds_apply unique command source) (narrow_apply narrow e s command)

theorem undo_editCondition {id : String} {edit back : Condition → Except EditError Condition}
    (done : editCondition s id edit = .ok t)
    (undoes : ∀ c d, s.conditions.get? id = some c → edit c = .ok d → back d = .ok c) :
    editCondition t id back = .ok s := by
  obtain ⟨c, d, held, made, rfl⟩ := editCondition_eq_ok_iff.1 done
  refine editCondition_eq_ok_iff.2 ⟨d, c, ?_, undoes c d held made, ?_⟩
  · rw [Dict.get?_insert, if_pos rfl]
  · rw [Dict.insert_insert, Dict.insert_of_get? held]

theorem undo_editAction {id : String} {edit back : Action → Except EditError Action}
    (done : editAction s id edit = .ok t)
    (undoes : ∀ a b, s.actions.get? id = some a → edit a = .ok b → back b = .ok a) :
    editAction t id back = .ok s := by
  obtain ⟨a, b, held, made, rfl⟩ := editAction_eq_ok_iff.1 done
  refine editAction_eq_ok_iff.2 ⟨b, a, ?_, undoes a b held made, ?_⟩
  · rw [Dict.get?_insert, if_pos rfl]
  · rw [Dict.insert_insert, Dict.insert_of_get? held]

end Editor

/-- The command that takes out what a command has put in, by the id that it created; one that swaps
two conditions is its own. -/
def Command.inverse? (created : Option String) : Command → Option Command
  | .insertCondition _ | .insertAction _ => created.map fun id => .deleteNodes [id]
  | .connect condition action => some (.disconnect (Edge.standardId condition action))
  | .swapConditions a b => some (.swapConditions a b)
  | .addBlock condition _ => created.map (.removeBlock condition)
  | .addSubSection condition block => created.map (.removeSubSection condition block)
  | .addItem action _ => created.map (.removeItem action)
  | _ => none

namespace Editor

variable {e : Editor} {s t : Strategy} {source rest : IdSource} {created : Option String}
  {path : List String}

theorem exec_settled {r : Except EditError Strategy} (done : r = .ok s) (source : IdSource) :
    (settled r).exec source = (.ok (s, none), source) :=
  settled_eq_ok_iff.2 ⟨done, rfl, rfl⟩

theorem perform_inverse {command inverse : Command} (sound : s.Sound path) (aligned : s.Aligned)
    (given : s.ItemsGiven)
    (done : (e.perform s command).exec source = (.ok (t, created), rest))
    (undoes : command.inverse? created = some inverse)
    (fits : ∀ condition action, command = .connect condition action →
      (s.graph.fanOutTargets condition).length + 1 < UInt32.size) (later : IdSource) :
    (e.perform t inverse).exec later = (.ok (s, none), later) := by
  have effect := perform_ok done
  cases command with
  | insertCondition =>
    obtain ⟨tail, last, ⟨_, _, rfl⟩ | ⟨_, id, block, free, drawn, rfl, rfl⟩⟩ := effect
    · contradiction
    · obtain rfl := Option.some.inj undoes
      have undone := sound.undo_insertCondition e last free drawn block
      exact exec_settled (refusable_eq_ok_iff.2 undone) later
  | insertAction via =>
    obtain ⟨id, free, _, rfl, rfl⟩ := effect
    obtain rfl := Option.some.inj undoes
    exact exec_settled (refusable_eq_ok_iff.2 (sound.undo_insertAction e via free)) later
  | connect condition action =>
    obtain rfl := Option.some.inj undoes
    have undone := sound.undo_connect effect (fits condition action rfl)
    exact exec_settled (refusable_eq_ok_iff.2 undone) later
  | swapConditions =>
    obtain rfl := Option.some.inj undoes
    exact exec_settled (refusable_eq_ok_iff.2 (sound.undo_swapConditions effect)) later
  | addBlock condition =>
    obtain ⟨block, drawn, edited, rfl⟩ := settled_after_ok done
    obtain rfl := Option.some.inj undoes
    obtain ⟨_, _, rfl, fresh, _⟩ := newBlock_ok (Drawing.relabel_eq_ok_iff.1 drawn)
    refine exec_settled (undo_editCondition edited fun c d held made => ?_) later
    obtain rfl := Except.ok.inj made
    have each := aligned.conditions c (Dict.mem_values_iff.2 ⟨_, held⟩)
    exact each.removeBlock_addBlock (Strategy.not_mem_partIds fresh held) _ condition
  | addSubSection condition block =>
    obtain ⟨id, drawn, edited, rfl⟩ := settled_after_ok done
    obtain rfl := Option.some.inj undoes
    have fresh := (Drawing.unique_ok (Drawing.relabel_eq_ok_iff.1 drawn)).1
    refine exec_settled (undo_editCondition edited fun c d held made => ?_) later
    exact Condition.removeSubSection_addSubSection made (Strategy.not_mem_partIds fresh held)
  -- The numbers of more items than there are ids would wrap, and sort the items anew.
  | addItem action body =>
    obtain ⟨id, drawn, edited, rfl⟩ := settled_after_ok done
    obtain rfl := Option.some.inj undoes
    have fresh := (Drawing.unique_ok (Drawing.relabel_eq_ok_iff.1 drawn)).1
    refine exec_settled (undo_editAction edited fun a b held made => ?_) later
    obtain rfl := Except.ok.inj made
    have each := aligned.actions a (Dict.mem_values_iff.2 ⟨_, held⟩)
    exact Action.removeItem_addItem each (given.length_le held)
      (Strategy.not_mem_itemIds fresh held) body action
  | _ => contradiction

/-- Taking back what a command created, whatever came before and whatever was drawn for it, gives
the strategy as it was. -/
theorem apply_inverse (e : Editor) (name : String) (commands : List Command)
    (narrow : source.Narrow) {command inverse : Command} {draws : IdSource}
    (done : e.apply (e.session (e.initial name) commands source) command draws =
      (t, .applied created, rest))
    (undoes : command.inverse? created = some inverse)
    (fits : ∀ condition action, command = .connect condition action →
      ((e.session (e.initial name) commands source).graph.fanOutTargets condition).length + 1 <
        UInt32.size) (later : IdSource) :
    e.apply t inverse later =
      (e.session (e.initial name) commands source, .applied none, later) := by
  have sound := (e.reachable_session name commands source).sound
  have reached : e.Reaches (e.initial name) (e.session (e.initial name) commands source) :=
    Reaches.refl.session commands source
  have aligned := reached.aligned (Strategy.aligned_initial name e.layout.start)
  have given := e.itemsGiven_session (Strategy.itemsGiven_initial name e.layout.start)
    (Strategy.uniqueIds_initial name e.layout.start) narrow commands
  rw [apply_eq_applied_iff] at done ⊢
  exact perform_inverse sound aligned given done undoes fits later

def strangle : Strategy :=
  standard.session (standard.initial "Strangle")
    [.insertCondition none, .insertAction none, .insertAction none,
      .connect "condition_00000000" "action_00000003",
      .removeBlock "condition_00000000" "block_00000001",
      .addItem "action_00000003" (.action .squareOffAll)] .wrapping

def strangleEdits : List (Command × Option String × Command) :=
  [(.connect "condition_00000000" "action_00000004", none,
      .disconnect "e_condition_00000000_action_00000004"),
    (.addBlock "condition_00000000" .or, some "block_00000000",
      .removeBlock "condition_00000000" "block_00000000"),
    (.addItem "action_00000003" (.action .stopWaitTriggers), some "item_00000000",
      .removeItem "action_00000003" "item_00000000")]

theorem strangle_apply_inverse :
    IdSource.wrapping.Narrow ∧ ∀ p ∈ strangleEdits, ∃ t rest,
      standard.apply strangle p.1 .wrapping = (t, .applied p.2.1, rest) ∧
        p.1.inverse? p.2.1 = some p.2.2 ∧
        standard.apply t p.2.2 .counter = (strangle, .applied none, .counter) := by
  refine ⟨IdSource.narrow_wrapping, fun p member => ?_⟩
  have known : ∀ p ∈ strangleEdits,
      (standard.apply strangle p.1 .wrapping).2.1 = .applied p.2.1 ∧
        p.1.inverse? p.2.1 = some p.2.2 := by decide +kernel
  obtain ⟨outcome, undoes⟩ := known p member
  have done : standard.apply strangle p.1 .wrapping = (_, .applied p.2.1, _) :=
    Prod.ext rfl (Prod.ext outcome rfl)
  have few (condition : String) :
      (strangle.graph.fanOutTargets condition).length + 1 < UInt32.size := by
    have edges : strangle.graph.edges.length + 1 < UInt32.size := by decide +kernel
    rw [Graph.length_fanOutTargets, Graph.length_fanOut]
    exact Nat.lt_of_le_of_lt (Nat.succ_le_succ (List.length_filter_le ..)) edges
  exact ⟨_, _, done, undoes, standard.apply_inverse _ _ IdSource.narrow_wrapping done undoes
    (fun condition _ _ => few condition) .counter⟩

end Editor

end TradingStrategy
