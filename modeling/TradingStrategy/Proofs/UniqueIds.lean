import Mathlib.Data.List.Flatten
import TradingStrategy.Proofs.Alignment

set_option autoImplicit false

namespace TradingStrategy

def Block.partIds (b : Block) : List String := b.id :: b.subSections.map SubSection.id

def Condition.partIds (c : Condition) : List String := c.blocks.flatMap Block.partIds

def Strategy.partIds (s : Strategy) : List String := s.conditions.values.flatMap Condition.partIds

def Action.itemIds (a : Action) : List String := a.items.map Item.id

def Strategy.itemIds (s : Strategy) : List String := s.actions.values.flatMap Action.itemIds

theorem nodup_of_subperm {α : Type} {xs ys : List α} (within : xs.Subperm ys) (nodup : ys.Nodup) :
    xs.Nodup := by
  obtain ⟨zs, perm, sublist⟩ := within
  exact perm.nodup_iff.1 (nodup.sublist sublist)

namespace Dict

variable {α : Type} {d : Dict α} {key : String} {ids : α → List String}

theorem nodup_insert {new : α} {before fresh : List String}
    (held : (d.values.flatMap ids).Perm (before ++ (d.erase key).values.flatMap ids))
    (made : (ids new).Subperm (fresh ++ before)) (nodup : (fresh ++ d.values.flatMap ids).Nodup) :
    ((d.insert key new).values.flatMap ids).Nodup := by
  have values := (d.values_insert_perm key new).flatMap_right ids
  have within : (ids new ++ (d.erase key).values.flatMap ids).Subperm
      (fresh ++ d.values.flatMap ids) := by
    have rest : (fresh ++ (before ++ (d.erase key).values.flatMap ids)).Perm
        (fresh ++ d.values.flatMap ids) := held.symm.append_left fresh
    refine List.Subperm.trans ?_ rest.subperm
    rw [← List.append_assoc]
    exact (List.subperm_append_right _).2 made
  exact values.nodup_iff.2 (nodup_of_subperm within nodup)

theorem held_of_get? {old : α} (present : d.get? key = some old) :
    (d.values.flatMap ids).Perm (ids old ++ (d.erase key).values.flatMap ids) :=
  (values_perm present).flatMap_right ids

theorem held_of_absent (absent : d.contains key = false) :
    (d.values.flatMap ids).Perm ([] ++ (d.erase key).values.flatMap ids) := by
  rw [erase_of_not_contains absent]
  exact .refl _

end Dict

theorem Block.containsId_iff {b : Block} {id : String} :
    b.containsId id = true ↔ id ∈ b.partIds := by
  simp only [containsId, partIds, Bool.or_eq_true, List.any_eq_true, beq_iff_eq, List.mem_cons,
    List.mem_map, eq_comm (a := id)]

theorem Block.partIds_concat_perm (b : Block) (s : SubSection) :
    ({ b with subSections := b.subSections ++ [s] } : Block).partIds.Perm (s.id :: b.partIds) := by
  rw [partIds, partIds, List.map_append]
  have moved : (b.partIds ++ [s.id]).Perm ([s.id] ++ b.partIds) := List.perm_append_comm
  exact moved

theorem Block.partIds_filter_perm {b : Block} {s : SubSection}
    (ids : (b.subSections.map SubSection.id).Nodup) (within : s ∈ b.subSections) :
    (s.id :: ({ b with subSections := b.subSections.filter (·.id != s.id) } : Block).partIds).Perm
      b.partIds := by
  have left : (b.subSections.filter (·.id != s.id)).map SubSection.id =
      (b.subSections.map SubSection.id).erase s.id := by
    rw [ids.erase_eq_filter, List.filter_map]
    rfl
  have listed : s.id ∈ b.subSections.map SubSection.id := List.mem_map_of_mem within
  have apart := List.perm_cons_erase listed
  rw [partIds, partIds, left]
  exact (List.Perm.swap ..).trans (apart.symm.cons b.id)

theorem Strategy.usesPartId_eq_false_iff {s : Strategy} {id : String} :
    s.usesPartId id = false ↔ id ∉ s.partIds := by
  rw [Bool.eq_false_iff, not_iff_not]
  simp only [usesPartId, partIds, Condition.containsId, Condition.partIds, List.any_eq_true,
    List.mem_flatMap, Block.containsId_iff]

theorem Strategy.usesItemId_eq_false_iff {s : Strategy} {id : String} :
    s.usesItemId id = false ↔ id ∉ s.itemIds := by
  simp [usesItemId, itemIds, Action.containsItem, Action.itemIds]

def Strategy.FreshParts (s : Strategy) (ids : List String) : Prop := (ids ++ s.partIds).Nodup

theorem Strategy.freshParts_of_new {s : Strategy} {ids : List String} (parts : s.partIds.Nodup)
    (distinct : ids.Nodup) (new : ∀ id ∈ ids, id ∉ s.partIds) : s.FreshParts ids :=
  List.nodup_append'.2 ⟨distinct, parts, new⟩

theorem Strategy.new_pair {s : Strategy} {block sub : String}
    (fresh : s.usesPartId block = false) (freshSub : s.usesPartId sub = false)
    (name : IdSource.Drawn "block" block) (nameSub : IdSource.Drawn "sub" sub) :
    [block, sub].Nodup ∧ ∀ id ∈ [block, sub], id ∉ s.partIds := by
  obtain ⟨n, rfl⟩ := name
  obtain ⟨m, rfl⟩ := nameSub
  -- The two were drawn without regard to each other, but for different stems.
  have apart : IdSource.idOf "block" n ≠ IdSource.idOf "sub" m := fun same =>
    absurd (IdSource.idOf_inj same).1 (by decide)
  rw [usesPartId_eq_false_iff] at fresh freshSub
  simpa [apart] using ⟨fresh, freshSub⟩

namespace Condition

variable {c d : Condition} {s : Strategy}

@[simp] theorem partIds_mirrored (c : Condition) : c.mirrored.partIds = c.partIds := by
  have parts := Block.map_mirror (f := Block.partIds) (fun _ _ => rfl) c.blockRelations c.blocks
  rw [partIds, partIds, List.flatMap_def, List.flatMap_def, mirrored, parts]

theorem partIds_addBlock (c : Condition) (block sub : String) (relation : Relation) :
    (c.addBlock (.ofFirst block (.blank sub)) relation).partIds = c.partIds ++ [block, sub] := by
  rw [addBlock, partIds_mirrored, partIds, List.flatMap_append]
  rfl

theorem partIds_removeBlock {condition block : String}
    (done : c.removeBlock condition block = .ok d) : d.partIds.Sublist c.partIds := by
  obtain ⟨before, b, after, split, _, rfl⟩ := removeBlock_eq_ok_iff.1 done
  rw [partIds_mirrored, partIds, partIds, split.whole]
  exact ((List.sublist_cons_self b after).append_left before).flatMap _

theorem Rewrites.partIds_perm {block : String} {b b' : Block} (rewrites : c.Rewrites d block b b') :
    ∃ others, c.partIds.Perm (b.partIds ++ others) ∧ d.partIds.Perm (b'.partIds ++ others) := by
  obtain ⟨before, after, split, rfl⟩ := rewrites
  have apart (x : Block) : ((before ++ x :: after).flatMap Block.partIds).Perm
      (x.partIds ++ (before.flatMap Block.partIds ++ after.flatMap Block.partIds)) := by
    rw [List.flatMap_append, List.flatMap_cons, ← List.append_assoc, ← List.append_assoc]
    exact List.perm_append_comm.append_right _
  refine ⟨_, ?_, apart b'⟩
  rw [partIds, split.whole]
  exact apart b

theorem partIds_rewrites {block : String} {b b' : Block} {fresh : List String}
    (rewrites : c.Rewrites d block b b') (made : b'.partIds.Subperm (fresh ++ b.partIds)) :
    d.partIds.Subperm (fresh ++ c.partIds) := by
  obtain ⟨others, whole, whole'⟩ := rewrites.partIds_perm
  have grown := (List.subperm_append_right others).2 made
  rw [List.append_assoc] at grown
  exact whole'.subperm.trans (grown.trans (whole.symm.append_left fresh).subperm)

theorem partIds_revises (revised : s.RevisesCondition c d) :
    ∃ fresh, fresh.Nodup ∧ (∀ id ∈ fresh, id ∉ s.partIds) ∧
      d.partIds.Subperm (fresh ++ c.partIds) := by
  -- Only additions bring new ids in; the other edits keep the parts or drop some.
  have nothing (within : d.partIds.Subperm ([] ++ c.partIds)) : ∃ fresh : List String, fresh.Nodup ∧
      (∀ id ∈ fresh, id ∉ s.partIds) ∧ d.partIds.Subperm (fresh ++ c.partIds) :=
    ⟨[], List.nodup_nil, fun _ member => absurd member List.not_mem_nil, within⟩
  cases revised with
  | @addBlock block sub relation fresh freshSub name nameSub =>
    obtain ⟨distinct, new⟩ := s.new_pair fresh freshSub name nameSub
    refine ⟨[block, sub], distinct, new, ?_⟩
    rw [partIds_addBlock]
    exact List.perm_append_comm.subperm
  | removeBlock done => exact nothing (partIds_removeBlock done).subperm
  | setBlockRelation done =>
    obtain ⟨_, rfl⟩ := setBlockRelation_eq_ok_iff.1 done
    refine nothing ?_
    rw [partIds_mirrored]
    exact .refl _
  | @addSubSection condition block sub d fresh done =>
    obtain ⟨b, rewrites⟩ := addSubSection_eq_ok_iff.1 done
    rw [Strategy.usesPartId_eq_false_iff] at fresh
    exact ⟨[sub], List.nodup_singleton sub, List.forall_mem_singleton.2 fresh,
      partIds_rewrites rewrites (b.partIds_concat_perm (.blank sub)).subperm⟩
  | @updateSubSection _ _ new d done =>
    obtain ⟨b, earlier, old, later, split, rewrites⟩ := updateSubSection_ok done
    refine nothing (partIds_rewrites rewrites ?_)
    have same : (earlier ++ new :: later).map SubSection.id = b.subSections.map SubSection.id := by
      rw [split.whole, List.map_append, List.map_append, List.map_cons, List.map_cons, split.named]
    rw [Block.partIds, same]
    exact .refl _
  | removeSubSection done =>
    obtain ⟨b, _, rewrites⟩ := removeSubSection_eq_ok_iff.1 done
    exact nothing (partIds_rewrites rewrites
      ((List.filter_sublist.map SubSection.id).cons_cons b.id).subperm)
  | setHeader => exact nothing (.refl _)

theorem partIds_nodup_revises (revised : s.RevisesCondition c d) (member : c ∈ s.conditions.values)
    (nodup : c.partIds.Nodup) : d.partIds.Nodup := by
  obtain ⟨fresh, distinct, new, made⟩ := partIds_revises revised
  refine nodup_of_subperm made (List.nodup_append'.2 ⟨distinct, nodup, fun id listed within => ?_⟩)
  exact new id listed (List.mem_flatMap.2 ⟨c, member, within⟩)

theorem block_ids_nodup (unique : c.partIds.Nodup) : (c.blocks.map Block.id).Nodup := by
  refine List.pairwise_map.2 ((List.nodup_flatMap.1 unique).2.imp fun apart same => ?_)
  exact apart List.mem_cons_self (same ▸ List.mem_cons_self)

theorem subSection_ids_nodup (unique : c.partIds.Nodup) {b : Block} (member : b ∈ c.blocks) :
    (b.subSections.map SubSection.id).Nodup :=
  (List.nodup_cons.1 ((List.nodup_flatMap.1 unique).1 b member)).2

end Condition

namespace Action

variable {a b : Action} {s : Strategy}

theorem itemIds_numbered (items : List Item) :
    (Item.numbered items).map Item.id = items.map Item.id :=
  Item.map_numbered Item.id (fun _ _ => rfl) items

theorem itemIds_renumber_perm (a : Action) : a.renumber.itemIds.Perm a.itemIds := by
  rw [itemIds, renumber, itemIds_numbered]
  exact (List.mergeSort_perm ..).map Item.id

theorem itemIds_addItem_perm (a : Action) (id : String) (body : ItemContent) :
    (a.addItem id body).itemIds.Perm (id :: a.itemIds) := by
  rw [itemIds, addItem, List.map_append]
  exact List.perm_append_comm.trans (a.itemIds_renumber_perm.cons id)

theorem itemIds_revises (items : s.itemIds.Nodup) {source : IdSource}
    (revised : s.RevisesAction source a b) :
    ∃ fresh, (fresh ++ s.itemIds).Nodup ∧ (∀ id ∈ fresh, source.Gives "item" id) ∧
      b.itemIds.Subperm (fresh ++ a.itemIds) := by
  have none : ∀ id ∈ ([] : List String), source.Gives "item" id :=
    fun _ member => absurd member List.not_mem_nil
  cases revised with
  | @addItem id body fresh gives =>
    rw [Strategy.usesItemId_eq_false_iff] at fresh
    exact ⟨[id], List.nodup_cons.2 ⟨fresh, items⟩, List.forall_mem_singleton.2 gives,
      (a.itemIds_addItem_perm id body).subperm⟩
  | updateItem done =>
    obtain ⟨before, x, after, split, rfl⟩ := updateItem_eq_ok_iff.1 done
    refine ⟨[], items, none, ?_⟩
    rw [itemIds, itemIds, split.whole, List.map_append, List.map_append]
    exact .refl _
  | removeItem done =>
    obtain ⟨before, x, after, split, rfl⟩ := removeItem_eq_ok_iff.1 done
    refine ⟨[], items, none, (itemIds_renumber_perm _).subperm.trans ?_⟩
    rw [itemIds, List.nil_append, itemIds, split.whole]
    exact (((List.sublist_cons_self x after).append_left before).map Item.id).subperm
  | @moveItem _ _ place _ done =>
    obtain ⟨before, moved, after, split, rfl⟩ := moveItem_eq_ok_iff.1 done
    refine ⟨[], items, none, ?_⟩
    rw [itemIds, itemIds_numbered]
    have inserted := List.perm_insertIdx moved (before ++ after)
      (Nat.min_le_right place (before ++ after).length)
    have perm : (moved :: (before ++ after)).Perm a.items := by
      refine List.perm_middle.symm.trans ?_
      rw [← split.whole]
      exact List.mergeSort_perm ..
    exact ((inserted.trans perm).map Item.id).subperm

end Action

structure Strategy.UniqueIds (s : Strategy) : Prop where
  parts : s.partIds.Nodup
  items : s.itemIds.Nodup

namespace Strategy

variable {s : Strategy}

theorem uniqueIds_initial (name : String) (start : Position) : (initial name start).UniqueIds :=
  ⟨List.nodup_nil, List.nodup_nil⟩

theorem UniqueIds.refills {conditions : Dict Condition} {actions : Dict Action}
    {source : IdSource} (unique : s.UniqueIds) (refills : s.Refills source conditions actions) :
    (conditions.values.flatMap Condition.partIds).Nodup ∧
      (actions.values.flatMap Action.itemIds).Nodup := by
  obtain ⟨parts, items⟩ := unique
  cases refills with
  | fewer left leftActions =>
    exact ⟨parts.sublist (left.flatMap _), items.sublist (leftActions.flatMap _)⟩
  | newCondition name free fresh freshSub drawn drawnSub =>
    refine ⟨?_, items⟩
    obtain ⟨distinct, new⟩ := s.new_pair fresh freshSub drawn drawnSub
    refine Dict.nodup_insert (Dict.held_of_absent free) ?_ (s.freshParts_of_new parts distinct new)
    exact .refl _
  | newAction name free =>
    have nodup : ([] ++ s.actions.values.flatMap Action.itemIds).Nodup := items
    exact ⟨parts, Dict.nodup_insert (Dict.held_of_absent free) List.nil_subperm nodup⟩
  | condition held revised =>
    obtain ⟨fresh, distinct, new, made⟩ := Condition.partIds_revises revised
    have nodup := s.freshParts_of_new parts distinct new
    exact ⟨Dict.nodup_insert (Dict.held_of_get? held) made nodup, items⟩
  | action held revised =>
    obtain ⟨fresh, nodup, _, made⟩ := Action.itemIds_revises items revised
    exact ⟨parts, Dict.nodup_insert (Dict.held_of_get? held) made nodup⟩

def UniqueParts (s : Strategy) : Prop := ∀ c ∈ s.conditions.values, c.partIds.Nodup

theorem uniqueParts_initial (name : String) (start : Position) :
    (initial name start).UniqueParts := fun _ member => absurd member List.not_mem_nil

theorem UniqueParts.refills {conditions : Dict Condition} {actions : Dict Action}
    {source : IdSource} (unique : s.UniqueParts) (refills : s.Refills source conditions actions) :
    ∀ c ∈ conditions.values, c.partIds.Nodup := by
  cases refills with
  | fewer left => exact fun c member => unique c (left.subset member)
  | newCondition name _ fresh freshSub drawn drawnSub =>
    intro c member
    rcases Dict.mem_values_insert member with rfl | held
    · exact (s.new_pair fresh freshSub drawn drawnSub).1
    · exact unique c held
  | newAction | action => exact unique
  | condition held revised =>
    intro c member
    rcases Dict.mem_values_insert member with rfl | other
    · have old := Dict.mem_values_iff.2 ⟨_, held⟩
      exact Condition.partIds_nodup_revises revised old (unique _ old)
    · exact unique c other

end Strategy

structure Allots (taken ids left : List String) : Prop where
  within : (ids ++ taken).Subperm left
  nodup : taken.Nodup → left.Nodup

namespace Allots

variable {taken middle left ids ids' : List String}

theorem refl (taken : List String) : Allots taken [] taken := ⟨.refl _, id⟩

theorem trans (first : Allots taken ids middle) (second : Allots middle ids' left) :
    Allots taken (ids ++ ids') left := by
  refine ⟨?_, fun nodup => second.nodup (first.nodup nodup)⟩
  have swapped : (ids ++ ids' ++ taken).Perm (ids' ++ (ids ++ taken)) := by
    rw [← List.append_assoc]
    exact List.perm_append_comm.append_right taken
  have later := (List.subperm_append_left ids').2 first.within
  exact swapped.subperm.trans (later.trans second.within)

theorem fewer (allots : Allots taken ids left) (within : ids'.Subperm ids) :
    Allots taken ids' left :=
  ⟨((List.subperm_append_right taken).2 within).trans allots.within, allots.nodup⟩

theorem unique (allots : Allots [] ids left) : ids.Nodup := by
  have within := allots.within
  rw [List.append_nil] at within
  exact nodup_of_subperm within (allots.nodup List.nodup_nil)

end Allots

theorem Drawing.uniqueAmong_allots {stem : String} {taken left : List String}
    {source rest : IdSource} {id : String}
    (done : (uniqueAmong stem taken).exec source = (.ok (id, left), rest)) :
    Allots taken [id] left := by
  obtain ⟨unused, _, rfl⟩ := uniqueAmong_gives done
  exact ⟨.refl _, fun nodup => List.nodup_cons.2 ⟨unused, nodup⟩⟩

namespace SentCondition

variable {registry : Registry} {source rest : IdSource}

theorem drawSubSections_allots {rows : List Row} {taken left : List String}
    {subs : List SubSection}
    (done : (drawSubSections rows taken).exec source = (.ok (subs, left), rest)) :
    Allots taken (subs.map SubSection.id) left := by
  induction rows generalizing taken source rest subs with
  | nil =>
    rw [drawSubSections, Drawing.pure_eq_ok_iff] at done
    obtain ⟨rfl, rfl⟩ := Prod.mk.inj done.1
    exact .refl _
  | cons row others ih =>
    simp only [drawSubSections, Drawing.bind_eq_ok_iff, Drawing.pure_eq_ok_iff] at done
    obtain ⟨⟨id, _⟩, _, first, ⟨later, _⟩, _, second, same, _⟩ := done
    obtain ⟨rfl, rfl⟩ := Prod.mk.inj same
    exact (Drawing.uniqueAmong_allots first).trans (ih second)

theorem drawBlock_allots {rows : List Row} {taken left : List String} {block : Block}
    (done : (drawBlock rows taken).exec source = (.ok (block, left), rest)) :
    Allots taken block.partIds left := by
  simp only [drawBlock, Drawing.bind_eq_ok_iff, Drawing.pure_eq_ok_iff] at done
  obtain ⟨⟨subs, _⟩, _, first, ⟨id, _⟩, _, second, same, _⟩ := done
  obtain ⟨rfl, rfl⟩ := Prod.mk.inj same
  have drawn := (drawSubSections_allots first).trans (Drawing.uniqueAmong_allots second)
  exact drawn.fewer (List.perm_append_singleton ..).symm.subperm

-- A block that is dropped for want of rows keeps its ids taken.
theorem drawBlocks_allots {parts : List ConditionPart} {pending : Option Relation} {started : Bool}
    {taken left : List String} {bs : List Block} {relations : List Relation}
    (done : (drawBlocks registry parts pending started taken).exec source =
      (.ok (bs, relations, left), rest)) : Allots taken (bs.flatMap Block.partIds) left := by
  induction parts generalizing pending started taken source rest bs relations with
  | nil =>
    rw [drawBlocks, Drawing.pure_eq_ok_iff] at done
    obtain ⟨rfl, rfl, rfl⟩ := Prod.mk.inj done.1
    exact .refl _
  | cons part others ih =>
    cases part with
    | join r => exact ih done
    | block ts =>
      simp only [drawBlocks, Drawing.bind_eq_ok_iff] at done
      obtain ⟨⟨block, _⟩, _, first, done⟩ := done
      have drawn := drawBlock_allots first
      split at done
      next => exact (drawn.trans (ih done)).fewer (List.sublist_append_right ..).subperm
      next =>
        simp only [Drawing.bind_eq_ok_iff, Drawing.pure_eq_ok_iff] at done
        obtain ⟨⟨later, _, _⟩, _, second, same, _⟩ := done
        obtain ⟨rfl, rfl, rfl⟩ := Prod.mk.inj same
        exact drawn.trans (ih second)

theorem drawFirst_allots {taken : List String} {block : Block}
    (done : (drawFirst taken).exec source = (.ok block, rest)) :
    ∃ left, Allots taken block.partIds left := by
  simp only [drawFirst, Drawing.bind_eq_ok_iff, Drawing.pure_eq_ok_iff] at done
  obtain ⟨⟨id, _⟩, _, first, ⟨sub, left⟩, _, second, rfl, _⟩ := done
  exact ⟨left, (Drawing.uniqueAmong_allots first).trans (Drawing.uniqueAmong_allots second)⟩

theorem partIds_restore_nodup {c : SentCondition} {y : Condition}
    (done : (c.restore registry).exec source = (.ok y, rest)) : y.partIds.Nodup := by
  rw [restore, Drawing.bind_eq_ok_iff] at done
  obtain ⟨⟨bs, relations, _⟩, _, first, done⟩ := done
  have drawn := drawBlocks_allots first
  dsimp only at done
  split at done
  next nothing =>
    simp only [Drawing.bind_eq_ok_iff, Drawing.pure_eq_ok_iff] at done
    obtain ⟨_, _, ⟨block, _, second, rfl, _⟩, rfl, _⟩ := done
    obtain ⟨_, allots⟩ := drawFirst_allots second
    have ids := (drawn.trans allots).fewer (List.sublist_append_right ..).subperm
    rw [Condition.partIds_mirrored, Condition.partIds, List.flatMap_singleton]
    exact ids.unique
  next =>
    simp only [Drawing.bind_eq_ok_iff, Drawing.pure_eq_ok_iff] at done
    obtain ⟨_, _, ⟨rfl, _⟩, rfl, _⟩ := done
    rw [Condition.partIds_mirrored]
    exact drawn.unique

end SentCondition

namespace SentAction

variable {action : String} {source rest : IdSource}

theorem itemIds_restore_nodup {c : SentAction} {y : Action}
    (done : (c.restore action).exec source = (.ok y, rest)) : y.itemIds.Nodup := by
  have empty : (Action.empty c.description).itemIds.Subperm [] := .refl _
  obtain ⟨_, nodup, within⟩ := addItems_invariant
    (P := fun taken node => taken.Nodup ∧ node.itemIds.Subperm taken)
    (fun {taken _ node id _ _} body known drawn => by
      have allots := Drawing.uniqueAmong_allots drawn
      have grown := (List.subperm_append_left [id]).2 known.2
      have added := (node.itemIds_addItem_perm id body).subperm.trans grown
      exact ⟨allots.nodup known.1, added.trans allots.within⟩) ⟨List.nodup_nil, empty⟩ done
  exact nodup_of_subperm within nodup

end SentAction

/-- What is drawn when a strategy is loaded is drawn once: in each condition, in each action, and
over all declared elements. -/
structure Strategy.UniqueWithin (s : Strategy) : Prop where
  parts : ∀ c ∈ s.conditions.values, c.partIds.Nodup
  items : ∀ a ∈ s.actions.values, a.itemIds.Nodup
  elements : (s.dataPoints.map DataPoint.id ++ s.indicators.map Indicator.id).Nodup

namespace Payload

variable {p : Payload} {overrides : List (String × Capabilities)} {source rest : IdSource}
  {t : Strategy}

theorem drawIds_allots {α β : Type} {stem : String} {make : String → α → β} {as : List α}
    {taken left : List String} {made : List β}
    (done : (drawIds stem make as taken).exec source = (.ok (made, left), rest))
    (name : β → String) (named : ∀ id a, name (make id a) = id) :
    Allots taken (made.map name) left := by
  induction as generalizing taken source rest made with
  | nil =>
    rw [drawIds, Drawing.pure_eq_ok_iff] at done
    obtain ⟨rfl, rfl⟩ := Prod.mk.inj done.1
    exact .refl _
  | cons a others ih =>
    simp only [drawIds, Drawing.bind_eq_ok_iff, Drawing.pure_eq_ok_iff] at done
    obtain ⟨⟨id, _⟩, _, first, ⟨later, _⟩, _, second, same, _⟩ := done
    obtain ⟨rfl, rfl⟩ := Prod.mk.inj same
    rw [List.map_cons, named]
    exact (Drawing.uniqueAmong_allots first).trans (ih second)

theorem uniqueWithin_of_restore (done : (p.restore overrides).exec source = (.ok t, rest)) :
    t.UniqueWithin := by
  obtain ⟨conditions, actions⟩ := contents_of_restore done
  refine ⟨fun c member => ?_, fun a member => ?_, ?_⟩
  · obtain ⟨_, _, _, _, restored⟩ := conditions c member
    exact SentCondition.partIds_restore_nodup restored
  · obtain ⟨_, _, _, _, restored⟩ := actions a member
    exact SentAction.itemIds_restore_nodup restored
  · simp only [restore, Drawing.bind_eq_ok_iff, Drawing.pure_eq_ok_iff,
      Drawing.relabel_eq_ok_iff] at done
    obtain ⟨⟨_, _⟩, _, first, ⟨_, _⟩, _, second, _, _, _, _, _, _, rfl, _⟩ := done
    have data := drawIds_allots first DataPoint.id fun _ _ => rfl
    have indicators := drawIds_allots second Indicator.id fun _ _ => rfl
    exact (data.trans indicators).unique

end Payload

def Command.insertsNode : Command → Bool
  | .insertCondition _ | .insertAction _ => true
  | _ => false

namespace Editor

variable {e : Editor} {s : Strategy}

theorem uniqueIds_apply (e : Editor) (unique : s.UniqueIds) (command : Command)
    (source : IdSource) : (e.apply s command source).1.UniqueIds := by
  obtain ⟨parts, items⟩ := unique.refills (e.refills_apply s command source)
  exact ⟨parts, items⟩

theorem uniqueIds_session (e : Editor) (unique : s.UniqueIds) (commands : List Command)
    (source : IdSource) : (e.session s commands source).UniqueIds := by
  induction commands generalizing s source with
  | nil => exact unique
  | cons command rest ih => exact ih (e.uniqueIds_apply unique command source) _

theorem Begins.uniqueParts (begins : e.Begins s) : s.UniqueParts := by
  cases begins with
  | new name => exact Strategy.uniqueParts_initial name _
  | loaded done => exact (Payload.uniqueWithin_of_restore done).parts

theorem Reaches.uniqueParts {t : Strategy} (reaches : e.Reaches s t) (unique : s.UniqueParts) :
    t.UniqueParts := by
  induction reaches with
  | refl => exact unique
  | @command t _ command source ih => exact ih.refills (e.refills_apply t command source)
  | reload _ done => exact (Payload.uniqueWithin_of_restore done).parts

theorem fresh_of_inserted {command : Command} {t : Strategy} {id : String}
    {source rest : IdSource} (inserts : command.insertsNode = true)
    (done : e.apply s command source = (t, .applied (some id), rest)) :
    s.usesNodeId id = false := by
  have effect := perform_ok (apply_eq_applied_iff.1 done)
  cases command with
  | insertCondition after =>
    obtain ⟨_, _, ⟨_, _, none⟩ | ⟨_, made, _, free, _, _, same⟩⟩ := effect
    · contradiction
    · rwa [Option.some.inj same]
  | insertAction via =>
    obtain ⟨made, free, _, _, same⟩ := effect
    rwa [Option.some.inj same]
  | _ => contradiction

/-- Whatever is drawn, and however often a draw is tried again, no id is given out twice: not by
any run of commands, nor within what is loaded from any payload. -/
theorem ids_unique (e : Editor) :
    (∀ name commands source, (e.session (e.initial name) commands source).UniqueIds) ∧
      (∀ s command source, s.UniqueIds → (e.apply s command source).1.UniqueIds) ∧
      (∀ s command source t id rest, command.insertsNode = true →
        e.apply s command source = (t, .applied (some id), rest) →
        s.graph.contains id = false ∧ s.conditions.contains id = false ∧
          s.actions.contains id = false) ∧
      ∀ (p : Payload) overrides source t rest,
        (p.restore overrides).exec source = (.ok t, rest) → t.UniqueWithin := by
  refine ⟨fun name commands source => ?_, fun s command source unique => ?_,
    fun s command source t id rest inserts done => ?_, fun p overrides source t rest done => ?_⟩
  · exact e.uniqueIds_session (Strategy.uniqueIds_initial name _) commands source
  · exact e.uniqueIds_apply unique command source
  · exact Strategy.usesNodeId_eq_false_iff.1 (fresh_of_inserted inserts done)
  · exact Payload.uniqueWithin_of_restore done

-- Every number is drawn three times.
def stammering : IdSource := ⟨fun k => 7 + k / 3, 0⟩

theorem sketch_ids_unique :
    sketch.UniqueIds ∧
      (standard.apply sketch (.addSubSection "condition_00000000" "block_00000003")
        stammering).1.UniqueIds ∧
      (Command.insertAction none).insertsNode = true ∧
      (∃ t rest, standard.apply sketch (.insertAction none) stammering =
        (t, .applied (some "action_00000008"), rest)) ∧
      sketch.actions.contains "action_00000008" = false ∧
      ∃ t rest, (Payload.handMade.restore []).exec stammering = (.ok t, rest) ∧
        t.UniqueWithin := by
  obtain ⟨sessions, applied, inserted, loaded⟩ := standard.ids_unique
  have unique : sketch.UniqueIds := sessions _ _ _
  have outcome : (standard.apply sketch (.insertAction none) stammering).2.1 =
      .applied (some "action_00000008") := by decide +kernel
  have done : standard.apply sketch (.insertAction none) stammering =
      (_, .applied (some "action_00000008"), _) := Prod.ext rfl (Prod.ext outcome rfl)
  obtain ⟨_, _, fresh⟩ := inserted _ _ _ _ _ _ rfl done
  refine ⟨unique, applied _ _ _ unique, rfl, ⟨_, _, done⟩, fresh, ?_⟩
  have loads : ((Payload.handMade.restore []).exec stammering).1.toOption.isSome = true := by
    decide +kernel
  cases restored : (Payload.handMade.restore []).exec stammering with
  | mk result rest =>
    rw [restored] at loads
    cases result with
    | error reason => contradiction
    | ok t => exact ⟨t, rest, rfl, loaded _ _ _ t rest restored⟩

end Editor

end TradingStrategy
