import TradingStrategy.Proofs.ChainRefinement

set_option autoImplicit false

namespace TradingStrategy

namespace Keyed

variable {α : Type} {key : α → String}

structure Split (key : α → String) (id : String) (xs before : List α) (x : α) (after : List α) :
    Prop where
  whole : xs = before ++ x :: after
  named : key x = id
  first : ∀ other ∈ before, key other ≠ id

theorem findIdx?_eq_some_iff {id : String} {xs : List α} {i : Nat} :
    xs.findIdx? (fun x => key x == id) = some i ↔
      ∃ before x after, Split key id xs before x after ∧ before.length = i := by
  constructor
  · intro place
    obtain ⟨inside, named, first⟩ := List.findIdx?_eq_some_iff_getElem.1 place
    refine ⟨xs.take i, xs[i], xs.drop (i + 1), ⟨?_, by simpa using named, ?_⟩, ?_⟩
    · rw [← List.drop_eq_getElem_cons inside, List.take_append_drop]
    · intro other member
      obtain ⟨j, below, rfl⟩ := List.mem_take_iff_getElem.1 member
      simpa using first j (by omega)
    · rw [List.length_take, Nat.min_eq_left (Nat.le_of_lt inside)]
  · intro holds
    obtain ⟨before, x, after, ⟨rfl, named, first⟩, rfl⟩ := holds
    rw [List.findIdx?_append, List.findIdx?_eq_none_iff.2 (by simpa using first),
      List.findIdx?_cons, if_pos (by simpa using named), Option.none_or, Option.map_some,
      Nat.zero_add]

theorem exists_first {id : String} {xs : List α} (present : ∃ x ∈ xs, key x = id) :
    ∃ before x after, Split key id xs before x after := by
  cases place : xs.findIdx? (fun x => key x == id) with
  | none =>
    obtain ⟨x, member, named⟩ := present
    have other := List.findIdx?_eq_none_iff.1 place x member
    simp [named] at other
  | some i =>
    obtain ⟨before, x, after, split, _⟩ := findIdx?_eq_some_iff.1 place
    exact ⟨before, x, after, split⟩

theorem exists_split {xs : List α} {x : α} (nodup : (xs.map key).Nodup) (member : x ∈ xs) :
    ∃ before after, Split key (key x) xs before x after := by
  obtain ⟨before, after, rfl⟩ := List.append_of_mem member
  rw [List.map_append, List.map_cons] at nodup
  have apart := (List.nodup_append'.1 nodup).2.2
  refine ⟨before, after, rfl, rfl, fun other listed same => ?_⟩
  exact apart (List.mem_map_of_mem listed) (same ▸ List.mem_cons_self)

section Split

variable {id : String} {xs before after : List α} {x : α}

theorem Split.mem (split : Split key id xs before x after) : x ∈ xs := by
  rw [split.whole]
  exact List.mem_append_right _ List.mem_cons_self

theorem Split.others (split : Split key id xs before x after) (nodup : (xs.map key).Nodup) :
    ∀ other ∈ before ++ after, key other ≠ id := by
  rw [split.whole, List.map_append, List.map_cons, List.nodup_middle, split.named,
    ← List.map_append] at nodup
  intro other member same
  exact (List.nodup_cons.1 nodup).1 (same ▸ List.mem_map_of_mem member)

theorem Split.filter_ne (split : Split key id xs before x after) (nodup : (xs.map key).Nodup) :
    xs.filter (key · != id) = before ++ after := by
  have others : (before ++ after).filter (key · != id) = before ++ after := by
    rw [List.filter_eq_self]
    intro other member
    simpa using split.others nodup other member
  rw [split.whole, List.filter_append, List.filter_cons_of_neg (by simp [split.named]),
    ← List.filter_append, others]

theorem Split.map_ite (split : Split key id xs before x after) (nodup : (xs.map key).Nodup)
    (f : α → α) : (xs.map fun y => if key y = id then f y else y) = before ++ f x :: after := by
  have others := split.others nodup
  simp only [List.mem_append, or_imp, forall_and] at others
  have kept (part : List α) (apart : ∀ y ∈ part, key y ≠ id) :
      (part.map fun y => if key y = id then f y else y) = part := by
    refine (List.map_congr_left fun y member => ?_).trans (List.map_id _)
    exact if_neg (apart y member)
  rw [split.whole, List.map_append, List.map_cons, kept before others.1, kept after others.2,
    if_pos split.named]

end Split

theorem modify_split (before : List α) (x : α) (after : List α) (f : α → α) :
    (before ++ x :: after).modify before.length f = before ++ f x :: after := by
  induction before with
  | nil => rfl
  | cons other rest ih => exact congrArg (other :: ·) ih

theorem eraseIdx_split (before : List α) (x : α) (after : List α) :
    (before ++ x :: after).eraseIdx before.length = before ++ after := by
  rw [List.eraseIdx_append_of_length_le (Nat.le_refl _), Nat.sub_self]
  rfl

theorem getElem?_split (before : List α) (x : α) (after : List α) :
    (before ++ x :: after)[before.length]? = some x := by
  rw [List.getElem?_append_right (Nat.le_refl _), Nat.sub_self]
  rfl

end Keyed

open Keyed (Split)

theorem except_bind_eq_ok_iff {ε α β : Type} {x : Except ε α} {f : α → Except ε β} {b : β} :
    (x >>= f) = .ok b ↔ ∃ a, x = .ok a ∧ f a = .ok b := by
  cases x with
  | error reason =>
    constructor
    · intro done
      cases done
    · intro holds
      obtain ⟨_, made, _⟩ := holds
      cases made
  | ok a =>
    constructor
    · intro done
      exact ⟨a, rfl, done⟩
    · intro holds
      obtain ⟨_, made, done⟩ := holds
      cases made
      exact done

namespace Condition

variable {c d : Condition} {condition block : String}

theorem blockIndex_eq_ok_iff {i : Nat} :
    c.blockIndex condition block = .ok i ↔
      ∃ before b after, Split Block.id block c.blocks before b after ∧ before.length = i := by
  rw [← Keyed.findIdx?_eq_some_iff, blockIndex]
  split
  next j place => rw [place, Except.ok.injEq, Option.some.injEq]
  next missing => simp [missing]

theorem removeBlock_eq_ok_iff :
    c.removeBlock condition block = .ok d ↔
      ∃ before b after, Split Block.id block c.blocks before b after ∧
        (c.blockRelations = [] ∨ before.length - 1 < c.blockRelations.length) ∧
        d = mirrored { c with
          blocks := before ++ after
          blockRelations := c.blockRelations.eraseIdx (before.length - 1) } := by
  simp only [removeBlock, except_bind_eq_ok_iff, blockIndex_eq_ok_iff]
  constructor
  · intro holds
    obtain ⟨_, ⟨before, b, after, split, rfl⟩, done⟩ := holds
    refine ⟨before, b, after, split, ?_⟩
    rw [split.whole, Keyed.eraseIdx_split] at done
    split at done
    -- A node whose blocks are joined by nothing has no relation to lose.
    next none =>
      rw [List.isEmpty_iff] at none
      refine ⟨.inl none, ?_⟩
      rw [none, List.eraseIdx_nil, ← none]
      exact (Except.ok.inj done).symm
    next =>
      split at done
      next inside => exact ⟨.inr inside, (Except.ok.inj done).symm⟩
      next => contradiction
  · intro holds
    obtain ⟨before, b, after, split, inside, rfl⟩ := holds
    refine ⟨before.length, ⟨before, b, after, split, rfl⟩, ?_⟩
    rw [split.whole, Keyed.eraseIdx_split]
    split
    next none =>
      rw [List.isEmpty_iff] at none
      rw [none, List.eraseIdx_nil, ← none]
      rfl
    next some =>
      rw [List.isEmpty_iff] at some
      rw [if_pos (inside.resolve_left some)]
      rfl

def Rewrites (c d : Condition) (block : String) (b b' : Block) : Prop :=
  ∃ before after, Split Block.id block c.blocks before b after ∧
    d = { c with blocks := before ++ b' :: after }

theorem setBlockRelation_eq_ok_iff {index : Nat} {relation : Relation} :
    c.setBlockRelation condition index relation = .ok d ↔
      index < c.blockRelations.length ∧
        d = mirrored { c with blockRelations := c.blockRelations.set index relation } := by
  rw [setBlockRelation]
  split
  next inside => simp [inside, eq_comm]
  next outside => simp [outside]

theorem addSubSection_eq_ok_iff {s : SubSection} :
    c.addSubSection condition block s = .ok d ↔
      ∃ b, c.Rewrites d block b { b with subSections := b.subSections ++ [s] } := by
  simp only [addSubSection, except_bind_eq_ok_iff, blockIndex_eq_ok_iff]
  constructor
  · intro holds
    obtain ⟨_, ⟨before, b, after, split, rfl⟩, done⟩ := holds
    rw [split.whole, Keyed.modify_split] at done
    exact ⟨b, before, after, split, (Except.ok.inj done).symm⟩
  · intro holds
    obtain ⟨b, before, after, split, rfl⟩ := holds
    refine ⟨before.length, ⟨before, b, after, split, rfl⟩, ?_⟩
    rw [split.whole, Keyed.modify_split]
    rfl

theorem updateSubSection_ok {s : SubSection}
    (done : c.updateSubSection condition block s = .ok d) :
    ∃ b earlier old later, Split SubSection.id s.id b.subSections earlier old later ∧
      c.Rewrites d block b { b with subSections := earlier ++ s :: later } := by
  simp only [updateSubSection, except_bind_eq_ok_iff, blockIndex_eq_ok_iff] at done
  obtain ⟨_, ⟨before, b, after, split, rfl⟩, done⟩ := done
  rw [split.whole, Keyed.getElem?_split, Option.map_some, Option.getD_some] at done
  split at done
  next k place =>
    obtain ⟨earlier, old, later, within, rfl⟩ := Keyed.findIdx?_eq_some_iff.1 place
    refine ⟨b, earlier, old, later, within, before, after, split, ?_⟩
    rw [Keyed.modify_split, within.whole, List.set_append_right _ _ (Nat.le_refl _),
      Nat.sub_self] at done
    exact (Except.ok.inj done).symm
  next => contradiction

theorem removeSubSection_eq_ok_iff {sub : String} :
    c.removeSubSection condition block sub = .ok d ↔
      ∃ b, (∃ s ∈ b.subSections, s.id = sub) ∧
        c.Rewrites d block b { b with subSections := b.subSections.filter (·.id != sub) } := by
  simp only [removeSubSection, except_bind_eq_ok_iff, blockIndex_eq_ok_iff]
  constructor
  · intro holds
    obtain ⟨_, ⟨before, b, after, split, rfl⟩, done⟩ := holds
    rw [split.whole, Keyed.getElem?_split, Option.map_some, Option.getD_some,
      Keyed.modify_split] at done
    split at done
    next present =>
      refine ⟨b, by simpa using present, before, after, split, (Except.ok.inj done).symm⟩
    next => contradiction
  · intro holds
    obtain ⟨b, present, before, after, split, rfl⟩ := holds
    refine ⟨before.length, ⟨before, b, after, split, rfl⟩, ?_⟩
    rw [split.whole, Keyed.getElem?_split, Option.map_some, Option.getD_some,
      Keyed.modify_split, if_pos (by simpa using present)]
    rfl

end Condition

namespace Action

variable {a b : Action} {action item : String}

theorem itemIndex_eq_ok_iff {i : Nat} :
    a.itemIndex action item = .ok i ↔
      ∃ before x after, Split Item.id item a.items before x after ∧ before.length = i := by
  rw [← Keyed.findIdx?_eq_some_iff, itemIndex]
  split
  next j place => rw [place, Except.ok.injEq, Option.some.injEq]
  next missing => simp [missing]

theorem removeItem_eq_ok_iff :
    a.removeItem action item = .ok b ↔
      ∃ before x after, Split Item.id item a.items before x after ∧
        b = renumber { a with items := before ++ after } := by
  simp only [removeItem, except_bind_eq_ok_iff, itemIndex_eq_ok_iff]
  constructor
  · intro holds
    obtain ⟨_, ⟨before, x, after, split, rfl⟩, done⟩ := holds
    rw [split.whole, Keyed.eraseIdx_split] at done
    exact ⟨before, x, after, split, (Except.ok.inj done).symm⟩
  · intro holds
    obtain ⟨before, x, after, split, rfl⟩ := holds
    refine ⟨before.length, ⟨before, x, after, split, rfl⟩, ?_⟩
    rw [split.whole, Keyed.eraseIdx_split]
    rfl

theorem updateItem_eq_ok_iff {body : ItemContent} :
    a.updateItem action item body = .ok b ↔
      ∃ before x after, Split Item.id item a.items before x after ∧
        b = { a with items := before ++ { x with body } :: after } := by
  simp only [updateItem, except_bind_eq_ok_iff, itemIndex_eq_ok_iff]
  constructor
  · intro holds
    obtain ⟨_, ⟨before, x, after, split, rfl⟩, done⟩ := holds
    rw [split.whole, Keyed.modify_split] at done
    exact ⟨before, x, after, split, (Except.ok.inj done).symm⟩
  · intro holds
    obtain ⟨before, x, after, split, rfl⟩ := holds
    refine ⟨before.length, ⟨before, x, after, split, rfl⟩, ?_⟩
    rw [split.whole, Keyed.modify_split]
    rfl

theorem mem_sorted {items : List Item} {x : Item} : x ∈ Item.sorted items ↔ x ∈ items :=
  List.mem_mergeSort

-- An item is found where it is stored exactly if it is found among the sorted ones.
theorem exists_itemIndex_iff :
    (∃ i, a.itemIndex action item = .ok i) ↔
      ∃ before x after, Split Item.id item (Item.sorted a.items) before x after := by
  simp only [itemIndex_eq_ok_iff]
  constructor
  · intro holds
    obtain ⟨_, before, x, after, split, _⟩ := holds
    exact Keyed.exists_first ⟨x, mem_sorted.2 split.mem, split.named⟩
  · intro holds
    obtain ⟨_, x, _, split⟩ := holds
    obtain ⟨before, x, after, split⟩ :=
      Keyed.exists_first ⟨x, mem_sorted.1 split.mem, split.named⟩
    exact ⟨before.length, before, x, after, split, rfl⟩

theorem moveItem_eq_ok_iff {place : Nat} :
    a.moveItem action item place = .ok b ↔
      ∃ before x after, Split Item.id item (Item.sorted a.items) before x after ∧
        b = { a with
          items := Item.numbered
            ((before ++ after).insertIdx (min place (before ++ after).length) x) } := by
  have moves {i : Nat} {before after : List Item} {x : Item}
      (stored : a.itemIndex action item = .ok i)
      (split : Split Item.id item (Item.sorted a.items) before x after) :
      a.moveItem action item place = .ok { a with
        items := Item.numbered
          ((before ++ after).insertIdx (min place (before ++ after).length) x) } := by
    -- The list of stored items only tells whether there is one.
    have found : (Item.sorted a.items).find? (·.id == item) = some x := by
      rw [split.whole, List.find?_append, List.find?_eq_none.2 (by simpa using split.first)]
      simp [split.named]
    have index := Keyed.findIdx?_eq_some_iff.2 ⟨before, x, after, split, rfl⟩
    simp only [moveItem, stored, found, (List.findIdx?_eq_some_iff_findIdx_eq.1 index).2]
    rw [split.whole, Keyed.eraseIdx_split]
    rfl
  constructor
  · intro done
    have checked := done
    simp only [moveItem, except_bind_eq_ok_iff] at checked
    obtain ⟨i, stored, _⟩ := checked
    obtain ⟨before, x, after, split⟩ := exists_itemIndex_iff.1 ⟨i, stored⟩
    rw [moves stored split] at done
    exact ⟨before, x, after, split, (Except.ok.inj done).symm⟩
  · intro holds
    obtain ⟨before, x, after, split, rfl⟩ := holds
    obtain ⟨i, stored⟩ := exists_itemIndex_iff.2 ⟨before, x, after, split⟩
    exact moves stored split

end Action

namespace Strategy

/-- What one command can make of a condition; parts that it adds have ids that no part has. -/
inductive RevisesCondition (s : Strategy) (c : Condition) : Condition → Prop
  | addBlock {block sub : String} (relation : Relation) (fresh : s.usesPartId block = false)
    (freshSub : s.usesPartId sub = false) (name : IdSource.Drawn "block" block)
    (nameSub : IdSource.Drawn "sub" sub) :
    RevisesCondition s c (c.addBlock (.ofFirst block (.blank sub)) relation)
  | removeBlock {condition block : String} {d : Condition}
    (done : c.removeBlock condition block = .ok d) : RevisesCondition s c d
  | setBlockRelation {condition : String} {index : Nat} {relation : Relation} {d : Condition}
    (done : c.setBlockRelation condition index relation = .ok d) : RevisesCondition s c d
  | addSubSection {condition block sub : String} {d : Condition}
    (fresh : s.usesPartId sub = false)
    (done : c.addSubSection condition block (.blank sub) = .ok d) : RevisesCondition s c d
  | updateSubSection {condition block : String} {subSection : SubSection} {d : Condition}
    (done : c.updateSubSection condition block subSection = .ok d) : RevisesCondition s c d
  | removeSubSection {condition block sub : String} {d : Condition}
    (done : c.removeSubSection condition block sub = .ok d) : RevisesCondition s c d
  | setHeader (header : ConditionHeader) : RevisesCondition s c (c.setHeader header)

inductive RevisesAction (s : Strategy) (source : IdSource) (a : Action) : Action → Prop
  | addItem {id : String} (body : ItemContent) (fresh : s.usesItemId id = false)
    (gives : source.Gives "item" id) : RevisesAction s source a (a.addItem id body)
  | updateItem {action item : String} {body : ItemContent} {b : Action}
    (done : a.updateItem action item body = .ok b) : RevisesAction s source a b
  | removeItem {action item : String} {b : Action} (done : a.removeItem action item = .ok b) :
    RevisesAction s source a b
  | moveItem {action item : String} {place : Nat} {b : Action}
    (done : a.moveItem action item place = .ok b) : RevisesAction s source a b

inductive Refills (s : Strategy) (source : IdSource) : Dict Condition → Dict Action → Prop
  | fewer {conditions : Dict Condition} {actions : Dict Action}
    (left : conditions.values.Sublist s.conditions.values)
    (leftActions : actions.values.Sublist s.actions.values) : Refills s source conditions actions
  | newCondition {id block sub : String} (name : String)
    (free : s.conditions.contains id = false)
    (fresh : s.usesPartId block = false) (freshSub : s.usesPartId sub = false)
    (drawn : IdSource.Drawn "block" block) (drawnSub : IdSource.Drawn "sub" sub) :
    Refills s source (s.conditions.insert id (.ofFirst name (.ofFirst block (.blank sub))))
      s.actions
  | newAction {id : String} (name : String) (free : s.actions.contains id = false) :
    Refills s source s.conditions (s.actions.insert id (.empty name))
  | condition {id : String} {old new : Condition} (held : s.conditions.get? id = some old)
    (revised : s.RevisesCondition old new) : Refills s source (s.conditions.insert id new) s.actions
  | action {id : String} {old new : Action} (held : s.actions.get? id = some old)
    (revised : s.RevisesAction source old new) :
    Refills s source s.conditions (s.actions.insert id new)

variable {s t : Strategy}

theorem values_deleteNode (s : Strategy) (id : String) :
    (s.deleteNode id).conditions.values.Sublist s.conditions.values ∧
      (s.deleteNode id).actions.values.Sublist s.actions.values := by
  rw [deleteNode]
  split
  next => exact ⟨.refl _, .refl _⟩
  next n found =>
    split
    next => exact ⟨.refl _, List.filter_sublist.map _⟩
    next => exact ⟨List.filter_sublist.map _, .refl _⟩
    next => exact ⟨.refl _, .refl _⟩

theorem values_foldl_deleteNode (s : Strategy) (ids : List String) :
    (ids.foldl deleteNode s).conditions.values.Sublist s.conditions.values ∧
      (ids.foldl deleteNode s).actions.values.Sublist s.actions.values := by
  induction ids generalizing s with
  | nil => exact ⟨.refl _, .refl _⟩
  | cons id rest ih =>
    obtain ⟨conditions, actions⟩ := ih (s.deleteNode id)
    exact ⟨conditions.trans (s.values_deleteNode id).1, actions.trans (s.values_deleteNode id).2⟩

theorem Refills.refl (s : Strategy) (source : IdSource) :
    s.Refills source s.conditions s.actions := .fewer (.refl _) (.refl _)

end Strategy

namespace Editor

open Strategy (Refills RevisesCondition RevisesAction)

variable {e : Editor} {s t : Strategy} {source rest : IdSource} {created : Option String}

theorem newBlock_ok {block : Block} (done : (e.newBlock s).exec source = (.ok block, rest)) :
    ∃ id sub, block = .ofFirst id (.blank sub) ∧ s.usesPartId id = false ∧
      s.usesPartId sub = false ∧ IdSource.Drawn "block" id ∧ IdSource.Drawn "sub" sub := by
  obtain ⟨id, _, sub, first, second, rfl⟩ := newBlock_eq_ok_iff.1 done
  obtain ⟨fresh, name⟩ := Drawing.unique_ok first
  obtain ⟨freshSub, nameSub⟩ := Drawing.unique_ok second
  exact ⟨id, sub, rfl, fresh, freshSub, name.drawn, nameSub.drawn⟩

theorem newBlock_cases (e : Editor) (s : Strategy) (source : IdSource) :
    (∃ id sub rest, (e.newBlock s).exec source = (.ok (.ofFirst id (.blank sub)), rest)) ∨
      ∃ stem rest, (e.newBlock s).exec source =
        (.error (.idCollision stem e.attempts), rest) := by
  simp only [newBlock, partId, Drawing.exec_bind]
  rcases Drawing.unique_cases "block" e.attempts s.usesPartId source with
    ⟨id, middle, drawn⟩ | ⟨rest, failed⟩
  · rw [drawn]
    rcases Drawing.unique_cases "sub" e.attempts s.usesPartId middle with
      ⟨sub, rest, drawnSub⟩ | ⟨rest, failed⟩
    · dsimp only
      rw [drawnSub]
      exact .inl ⟨id, sub, rest, rfl⟩
    · dsimp only
      rw [failed]
      exact .inr ⟨_, _, rfl⟩
  · rw [failed]
    exact .inr ⟨_, _, rfl⟩

theorem refills_of_editCondition {id : String} {edit : Condition → Except EditError Condition}
    (done : editCondition s id edit = .ok t)
    (revises : ∀ old new, edit old = .ok new → s.RevisesCondition old new) :
    s.Refills source t.conditions t.actions := by
  obtain ⟨old, new, held, made, rfl⟩ := editCondition_eq_ok_iff.1 done
  exact .condition held (revises old new made)

theorem refills_of_editAction {id : String} {edit : Action → Except EditError Action}
    (done : editAction s id edit = .ok t)
    (revises : ∀ old new, edit old = .ok new → s.RevisesAction source old new) :
    s.Refills source t.conditions t.actions := by
  obtain ⟨old, new, held, made, rfl⟩ := editAction_eq_ok_iff.1 done
  exact .action held (revises old new made)

-- Edits of the graph keep contents or drop some; edits of contents put one entry back.
theorem refills_of_perform {command : Command}
    (done : (e.perform s command).exec source = (.ok (t, created), rest)) :
    s.Refills source t.conditions t.actions := by
  cases command with
  | insertCondition =>
    rw [perform, Drawing.relabel_eq_ok_iff, insertCondition_eq_ok_iff] at done
    obtain ⟨tail, _, ⟨_, rfl, _⟩ | ⟨_, id, _, block, drawn, made, rfl, _⟩⟩ := done
    · exact .refl _ _
    · obtain ⟨_, _, rfl, fresh, freshSub, name, nameSub⟩ := newBlock_ok made
      have free := (Strategy.usesNodeId_eq_false_iff.1 (Drawing.unique_ok drawn).1).2.1
      exact .newCondition _ free fresh freshSub name nameSub
  | insertAction =>
    obtain ⟨id, free, _, rfl, _⟩ := perform_ok done
    exact .newAction _ (Strategy.usesNodeId_eq_false_iff.1 free).2.2
  | connect =>
    rw [(Strategy.connect_ok (perform_ok done)).2.2.2]
    exact .refl _ _
  | disconnect =>
    rcases Strategy.disconnect_ok (perform_ok done) with ⟨_, rfl⟩ | ⟨_, _, _, _, _, rfl⟩
    · exact .refl _ _
    · exact .refl _ _
  | deleteNodes ids =>
    rw [(Strategy.deleteNodes_ok (perform_ok done)).2]
    obtain ⟨conditions, actions⟩ := s.values_foldl_deleteNode ids
    exact .fewer conditions actions
  | swapConditions =>
    obtain ⟨_, _, _, _, _, _, _, rfl⟩ := Strategy.swapConditions_eq_ok_iff.1 (perform_ok done)
    exact .refl _ _
  | moveNode id position =>
    obtain rfl : t = s.moveNode id position := perform_ok done
    rw [Strategy.moveNode]
    split
    next => exact .refl _ _
    next => exact .refl _ _
  | addBlock =>
    obtain ⟨block, drawn, edited, _⟩ := settled_after_ok done
    obtain ⟨_, _, rfl, fresh, freshSub, name, nameSub⟩ :=
      newBlock_ok (Drawing.relabel_eq_ok_iff.1 drawn)
    refine refills_of_editCondition edited fun old new made => ?_
    rw [← Except.ok.inj made]
    exact .addBlock _ fresh freshSub name nameSub
  | removeBlock =>
    exact refills_of_editCondition (settled_eq_ok_iff.1 done).1 fun _ _ made => .removeBlock made
  | setBlockRelation =>
    exact refills_of_editCondition (settled_eq_ok_iff.1 done).1
      fun _ _ made => .setBlockRelation made
  | addSubSection =>
    obtain ⟨sub, drawn, edited, _⟩ := settled_after_ok done
    have fresh := (Drawing.unique_ok (Drawing.relabel_eq_ok_iff.1 drawn)).1
    exact refills_of_editCondition edited fun _ _ made => .addSubSection fresh made
  | updateSubSection =>
    exact refills_of_editCondition (settled_eq_ok_iff.1 done).1
      fun _ _ made => .updateSubSection made
  | removeSubSection =>
    exact refills_of_editCondition (settled_eq_ok_iff.1 done).1
      fun _ _ made => .removeSubSection made
  | updateConditionMeta =>
    refine refills_of_editCondition (settled_eq_ok_iff.1 done).1 fun old new made => ?_
    rw [← Except.ok.inj made]
    exact .setHeader _
  | addItem =>
    obtain ⟨id, drawn, edited, _⟩ := settled_after_ok done
    obtain ⟨fresh, gives⟩ := Drawing.unique_ok (Drawing.relabel_eq_ok_iff.1 drawn)
    refine refills_of_editAction edited fun old new made => ?_
    rw [← Except.ok.inj made]
    exact .addItem _ fresh gives
  | updateItem =>
    exact refills_of_editAction (settled_eq_ok_iff.1 done).1 fun _ _ made => .updateItem made
  | removeItem =>
    exact refills_of_editAction (settled_eq_ok_iff.1 done).1 fun _ _ made => .removeItem made
  | moveItem =>
    exact refills_of_editAction (settled_eq_ok_iff.1 done).1 fun _ _ made => .moveItem made

theorem refills_apply (e : Editor) (s : Strategy) (command : Command) (source : IdSource) :
    s.Refills source (e.apply s command source).1.conditions
      (e.apply s command source).1.actions := by
  rw [apply]
  split
  next done => exact refills_of_perform done
  next => exact .refl s source
  next => exact .refl s source

end Editor

end TradingStrategy
