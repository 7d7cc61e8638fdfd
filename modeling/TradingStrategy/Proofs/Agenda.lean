import TradingStrategy.Proofs.UniqueIds

set_option autoImplicit false

namespace TradingStrategy

open Keyed (Split)

def Item.entry (item : Item) : String × ItemContent := (item.id, item.body)

-- Sorting is stable, so the items that stay keep their order.
theorem Item.sorted_filter (keep : Item → Bool) (items : List Item) :
    sorted (items.filter keep) = (sorted items).filter keep := by
  refine (StableSort.filter_mergeSort ?_ ?_ keep items).symm
  · intro x y z first second
    exact decide_eq_true (UInt32.le_trans (of_decide_eq_true first) (of_decide_eq_true second))
  · intro x y
    simpa using UInt32.le_total x.order y.order

theorem Editor.apply_of_settled_error {e : Editor} {s : Strategy} {source : IdSource}
    {command : Command} {r : Except EditError Strategy} {reason : Refusal}
    (settles : e.perform s command = settled r) (failed : r = .error (.refused reason)) :
    e.apply s command source = (s, .refused reason, source) := by
  rw [apply, settles, failed]
  rfl

namespace Action

variable {a b : Action} {node item : String}

def agenda (a : Action) : List (String × ItemContent) := (Item.sorted a.items).map Item.entry

/-- The action of the same name with these entries, stored in execution order and numbered from
0. -/
structure Arranged (a b : Action) (entries : List (String × ItemContent)) : Prop where
  name : b.name = a.name
  agenda : b.agenda = entries
  stored : b.items.map Item.entry = entries
  inOrder : Item.InOrder b.items

theorem arranged_of_inOrder {items : List Item} (inOrder : Item.InOrder items)
    (few : items.length ≤ UInt32.size) (a : Action) :
    a.Arranged { a with items } (items.map Item.entry) := by
  refine ⟨rfl, ?_, rfl, inOrder⟩
  show (Item.sorted items).map Item.entry = _
  rw [inOrder.sorted few]

theorem arranged_numbered {items : List Item} (few : items.length ≤ UInt32.size) (a : Action) :
    a.Arranged { a with items := Item.numbered items } (items.map Item.entry) := by
  have size : (Item.numbered items).length ≤ UInt32.size := by
    rw [Item.length_numbered]
    exact few
  have arranged := arranged_of_inOrder (Item.inOrder_numbered items) size a
  rwa [Item.map_numbered Item.entry fun _ _ => rfl] at arranged

theorem arranged_renumber (few : a.items.length ≤ UInt32.size) : a.Arranged a.renumber a.agenda :=
  arranged_numbered (Item.length_sorted a.items ▸ few) a

theorem arranged_addItem (few : a.items.length < UInt32.size) (id : String) (body : ItemContent) :
    a.Arranged (a.addItem id body) (a.agenda ++ [(id, body)]) := by
  have size : a.renumber.items.length = a.items.length := by
    rw [renumber, Item.length_numbered, Item.length_sorted]
  have grown : (a.addItem id body).items.length ≤ UInt32.size := by
    rw [addItem, List.length_append, size]
    exact few
  have arranged := arranged_of_inOrder (inOrder_addItem a id body) grown a
  have entries : (a.addItem id body).items.map Item.entry = a.agenda ++ [(id, body)] := by
    rw [addItem, List.map_append, (arranged_renumber (Nat.le_of_lt few)).stored]
    rfl
  rwa [entries] at arranged

def without (item : String) (entries : List (String × ItemContent)) : List (String × ItemContent) :=
  entries.filter (·.1 != item)

theorem entries_filter (items : List Item) (item : String) :
    (items.filter (·.id != item)).map Item.entry = without item (items.map Item.entry) := by
  rw [without, List.filter_map]
  rfl

theorem sorted_ids_nodup (distinct : a.itemIds.Nodup) :
    ((Item.sorted a.items).map Item.id).Nodup :=
  ((List.mergeSort_perm ..).map Item.id).nodup_iff.2 distinct

theorem arranged_removeItem (distinct : a.itemIds.Nodup) (few : a.items.length ≤ UInt32.size)
    (done : a.removeItem node item = .ok b) : a.Arranged b (without item a.agenda) := by
  obtain ⟨before, x, after, split, rfl⟩ := removeItem_eq_ok_iff.1 done
  rw [← split.filter_ne distinct]
  have fewer : (Item.sorted (a.items.filter (·.id != item))).length ≤ UInt32.size := by
    rw [Item.length_sorted]
    exact (List.length_filter_le ..).trans few
  have entries : (Item.sorted (a.items.filter (·.id != item))).map Item.entry =
      without item a.agenda := by
    rw [Item.sorted_filter, entries_filter, agenda]
  have arranged := arranged_numbered fewer a
  rw [entries] at arranged
  exact arranged

theorem arranged_moveItem (distinct : a.itemIds.Nodup) (few : a.items.length ≤ UInt32.size)
    {body : ItemContent} (listed : (item, body) ∈ a.agenda) {place : Nat}
    (done : a.moveItem node item place = .ok b) :
    a.Arranged b
      ((without item a.agenda).insertIdx (min place (a.agenda.length - 1)) (item, body)) := by
  obtain ⟨before, x, after, split, rfl⟩ := moveItem_eq_ok_iff.1 done
  have nodup := sorted_ids_nodup distinct
  have entry : x.entry = (item, body) := by
    obtain ⟨y, member, same⟩ := List.mem_map.1 listed
    have ids : x.id = y.id := split.named.trans (congrArg Prod.fst same).symm
    rw [List.inj_on_of_nodup_map nodup split.mem member ids, same]
  have length : a.agenda.length = (before ++ after).length + 1 := by
    rw [agenda, List.length_map, split.whole]
    simp only [List.length_append, List.length_cons]
    omega
  have others : (before ++ after).map Item.entry = without item a.agenda := by
    rw [← split.filter_ne nodup, entries_filter, agenda]
  have size : ((before ++ after).insertIdx (min place (before ++ after).length) x).length ≤
      UInt32.size := by
    rw [List.length_insertIdx_of_le_length (Nat.min_le_right ..), ← length, agenda,
      List.length_map, Item.length_sorted]
    exact few
  have last : (before ++ after).length = a.agenda.length - 1 := by omega
  have arranged := arranged_numbered size a
  rw [List.map_insertIdx, others, entry] at arranged
  rwa [last] at arranged ⊢

def rewritten (item : String) (body : ItemContent) (entries : List (String × ItemContent)) :
    List (String × ItemContent) :=
  entries.map fun entry => if entry.1 = item then (item, body) else entry

theorem updateItem_eq (distinct : a.itemIds.Nodup) {body : ItemContent}
    (done : a.updateItem node item body = .ok b) :
    b = { a with items := a.items.map fun x => if x.id = item then { x with body } else x } := by
  obtain ⟨before, x, after, split, rfl⟩ := updateItem_eq_ok_iff.1 done
  rw [split.map_ite distinct]

theorem agenda_updateItem (distinct : a.itemIds.Nodup) {body : ItemContent}
    (done : a.updateItem node item body = .ok b) : b.agenda = rewritten item body a.agenda := by
  rw [updateItem_eq distinct done, agenda, agenda, rewritten, Item.sorted, Item.sorted,
    ← List.map_mergeSort, List.map_map, List.map_map]
  · refine List.map_congr_left fun x _ => ?_
    by_cases named : x.id = item <;> simp [named, Item.entry]
  · intro x _ y _
    split <;> split <;> rfl

theorem exists_item_of_entry {entry : String × ItemContent} (listed : entry ∈ a.agenda) :
    ∃ x ∈ a.items, x.id = entry.1 := by
  obtain ⟨x, member, rfl⟩ := List.mem_map.1 listed
  exact ⟨x, mem_sorted.1 member, rfl⟩

theorem itemIndex_eq_error (unknown : item ∉ a.agenda.map Prod.fst) (node : String) :
    a.itemIndex node item = .error (.refused (.itemNotFound node item)) := by
  have other : ∀ x ∈ a.items, x.id ≠ item := by
    intro x member named
    have listed : x.entry ∈ a.agenda := List.mem_map_of_mem (mem_sorted.2 member)
    exact unknown (named ▸ List.mem_map_of_mem (f := Prod.fst) listed)
  rw [itemIndex, List.findIdx?_eq_none_iff.2 (by simpa using other)]

theorem edits_of_unknown (unknown : item ∉ a.agenda.map Prod.fst) (node : String) (place : Nat)
    (body : ItemContent) :
    a.removeItem node item = .error (.refused (.itemNotFound node item)) ∧
    a.moveItem node item place = .error (.refused (.itemNotFound node item)) ∧
    a.updateItem node item body = .error (.refused (.itemNotFound node item)) := by
  rw [removeItem, moveItem, updateItem, itemIndex_eq_error unknown]
  exact ⟨rfl, rfl, rfl⟩

theorem compile_eq (a : Action) :
    a.compile = ⟨a.name, a.agenda.map fun entry => Call.ofBody entry.2⟩ := by
  rw [compile, agenda, List.map_map]
  rfl

theorem apply_of_unknown {e : Editor} {s : Strategy} {source : IdSource}
    (held : s.actions.get? node = some a) (unknown : item ∉ a.agenda.map Prod.fst)
    {body : ItemContent} {place : Nat} {command : Command}
    (edits : command ∈
      [.removeItem node item, .moveItem node item place, .updateItem node item body]) :
    e.apply s command source = (s, .refused (.itemNotFound node item), source) := by
  obtain ⟨removes, moves, updates⟩ := edits_of_unknown unknown node place body
  have fails {edit : Action → Except EditError Action}
      (failed : edit a = .error (.refused (.itemNotFound node item))) :
      Editor.editAction s node edit = .error (.refused (.itemNotFound node item)) := by
    simp only [Editor.editAction, held, failed]
    rfl
  simp only [List.mem_cons, List.not_mem_nil, or_false] at edits
  rcases edits with rfl | rfl | rfl
  · exact Editor.apply_of_settled_error rfl (fails removes)
  · exact Editor.apply_of_settled_error rfl (fails moves)
  · exact Editor.apply_of_settled_error rfl (fails updates)

/-- Whatever numbers the items have and however they are stored, the edits of an action are those
of a list: its agenda, which is also what the action is sent as. -/
theorem agenda_edits (a : Action) (node : String) (distinct : a.itemIds.Nodup)
    (few : a.items.length < UInt32.size) :
    (∀ id body, a.Arranged (a.addItem id body) (a.agenda ++ [(id, body)])) ∧
    a.Arranged a.renumber a.agenda ∧
    (∀ entry ∈ a.agenda,
      (∃ b, a.removeItem node entry.1 = .ok b ∧ a.Arranged b (without entry.1 a.agenda)) ∧
      (∀ place, ∃ b, a.moveItem node entry.1 place = .ok b ∧
        a.Arranged b
          ((without entry.1 a.agenda).insertIdx (min place (a.agenda.length - 1)) entry)) ∧
      ∀ body, ∃ b, a.updateItem node entry.1 body = .ok b ∧
        b = { a with items := a.items.map fun x => if x.id = entry.1 then { x with body } else x } ∧
        b.agenda = rewritten entry.1 body a.agenda) ∧
    (∀ item, item ∉ a.agenda.map Prod.fst → ∀ place body,
      (a.removeItem node item = .error (.refused (.itemNotFound node item)) ∧
        a.moveItem node item place = .error (.refused (.itemNotFound node item)) ∧
        a.updateItem node item body = .error (.refused (.itemNotFound node item))) ∧
      ∀ (e : Editor) (s : Strategy) (source : IdSource), s.actions.get? node = some a →
        ∀ command ∈ [.removeItem node item, .moveItem node item place, .updateItem node item body],
          e.apply s command source = (s, .refused (.itemNotFound node item), source)) ∧
    a.compile = ⟨a.name, a.agenda.map fun entry => Call.ofBody entry.2⟩ ∧
    a.renumber.compile = a.compile := by
  have size := Nat.le_of_lt few
  refine ⟨arranged_addItem few, arranged_renumber size, ?known, ?unknown, compile_eq a, ?sent⟩
  case known =>
    intro entry listed
    have present := exists_item_of_entry listed
    obtain ⟨before, x, after, split⟩ := Keyed.exists_first present
    refine ⟨?_, fun place => ?_, fun body => ?_⟩
    · have done : ∃ b, a.removeItem node entry.1 = .ok b :=
        ⟨_, removeItem_eq_ok_iff.2 ⟨before, x, after, split, rfl⟩⟩
      exact done.imp fun b done => ⟨done, arranged_removeItem distinct size done⟩
    · -- A move looks the item up twice: where it is stored, and in execution order.
      obtain ⟨y, member, named⟩ := present
      obtain ⟨_, _, _, split⟩ := Keyed.exists_first ⟨y, mem_sorted.2 member, named⟩
      have done : ∃ b, a.moveItem node entry.1 place = .ok b :=
        ⟨_, moveItem_eq_ok_iff.2 ⟨_, _, _, split, rfl⟩⟩
      exact done.imp fun b done => ⟨done, arranged_moveItem distinct size listed done⟩
    · have done : ∃ b, a.updateItem node entry.1 body = .ok b :=
        ⟨_, updateItem_eq_ok_iff.2 ⟨before, x, after, split, rfl⟩⟩
      exact done.imp fun b done =>
        ⟨done, updateItem_eq distinct done, agenda_updateItem distinct done⟩
  case unknown =>
    intro item unknown place body
    exact ⟨edits_of_unknown unknown node place body,
      fun _ _ _ held _ edits => apply_of_unknown held unknown edits⟩
  case sent =>
    rw [compile_eq, compile_eq, (arranged_renumber size).agenda]
    rfl

-- A gap in the numbers, two of one number, and neither stored in order.
def scattered : Action :=
  ⟨"Exit", [⟨"late", 9, .action .squareOffAll⟩, ⟨"early", 2, .action .stopWaitTriggers⟩,
    ⟨"last", 9, .position (.standard "hedge")⟩]⟩

theorem agenda_scattered :
    scattered.agenda = [("early", .action .stopWaitTriggers), ("late", .action .squareOffAll),
      ("last", .position (.standard "hedge"))] := by
  simp [agenda, scattered, Item.sorted, List.mergeSort, Item.entry]

theorem scattered_edits :
    scattered.itemIds.Nodup ∧ scattered.items.length < UInt32.size ∧
    (∃ b, scattered.moveItem "exit" "early" 1 = .ok b ∧
      b.agenda = [("late", .action .squareOffAll), ("early", .action .stopWaitTriggers),
        ("last", .position (.standard "hedge"))]) ∧
    (∃ b, scattered.moveItem "exit" "late" 8 = .ok b ∧
      b.agenda = [("early", .action .stopWaitTriggers), ("last", .position (.standard "hedge")),
        ("late", .action .squareOffAll)]) ∧
    scattered.removeItem "exit" "gone" = .error (.refused (.itemNotFound "exit" "gone")) := by
  have distinct : scattered.itemIds.Nodup := by decide
  have few : scattered.items.length < UInt32.size := by decide
  obtain ⟨_, _, known, unknown, _⟩ := agenda_edits scattered "exit" distinct few
  rw [agenda_scattered] at known unknown
  obtain ⟨_, moveEarly, _⟩ := known ("early", .action .stopWaitTriggers) (by decide)
  obtain ⟨_, moveLate, _⟩ := known ("late", .action .squareOffAll) (by decide)
  obtain ⟨b, moved, arranged⟩ := moveEarly 1
  obtain ⟨c, movedLate, arrangedLate⟩ := moveLate 8
  exact ⟨distinct, few, ⟨b, moved, arranged.agenda⟩, ⟨c, movedLate, arrangedLate.agenda⟩,
    (unknown "gone" (by decide) 0 (.action .squareOffAll)).1.1⟩

end Action

end TradingStrategy
