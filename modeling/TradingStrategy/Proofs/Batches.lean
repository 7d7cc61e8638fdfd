import TradingStrategy.Proofs.Deletion

/-!
What a batch of deletions leaves, told without the order of the deletions. Nodes and contents are
filtered, the conditions left are linked in the order they had, and a fan-out that loses an action
is what is left of it, by height. A fan-out may have as many edges as there are numbers: one that is
too long for them by one fits as soon as it loses an action.
-/

set_option autoImplicit false

namespace TradingStrategy

open TradingStrategy.Graph (isFanOut)

namespace Graph

variable {g h : Graph} {path : List String} {condition : String}

theorem mergeSort_lower_congr {ids : List String}
    (heights : ∀ id ∈ ids, h.height id = g.height id) :
    ids.mergeSort h.lower = ids.mergeSort g.lower := by
  have same : ∀ a ∈ ids, ∀ b ∈ ids, h.lower a b = g.lower (id a) (id b) := by
    intro a memberA b memberB
    simp only [lower, heights a memberA, heights b memberB, id]
  simpa using List.map_mergeSort same

theorem perm_of_fanOuts
    (links : (h.edges.filter Edge.isCondition).Perm (g.edges.filter Edge.isCondition))
    (fans : ∀ c, (h.edges.filter (isFanOut c)).Perm (g.edges.filter (isFanOut c))) :
    h.edges.Perm g.edges := by
  rw [List.perm_iff_count]
  intro e
  cases action : e.isAction with
  | true =>
    have fan : isFanOut e.source e = true := by simp [isFanOut, action]
    rw [← List.count_filter fan, ← List.count_filter (l := g.edges) fan]
    exact (fans e.source).count_eq e
  | false =>
    have condition : e.isCondition = true := by simp [Edge.isCondition_eq_not_isAction, action]
    rw [← List.count_filter condition, ← List.count_filter (l := g.edges) condition]
    exact links.count_eq e

-- Ends, handles and numbers are all settled by the list of targets.
theorem Shaped.fanOut_eq (shaped : g.Shaped path) (numbered : g.Numbered condition)
    (bound : (g.fanOutTargets condition).length < UInt32.size) :
    g.fanOut condition = (g.fanOutTargets condition).mapIdx fun k action =>
      (Edge.action condition action).setSequence (UInt32.ofNat (k + 1)) := by
  rw [length_fanOutTargets] at bound
  apply List.ext_getElem
  · rw [List.length_mapIdx, length_fanOutTargets]
  · intro k inside _
    have listed : (g.fanOut condition)[k] ∈ g.edges.filter (isFanOut condition) :=
      List.mem_mergeSort.1 (List.getElem_mem inside)
    obtain ⟨member, fans⟩ := List.mem_filter.1 listed
    obtain ⟨action, source⟩ := isFanOut_iff.1 fans
    have sequence := congrArg (·[k]?) (numbered.fanOut_eq bound).1
    have counted : (g.fanOut condition)[k].sequence = some (UInt32.ofNat (k + 1)) := by
      simpa [inside] using sequence
    have drawn := eq_setSequence action (shaped.fans _ member action).1 counted
    rw [source] at drawn
    simpa [fanOutTargets] using drawn

end Graph

namespace Strategy

variable {s t u : Strategy} {path : List String} {condition : String} {xs ys : List String}

/-- The nodes of these ids are gone, with their contents. Of the edges nothing is said. -/
structure Pruned (s t : Strategy) (ids : List String) : Prop where
  nodes : t.graph.nodes = s.graph.nodes.filter (·.id ∉ ids)
  conditions : ∀ id, t.conditions.get? id = if id ∈ ids then none else s.conditions.get? id
  actions : ∀ id, t.actions.get? id = if id ∈ ids then none else s.actions.get? id
  rest : t = { s with graph := t.graph, conditions := t.conditions, actions := t.actions }

theorem Filled.get?_eq_none {α : Type} {contents : Dict α} {g : Graph} {kind : Node.Kind}
    (filled : Filled contents g kind) {id : String} (other : g.isKind kind id = false) :
    contents.get? id = none := by
  have absent := filled id
  rwa [other, Dict.contains, Option.isSome_eq_false_iff, Option.isNone_iff_eq_none] at absent

theorem Filled.get?_listed {α : Type} {contents : Dict α} {g : Graph} {kind : Node.Kind}
    (filled : Filled contents g kind) (ids : List String) (id : String) :
    (if id ∈ ids ∧ g.isKind kind id = true then none else contents.get? id) =
      if id ∈ ids then none else contents.get? id := by
  by_cases holds : g.isKind kind id = true
  · simp [holds]
  · rw [Bool.not_eq_true] at holds
    simp [filled.get?_eq_none holds]

-- There are no contents but those of nodes, and a node is of one kind.
theorem Sound.pruned (sound : s.Sound path) (deleted : s.Deleted t xs) : s.Pruned t xs where
  nodes := deleted.nodes
  conditions id := (deleted.conditions id).trans (sound.conditions.get?_listed xs id)
  actions id := (deleted.actions id).trans (sound.actions.get?_listed xs id)
  rest := deleted.rest

theorem Pruned.isKind_eq (pruned : s.Pruned t xs) (kind : Node.Kind) (id : String) :
    t.graph.isKind kind id = if id ∈ xs then false else s.graph.isKind kind id :=
  Graph.isKind_of_filter pruned.nodes kind id

theorem Pruned.height_eq (pruned : s.Pruned t xs) {id : String} (kept : id ∉ xs) :
    t.graph.height id = s.graph.height id :=
  Graph.height_congr (by rw [Graph.node?_of_filter pruned.nodes, if_neg kept])

theorem Sound.pruned_foldl_deleteNode (sound : s.Sound path) {ids : List String}
    (plain : ∀ id ∈ ids, s.graph.isKind .start id = false) :
    s.Pruned (ids.foldl Strategy.deleteNode s) ids :=
  sound.pruned (deleted_foldl_deleteNode plain)

theorem filter_isFanOut_deleteNode {id : String} (distinct : condition ≠ id)
    (kept : id ∉ s.graph.fanOutTargets condition) :
    (s.deleteNode id).graph.edges.filter (isFanOut condition) =
      s.graph.edges.filter (isFanOut condition) := by
  unfold deleteNode
  split
  next => rfl
  next =>
    split
    next =>
      rw [deleteAction, Graph.filter_isFanOut_numberFanOuts (mt Graph.mem_feeders.1 kept),
        Graph.filter_isFanOut_removeNode_of_not_mem distinct kept]
    next =>
      rw [filter_isFanOut_deleteCondition,
        Graph.filter_isFanOut_removeNode_of_not_mem distinct kept]
    next => rfl

theorem filter_isFanOut_foldl_deleteNode {ids : List String} (survives : condition ∉ ids)
    (kept : ∀ id ∈ s.graph.fanOutTargets condition, id ∉ ids) :
    (ids.foldl deleteNode s).graph.edges.filter (isFanOut condition) =
      s.graph.edges.filter (isFanOut condition) := by
  induction ids generalizing s with
  | nil => rfl
  | cons id rest ih =>
    rw [List.mem_cons, not_or] at survives
    have whole : id ∉ s.graph.fanOutTargets condition := fun lost =>
      kept id lost List.mem_cons_self
    have once := filter_isFanOut_deleteNode survives.1 whole
    rw [List.foldl_cons, ih survives.2, once]
    intro other target later
    rw [Graph.fanOutTargets_congr once] at target
    exact kept other target (List.mem_cons_of_mem _ later)

theorem length_filter_fanOutTargets_lt {id : String}
    (member : id ∈ s.graph.fanOutTargets condition)
    (bound : (s.graph.fanOutTargets condition).length ≤ UInt32.size) :
    ((s.graph.fanOutTargets condition).filter (· ≠ id)).length < UInt32.size := by
  refine Nat.lt_of_lt_of_le (List.length_filter_lt_length_iff_exists.2 ⟨id, member, ?_⟩) bound
  simp

-- There are numbers for what is left, which is numbered by height from any order.
theorem Sound.fanOutTargets_deleteNode_of_mem (sound : s.Sound path) {id : String}
    (distinct : condition ≠ id) (member : id ∈ s.graph.fanOutTargets condition)
    (bound : (s.graph.fanOutTargets condition).length ≤ UInt32.size) :
    (s.deleteNode id).graph.fanOutTargets condition =
      ((s.graph.fanOutTargets condition).filter (· ≠ id)).mergeSort s.graph.lower := by
  have action := sound.shaped.isKind_of_mem_fanOutTargets member
  obtain ⟨n, found, kind⟩ := Graph.isKind_iff.1 action
  have made : s.deleteNode id = s.deleteAction id := by simp [Strategy.deleteNode, found, kind]
  have left : (s.graph.removeNode id).fanOutTargets condition =
      (s.graph.fanOutTargets condition).filter (· ≠ id) :=
    Graph.fanOutTargets_filter (Graph.filter_isFanOut_removeNode distinct)
  have shaped := sound.shaped.removeAction action
  have counted := Graph.fanOutTargets_numberFanOuts (shaped.fansWithin condition) (by
    rw [← Graph.length_fanOutTargets, left]
    exact length_filter_fanOutTargets_lt member bound) (s.graph.feeders id)
    (.inl (Graph.mem_feeders.2 member))
  rw [left] at counted
  rw [made, Strategy.deleteAction, counted]
  apply Graph.mergeSort_lower_congr
  intro other inside
  exact Graph.height_removeNode (by simpa using (List.mem_filter.1 inside).2)

theorem Sound.fanOutTargets_of_loss (sound : s.Sound path) {ids : List String}
    (plain : ∀ id ∈ ids, s.graph.isKind .start id = false) (survives : condition ∉ ids)
    (bound : (s.graph.fanOutTargets condition).length ≤ UInt32.size)
    (loss : ∃ id ∈ s.graph.fanOutTargets condition, id ∈ ids) :
    (ids.foldl Strategy.deleteNode s).graph.fanOutTargets condition =
      ((s.graph.fanOutTargets condition).filter (· ∉ ids)).mergeSort s.graph.lower := by
  induction ids generalizing s path with
  | nil =>
    obtain ⟨_, _, none⟩ := loss
    contradiction
  | cons id rest ih =>
    rw [List.mem_cons, not_or] at survives
    rw [List.forall_mem_cons] at plain
    rw [List.foldl_cons, filter_not_mem_cons]
    -- The first deletion that hits the fan-out sorts it; those before it leave it, those after
    -- filter.
    by_cases member : id ∈ s.graph.fanOutTargets condition
    · have once := sound.fanOutTargets_deleteNode_of_mem survives.1 member bound
      rw [fanOutTargets_foldl_deleteNode (sound.deleteNode id) survives.2 (by
        rw [once, List.length_mergeSort]
        exact length_filter_fanOutTargets_lt member bound), once]
      exact StableSort.filter_mergeSort s.graph.lower_trans s.graph.lower_total _ _
    · have same := Graph.fanOutTargets_congr (filter_isFanOut_deleteNode survives.1 member)
      have first := sound.pruned (deleted_deleteNode plain.1)
      have later := ih (sound.deleteNode id) (fun other inside => ?_) survives.2 (same ▸ bound) ?_
      · rw [same] at later
        rw [later, filter_ne_of_not_mem member]
        apply Graph.mergeSort_lower_congr
        intro other inside
        apply first.height_eq
        rw [List.mem_singleton]
        rintro rfl
        exact member (List.mem_filter.1 inside).1
      · rw [first.isKind_eq]
        split
        · rfl
        · exact plain.2 other inside
      · obtain ⟨lost, target, listed⟩ := loss
        refine ⟨lost, same ▸ target, (List.mem_cons.1 listed).resolve_left ?_⟩
        rintro rfl
        exact member target

structure SameButOrder (s t : Strategy) : Prop where
  edges : t.graph.edges.Perm s.graph.edges
  rest : t = { s with graph := { s.graph with edges := t.graph.edges } }
  compiled : ∀ overrides, t.compile overrides =
    { s.compile overrides with edges := t.graph.edges }

-- Numbers, targets and edges of a fan-out tell each other.
theorem Sound.filter_isFanOut_perm (first : s.Sound path) {other : List String}
    (second : t.Sound other)
    (targets : t.graph.fanOutTargets condition = s.graph.fanOutTargets condition)
    (few : (s.graph.fanOutTargets condition).length < UInt32.size) :
    (t.graph.edges.filter (isFanOut condition)).Perm
      (s.graph.edges.filter (isFanOut condition)) := by
  have same : t.graph.fanOut condition = s.graph.fanOut condition := by
    rw [second.shaped.fanOut_eq (second.numbered condition) (targets ▸ few),
      first.shaped.fanOut_eq (first.numbered condition) few, targets]
  have sorted := (List.mergeSort_perm _ _).symm.trans (List.Perm.of_eq same)
  exact sorted.trans (List.mergeSort_perm _ _)

theorem filter_not_mem_congr {ids : List String} (agree : ∀ id ∈ ids, (id ∈ ys ↔ id ∈ xs)) :
    ids.filter (· ∉ ys) = ids.filter (· ∉ xs) := by
  apply List.filter_congr
  intro id member
  simp [agree id member]

section Agreeing

variable (sound : s.Sound path) (agree : ∀ id, s.graph.contains id = true → (id ∈ ys ↔ id ∈ xs))

include sound agree

theorem Sound.path_agree : path.filter (· ∉ ys) = path.filter (· ∉ xs) :=
  filter_not_mem_congr fun id member =>
    agree id (Graph.contains_of_isKind ((sound.shaped.conditions id).1 member))

theorem Sound.pruned_agree (first : s.Pruned t xs) (second : s.Pruned u ys) :
    u = { t with graph := { t.graph with edges := u.graph.edges } } := by
  have nodes : u.graph.nodes = t.graph.nodes := by
    rw [second.nodes, first.nodes]
    apply List.filter_congr
    intro n member
    have listed : s.graph.contains n.id = true :=
      Graph.contains_iff.2 (List.mem_map_of_mem member)
    simp [agree n.id listed]
  -- Contents are those of nodes, so where the lists differ there are none.
  have held {α : Type} {contents : Dict α} {kind : Node.Kind}
      (filled : Filled contents s.graph kind) (id : String) :
      (if id ∈ ys then none else contents.get? id) =
        if id ∈ xs then none else contents.get? id := by
    by_cases known : s.graph.contains id = true
    · simp [agree id known]
    · have unknown : s.graph.contains id = false := by simpa using known
      rw [filled.get?_eq_none (Graph.isKind_of_not_contains unknown kind), ite_self, ite_self]
  have conditions : u.conditions = t.conditions := Dict.ext_get? fun id => by
    rw [second.conditions, first.conditions, held sound.conditions]
  have actions : u.actions = t.actions := Dict.ext_get? fun id => by
    rw [second.actions, first.actions, held sound.actions]
  have last : u = { s with
      graph := ⟨t.graph.nodes, u.graph.edges⟩
      conditions := t.conditions, actions := t.actions } := by
    rw [← nodes, ← conditions, ← actions]
    exact second.rest
  have others := congrArg
    (fun v : Strategy => { v with graph := ⟨t.graph.nodes, u.graph.edges⟩ }) first.rest
  exact last.trans others.symm

theorem Sound.fanOut_agree (condition : String)
    (bound : (s.graph.fanOutTargets condition).length ≤ UInt32.size)
    (plain : ∀ id ∈ xs, s.graph.isKind .start id = false)
    (plainToo : ∀ id ∈ ys, s.graph.isKind .start id = false) :
    (ys.foldl Strategy.deleteNode s).graph.fanOutTargets condition =
        (xs.foldl Strategy.deleteNode s).graph.fanOutTargets condition ∧
      ((ys.foldl Strategy.deleteNode s).graph.edges.filter (isFanOut condition)).Perm
        ((xs.foldl Strategy.deleteNode s).graph.edges.filter (isFanOut condition)) := by
  have first := sound.foldl_deleteNode xs
  have second := sound.foldl_deleteNode ys
  rw [sound.path_agree agree] at second
  have known : ∀ id ∈ s.graph.fanOutTargets condition, (id ∈ ys ↔ id ∈ xs) := fun id target =>
    agree id (Graph.contains_of_isKind (sound.shaped.isKind_of_mem_fanOutTargets target))
  by_cases alive : condition ∈ path.filter (· ∉ xs)
  · have survives : condition ∉ xs := by simpa using (List.mem_filter.1 alive).2
    have survivesToo : condition ∉ ys := by
      rw [← sound.path_agree agree] at alive
      simpa using (List.mem_filter.1 alive).2
    -- A fan-out that loses nothing keeps its edges, one that does is sorted by height both times.
    by_cases loss : ∃ id ∈ s.graph.fanOutTargets condition, id ∈ xs
    · obtain ⟨lost, target, listed⟩ := loss
      have targets := sound.fanOutTargets_of_loss plain survives bound ⟨lost, target, listed⟩
      have targetsToo := sound.fanOutTargets_of_loss plainToo survivesToo bound
        ⟨lost, target, (known lost target).2 listed⟩
      rw [filter_not_mem_congr known, ← targets] at targetsToo
      have few : ((xs.foldl Strategy.deleteNode s).graph.fanOutTargets condition).length <
          UInt32.size := by
        rw [targets, List.length_mergeSort]
        refine Nat.lt_of_lt_of_le ?_ bound
        exact List.length_filter_lt_length_iff_exists.2 ⟨lost, target, by simpa using listed⟩
      exact ⟨targetsToo, first.filter_isFanOut_perm second targetsToo few⟩
    · simp only [not_exists, not_and] at loss
      have kept := filter_isFanOut_foldl_deleteNode survives loss
      have keptToo := filter_isFanOut_foldl_deleteNode survivesToo fun id target =>
        mt (known id target).1 (loss id target)
      have same := keptToo.trans kept.symm
      exact ⟨Graph.fanOutTargets_congr same, List.Perm.of_eq same⟩
  · have none := first.shaped.filter_isFanOut_of_not_mem alive
    have same := (second.shaped.filter_isFanOut_of_not_mem alive).trans none.symm
    exact ⟨Graph.fanOutTargets_congr same, List.Perm.of_eq same⟩

theorem Sound.sameButOrder
    (bound : ∀ condition, (s.graph.fanOutTargets condition).length ≤ UInt32.size)
    (plain : ∀ id ∈ xs, s.graph.isKind .start id = false)
    (plainToo : ∀ id ∈ ys, s.graph.isKind .start id = false) :
    (xs.foldl Strategy.deleteNode s).SameButOrder (ys.foldl Strategy.deleteNode s) := by
  have first := sound.foldl_deleteNode xs
  have second := sound.foldl_deleteNode ys
  rw [sound.path_agree agree] at second
  have fans (condition : String) :=
    sound.fanOut_agree agree condition (bound condition) plain plainToo
  have rest := sound.pruned_agree agree (sound.pruned_foldl_deleteNode plain)
    (sound.pruned_foldl_deleteNode plainToo)
  have nodes := congrArg (fun u => u.graph.nodes) rest
  refine ⟨Graph.perm_of_fanOuts ?_ fun condition => (fans condition).2, rest, fun overrides => ?_⟩
  · exact second.shaped.links.trans first.shaped.links.symm
  · have targets := funext fun condition => (fans condition).1
    have chain := second.shaped.chainedConditions_eq.trans first.shaped.chainedConditions_eq.symm
    have kinds := funext fun kind => funext fun id =>
      Graph.isKind_congr (congrArg (List.map Node.label) nodes) kind id
    simp only [compile, compileWith, targets, chain, kinds]
    rw [rest]
    rfl

end Agreeing

end Strategy

end TradingStrategy
