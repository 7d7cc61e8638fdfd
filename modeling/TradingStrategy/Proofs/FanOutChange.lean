import TradingStrategy.Proofs.Reshape

set_option autoImplicit false

namespace TradingStrategy.Graph

open Strategy (exchanged)

variable {g h : Graph} {path : List String} {condition : String}

theorem fanOutTargets_filter {keep : String → Bool}
    (fans : h.edges.filter (isFanOut condition) =
      (g.edges.filter (isFanOut condition)).filter fun e => keep e.target) :
    h.fanOutTargets condition = (g.fanOutTargets condition).filter keep := by
  have sorted : h.fanOut condition = (g.fanOut condition).filter fun e => keep e.target := by
    rw [fanOut, fans]
    exact (StableSort.filter_mergeSort Edge.notAfter_trans Edge.notAfter_total _ _).symm
  rw [fanOutTargets, fanOutTargets, sorted, List.filter_map]
  rfl

theorem fanOutTargets_concat {action : String}
    (fans : h.edges.filter (isFanOut condition) =
      g.edges.filter (isFanOut condition) ++ [.action condition action]) :
    h.fanOutTargets condition = g.fanOutTargets condition ++ [action] := by
  have sorted : h.fanOut condition = g.fanOut condition ++ [.action condition action] := by
    rw [fanOut, fans]
    exact StableSort.mergeSort_concat Edge.notAfter_trans Edge.notAfter_total _ _
      fun e _ => decide_eq_true e.sequenceKey_le
  rw [fanOutTargets, fanOutTargets, sorted, List.map_append]
  rfl

theorem mem_fanOutTargets {action : String} :
    action ∈ g.fanOutTargets condition ↔
      ∃ e ∈ g.edges, isFanOut condition e = true ∧ e.target = action := by
  rw [fanOutTargets, List.mem_map]
  simp only [fanOut, List.mem_mergeSort, List.mem_filter]
  constructor
  · intro holds
    obtain ⟨e, ⟨member, fans⟩, same⟩ := holds
    exact ⟨e, member, fans, same⟩
  · intro holds
    obtain ⟨e, member, fans, same⟩ := holds
    exact ⟨e, ⟨member, fans⟩, same⟩

theorem length_fanOutTargets (g : Graph) (condition : String) :
    (g.fanOutTargets condition).length = (g.fanOut condition).length := by
  rw [fanOutTargets, List.length_map]

theorem mem_feeders {action : String} :
    condition ∈ g.feeders action ↔ action ∈ g.fanOutTargets condition := by
  rw [mem_fanOutTargets, feeders, List.mem_eraseDups, List.mem_map]
  simp only [List.mem_filter, isFanOut, Bool.and_eq_true, beq_iff_eq]
  constructor
  · intro holds
    obtain ⟨e, ⟨member, action, target⟩, source⟩ := holds
    exact ⟨e, member, ⟨action, source⟩, target⟩
  · intro holds
    obtain ⟨e, member, ⟨action, source⟩, target⟩ := holds
    exact ⟨e, ⟨member, action, target⟩, source⟩

theorem height_congr {id : String} (same : h.node? id = g.node? id) :
    h.height id = g.height id := by
  rw [height, height, same]

theorem filter_isFanOut_eq (edges : List Edge) :
    edges.filter (isFanOut condition) =
      (edges.filter Edge.isAction).filter fun e => e.source == condition := by
  rw [List.filter_filter]
  apply List.filter_congr
  intro e _
  exact Bool.and_comm ..

theorem filter_isFanOut_exchange (g : Graph) (a b : String) :
    (g.edges.map (Edge.exchange a b)).filter (isFanOut condition) =
      g.edges.filter (isFanOut condition) := by
  rw [filter_isFanOut_eq, filter_isAction_exchange, ← filter_isFanOut_eq]

theorem filter_isFanOut_removeNode {gone : String} (distinct : condition ≠ gone) :
    (g.removeNode gone).edges.filter (isFanOut condition) =
      (g.edges.filter (isFanOut condition)).filter fun e => e.target ≠ gone := by
  rw [removeNode, List.filter_filter, List.filter_filter]
  apply List.filter_congr
  intro e _
  by_cases fans : isFanOut condition e = true
  · have source := (isFanOut_iff.1 fans).2
    have apart : (e.source == gone) = false := beq_false_of_ne (source ▸ distinct)
    by_cases target : e.target = gone <;> simp [fans, Edge.touches, apart, target]
  · simp [fans]

theorem filter_isFanOut_removeNode_of_not_mem {gone : String} (distinct : condition ≠ gone)
    (kept : gone ∉ g.fanOutTargets condition) :
    (g.removeNode gone).edges.filter (isFanOut condition) =
      g.edges.filter (isFanOut condition) := by
  rw [filter_isFanOut_removeNode distinct, List.filter_eq_self]
  intro e inside
  obtain ⟨member, fans⟩ := List.mem_filter.1 inside
  have apart : e.target ≠ gone := fun same => kept (mem_fanOutTargets.2 ⟨e, member, fans, same⟩)
  simpa using apart

theorem height_removeNode {gone id : String} (distinct : id ≠ gone) :
    (g.removeNode gone).height id = g.height id :=
  height_congr (by rw [node?_removeNode, if_neg distinct])

theorem height_addNode {n : Node} (fresh : g.contains n.id = false) {id : String}
    (present : g.contains id = true) : (g.addNode n).height id = g.height id := by
  apply height_congr
  rw [node?_addNode fresh, if_neg]
  intro equal
  subst equal
  rw [present] at fresh
  contradiction

theorem Numbered.removeNode {gone : String} (numbered : g.Numbered condition)
    (distinct : condition ≠ gone) (kept : gone ∉ g.fanOutTargets condition) :
    (g.removeNode gone).Numbered condition := by
  refine numbered.congr (filter_isFanOut_removeNode_of_not_mem distinct kept) ?_
  intro e member fans
  apply height_removeNode
  rintro same
  exact kept (mem_fanOutTargets.2 ⟨e, member, fans, same⟩)

theorem filter_isAction_addCondition (g : Graph) (u v : String) :
    (g.addEdge (.condition u v)).edges.filter Edge.isAction = g.edges.filter Edge.isAction := by
  rw [addEdge, List.filter_append]
  exact List.append_nil _

theorem filter_isFanOut_addCondition (g : Graph) (u v : String) :
    (g.addEdge (.condition u v)).edges.filter (isFanOut condition) =
      g.edges.filter (isFanOut condition) := by
  rw [filter_isFanOut_eq, filter_isAction_addCondition, ← filter_isFanOut_eq]

theorem filter_isFanOut_addFan (g : Graph) (source action : String) :
    (g.addEdge (.action source action)).edges.filter (isFanOut condition) =
      g.edges.filter (isFanOut condition) ++
        if source = condition then [.action source action] else [] := by
  rw [addEdge, List.filter_append]
  by_cases same : source = condition <;> simp [isFanOut, Edge.action, Edge.isAction, same]

namespace Shaped

theorem fansWithin (shaped : g.Shaped path) (condition : String) : g.FansWithin condition := by
  intro e member fans
  exact contains_of_isKind (shaped.fans e member (isFanOut_iff.1 fans).1).2.2

theorem filter_isFanOut_of_not_mem (shaped : g.Shaped path) (absent : condition ∉ path) :
    g.edges.filter (isFanOut condition) = [] := by
  rw [List.filter_eq_nil_iff]
  intro e member fans
  obtain ⟨action, source⟩ := isFanOut_iff.1 fans
  exact absent (source ▸ (shaped.fans e member action).2.1)

theorem numbered_of_not_mem (shaped : g.Shaped path) (absent : condition ∉ path) :
    g.Numbered condition := by
  refine ⟨[], List.Pairwise.nil, ?_⟩
  rw [shaped.filter_isFanOut_of_not_mem absent]
  exact List.Perm.nil

theorem isKind_of_mem_fanOutTargets (shaped : g.Shaped path) {action : String}
    (member : action ∈ g.fanOutTargets condition) : g.isKind .action action = true := by
  obtain ⟨e, inside, fans, rfl⟩ := mem_fanOutTargets.1 member
  exact (shaped.fans e inside (isFanOut_iff.1 fans).1).2.2

theorem fanOutTargets_nodup (shaped : g.Shaped path) (condition : String) :
    (g.fanOutTargets condition).Nodup := by
  have fans : (g.edges.filter (isFanOut condition)).Sublist (g.edges.filter Edge.isAction) := by
    apply List.monotone_filter_right
    intro e holds
    exact (isFanOut_iff.1 holds).1
  have ends := (shaped.fansOnce.sublist (fans.map Edge.ends))
  have targets : ((g.edges.filter (isFanOut condition)).map Edge.target).Nodup := by
    rw [List.Nodup, List.pairwise_map] at ends ⊢
    refine ends.imp_of_mem fun {a b} memberA memberB apart same => apart (Prod.ext ?_ same)
    have sourceA := (isFanOut_iff.1 (List.mem_filter.1 memberA).2).2
    have sourceB := (isFanOut_iff.1 (List.mem_filter.1 memberB).2).2
    exact sourceA.trans sourceB.symm
  exact ((List.mergeSort_perm _ _).map Edge.target).nodup_iff.2 targets

theorem filter_isFanOut_disconnect (shaped : g.Shaped path) {e : Edge} (member : e ∈ g.edges)
    (condition : String) :
    (g.edges.filter (·.id != e.id)).filter (isFanOut condition) =
      (g.edges.filter (isFanOut condition)).filter fun x =>
        !(condition == e.source && x.target == e.target) := by
  rw [List.filter_filter, List.filter_filter]
  apply List.filter_congr
  intro x inside
  by_cases fans : isFanOut condition x = true
  · have source := (isFanOut_iff.1 fans).2
    have ids : x.id = e.id ↔ condition = e.source ∧ x.target = e.target := by
      constructor
      · intro same
        have ends := shaped.ends_eq_of_id_eq inside member same
        exact ⟨source ▸ congrArg Prod.fst ends, congrArg Prod.snd ends⟩
      · intro holds
        obtain ⟨sameSource, sameTarget⟩ := holds
        rw [shaped.id_eq inside, shaped.id_eq member, source, sameSource, sameTarget]
    have decided : (x.id != e.id) = !(condition == e.source && x.target == e.target) := by
      by_cases same : x.id = e.id
      · simp [ids.1 same, same]
      · have apart := mt ids.2 same
        grind
    simp [fans, decided]
  · simp [fans]

theorem height_setPosition (shaped : g.Shaped path) {id other : String} (p : Position)
    (distinct : other ≠ id) : (g.setPosition id p).height other = g.height other := by
  rw [height, height, shaped.node?_setPosition]
  cases found : g.node? other with
  | none => rfl
  | some n =>
    have apart : n.id ≠ id := (node?_eq_some found).2 ▸ distinct
    simp [apart]

end Shaped

end TradingStrategy.Graph
