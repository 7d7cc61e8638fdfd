import TradingStrategy.Proofs.Links
import TradingStrategy.Proofs.Names
import TradingStrategy.Proofs.Numbering

set_option autoImplicit false

namespace TradingStrategy

def Node.label (n : Node) : String × Node.Kind := (n.id, n.kind)

namespace Edge

@[simp] theorem isAction_unnumbered (e : Edge) : e.unnumbered.isAction = e.isAction := by
  unfold unnumbered
  split <;> rfl

@[simp] theorem isCondition_unnumbered (e : Edge) : e.unnumbered.isCondition = e.isCondition := by
  unfold unnumbered
  split <;> rfl

@[simp] theorem source_unnumbered (e : Edge) : e.unnumbered.source = e.source := by
  unfold unnumbered
  split <;> rfl

@[simp] theorem target_unnumbered (e : Edge) : e.unnumbered.target = e.target := by
  unfold unnumbered
  split <;> rfl

@[simp] theorem id_unnumbered (e : Edge) : e.unnumbered.id = e.id := by
  unfold unnumbered
  split <;> rfl

theorem unnumbered_of_isCondition {e : Edge} (condition : e.isCondition = true) :
    e.unnumbered = e := by
  rw [isCondition_eq_not_isAction, Bool.not_eq_true'] at condition
  simp [unnumbered, condition]

theorem filter_isCondition_unnumbered (edges : List Edge) :
    (edges.map unnumbered).filter isCondition = edges.filter isCondition := by
  have same : isCondition ∘ unnumbered = isCondition := funext isCondition_unnumbered
  rw [List.filter_map, same]
  conv_rhs => rw [← List.map_id (edges.filter isCondition)]
  apply List.map_congr_left
  intro e member
  exact unnumbered_of_isCondition (List.mem_filter.1 member).2

def ends (e : Edge) : String × String := (e.source, e.target)

theorem map_ends_unnumbered (edges : List Edge) :
    ((edges.map unnumbered).filter isAction).map ends = (edges.filter isAction).map ends := by
  have same : isAction ∘ unnumbered = isAction := funext isAction_unnumbered
  rw [List.filter_map, List.map_map, same]
  apply List.map_congr_left
  intro e _
  simp [ends]

end Edge

namespace Graph

/-- A graph whose conditions follow START along a path of ids. -/
structure Shaped (g : Graph) (path : List String) : Prop where
  ids : (g.nodes.map (·.id)).Nodup
  start : (g.nodesOf .start).map (·.id) = [startId]
  conditions : ∀ id, id ∈ path ↔ g.isKind .condition id = true
  names : ∀ id ∈ path, IdSource.Drawn "condition" id
  nodup : path.Nodup
  links : (g.edges.filter Edge.isCondition).Perm (Edge.links startId path)
  fans : ∀ e ∈ g.edges, e.isAction = true → e.unnumbered = .action e.source e.target ∧
    e.source ∈ path ∧ g.isKind .action e.target = true
  fansOnce : ((g.edges.filter Edge.isAction).map Edge.ends).Nodup

theorem isKind_eq_label (g : Graph) (kind : Node.Kind) (id : String) :
    g.isKind kind id =
      ((g.nodes.map Node.label).find? (·.1 == id)).any (·.2 = kind) := by
  rw [List.find?_map, Option.any_map]
  rfl

theorem map_id_eq_label (g : Graph) :
    g.nodes.map (·.id) = (g.nodes.map Node.label).map Prod.fst := by
  rw [List.map_map]
  rfl

theorem nodesOf_eq_label (g : Graph) (kind : Node.Kind) :
    (g.nodesOf kind).map (·.id) =
      ((g.nodes.map Node.label).filter (·.2 = kind)).map Prod.fst := by
  rw [List.filter_map, List.map_map]
  rfl

theorem node?_of_mem {g : Graph} (ids : (g.nodes.map (·.id)).Nodup) {n : Node}
    (member : n ∈ g.nodes) : g.node? n.id = some n := find?_of_nodup ids member

theorem isKind_iff {g : Graph} {kind : Node.Kind} {id : String} :
    g.isKind kind id = true ↔ ∃ n, g.node? id = some n ∧ n.kind = kind := by
  simp [isKind, Option.any_eq_true]

theorem mem_nodesOf_iff {g : Graph} (ids : (g.nodes.map (·.id)).Nodup) (kind : Node.Kind)
    (id : String) : id ∈ (g.nodesOf kind).map (·.id) ↔ g.isKind kind id = true := by
  rw [isKind_iff, List.mem_map]
  constructor
  · intro holds
    obtain ⟨n, listed, rfl⟩ := holds
    obtain ⟨member, same⟩ := List.mem_filter.1 listed
    exact ⟨n, node?_of_mem ids member, by simpa using same⟩
  · intro holds
    obtain ⟨n, found, same⟩ := holds
    obtain ⟨member, name⟩ := node?_eq_some found
    exact ⟨n, List.mem_filter.2 ⟨member, by simpa using same⟩, name⟩

theorem contains_of_isKind {g : Graph} {kind : Node.Kind} {id : String}
    (holds : g.isKind kind id = true) : g.contains id = true := by
  obtain ⟨n, found, _⟩ := isKind_iff.1 holds
  rw [contains, found]
  rfl

theorem isKind_of_not_contains {g : Graph} {id : String} (absent : g.contains id = false)
    (kind : Node.Kind) : g.isKind kind id = false := by
  by_contra holds
  rw [contains_of_isKind (by simpa using holds)] at absent
  contradiction

theorem isKind_unique {g : Graph} {kind other : Node.Kind} {id : String}
    (holds : g.isKind kind id = true) (otherHolds : g.isKind other id = true) : kind = other := by
  obtain ⟨n, found, rfl⟩ := isKind_iff.1 holds
  obtain ⟨m, otherFound, rfl⟩ := isKind_iff.1 otherHolds
  rw [Option.some.inj (found.symm.trans otherFound)]

theorem isKind_eq_false {g : Graph} {kind other : Node.Kind} {id : String}
    (holds : g.isKind kind id = true) (distinct : kind ≠ other) : g.isKind other id = false := by
  by_contra otherHolds
  exact distinct (isKind_unique holds (by simpa using otherHolds))

theorem isKind_congr {g h : Graph} (labels : h.nodes.map Node.label = g.nodes.map Node.label)
    (kind : Node.Kind) (id : String) : h.isKind kind id = g.isKind kind id := by
  rw [isKind_eq_label, isKind_eq_label, labels]

namespace Shaped

variable {g h : Graph} {path : List String}

-- The shape depends on the nodes up to their positions and on the edges up to their numbers.
theorem congr (shaped : g.Shaped path) (nodes : h.nodes.map Node.label = g.nodes.map Node.label)
    (edges : h.edges.map Edge.unnumbered = g.edges.map Edge.unnumbered) : h.Shaped path := by
  have kinds := isKind_congr nodes
  refine ⟨?_, ?_, ?_, shaped.names, shaped.nodup, ?_, ?_, ?_⟩
  · rw [map_id_eq_label, nodes, ← map_id_eq_label]
    exact shaped.ids
  · rw [nodesOf_eq_label, nodes, ← nodesOf_eq_label]
    exact shaped.start
  · intro id
    rw [kinds]
    exact shaped.conditions id
  · rw [← Edge.filter_isCondition_unnumbered, edges, Edge.filter_isCondition_unnumbered]
    exact shaped.links
  · intro e member action
    have image : e.unnumbered ∈ g.edges.map Edge.unnumbered :=
      edges ▸ List.mem_map_of_mem member
    obtain ⟨old, oldMember, same⟩ := List.mem_map.1 image
    have oldAction : old.isAction = true := by
      rw [← Edge.isAction_unnumbered, same, Edge.isAction_unnumbered, action]
    have source : old.source = e.source := by
      rw [← Edge.source_unnumbered, same, Edge.source_unnumbered]
    have target : old.target = e.target := by
      rw [← Edge.target_unnumbered, same, Edge.target_unnumbered]
    have fan := shaped.fans old oldMember oldAction
    rwa [same, source, target, ← kinds] at fan
  · rw [← Edge.map_ends_unnumbered, edges, Edge.map_ends_unnumbered]
    exact shaped.fansOnce

theorem start?_eq (shaped : g.Shaped path) :
    ∃ s, g.start? = some s ∧ s.id = startId ∧ g.node? startId = some s ∧ s.kind = .start := by
  have listed := shaped.start
  cases nodes : g.nodesOf .start with
  | nil => simp [nodes] at listed
  | cons s rest =>
    have first : g.start? = some s := by
      rw [start?, ← List.head?_filter]
      exact congrArg List.head? nodes
    have name : s.id = startId := by
      rw [nodes, List.map_cons] at listed
      exact (List.cons.inj listed).1
    refine ⟨s, first, name, ?_, by simpa using List.find?_some first⟩
    rw [← name]
    exact node?_of_mem shaped.ids (List.mem_of_find?_eq_some first)

theorem isKind_start (shaped : g.Shaped path) : g.isKind .start startId = true := by
  obtain ⟨s, _, _, found, kind⟩ := shaped.start?_eq
  exact isKind_iff.2 ⟨s, found, kind⟩

theorem not_mem_of_isKind (shaped : g.Shaped path) {kind : Node.Kind} {id : String}
    (holds : g.isKind kind id = true) (other : kind ≠ .condition) : id ∉ path := by
  intro member
  exact other (isKind_unique holds ((shaped.conditions id).1 member))

theorem startId_not_mem (shaped : g.Shaped path) : startId ∉ path :=
  shaped.not_mem_of_isKind shaped.isKind_start (by decide)

theorem target_not_mem (shaped : g.Shaped path) {e : Edge} (member : e ∈ g.edges)
    (action : e.isAction = true) : e.target ∉ path :=
  shaped.not_mem_of_isKind (shaped.fans e member action).2.2 (by decide)

theorem nodup_from_start (shaped : g.Shaped path) : (startId :: path).Nodup :=
  List.nodup_cons.2 ⟨shaped.startId_not_mem, shaped.nodup⟩

theorem sources_nodup (shaped : g.Shaped path) :
    ((g.edges.filter Edge.isCondition).map Edge.source).Nodup := by
  rw [(shaped.links.map Edge.source).nodup_iff, Edge.map_source_links]
  exact shaped.nodup_from_start.sublist (List.dropLast_sublist _)

theorem targets_perm (shaped : g.Shaped path) :
    ((g.edges.filter Edge.isCondition).map Edge.target).Perm path := by
  have perm := shaped.links.map Edge.target
  rwa [Edge.map_target_links] at perm

theorem outgoing?_link (shaped : g.Shaped path) {e : Edge} (member : e ∈ Edge.links startId path) :
    g.outgoing? e.source = some e :=
  outgoing?_eq_some shaped.sources_nodup (shaped.links.mem_iff.2 member)

theorem incoming?_link (shaped : g.Shaped path) {e : Edge} (member : e ∈ Edge.links startId path) :
    g.incoming? e.target = some e :=
  incoming?_eq_some (shaped.targets_perm.nodup_iff.2 shaped.nodup) (shaped.links.mem_iff.2 member)

theorem outgoing?_last (shaped : g.Shaped path) : g.outgoing? (path.getLastD startId) = none := by
  apply outgoing?_eq_none
  intro member
  rw [(shaped.links.map Edge.source).mem_iff, Edge.map_source_links] at member
  have whole := List.dropLast_append_getLast (List.cons_ne_nil startId path)
  have apart := whole ▸ shaped.nodup_from_start
  rw [List.nodup_append] at apart
  -- Every id but the last is the source of a link, and the last is not among those.
  refine apart.2.2 _ member _ (List.mem_singleton_self _) ?_
  rw [List.getLast_eq_getLastD]

theorem chain_eq (shaped : g.Shaped path) :
    ∃ s, g.node? startId = some s ∧ s.kind = .start ∧ g.chain = s :: path.filterMap g.node? := by
  obtain ⟨s, first, name, found, kind⟩ := shaped.start?_eq
  refine ⟨s, found, kind, ?_⟩
  have contained (v : String) (member : v ∈ path) : g.contains v = true :=
    contains_of_isKind ((shaped.conditions v).1 member)
  -- All the nodes are unvisited at the start, so only the links end the walk.
  have walked : g.walk (g.nodes.map (·.id)) s = s :: path.filterMap g.node? := by
    apply walk_eq
    · intro e member
      exact shaped.outgoing?_link (name ▸ member)
    · rw [name]
      exact shaped.outgoing?_last
    · exact contained
    · rw [name]
      exact shaped.nodup_from_start
    · intro id member
      have present : g.contains id = true := by
        rcases List.mem_cons.1 member with rfl | member
        · rw [contains, name, found]
          rfl
        · exact contained id member
      obtain ⟨n, node⟩ := Option.isSome_iff_exists.1 present
      obtain ⟨inside, same⟩ := node?_eq_some node
      exact List.mem_map.2 ⟨n, inside, same⟩
  rw [chain, first]
  exact walked

theorem map_id_filterMap_node? {ids : List String} (present : ∀ id ∈ ids, g.contains id = true) :
    (ids.filterMap g.node?).map (·.id) = ids := by
  induction ids with
  | nil => rfl
  | cons id rest ih =>
    obtain ⟨n, found⟩ := Option.isSome_iff_exists.1 (present id List.mem_cons_self)
    have others := ih fun other member => present other (List.mem_cons_of_mem _ member)
    simp [found, (node?_eq_some found).2, others]

theorem chainedConditions_eq (shaped : g.Shaped path) : g.chainedConditions = path := by
  obtain ⟨s, _, kind, chain⟩ := shaped.chain_eq
  have conditions : (path.filterMap g.node?).filter Node.isCondition = path.filterMap g.node? := by
    rw [List.filter_eq_self]
    intro n member
    obtain ⟨id, inside, found⟩ := List.mem_filterMap.1 member
    obtain ⟨m, same, condition⟩ := isKind_iff.1 ((shaped.conditions id).1 inside)
    rw [Option.some.inj (found.symm.trans same)]
    simpa [Node.isCondition] using condition
  rw [chainedConditions, chain, List.filter_cons_of_neg (by simp [Node.isCondition, kind]),
    conditions]
  apply map_id_filterMap_node?
  intro id member
  exact contains_of_isKind ((shaped.conditions id).1 member)

theorem tail?_eq (shaped : g.Shaped path) :
    ∃ n, g.tail? = some n ∧ n.id = path.getLastD startId := by
  obtain ⟨s, found, _, chain⟩ := shaped.chain_eq
  have ids : (s :: path.filterMap g.node?).map (·.id) = startId :: path := by
    rw [List.map_cons, (node?_eq_some found).2, map_id_filterMap_node?]
    intro id member
    exact contains_of_isKind ((shaped.conditions id).1 member)
  have last := congrArg List.getLast? ids
  rw [List.getLast?_map, ← chain, List.getLast?_cons, ← List.getLastD_eq_getLast?] at last
  exact Option.map_eq_some_iff.1 last

end Shaped

end Graph

end TradingStrategy
