import TradingStrategy.Proofs.Density
import TradingStrategy.Proofs.PayloadRoundTrip
import TradingStrategy.Proofs.WellFormed

set_option autoImplicit false

namespace TradingStrategy

namespace Graph

variable {g h : Graph} {path : List String}

theorem node?_of_perm (ids : (g.nodes.map (·.id)).Nodup) (nodes : h.nodes.Perm g.nodes)
    (id : String) : h.node? id = g.node? id := by
  have idsAfter : (h.nodes.map (·.id)).Nodup := (nodes.map _).nodup_iff.2 ids
  cases found : h.node? id with
  | some n =>
    obtain ⟨member, rfl⟩ := node?_eq_some found
    exact (node?_of_mem ids (nodes.mem_iff.1 member)).symm
  | none =>
    cases other : g.node? id with
    | none => rfl
    | some n =>
      obtain ⟨member, rfl⟩ := node?_eq_some other
      rw [node?_of_mem idsAfter (nodes.mem_iff.2 member)] at found
      contradiction

theorem isKind_of_perm (ids : (g.nodes.map (·.id)).Nodup) (nodes : h.nodes.Perm g.nodes)
    (kind : Node.Kind) (id : String) : h.isKind kind id = g.isKind kind id := by
  rw [isKind, isKind, node?_of_perm ids nodes]

namespace Shaped

theorem of_perm (shaped : g.Shaped path) (nodes : h.nodes.Perm g.nodes)
    (edges : h.edges.Perm g.edges) : h.Shaped path where
  ids := (nodes.map _).nodup_iff.2 shaped.ids
  start := by
    have perm : ((h.nodesOf .start).map (·.id)).Perm ((g.nodesOf .start).map (·.id)) :=
      (nodes.filter _).map _
    rw [shaped.start] at perm
    exact List.perm_singleton.1 perm
  conditions id := by
    rw [isKind_of_perm shaped.ids nodes]
    exact shaped.conditions id
  names := shaped.names
  nodup := shaped.nodup
  links := (edges.filter _).trans shaped.links
  fans e member action := by
    rw [isKind_of_perm shaped.ids nodes]
    exact shaped.fans e (edges.mem_iff.1 member) action
  fansOnce := ((edges.filter _).map _).nodup_iff.2 shaped.fansOnce

end Shaped

-- The numbers differ, so they leave no choice of an order.
theorem Numbered.fanOut_of_perm {condition : String} (numbered : g.Numbered condition)
    (bound : (g.edges.filter (isFanOut condition)).length < UInt32.size)
    (edges : h.edges.Perm g.edges) : h.fanOut condition = g.fanOut condition := by
  obtain ⟨order, _, perm⟩ := numbered
  have few : order.length < UInt32.size := by
    rwa [perm.length_eq, Edge.length_counted] at bound
  rw [fanOut_eq_counted perm few, fanOut_eq_counted ((edges.filter _).trans perm) few]

end Graph

structure Payload.InTurn (p : Payload) (fanOut : List Edge) : Prop where
  increasing : fanOut.Pairwise fun e f =>
    ∃ m n, e.sequence = some m ∧ f.sequence = some n ∧ m < n
  descending : fanOut.Pairwise fun e f => p.savedGraph.NotBelow e.target f.target

structure Payload.Follows (p : Payload) (id : String) (actions : List String) : Prop where
  nodup : actions.Nodup
  targets : actions.Perm ((p.edges.filter (Graph.isFanOut id)).map Edge.target)
  known : ∀ a ∈ actions, a ∈ p.actions.keys
  inTurn : (p.edges.filter (Graph.isFanOut id)).length < UInt32.size →
    ∃ fanOut, fanOut.Perm (p.edges.filter (Graph.isFanOut id)) ∧
      fanOut.map Edge.target = actions ∧ p.InTurn fanOut

structure Payload.Intact (p : Payload) : Prop where
  once : p.sequence.Nodup
  sequence : p.sequence.Perm p.conditions.keys
  named : ∀ id c, p.conditions.get? id = some c → c.node = id
  conditions : p.conditions.keys.Perm ((p.savedGraph.nodesOf .condition).map (·.id))
  actions : p.actions.keys.Perm ((p.savedGraph.nodesOf .action).map (·.id))
  follows : ∀ id c, p.conditions.get? id = some c → p.Follows id c.actions

namespace Strategy

variable {s : Strategy} {path : List String} {registry : Registry}

theorem get?_compileWith_conditions {id : String} {c : SentCondition}
    (found : (s.compileWith registry).conditions.get? id = some c) :
    c.node = id ∧ c.actions = s.graph.fanOutTargets id := by
  simp only [compileWith, Dict.get?_map] at found
  obtain ⟨_, _, rfl⟩ := Option.map_eq_some_iff.1 found
  exact ⟨rfl, rfl⟩

theorem Sound.inTurn (sound : s.Sound path) (id : String)
    (bound : (s.graph.edges.filter (Graph.isFanOut id)).length < UInt32.size) :
    (s.compileWith registry).InTurn (s.graph.fanOut id) := by
  have dense := sound.shaped.dense (sound.numbered id) bound
  refine ⟨?_, dense.descending⟩
  have counted : ((Graph.numbers (s.graph.fanOut id))).Pairwise fun a b =>
      ∃ m n, a = some m ∧ b = some n ∧ m < n := by
    have ascending (n : Nat) : (List.range' 1 n).Pairwise (· < ·) := List.pairwise_lt_range'
    rw [dense.listed, List.pairwise_map]
    exact (ascending _).imp fun less => ⟨_, _, rfl, rfl, less⟩
  refine (List.pairwise_map.1 counted).imp fun {e f} holds => ?_
  obtain ⟨m, n, first, second, less⟩ := holds
  obtain ⟨m, hm, rfl⟩ := Option.map_eq_some_iff.1 first
  obtain ⟨n, hn, rfl⟩ := Option.map_eq_some_iff.1 second
  exact ⟨m, n, hm, hn, UInt32.lt_iff_toNat_lt.2 less⟩

theorem Sound.follows (sound : s.Sound path) (id : String) :
    (s.compileWith registry).Follows id (s.graph.fanOutTargets id) where
  nodup := sound.shaped.fanOutTargets_nodup id
  targets := (List.mergeSort_perm _ _).map Edge.target
  known a member := by
    rw [(sound.keys_compileWith registry a).2]
    exact sound.shaped.isKind_of_mem_fanOutTargets member
  inTurn bound := ⟨s.graph.fanOut id, List.mergeSort_perm _ _, rfl, sound.inTurn id bound⟩

theorem Sound.intact (sound : s.Sound path) (registry : Registry) :
    (s.compileWith registry).Intact := by
  have ids := sound.shaped.ids
  have nodes (kind : Node.Kind) : ((s.graph.nodesOf kind).map (·.id)).Nodup :=
    ids.sublist (List.filter_sublist.map _)
  have sequence : (s.compileWith registry).sequence = path := sound.shaped.chainedConditions_eq
  have saved : (s.compileWith registry).savedGraph = s.graph := rfl
  refine ⟨?_, ?_, ?_, ?_, ?_, ?_⟩
  · rw [sequence]
    exact sound.shaped.nodup
  · rw [sequence, List.perm_ext_iff_of_nodup sound.shaped.nodup (Dict.keys_nodup _)]
    intro id
    rw [sound.shaped.conditions, (sound.keys_compileWith registry id).1]
  · intro id c found
    exact (get?_compileWith_conditions found).1
  · rw [saved, List.perm_ext_iff_of_nodup (Dict.keys_nodup _) (nodes .condition)]
    intro id
    rw [(sound.keys_compileWith registry id).1]
    exact (Graph.mem_nodesOf_iff ids .condition id).symm
  · rw [saved, List.perm_ext_iff_of_nodup (Dict.keys_nodup _) (nodes .action)]
    intro id
    rw [(sound.keys_compileWith registry id).2]
    exact (Graph.mem_nodesOf_iff ids .action id).symm
  · intro id c found
    rw [(get?_compileWith_conditions found).2]
    exact sound.follows id

theorem Sound.compileWith_of_perm (sound : s.Sound path) (registry : Registry)
    (bound : ∀ id, (s.graph.edges.filter (Graph.isFanOut id)).length < UInt32.size) {g : Graph}
    (nodes : g.nodes.Perm s.graph.nodes) (edges : g.edges.Perm s.graph.edges) :
    { s with graph := g }.compileWith registry =
      { s.compileWith registry with nodes := g.nodes, edges := g.edges } := by
  have kinds (kind : Node.Kind) : g.isKind kind = s.graph.isKind kind :=
    funext (Graph.isKind_of_perm sound.shaped.ids nodes kind)
  have targets : g.fanOutTargets = s.graph.fanOutTargets := by
    funext id
    rw [Graph.fanOutTargets, Graph.fanOutTargets,
      (sound.numbered id).fanOut_of_perm (bound id) edges]
  have chain : g.chainedConditions = s.graph.chainedConditions := by
    rw [(sound.shaped.of_perm nodes edges).chainedConditions_eq, sound.shaped.chainedConditions_eq]
  simp only [compileWith, kinds, targets, chain]

end Strategy

namespace Editor

/-- The payload of a reachable strategy refers to itself in full, and rests on the order of nodes
and edges nowhere but in the lists of these. -/
theorem Reachable.payload_intact {e : Editor} {s : Strategy} (reachable : e.Reachable s)
    (registry : Registry) :
    (s.compileWith registry).Intact ∧
      ((∀ id, (s.graph.edges.filter (Graph.isFanOut id)).length < UInt32.size) →
        ∀ g : Graph, g.nodes.Perm s.graph.nodes → g.edges.Perm s.graph.edges →
          { s with graph := g }.compileWith registry =
            { s.compileWith registry with nodes := g.nodes, edges := g.edges }) := by
  have sound := reachable.sound
  exact ⟨sound.intact registry, fun bound _ => sound.compileWith_of_perm registry bound⟩

theorem draft_payload_intact :
    standard.Reachable draft ∧ (draft.compileWith (draft.catalog.registry)).Intact ∧
      (∀ id, (draft.graph.edges.filter (Graph.isFanOut id)).length < UInt32.size) ∧
      { draft with graph := ⟨draft.graph.nodes.reverse, draft.graph.edges.reverse⟩ }.compileWith
          draft.catalog.registry =
        { draft.compileWith draft.catalog.registry with
          nodes := draft.graph.nodes.reverse, edges := draft.graph.edges.reverse } := by
  obtain ⟨intact, permuted⟩ := Reachable.payload_intact reachable_draft draft.catalog.registry
  exact ⟨reachable_draft, intact, few_edges_draft,
    permuted few_edges_draft _ (List.reverse_perm _) (List.reverse_perm _)⟩

end Editor

end TradingStrategy
