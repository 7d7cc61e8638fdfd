import TradingStrategy.Proofs.Reachable

set_option autoImplicit false

namespace TradingStrategy

namespace Graph

def linksOutOf (g : Graph) (id : String) : List Edge :=
  g.edges.filter fun e => e.isCondition && e.source == id

def linksInto (g : Graph) (id : String) : List Edge :=
  g.edges.filter fun e => e.isCondition && e.target == id

def IsLink (g : Graph) (e : Edge) : Prop :=
  ∃ u v, e = .condition u v ∧ (g.isKind .start u = true ∨ g.isKind .condition u = true) ∧
    g.isKind .condition v = true

def IsFan (g : Graph) (e : Edge) : Prop :=
  ∃ u v w, e = (Edge.action u v).setSequence w ∧ g.isKind .condition u = true ∧
    g.isKind .action v = true

structure WellFormed (g : Graph) : Prop where
  ids : (g.nodes.map (·.id)).Nodup
  start : (g.nodesOf .start).map (·.id) = [startId]
  chainNodup : g.chainedConditions.Nodup
  chainAll : g.chainedConditions.Perm ((g.nodesOf .condition).map (·.id))
  path : (g.edges.filter Edge.isCondition).Perm (Edge.links startId g.chainedConditions)
  outOfStart : (g.linksOutOf startId).length = if g.nodesOf .condition = [] then 0 else 1
  intoStart : g.linksInto startId = []
  outOfCondition : ∀ id, g.isKind .condition id = true → (g.linksOutOf id).length ≤ 1
  intoCondition : ∀ id, g.isKind .condition id = true → (g.linksInto id).length = 1
  joins : ∀ e ∈ g.edges, g.contains e.source = true ∧ g.contains e.target = true
  drawn : ∀ e ∈ g.edges, g.IsLink e ∨ g.IsFan e
  ends : (g.edges.map Edge.ends).Nodup
  edgeIds : (g.edges.map Edge.id).Nodup

theorem length_filter_isCondition (edges : List Edge) (key : Edge → String) (id : String) :
    (edges.filter fun e => e.isCondition && key e == id).length =
      ((edges.filter Edge.isCondition).map key).count id := by
  rw [List.count, List.countP_map, List.countP_filter, List.countP_eq_length_filter]
  simp only [Function.comp_apply, Bool.and_comm]

theorem eq_setSequence {e : Edge} {n : UInt32} {u v : String} (action : e.isAction = true)
    (drawn : e.unnumbered = .action u v) (numbered : e.sequence = some n) :
    e = (Edge.action u v).setSequence n := by
  rw [← drawn, Edge.unnumbered, if_pos action]
  obtain ⟨id, source, target, sourceHandle, targetHandle, kind, data⟩ := e
  cases data with
  | none => simp [Edge.sequence] at numbered
  | some detail =>
    obtain ⟨sequence, sourceCondition⟩ := detail
    have same : sequence = some n := numbered
    simp [Edge.setSequence, same]

namespace Shaped

variable {g : Graph} {path : List String}

theorem length_linksOutOf (shaped : g.Shaped path) (id : String) :
    (g.linksOutOf id).length = (startId :: path).dropLast.count id := by
  rw [linksOutOf, length_filter_isCondition, (shaped.links.map Edge.source).count_eq,
    Edge.map_source_links]

theorem length_linksInto (shaped : g.Shaped path) (id : String) :
    (g.linksInto id).length = path.count id := by
  rw [linksInto, length_filter_isCondition, shaped.targets_perm.count_eq]

theorem path_perm (shaped : g.Shaped path) : path.Perm ((g.nodesOf .condition).map (·.id)) := by
  have nodup : ((g.nodesOf .condition).map (·.id)).Nodup :=
    shaped.ids.sublist ((List.filter_sublist).map _)
  rw [List.perm_ext_iff_of_nodup shaped.nodup nodup]
  intro id
  rw [shaped.conditions, mem_nodesOf_iff shaped.ids]

theorem length_outOfStart (shaped : g.Shaped path) :
    (g.linksOutOf startId).length = if g.nodesOf .condition = [] then 0 else 1 := by
  rw [shaped.length_linksOutOf]
  have lengths := shaped.path_perm.length_eq
  rw [List.length_map] at lengths
  cases path with
  | nil =>
    rw [if_pos (List.eq_nil_of_length_eq_zero lengths.symm)]
    rfl
  | cons v rest =>
    have some : g.nodesOf .condition ≠ [] := by
      intro none
      simp [none] at lengths
    have nodup := shaped.nodup_from_start.sublist (List.dropLast_sublist _)
    rw [if_neg some]
    exact List.count_eq_one_of_mem nodup (by simp)

theorem isLink_or_isFan (shaped : g.Shaped path) (numbered : ∀ c, g.Numbered c) {e : Edge}
    (member : e ∈ g.edges) : g.IsLink e ∨ g.IsFan e := by
  by_cases action : e.isAction = true
  · obtain ⟨drawn, source, target⟩ := shaped.fans e member action
    have fans : isFanOut e.source e = true := by simp [isFanOut, action]
    obtain ⟨n, sequence⟩ := (numbered e.source).exists_sequence member fans
    exact .inr ⟨e.source, e.target, n, eq_setSequence action drawn sequence,
      (shaped.conditions _).1 source, target⟩
  · have condition : e.isCondition = true := by simp [Edge.isCondition_eq_not_isAction, action]
    obtain ⟨drawn, target⟩ := shaped.eq_condition member condition
    refine .inl ⟨e.source, e.target, drawn, ?_, (shaped.conditions _).1 target⟩
    rcases List.mem_cons.1 (shaped.source_mem member) with start | source
    · exact .inl (start ▸ shaped.isKind_start)
    · exact .inr ((shaped.conditions _).1 source)

theorem joins (shaped : g.Shaped path) {e : Edge} (member : e ∈ g.edges) :
    g.contains e.source = true ∧ g.contains e.target = true := by
  have listed {id : String} (inside : id ∈ path) : g.contains id = true :=
    contains_of_isKind ((shaped.conditions id).1 inside)
  constructor
  · rcases List.mem_cons.1 (shaped.source_mem member) with start | source
    · exact start ▸ contains_of_isKind shaped.isKind_start
    · exact listed source
  · by_cases action : e.isAction = true
    · exact contains_of_isKind (shaped.fans e member action).2.2
    · have condition : e.isCondition = true := by simp [Edge.isCondition_eq_not_isAction, action]
      exact listed (shaped.eq_condition member condition).2

-- Links lead to conditions, each to another; fan-outs lead to actions.
theorem ends_nodup (shaped : g.Shaped path) : (g.edges.map Edge.ends).Nodup := by
  have parts : g.edges.Perm (g.edges.filter Edge.isCondition ++ g.edges.filter Edge.isAction) := by
    have opposite : Edge.isAction = fun e => !e.isCondition := by
      funext e
      simp [Edge.isCondition_eq_not_isAction]
    rw [opposite]
    exact (List.filter_append_perm _ _).symm
  have targets : ((g.edges.filter Edge.isCondition).map Edge.target).Nodup :=
    shaped.targets_perm.nodup_iff.2 shaped.nodup
  rw [(parts.map Edge.ends).nodup_iff, List.map_append, List.nodup_append]
  refine ⟨?_, shaped.fansOnce, ?_⟩
  -- No two links have the same target.
  · have mapped : ((g.edges.filter Edge.isCondition).map Edge.ends).map Prod.snd =
        (g.edges.filter Edge.isCondition).map Edge.target := by
      rw [List.map_map]
      rfl
    exact List.Nodup.of_map Prod.snd (mapped ▸ targets)
  · intro link inside fan outside same
    obtain ⟨e, member, rfl⟩ := List.mem_map.1 inside
    obtain ⟨other, otherMember, rfl⟩ := List.mem_map.1 outside
    obtain ⟨inEdges, condition⟩ := List.mem_filter.1 member
    obtain ⟨otherInEdges, action⟩ := List.mem_filter.1 otherMember
    have target : e.target = other.target := congrArg Prod.snd same
    exact shaped.target_not_mem otherInEdges action
      (target ▸ (shaped.eq_condition inEdges condition).2)

theorem edgeIds_nodup (shaped : g.Shaped path) : (g.edges.map Edge.id).Nodup := by
  have ends := shaped.ends_nodup
  rw [List.Nodup, List.pairwise_map] at ends ⊢
  exact ends.imp_of_mem fun memberA memberB apart same =>
    apart (shaped.ends_eq_of_id_eq memberA memberB same)

theorem wellFormed (shaped : g.Shaped path) (numbered : ∀ c, g.Numbered c) : g.WellFormed where
  ids := shaped.ids
  start := shaped.start
  chainNodup := by
    rw [shaped.chainedConditions_eq]
    exact shaped.nodup
  chainAll := by
    rw [shaped.chainedConditions_eq]
    exact shaped.path_perm
  path := by
    rw [shaped.chainedConditions_eq]
    exact shaped.links
  outOfStart := shaped.length_outOfStart
  intoStart := by
    apply List.eq_nil_of_length_eq_zero
    rw [shaped.length_linksInto]
    exact List.count_eq_zero_of_not_mem shaped.startId_not_mem
  outOfCondition id _ := by
    rw [shaped.length_linksOutOf]
    exact List.nodup_iff_count_le_one.1
      (shaped.nodup_from_start.sublist (List.dropLast_sublist _)) id
  intoCondition id condition := by
    rw [shaped.length_linksInto]
    exact List.count_eq_one_of_mem shaped.nodup ((shaped.conditions id).2 condition)
  joins _ member := shaped.joins member
  drawn _ member := shaped.isLink_or_isFan numbered member
  ends := shaped.ends_nodup
  edgeIds := shaped.edgeIds_nodup

end Shaped

end Graph

structure Strategy.WellFormed (s : Strategy) : Prop where
  graph : s.graph.WellFormed
  conditions : ∀ id, s.conditions.contains id = s.graph.isKind .condition id
  actions : ∀ id, s.actions.contains id = s.graph.isKind .action id

namespace Editor

theorem Reachable.strategy_wellFormed {e : Editor} {s : Strategy} (reachable : e.Reachable s) :
    s.WellFormed := by
  have sound := reachable.sound
  exact ⟨sound.shaped.wellFormed sound.numbered, sound.conditions, sound.actions⟩

theorem draft_wellFormed : draft.WellFormed := reachable_draft.strategy_wellFormed

end Editor

end TradingStrategy
