import TradingStrategy.Proofs.FanOutRefinement
import TradingStrategy.Proofs.WellFormed

set_option autoImplicit false

namespace TradingStrategy

open TradingStrategy.Graph (isFanOut)
open TradingStrategy.Strategy (exchanged)

namespace Edge

def Restamped (condition : String) (e f : Edge) : Prop :=
  f = e ∨ isFanOut condition e = true ∧ ∃ n, f = e.setSequence n

theorem Restamped.trans {condition : String} {e f g : Edge} (first : Restamped condition e f)
    (second : Restamped condition f g) : Restamped condition e g := by
  rcases first with rfl | ⟨fans, n, rfl⟩
  · exact second
  · rcases second with rfl | ⟨_, m, rfl⟩
    · exact .inr ⟨fans, n, rfl⟩
    · exact .inr ⟨fans, m, rfl⟩

theorem setSequence_of_sequence {e : Edge} {n : UInt32} (numbered : e.sequence = some n) :
    e.setSequence n = e := by
  obtain ⟨id, source, target, sourceHandle, targetHandle, kind, data⟩ := e
  cases data with
  | none => simp [sequence] at numbered
  | some detail =>
    obtain ⟨sequence, sourceCondition⟩ := detail
    obtain rfl : sequence = some n := numbered
    rfl

end Edge

section Pairs

variable {α : Type} {R : α → α → Prop} {xs ys zs : List α} {x : α}

theorem forall₂_trans (trans : ∀ a b c, R a b → R b c → R a c) (first : List.Forall₂ R xs ys)
    (second : List.Forall₂ R ys zs) : List.Forall₂ R xs zs := by
  induction first generalizing zs with
  | nil => exact second
  | cons head _ ih =>
    cases second with
    | cons next rest => exact .cons (trans _ _ _ head next) (ih rest)

theorem forall₂_concat (each : List.Forall₂ R (xs ++ [x]) zs) :
    ∃ ys y, zs = ys ++ [y] ∧ List.Forall₂ R xs ys ∧ R x y := by
  induction xs generalizing zs with
  | nil =>
    cases each with
    | cons last rest =>
      cases rest
      exact ⟨[], _, rfl, .nil, last⟩
  | cons first others ih =>
    cases each with
    | cons head rest =>
      obtain ⟨ys, y, rfl, pairs, last⟩ := ih rest
      exact ⟨_ :: ys, y, rfl, .cons head pairs, last⟩

end Pairs

namespace Graph

variable {g h : Graph} {path : List String} {condition : String}

theorem restamped_numberFanOut (g : Graph) (condition : String) :
    List.Forall₂ (Edge.Restamped condition) g.edges (g.numberFanOut condition).edges := by
  have pairs : List.Forall₂ (Edge.Restamped condition) (g.edges.zipIdx.map Prod.fst)
      (g.edges.zipIdx.map (g.renumber condition)) := by
    rw [List.forall₂_map_left_iff, List.forall₂_map_right_iff, List.forall₂_same]
    intro e member
    by_cases ranked : g.isRanked condition e.1 = true
    · rcases g.renumber_cases condition e with same | numbered
      · exact .inl same
      · exact .inr ⟨(isRanked_iff.1 ranked).1, numbered⟩
    · exact .inl (renumber_of_not_ranked member (by simpa using ranked))
  rw [List.zipIdx_map_fst] at pairs
  rw [numberFanOut_eq]
  exact pairs

-- The number of an edge tells the place of its target in the list, and the other way round.
theorem Numbered.sequence_eq (numbered : g.Numbered condition)
    (nodup : (g.fanOutTargets condition).Nodup)
    (bound : (g.fanOutTargets condition).length < UInt32.size) {e : Edge} (member : e ∈ g.edges)
    (fans : isFanOut condition e = true) :
    e.sequence = some (UInt32.ofNat ((g.fanOutTargets condition).idxOf e.target + 1)) := by
  rw [length_fanOutTargets] at bound
  have listed : e ∈ g.fanOut condition := by
    rw [fanOut, List.mem_mergeSort, List.mem_filter]
    exact ⟨member, fans⟩
  obtain ⟨i, inside, rfl⟩ := List.getElem_of_mem listed
  have place : (g.fanOutTargets condition).idxOf (g.fanOut condition)[i].target = i := by
    have listedTarget : i < (g.fanOutTargets condition).length := by
      rwa [length_fanOutTargets]
    have atI : (g.fanOutTargets condition)[i] = (g.fanOut condition)[i].target :=
      List.getElem_map _
    rw [← atI]
    exact nodup.idxOf_getElem i _
  have sequences := congrArg (·[i]?) (numbered.fanOut_eq bound).1
  simpa [inside, place] using sequences

-- The numbers are those of the targets, so the same list of targets makes the same graph.
theorem eq_of_restamped (each : List.Forall₂ (Edge.Restamped condition) g.edges h.edges)
    (nodes : h.nodes = g.nodes) (numbered : g.Numbered condition)
    (numberedAfter : h.Numbered condition)
    (targets : h.fanOutTargets condition = g.fanOutTargets condition)
    (nodup : (g.fanOutTargets condition).Nodup)
    (bound : (g.fanOutTargets condition).length < UInt32.size) : h = g := by
  obtain ⟨lengths, pairs⟩ := List.forall₂_iff_zip.1 each
  have equal : List.Forall₂ (· = ·) g.edges h.edges := by
    refine List.forall₂_iff_zip.2 ⟨lengths, fun {e f} pair => ?_⟩
    obtain ⟨member, memberAfter⟩ := List.of_mem_zip pair
    rcases pairs pair with rfl | ⟨fans, n, rfl⟩
    · rfl
    · have before := numbered.sequence_eq nodup bound member fans
      have after := numberedAfter.sequence_eq (targets ▸ nodup) (targets ▸ bound) memberAfter fans
      rw [targets, Edge.target_setSequence, ← before, Edge.sequence_setSequence] at after
      exact (Edge.setSequence_of_sequence after.symm).symm
  rw [List.forall₂_eq_eq_eq] at equal
  obtain ⟨_, _⟩ := h
  obtain rfl : _ = g.nodes := nodes
  obtain rfl : g.edges = _ := equal
  rfl

theorem edge?_of_mem (ids : (g.edges.map Edge.id).Nodup) {e : Edge} (member : e ∈ g.edges) :
    g.edge? e.id = some e := find?_of_nodup ids member

theorem edges_cut_concat {kept : List Edge} {last : Edge} (edges : g.edges = kept ++ [last])
    (ids : (g.edges.map Edge.id).Nodup) : (g.cut last.id).edges = kept := by
  rw [edges, List.map_append, List.nodup_append] at ids
  rw [cut, edges, List.filter_append, List.filter_eq_self.2, List.filter_cons_of_neg (by simp),
    List.filter_nil, List.append_nil]
  intro e member
  have apart := ids.2.2 e.id (List.mem_map_of_mem member) last.id List.mem_cons_self
  simpa using apart

namespace Shaped

theorem untouched (shaped : g.Shaped path) {id : String} (fresh : g.contains id = false) :
    g.edges.filter (fun e => !e.touches id) = g.edges := by
  rw [List.filter_eq_self]
  intro e member
  obtain ⟨source, target⟩ := shaped.joins member
  have notSource : e.source ≠ id := by
    rintro rfl
    rw [source] at fresh
    contradiction
  have notTarget : e.target ≠ id := by
    rintro rfl
    rw [target] at fresh
    contradiction
  simp [Edge.touches, notSource, notTarget]

theorem removeNode_added (shaped : g.Shaped path) {n : Node} (fresh : g.contains n.id = false)
    (added : List Edge) (around : ∀ e ∈ added, e.touches n.id = true) :
    (⟨g.nodes ++ [n], g.edges ++ added⟩ : Graph).removeNode n.id = g := by
  have nodes : (g.nodes ++ [n]).filter (·.id != n.id) = g.nodes := by
    have absent : n.id ∉ g.nodes.map (·.id) := by
      rw [← contains_iff, fresh]
      decide
    rw [List.filter_append, List.filter_eq_self.2, List.filter_cons_of_neg (by simp),
      List.filter_nil, List.append_nil]
    intro m member
    have apart : m.id ≠ n.id := fun same => absent (same ▸ List.mem_map_of_mem member)
    simpa using apart
  have edges : (g.edges ++ added).filter (fun e => !e.touches n.id) = g.edges := by
    rw [List.filter_append, shaped.untouched fresh, List.filter_eq_nil_iff.2, List.append_nil]
    intro e member
    simp [around e member]
  rw [Graph.removeNode, nodes, edges]

end Shaped

end Graph

namespace Strategy

variable {s t : Strategy} {path : List String}

theorem Sound.deleteNodes_singleton (sound : s.Sound path) {id : String}
    (plain : t.graph.isKind .start id = false) (gone : t.deleteNode id = s) :
    t.deleteNodes [id] = .ok s := by
  have allowed : ¬ [id].any (t.graph.isKind .start) = true := by simp [plain]
  rw [Strategy.deleteNodes, if_neg allowed, List.foldl_cons, List.foldl_nil, gone]
  simp only [linkStart_eq sound.shaped]

theorem Sound.undo_insertCondition (sound : s.Sound path) (e : Editor) {tail : Node} {id : String}
    (last : s.graph.tail? = some tail) (free : s.usesNodeId id = false)
    (drawn : IdSource.Drawn "condition" id) (block : Block) :
    (e.withCondition s tail id block).deleteNodes [id] = .ok s := by
  obtain ⟨fresh, unconditioned, _⟩ := usesNodeId_eq_false_iff.1 free
  have shaped := (sound.withCondition e last free drawn block).shaped
  have kind : (e.withCondition s tail id block).graph.isKind .condition id = true :=
    (shaped.conditions id).1 (by simp)
  refine sound.deleteNodes_singleton (Graph.isKind_eq_false kind (by decide)) ?_
  obtain ⟨n, found, condition⟩ := Graph.isKind_iff.1 kind
  -- It was put at the end, so there is nothing that the one before it is linked to.
  have outgoing : (e.withCondition s tail id block).graph.outgoing? id = none := by
    have after := shaped.outgoing?_last
    rwa [List.getLastD_concat] at after
  have graph : (e.withCondition s tail id block).graph.removeNode id = s.graph :=
    sound.shaped.removeNode_added (n := ⟨id, .condition, _⟩) fresh [.condition tail.id id]
      (by simp [Edge.touches])
  have contents : (e.withCondition s tail id block).conditions.erase id = s.conditions :=
    Dict.erase_insert unconditioned _
  simp only [Strategy.deleteNode, found, condition, Strategy.deleteCondition,
    shaped.incoming?_inner, outgoing, graph, contents]
  rfl

theorem Sound.undo_insertAction (sound : s.Sound path) (e : Editor) (via : Option String)
    {id : String} (free : s.usesNodeId id = false) :
    (e.withAction s via id).deleteNodes [id] = .ok s := by
  obtain ⟨fresh, _, unacted⟩ := usesNodeId_eq_false_iff.1 free
  have kind : (e.withAction s via id).graph.isKind .action id = true := by
    rw [← (sound.withAction e via free).actions]
    simp [Editor.withAction, Dict.contains_insert]
  refine sound.deleteNodes_singleton (Graph.isKind_eq_false kind (by decide)) ?_
  obtain ⟨n, found, action⟩ := Graph.isKind_iff.1 kind
  have feeders : (e.withAction s via id).graph.feeders id = [] := by
    rw [List.eq_nil_iff_forall_not_mem]
    intro condition feeds
    have fed : condition ∈ s.graph.feeders id := feeds
    have target := sound.shaped.isKind_of_mem_fanOutTargets (Graph.mem_feeders.1 fed)
    rw [Graph.isKind_of_not_contains fresh] at target
    contradiction
  have graph : (e.withAction s via id).graph.removeNode id = s.graph := by
    have removed := sound.shaped.removeNode_added
      (n := ⟨id, .action, e.actionPosition s.graph via⟩) fresh [] (by simp)
    rwa [List.append_nil] at removed
  have contents : (e.withAction s via id).actions.erase id = s.actions :=
    Dict.erase_insert unacted _
  simp only [Strategy.deleteNode, found, action, Strategy.deleteAction, feeders, graph, contents]
  rfl

theorem disconnect_of_found {edge : String} {e : Edge} (found : s.graph.edge? edge = some e)
    (action : e.isAction = true) :
    s.disconnect edge = .ok { s with graph := (s.graph.cut edge).numberFanOut e.source } := by
  have plain : ¬ e.isCondition = true := by simp [Edge.isCondition_eq_not_isAction, action]
  simp only [disconnect, found, if_neg plain]
  rfl

-- The list is sorted without the action, so it is what is left of the longer one.
theorem Sound.filter_fanOutTargets_connect (sound : s.Sound path) {condition action : String}
    (done : s.connect condition action = .ok t)
    (bound : (s.graph.fanOutTargets condition).length + 1 < UInt32.size) :
    (t.graph.fanOutTargets condition).filter (· ≠ action) = s.graph.fanOutTargets condition := by
  obtain ⟨_, _, new, rfl⟩ := connect_ok done
  have absent : action ∉ s.graph.fanOutTargets condition := by
    intro member
    obtain ⟨e, inside, fans, target⟩ := Graph.mem_fanOutTargets.1 member
    have found := List.any_eq_false.1 new e inside
    simp [fans, target] at found
  have sorted := sound.sorted (Nat.lt_of_succ_lt bound)
  rw [fanOutTargets_connect sound done bound, StableSort.filter_mergeSort (Graph.lower_trans _)
    (Graph.lower_total _), List.filter_append, filter_ne_of_not_mem absent,
    List.filter_cons_of_neg (by simp), List.filter_nil, List.append_nil]
  exact List.mergeSort_of_pairwise sorted

-- The new edge comes last, and the rest are the old ones but for their numbers.
theorem edges_of_connect {condition action : String} (done : s.connect condition action = .ok t) :
    ∃ kept fan, t.graph.edges = kept ++ [fan] ∧
      List.Forall₂ (Edge.Restamped condition) s.graph.edges kept ∧
      fan.id = Edge.standardId condition action ∧ fan.isAction = true ∧
      fan.source = condition ∧ fan.target = action := by
  obtain ⟨_, _, _, rfl⟩ := connect_ok done
  have stamped := (s.graph.addEdge (.action condition action)).restamped_numberFanOut condition
  obtain ⟨kept, fan, edges, pairs, last⟩ := forall₂_concat stamped
  refine ⟨kept, fan, edges, pairs, ?_⟩
  rcases last with rfl | ⟨_, n, rfl⟩
  · exact ⟨rfl, rfl, rfl, rfl⟩
  · exact ⟨rfl, rfl, rfl, rfl⟩

theorem Sound.undo_connect (sound : s.Sound path) {condition action : String}
    (done : s.connect condition action = .ok t)
    (bound : (s.graph.fanOutTargets condition).length + 1 < UInt32.size) :
    t.disconnect (Edge.standardId condition action) = .ok s := by
  have soundAfter := sound.connect done
  have left := sound.filter_fanOutTargets_connect done bound
  have boundAfter : (t.graph.fanOutTargets condition).length < UInt32.size := by
    rw [fanOutTargets_connect sound done bound, List.length_mergeSort, List.length_append]
    exact bound
  obtain ⟨kept, fan, edges, pairs, name, isAction, source, target⟩ := edges_of_connect done
  have ids := soundAfter.shaped.edgeIds_nodup
  have found : t.graph.edge? fan.id = some fan := Graph.edge?_of_mem ids (by simp [edges])
  have disconnected := disconnect_of_found found isAction
  rw [source] at disconnected
  have targets := fanOutTargets_disconnect soundAfter found source disconnected boundAfter
  rw [target, left] at targets
  have renumbered := (t.graph.cut fan.id).restamped_numberFanOut condition
  rw [Graph.edges_cut_concat edges ids] at renumbered
  obtain ⟨_, _, _, made⟩ := connect_ok done
  have nodes : t.graph.nodes = s.graph.nodes := by
    rw [made]
    rfl
  -- The targets are those of before, and the numbers with them.
  have graph : (t.graph.cut fan.id).numberFanOut condition = s.graph :=
    Graph.eq_of_restamped (forall₂_trans (fun _ _ _ => Edge.Restamped.trans) pairs renumbered) nodes
      (sound.numbered condition) ((soundAfter.disconnect disconnected).numbered condition) targets
      (sound.shaped.fanOutTargets_nodup condition) (Nat.lt_of_succ_lt bound)
  rw [← name, disconnected, graph, made]

theorem Sound.ne_of_neighbours (sound : s.Sound path) {a b : String}
    (neighbours : [a, b] <:+: path ∨ [b, a] <:+: path) : a ≠ b := by
  rintro rfl
  have twice : [a, a] <:+: path := neighbours.elim id id
  have nodup := sound.shaped.nodup.sublist twice.sublist
  simp at nodup

theorem Sound.edges_exchanged_twice (sound : s.Sound path) (a b : String) :
    (s.graph.edges.map (Edge.exchange a b)).map (Edge.exchange a b) = s.graph.edges := by
  rw [List.map_map]
  refine (List.map_congr_left fun e member => ?_).trans (List.map_id _)
  by_cases action : e.isAction = true
  · simp [Edge.exchange_of_isAction action]
  · have condition : e.isCondition = true := by simp [Edge.isCondition_eq_not_isAction, action]
    rw [(sound.shaped.eq_condition member condition).1, Function.comp_apply,
      Edge.exchange_condition, Edge.exchange_condition, exchanged_exchanged, exchanged_exchanged]
    rfl

theorem Sound.repositioned_twice (sound : s.Sound path) {a b : String}
    {first second first' second' : Node}
    (distinct : a ≠ b) (nodes : t.graph.nodes = s.repositioned a b first second)
    (foundA : s.graph.node? a = some first) (foundB : s.graph.node? b = some second)
    (foundA' : t.graph.node? a = some first') (foundB' : t.graph.node? b = some second') :
    t.repositioned a b first' second' = s.graph.nodes := by
  obtain rfl := (Graph.node?_eq_some foundA).2
  obtain rfl := (Graph.node?_eq_some foundB).2
  have positionA : first'.position = second.position := by
    rw [Graph.node?, nodes, node?_repositioned, foundA, Option.map_some, if_pos rfl] at foundA'
    rw [← Option.some.inj foundA']
  have positionB : second'.position = first.position := by
    rw [Graph.node?, nodes, node?_repositioned, foundB, Option.map_some,
      if_neg distinct.symm, if_pos rfl] at foundB'
    rw [← Option.some.inj foundB']
  rw [repositioned, nodes, repositioned, List.map_map]
  refine (List.map_congr_left fun n member => ?_).trans (List.map_id _)
  have known := Graph.node?_of_mem sound.shaped.ids member
  by_cases atA : n.id = first.id
  · rw [atA, foundA] at known
    obtain rfl := Option.some.inj known
    simp [positionB]
  · by_cases atB : n.id = second.id
    · rw [atB, foundB] at known
      obtain rfl := Option.some.inj known
      simp [distinct.symm, positionA]
    · simp [atA, atB]

theorem Sound.undo_swapConditions (sound : s.Sound path) {a b : String}
    (done : s.swapConditions a b = .ok t) : t.swapConditions a b = .ok s := by
  have neighbours := sound.swappable_iff.1 ⟨t, done⟩
  have distinct := sound.ne_of_neighbours neighbours
  have image {u v : String} (next : [u, v] <:+: path) :
      [exchanged a b u, exchanged a b v] <:+: path.map (exchanged a b) := next.map _
  have neighboursAfter := (neighbours.imp image image).symm
  rw [show exchanged a b a = b by simp [exchanged],
    show exchanged a b b = a by simp [exchanged]] at neighboursAfter
  obtain ⟨u, again⟩ := (sound.swapConditions done).swappable_iff.2 neighboursAfter
  rw [again]
  obtain ⟨first, second, foundA, foundB, _, _, _, rfl⟩ := swapConditions_eq_ok_iff.1 done
  obtain ⟨first', second', foundA', foundB', _, _, _, rfl⟩ := swapConditions_eq_ok_iff.1 again
  rw [sound.repositioned_twice distinct rfl foundA foundB foundA' foundB',
    sound.edges_exchanged_twice]

end Strategy

end TradingStrategy
