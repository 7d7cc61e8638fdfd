import TradingStrategy.Proofs.Reachable

set_option autoImplicit false

namespace TradingStrategy

namespace Graph

def numbers (edges : List Edge) : List (Option Nat) :=
  edges.map fun e => e.sequence.map UInt32.toNat

def NotBelow (g : Graph) (a b : String) : Prop :=
  ∃ p q, g.node? a = some p ∧ g.node? b = some q ∧ p.position.y.rank ≤ q.position.y.rank

structure Dense (g : Graph) (condition : String) : Prop where
  once : (numbers (g.edges.filter (isFanOut condition))).Perm
    ((List.range' 1 (g.edges.filter (isFanOut condition)).length).map some)
  listed : numbers (g.fanOut condition) =
    (List.range' 1 (g.edges.filter (isFanOut condition)).length).map some
  descending : (g.fanOut condition).Pairwise fun a b => g.NotBelow a.target b.target

theorem notBelow_iff {g : Graph} {a b : String} (foundA : g.contains a = true)
    (foundB : g.contains b = true) : g.NotBelow a b ↔ g.lower a b = true := by
  obtain ⟨p, nodeA⟩ := Option.isSome_iff_exists.1 foundA
  obtain ⟨q, nodeB⟩ := Option.isSome_iff_exists.1 foundB
  simp [NotBelow, lower, height, nodeA, nodeB]

theorem map_toNat_counting {n : Nat} (bound : n < UInt32.size) :
    ((List.range n).map fun k => some (UInt32.ofNat (k + 1))).map (·.map UInt32.toNat) =
      (List.range' 1 n).map some := by
  rw [List.range'_eq_map_range, List.map_map, List.map_map]
  apply List.map_congr_left
  intro k member
  have small : k + 1 < UInt32.size := by
    rw [List.mem_range] at member
    omega
  change some (UInt32.ofNat (k + 1)).toNat = some (1 + k)
  rw [UInt32.toNat_ofNat_of_lt' small, Nat.add_comm]

theorem Shaped.dense {g : Graph} {path : List String} {condition : String}
    (shaped : g.Shaped path) (numbered : g.Numbered condition)
    (bound : (g.edges.filter (isFanOut condition)).length < UInt32.size) : g.Dense condition := by
  have listed : numbers (g.fanOut condition) =
      (List.range' 1 (g.edges.filter (isFanOut condition)).length).map some := by
    have sequences := (numbered.fanOut_eq (g.length_fanOut condition ▸ bound)).1
    rw [length_fanOut] at sequences
    rw [← map_toNat_counting bound, ← sequences, List.map_map]
    rfl
  have sorted : (g.fanOut condition).Perm (g.edges.filter (isFanOut condition)) :=
    List.mergeSort_perm _ _
  refine ⟨?_, listed, ?_⟩
  · rw [← listed]
    exact (sorted.map _).symm
  · have ascending := (numbered.fanOut_eq (g.length_fanOut condition ▸ bound)).2
    rw [fanOutTargets, List.pairwise_map] at ascending
    refine ascending.imp_of_mem fun {a b} memberA memberB lower => ?_
    have found (e : Edge) (member : e ∈ g.fanOut condition) : g.contains e.target = true := by
      obtain ⟨inside, fans⟩ := List.mem_filter.1 (sorted.mem_iff.1 member)
      exact shaped.fansWithin condition e inside fans
    exact (notBelow_iff (found a memberA) (found b memberB)).2 lower

end Graph

namespace Graph

theorem length_edges_numberFanOuts (g : Graph) (conditions : List String) :
    (g.numberFanOuts conditions).edges.length = g.edges.length := by
  have lengths := congrArg List.length (map_unnumbered_numberFanOuts (g := g) conditions)
  simpa using lengths

theorem length_edges_removeNode_le (g : Graph) (id : String) :
    (g.removeNode id).edges.length ≤ g.edges.length := List.length_filter_le _ _

theorem length_edges_removeNode_lt {g : Graph} {id : String} {e : Edge} (member : e ∈ g.edges)
    (touches : e.touches id = true) : (g.removeNode id).edges.length < g.edges.length := by
  rw [removeNode, List.length_filter_lt_length_iff_exists]
  exact ⟨e, member, by simp [touches]⟩

end Graph

namespace Strategy

variable {s t : Strategy} {path : List String}

theorem length_edges_deleteAction_le (s : Strategy) (id : String) :
    (s.deleteAction id).graph.edges.length ≤ s.graph.edges.length := by
  rw [deleteAction, Graph.length_edges_numberFanOuts]
  exact s.graph.length_edges_removeNode_le id

-- The link that closes the gap comes in for at least one that falls away.
theorem length_edges_deleteCondition_le (s : Strategy) (id : String) :
    (s.deleteCondition id).graph.edges.length ≤ s.graph.edges.length := by
  simp only [deleteCondition]
  split
  next before _ entering _ =>
    have target : before.target = id := by
      have holds := List.find?_some entering
      simp only [Bool.and_eq_true, beq_iff_eq] at holds
      exact holds.2
    have touches : before.touches id = true := by simp [Edge.touches, target]
    -- The link into the condition is one that falls away.
    have fewer := Graph.length_edges_removeNode_lt (List.mem_of_find?_eq_some entering) touches
    rw [Graph.addEdge, List.length_append]
    exact fewer
  next => exact s.graph.length_edges_removeNode_le id

theorem length_edges_foldl_deleteNode_le (s : Strategy) (ids : List String) :
    (ids.foldl deleteNode s).graph.edges.length ≤ s.graph.edges.length := by
  induction ids generalizing s with
  | nil => exact Nat.le_refl _
  | cons id rest ih =>
    refine (ih (s.deleteNode id)).trans ?_
    unfold deleteNode
    split
    next => exact Nat.le_refl _
    next =>
      split
      next => exact s.length_edges_deleteAction_le id
      next => exact s.length_edges_deleteCondition_le id
      next => exact Nat.le_refl _

theorem length_edges_moveNode (s : Strategy) (id : String) (p : Position) :
    (s.moveNode id p).graph.edges.length = s.graph.edges.length := by
  simp only [moveNode]
  split
  next => rfl
  next =>
    split
    next => rw [Graph.length_edges_numberFanOuts, Graph.edges_setPosition]
    next => rw [Graph.edges_setPosition]

theorem Sound.length_edges_effect_le (sound : s.Sound path) {e : Editor} {created : Option String}
    {command : Command} (effect : e.Effect s t created command) :
    t.graph.edges.length ≤ s.graph.edges.length + 1 := by
  cases command with
  | insertCondition =>
    obtain ⟨tail, _, ⟨_, rfl, _⟩ | ⟨_, id, block, _, _, rfl, _⟩⟩ := effect
    · exact Nat.le_succ _
    · exact Nat.le_of_eq List.length_append
  | insertAction =>
    obtain ⟨id, _, _, rfl, _⟩ := effect
    exact Nat.le_succ _
  | connect condition action =>
    obtain ⟨_, _, _, rfl⟩ := connect_ok effect
    refine Nat.le_of_eq ((Graph.length_edges_numberFanOuts _ [condition]).trans ?_)
    exact List.length_append
  | disconnect =>
    rcases disconnect_ok effect with ⟨_, rfl⟩ | ⟨x, _, _, _, _, rfl⟩
    · exact Nat.le_succ _
    · refine (Nat.le_of_eq (Graph.length_edges_numberFanOuts _ [x.source])).trans ?_
      exact (List.length_filter_le _ _).trans (Nat.le_succ _)
  | deleteNodes ids =>
    rw [sound.deleteNodes_eq effect]
    exact (s.length_edges_foldl_deleteNode_le ids).trans (Nat.le_succ _)
  | swapConditions =>
    obtain ⟨_, _, _, _, _, _, _, rfl⟩ := swapConditions_eq_ok_iff.1 effect
    exact (Nat.le_of_eq (List.length_map _)).trans (Nat.le_succ _)
  | moveNode id position =>
    rw [show t = s.moveNode id position from effect, length_edges_moveNode]
    exact Nat.le_succ _
  | _ =>
    rw [show t.graph = s.graph from SameFrame.graph effect]
    exact Nat.le_succ _

end Strategy

namespace Editor

theorem length_edges_session_le {e : Editor} {s : Strategy} {path : List String}
    (sound : s.Sound path) (commands : List Command) (source : IdSource) :
    (e.session s commands source).graph.edges.length ≤ s.graph.edges.length + commands.length := by
  induction commands generalizing s path source with
  | nil => exact Nat.le_refl _
  | cons command rest ih =>
    rw [session, List.length_cons]
    rcases e.apply_cases s command source with ⟨_, same⟩ | ⟨created, _, effect⟩
    · rw [same]
      exact (ih sound _).trans (by omega)
    · have grown := sound.length_edges_effect_le effect
      exact (ih (sound.effect effect) _).trans (by omega)

-- A command adds at most one edge, so the numbers fit in any session that is not itself too long.
theorem length_fanOut_session_lt (e : Editor) (name : String) {commands : List Command}
    (short : commands.length < UInt32.size) (source : IdSource) (condition : String) :
    ((e.session (e.initial name) commands source).graph.edges.filter
      (Graph.isFanOut condition)).length < UInt32.size := by
  have edges := length_edges_session_le (e := e) (.initial name e.layout.start) commands source
  have none : (Strategy.initial name e.layout.start).graph.edges.length = 0 := rfl
  refine Nat.lt_of_le_of_lt (List.length_filter_le _ _) (Nat.lt_of_le_of_lt edges ?_)
  omega

theorem Reachable.fanOut_dense {e : Editor} {s : Strategy} (reachable : e.Reachable s)
    (condition : String)
    (bound : (s.graph.edges.filter (Graph.isFanOut condition)).length < UInt32.size) :
    s.graph.Dense condition :=
  reachable.sound.shaped.dense (reachable.sound.numbered condition) bound

theorem few_edges_draft (condition : String) :
    (draft.graph.edges.filter (Graph.isFanOut condition)).length < UInt32.size := by
  have edges : draft.graph.edges.length < UInt32.size := by
    rw [draft_eq]
    decide +kernel
  exact Nat.lt_of_le_of_lt (List.length_filter_le _ _) edges

-- In the order of the edges the numbers are 2 and 1.
theorem draft_dense :
    draft.graph.Dense "condition_00000000" ∧
      (draft.graph.edges.filter (Graph.isFanOut "condition_00000000")).map
          (fun e => (e.target, e.sequence)) =
        [("action_00000007", some 2), ("action_00000006", some 1)] := by
  refine ⟨reachable_draft.fanOut_dense _ (few_edges_draft _), ?_⟩
  rw [draft_eq]
  decide +kernel

end Editor

end TradingStrategy
