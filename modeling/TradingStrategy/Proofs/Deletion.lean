import TradingStrategy.Proofs.GraphUndo

set_option autoImplicit false

namespace TradingStrategy

namespace Edge

variable {e f g : Edge}

def SameButNumber (e f : Edge) : Prop := f = e ∨ ∃ n, f = e.setSequence n

theorem SameButNumber.trans (first : e.SameButNumber f) (second : f.SameButNumber g) :
    e.SameButNumber g := by
  rcases first with rfl | ⟨n, rfl⟩
  · exact second
  · rcases second with rfl | ⟨m, rfl⟩
    · exact .inr ⟨n, rfl⟩
    · exact .inr ⟨m, rfl⟩

theorem SameButNumber.isAction_eq (same : e.SameButNumber f) : f.isAction = e.isAction := by
  rcases same with rfl | ⟨n, rfl⟩ <;> rfl

theorem SameButNumber.touches_eq (same : e.SameButNumber f) (id : String) :
    f.touches id = e.touches id := by
  rcases same with rfl | ⟨n, rfl⟩ <;> rfl

theorem Restamped.sameButNumber {condition : String} (restamped : Restamped condition e f) :
    e.SameButNumber f := restamped.imp_right And.right

theorem forall₂_sameButNumber_refl (es : List Edge) : List.Forall₂ SameButNumber es es :=
  List.forall₂_same.2 fun _ _ => .inl rfl

theorem forall₂_sameButNumber_filter {es fs : List Edge} {keep : Edge → Bool}
    (each : List.Forall₂ SameButNumber es fs)
    (same : ∀ e f, e.SameButNumber f → keep f = keep e) :
    List.Forall₂ SameButNumber (es.filter keep) (fs.filter keep) := by
  refine List.rel_filter (fun {e f} pair => ?_) each
  show keep e = true ↔ keep f = true
  rw [same e f pair]

end Edge

namespace Graph

variable {g h : Graph} {xs ys : List String}

theorem sameButNumber_numberFanOuts (conditions : List String) :
    List.Forall₂ Edge.SameButNumber g.edges (g.numberFanOuts conditions).edges := by
  induction conditions generalizing g with
  | nil => exact Edge.forall₂_sameButNumber_refl _
  | cons first rest ih =>
    have once := (g.restamped_numberFanOut first).imp fun _ _ => Edge.Restamped.sameButNumber
    exact forall₂_trans (fun _ _ _ => Edge.SameButNumber.trans) once ih

section Filtered

variable (nodes : h.nodes = g.nodes.filter (·.id ∉ xs))

include nodes

theorem node?_of_filter (id : String) : h.node? id = if id ∈ xs then none else g.node? id := by
  rw [node?, nodes, List.find?_filter]
  split
  next gone =>
    rw [List.find?_eq_none]
    intro n _
    simp only [decide_eq_true_eq, beq_iff_eq, not_and]
    intro kept same
    exact kept (same ▸ gone)
  next kept =>
    refine congrArg (List.find? · g.nodes) (funext fun n => ?_)
    by_cases same : n.id = id <;> simp [same, kept]

theorem isKind_of_filter (kind : Node.Kind) (id : String) :
    h.isKind kind id = if id ∈ xs then false else g.isKind kind id := by
  rw [isKind, node?_of_filter nodes]
  split <;> rfl

theorem contains_of_filter (id : String) :
    h.contains id = if id ∈ xs then false else g.contains id := by
  rw [contains, node?_of_filter nodes]
  split <;> rfl

end Filtered

/-- The edge keeps its ends when the nodes of these ids go; what is no node cannot go. -/
def spares (g : Graph) (ids : List String) (e : Edge) : Bool :=
  ids.all fun id => !(g.contains id && e.touches id)

theorem spares_iff {e : Edge} :
    g.spares xs e = true ↔ ∀ id ∈ xs, g.contains id = true → e.touches id = false := by
  simp only [spares, List.all_eq_true, Bool.not_eq_true', Bool.and_eq_false_imp]

theorem spares_of_sameButNumber (g : Graph) (ids : List String) (e f : Edge)
    (same : e.SameButNumber f) : g.spares ids f = g.spares ids e := by
  simp only [spares, same.touches_eq]

-- The second deletion meets only the nodes that the first one left.
theorem spares_append (nodes : h.nodes = g.nodes.filter (·.id ∉ xs)) (e : Edge) :
    (h.spares ys e && g.spares xs e) = g.spares (xs ++ ys) e := by
  rw [Bool.eq_iff_iff, Bool.and_eq_true, spares_iff, spares_iff, spares_iff]
  simp only [contains_of_filter nodes, List.mem_append]
  constructor
  · rintro ⟨second, first⟩ id listed known
    by_cases early : id ∈ xs
    · exact first id early known
    · exact second id (listed.resolve_left early) (by rwa [if_neg early])
  · intro both
    refine ⟨fun id late known => ?_, fun id early => both id (.inl early)⟩
    split at known
    next => contradiction
    next => exact both id (.inr late) known

theorem filter_spares_nil (edges : List Edge) : edges.filter (g.spares []) = edges :=
  List.filter_eq_self.2 fun _ _ => rfl

theorem filter_spares_unknown {id : String} (missing : g.contains id = false)
    (edges : List Edge) : edges.filter (g.spares [id]) = edges :=
  List.filter_eq_self.2 fun e _ => by simp [spares, missing]

theorem filter_isAction_removeNode {id : String} (known : g.contains id = true) :
    (g.removeNode id).edges.filter Edge.isAction =
      (g.edges.filter Edge.isAction).filter (g.spares [id]) := by
  rw [removeNode, List.filter_filter, List.filter_filter]
  apply List.filter_congr
  intro e _
  simp [spares, known, Bool.and_comm]

theorem nodes_removeNode (g : Graph) (id : String) :
    (g.removeNode id).nodes = g.nodes.filter (·.id ∉ [id]) := by
  apply List.filter_congr
  intro n _
  simp [bne, Bool.beq_eq_decide_eq]

end Graph

namespace Strategy

variable {s t u : Strategy} {xs ys : List String}

structure Deleted (s t : Strategy) (ids : List String) : Prop where
  nodes : t.graph.nodes = s.graph.nodes.filter (·.id ∉ ids)
  conditions : ∀ id, t.conditions.get? id =
    if id ∈ ids ∧ s.graph.isKind .condition id = true then none else s.conditions.get? id
  actions : ∀ id, t.actions.get? id =
    if id ∈ ids ∧ s.graph.isKind .action id = true then none else s.actions.get? id
  fans : List.Forall₂ Edge.SameButNumber
    ((s.graph.edges.filter Edge.isAction).filter (s.graph.spares ids))
    (t.graph.edges.filter Edge.isAction)
  rest : t = { s with graph := t.graph, conditions := t.conditions, actions := t.actions }

theorem Deleted.refl (s : Strategy) : s.Deleted s [] where
  nodes := by simp
  conditions := by simp
  actions := by simp
  fans := by
    rw [Graph.filter_spares_nil]
    exact Edge.forall₂_sameButNumber_refl _
  rest := rfl

theorem Deleted.trans (first : s.Deleted t xs) (second : t.Deleted u ys) :
    s.Deleted u (xs ++ ys) where
  nodes := by
    rw [second.nodes, first.nodes, List.filter_filter]
    apply List.filter_congr
    intro n _
    simp [Bool.and_comm]
  conditions id := by
    rw [second.conditions, first.conditions, Graph.isKind_of_filter first.nodes]
    by_cases early : id ∈ xs <;> simp [early]
  actions id := by
    rw [second.actions, first.actions, Graph.isKind_of_filter first.nodes]
    by_cases early : id ∈ xs <;> simp [early]
  fans := by
    have once := Edge.forall₂_sameButNumber_filter first.fans (t.graph.spares_of_sameButNumber ys)
    rw [List.filter_filter, funext (Graph.spares_append first.nodes)] at once
    exact forall₂_trans (fun _ _ _ => Edge.SameButNumber.trans) once second.fans
  rest := by
    have middle := first.rest
    have last := second.rest
    rw [last, middle]

-- Contents of another kind under the same id stay.
theorem kept_of_kind {α : Type} {contents : Dict α} {id : String} {kind : Node.Kind}
    (distinct : s.graph.isKind kind id = false) (other : String) :
    contents.get? other =
      if other ∈ [id] ∧ s.graph.isKind kind other = true then none else contents.get? other := by
  rw [if_neg]
  rintro ⟨listed, holds⟩
  rw [List.mem_singleton.1 listed, distinct] at holds
  contradiction

theorem erased_of_kind {α : Type} {contents : Dict α} {id : String} {kind : Node.Kind}
    (holds : s.graph.isKind kind id = true) (other : String) :
    (contents.erase id).get? other =
      if other ∈ [id] ∧ s.graph.isKind kind other = true then none else contents.get? other := by
  rw [Dict.get?_erase]
  by_cases same : other = id <;> simp [same, holds]

theorem deleted_deleteAction {id : String} (action : s.graph.isKind .action id = true) :
    s.Deleted (s.deleteAction id) [id] where
  nodes := by rw [deleteAction, Graph.nodes_numberFanOuts, Graph.nodes_removeNode]
  conditions := kept_of_kind (Graph.isKind_eq_false action (by decide))
  actions := erased_of_kind action
  fans := by
    rw [← Graph.filter_isAction_removeNode (Graph.contains_of_isKind action)]
    exact Edge.forall₂_sameButNumber_filter (Graph.sameButNumber_numberFanOuts _)
      fun _ _ => Edge.SameButNumber.isAction_eq
  rest := rfl

theorem deleted_deleteCondition {id : String} (condition : s.graph.isKind .condition id = true) :
    s.Deleted (s.deleteCondition id) [id] where
  nodes := by rw [nodes_deleteCondition, Graph.nodes_removeNode]
  conditions := erased_of_kind condition
  actions := kept_of_kind (Graph.isKind_eq_false condition (by decide))
  fans := by
    rw [← Graph.filter_isAction_removeNode (Graph.contains_of_isKind condition),
      filter_isAction_deleteCondition]
    exact Edge.forall₂_sameButNumber_refl _
  rest := rfl

theorem deleted_of_unknown {id : String} (missing : s.graph.node? id = none) :
    s.Deleted s [id] where
  nodes := by
    symm
    rw [List.filter_eq_self]
    intro n member
    simpa using List.find?_eq_none.1 missing n member
  conditions := kept_of_kind (by simp [Graph.isKind, missing])
  actions := kept_of_kind (by simp [Graph.isKind, missing])
  fans := by
    rw [Graph.filter_spares_unknown (by simp [Graph.contains, missing])]
    exact Edge.forall₂_sameButNumber_refl _
  rest := rfl

theorem deleted_deleteNode {id : String} (plain : s.graph.isKind .start id = false) :
    s.Deleted (s.deleteNode id) [id] := by
  unfold deleteNode
  split
  next missing => exact deleted_of_unknown missing
  next n found =>
    have kind := Graph.isKind_iff.2 ⟨n, found, rfl⟩
    split
    next action => exact deleted_deleteAction (action ▸ kind)
    next condition => exact deleted_deleteCondition (condition ▸ kind)
    next start =>
      rw [start, plain] at kind
      contradiction

theorem deleted_foldl_deleteNode {ids : List String}
    (plain : ∀ id ∈ ids, s.graph.isKind .start id = false) :
    s.Deleted (ids.foldl deleteNode s) ids := by
  induction ids generalizing s with
  | nil => exact .refl s
  | cons id rest ih =>
    rw [List.forall_mem_cons] at plain
    have first := deleted_deleteNode plain.1
    refine first.trans (ih fun other member => ?_)
    rw [Graph.isKind_of_filter first.nodes]
    split
    · rfl
    · exact plain.2 other member

theorem linkStart_cases (g : Graph) :
    linkStart g = g ∨ ∃ u v, linkStart g = g.addEdge (.condition u v) := by
  unfold linkStart
  split
  next => exact .inl rfl
  next =>
    split
    next => exact .inl rfl
    next =>
      split
      next => exact .inr ⟨_, _, rfl⟩
      next => exact .inl rfl

-- The link that START gets is no action edge.
theorem deleted_deleteNodes {ids : List String} (done : s.deleteNodes ids = .ok t) :
    s.Deleted t ids := by
  obtain ⟨plain, rfl⟩ := deleteNodes_ok done
  have run := deleted_foldl_deleteNode plain
  rcases linkStart_cases (ids.foldl deleteNode s).graph with same | ⟨u, v, linked⟩
  · rwa [same]
  · rw [linked]
    refine ⟨run.nodes, run.conditions, run.actions, ?_, ?_⟩
    · rw [Graph.filter_isAction_addCondition]
      exact run.fans
    · have others := run.rest
      rw [others]

end Strategy

end TradingStrategy
