import TradingStrategy.Edit.Editor
import TradingStrategy.Proofs.Keys
import TradingStrategy.Proofs.Reshape

set_option autoImplicit false

namespace TradingStrategy

namespace Drawing

variable {ε δ α β : Type}

theorem bind_ok {m : Drawing ε α} {f : α → Drawing ε β} {source rest : IdSource} {b : β}
    (done : (m >>= f).exec source = (.ok b, rest)) :
    ∃ a middle, m.exec source = (.ok a, middle) ∧ (f a).exec middle = (.ok b, rest) := by
  rw [exec_bind] at done
  split at done
  next a middle first => exact ⟨a, middle, first, done⟩
  next => simp at done

theorem bind_eq_ok_iff {m : Drawing ε α} {f : α → Drawing ε β} {source rest : IdSource} {b : β} :
    (m >>= f).exec source = (.ok b, rest) ↔
      ∃ a middle, m.exec source = (.ok a, middle) ∧ (f a).exec middle = (.ok b, rest) := by
  refine ⟨bind_ok, ?_⟩
  intro holds
  obtain ⟨a, middle, first, second⟩ := holds
  rw [exec_bind, first]
  exact second

theorem pure_eq_ok_iff {a b : α} {source rest : IdSource} :
    (pure a : Drawing ε α).exec source = (.ok b, rest) ↔ a = b ∧ source = rest := by
  rw [exec_pure]
  constructor
  · intro same
    obtain ⟨value, left⟩ := Prod.mk.inj same
    exact ⟨Except.ok.inj value, left⟩
  · intro holds
    obtain ⟨rfl, rfl⟩ := holds
    rfl

theorem exec_lift (r : Except ε α) (source : IdSource) :
    (liftM r : Drawing ε α).exec source = (r, source) := by
  cases r <;> rfl

theorem relabel_eq_ok_iff {f : ε → δ} {m : Drawing ε α} {source rest : IdSource} {a : α} :
    (relabel f m).exec source = (.ok a, rest) ↔ m.exec source = (.ok a, rest) := by
  simp only [exec, relabel, ExceptT.run, ExceptT.mk]
  split
  next found => simp [found]
  next found => simp [found]

end Drawing

namespace Strategy

variable {s t : Strategy}

theorem connect_ok {condition action : String} (done : s.connect condition action = .ok t) :
    s.graph.isKind .condition condition = true ∧ s.graph.isKind .action action = true ∧
      s.graph.fansOut condition action = false ∧
      t = { s with graph :=
        (s.graph.addEdge (Edge.action condition action)).numberFanOut condition } := by
  unfold connect at done
  split at done
  next => contradiction
  next => contradiction
  next source target foundSource foundTarget =>
    split at done
    next => contradiction
    next isCondition =>
      split at done
      next => contradiction
      next isAction =>
        split at done
        next => contradiction
        next new =>
          refine ⟨?_, ?_, by simpa using new, (Except.ok.inj done).symm⟩
          · exact Graph.isKind_iff.2
              ⟨source, foundSource, by simpa [Node.isCondition] using isCondition⟩
          · exact Graph.isKind_iff.2 ⟨target, foundTarget, by simpa [Node.isAction] using isAction⟩

theorem disconnect_ok {edge : String} (done : s.disconnect edge = .ok t) :
    s.graph.edge? edge = none ∧ t = s ∨
      ∃ e ∈ s.graph.edges, s.graph.edge? edge = some e ∧ e.id = edge ∧ e.isAction = true ∧
        t = { s with graph := (s.graph.cut e.id).numberFanOut e.source } := by
  unfold disconnect at done
  split at done
  next missing => exact .inl ⟨missing, (Except.ok.inj done).symm⟩
  next e found =>
    have name : e.id = edge := by simpa using List.find?_some found
    split at done
    next => contradiction
    next plain =>
      refine .inr ⟨e, List.mem_of_find?_eq_some found, found, name, ?_, ?_⟩
      · simpa [Edge.isCondition_eq_not_isAction] using plain
      · rw [name]
        exact (Except.ok.inj done).symm

theorem deleteNodes_ok {ids : List String} (done : s.deleteNodes ids = .ok t) :
    (∀ id ∈ ids, s.graph.isKind .start id = false) ∧
      t = { ids.foldl deleteNode s with graph := linkStart (ids.foldl deleteNode s).graph } := by
  unfold deleteNodes at done
  split at done
  next => contradiction
  next free =>
    refine ⟨fun id member => ?_, (Except.ok.inj done).symm⟩
    by_contra start
    exact free (List.any_eq_true.2 ⟨id, member, by simpa using start⟩)

def Adjacent (s : Strategy) (a b : String) : Prop :=
  ∃ e ∈ s.graph.edges, e.isLink = true ∧
    ((e.source = a ∧ e.target = b) ∨ (e.source = b ∧ e.target = a))

def repositioned (s : Strategy) (a b : String) (first second : Node) : List Node :=
  s.graph.nodes.map fun n =>
    if n.id = a then { n with position := second.position }
    else if n.id = b then { n with position := first.position }
    else n

theorem map_label_repositioned (s : Strategy) (a b : String) (first second : Node) :
    (s.repositioned a b first second).map Node.label = s.graph.nodes.map Node.label := by
  rw [repositioned, List.map_map]
  apply List.map_congr_left
  intro n _
  change Node.label (if n.id = a then _ else if n.id = b then _ else n) = _
  split
  · rfl
  · split <;> rfl

theorem node?_repositioned (s : Strategy) (a b : String) (first second : Node) (id : String) :
    (s.repositioned a b first second).find? (·.id == id) =
      (s.graph.node? id).map fun n =>
        if n.id = a then { n with position := second.position }
        else if n.id = b then { n with position := first.position }
        else n := by
  apply Graph.node?_map
  intro n
  split
  · rfl
  · split <;> rfl

theorem adjacent_iff (s : Strategy) (a b : String) :
    (s.graph.edges.any fun e =>
      e.isLink && ((e.source == a && e.target == b) || (e.source == b && e.target == a))) = true ↔
      s.Adjacent a b := by
  simp [Adjacent, List.any_eq_true]

theorem swapConditions_of_found {a b : String} {first second : Node}
    (foundA : s.graph.node? a = some first) (foundB : s.graph.node? b = some second) :
    s.swapConditions a b =
      if !first.isCondition || !second.isCondition || !s.graph.edges.any (fun e =>
        e.isLink && ((e.source == a && e.target == b) || (e.source == b && e.target == a)))
      then .error (.notAdjacent a b)
      else .ok { s with graph :=
        ⟨s.repositioned a b first second, s.graph.edges.map (Edge.exchange a b)⟩ } := by
  simp only [swapConditions, foundA, foundB]
  rfl

theorem swapConditions_eq_ok_iff {a b : String} :
    s.swapConditions a b = .ok t ↔
      ∃ first second, s.graph.node? a = some first ∧ s.graph.node? b = some second ∧
        first.kind = .condition ∧ second.kind = .condition ∧ s.Adjacent a b ∧
        t = { s with graph :=
          ⟨s.repositioned a b first second, s.graph.edges.map (Edge.exchange a b)⟩ } := by
  constructor
  · intro done
    cases foundA : s.graph.node? a with
    | none => simp [swapConditions, foundA] at done
    | some first =>
      cases foundB : s.graph.node? b with
      | none => simp [swapConditions, foundA, foundB] at done
      | some second =>
        rw [swapConditions_of_found foundA foundB] at done
        split at done
        next => contradiction
        next allowed =>
          simp only [Bool.or_eq_true, Bool.not_eq_true', not_or, Bool.not_eq_false,
            adjacent_iff] at allowed
          refine ⟨first, second, rfl, rfl, ?_, ?_, allowed.2, (Except.ok.inj done).symm⟩
          · simpa [Node.isCondition] using allowed.1.1
          · simpa [Node.isCondition] using allowed.1.2
  · intro holds
    obtain ⟨first, second, foundA, foundB, firstKind, secondKind, near, rfl⟩ := holds
    rw [swapConditions_of_found foundA foundB, (adjacent_iff s a b).2 near]
    simp [Node.isCondition, firstKind, secondKind]

theorem usesNodeId_eq_false_iff {id : String} :
    s.usesNodeId id = false ↔ s.graph.contains id = false ∧ s.conditions.contains id = false ∧
      s.actions.contains id = false := by
  simp [usesNodeId, and_assoc]

structure SameFrame (s t : Strategy) : Prop where
  graph : t.graph = s.graph
  conditions : ∀ id, t.conditions.contains id = s.conditions.contains id
  actions : ∀ id, t.actions.contains id = s.actions.contains id

end Strategy

namespace Editor

variable {e : Editor} {s t : Strategy} {source rest : IdSource} {created : Option String}

def withCondition (e : Editor) (s : Strategy) (tail : Node) (id : String) (block : Block) :
    Strategy :=
  { s with
    graph :=
      (s.graph.addNode ⟨id, .condition, tail.position.offset .zero e.layout.verticalGap⟩).addEdge
        (.condition tail.id id)
    conditions := s.conditions.insert id
      (.ofFirst (numberedName "Condition" (s.graph.nodesOf .condition).length) block) }

def withAction (e : Editor) (s : Strategy) (via : Option String) (id : String) : Strategy :=
  { s with
    graph := s.graph.addNode ⟨id, .action, e.actionPosition s.graph via⟩
    actions := s.actions.insert id
      (.empty (numberedName "Action" (s.graph.nodesOf .action).length)) }

theorem insertCondition_eq_ok_iff {after : Option String} :
    (e.insertCondition s after).exec source = (.ok (t, created), rest) ↔
      ∃ tail, s.graph.tail? = some tail ∧
        ((after.any (· ≠ tail.id) = true ∧ t = s ∧ created = none ∧ rest = source) ∨
          (after.any (· ≠ tail.id) = false ∧ ∃ id middle block,
            (e.nodeId s "condition").exec source = (.ok id, middle) ∧
            (e.newBlock s).exec middle = (.ok block, rest) ∧
            t = e.withCondition s tail id block ∧ created = some id)) := by
  cases found : s.graph.tail? with
  | none =>
    simp only [insertCondition, found, Drawing.exec_throw]
    simp
  | some tail =>
    by_cases elsewhere : after.any (· ≠ tail.id) = true
    · simp only [insertCondition, found, if_pos elsewhere, Drawing.pure_eq_ok_iff]
      grind
    · simp only [insertCondition, found, if_neg elsewhere, Drawing.bind_eq_ok_iff,
        Drawing.pure_eq_ok_iff]
      constructor
      · intro holds
        obtain ⟨id, middle, drawn, block, last, made, same, rfl⟩ := holds
        obtain ⟨rfl, rfl⟩ := Prod.mk.inj same
        exact ⟨tail, rfl, .inr ⟨by simpa using elsewhere, id, middle, block, drawn, made, rfl, rfl⟩⟩
      · intro holds
        obtain ⟨other, same, ⟨refused, _⟩ | ⟨_, id, middle, block, drawn, made, rfl, rfl⟩⟩ := holds
        · rw [← Option.some.inj same] at refused
          exact absurd refused elsewhere
        · rw [← Option.some.inj same]
          exact ⟨id, middle, drawn, block, rest, made, rfl, rfl⟩

theorem insertAction_eq_ok_iff {via : Option String} {id : String} :
    (e.insertAction s via).exec source = (.ok (t, id), rest) ↔
      (e.nodeId s "action").exec source = (.ok id, rest) ∧ t = e.withAction s via id := by
  simp only [insertAction, Drawing.bind_eq_ok_iff, Drawing.pure_eq_ok_iff]
  constructor
  · intro holds
    obtain ⟨drawn, middle, done, same, rfl⟩ := holds
    obtain ⟨rfl, rfl⟩ := Prod.mk.inj same
    exact ⟨done, rfl⟩
  · intro holds
    obtain ⟨done, rfl⟩ := holds
    exact ⟨id, rest, done, rfl, rfl⟩

theorem settled_eq_ok_iff {r : Except EditError Strategy} :
    (settled r).exec source = (.ok (t, created), rest) ↔
      r = .ok t ∧ created = none ∧ source = rest := by
  change (r.map fun s => (s, none), source) =
    ((.ok (t, created), rest) : Except EditError (Strategy × Option String) × IdSource) ↔ _
  cases r with
  | error => simp [Except.map]
  | ok u =>
    simp only [Except.map, Prod.mk.injEq, Except.ok.injEq]
    grind

theorem settled_after_ok {α : Type} {draw : Drawing EditError α}
    {edit : α → Except EditError Strategy} {name : α → Option String}
    (done : (do
      let a ← draw
      let (u, _) ← settled (edit a)
      return (u, name a)).exec source = (.ok (t, created), rest)) :
    ∃ a, draw.exec source = (.ok a, rest) ∧ edit a = .ok t ∧ created = name a := by
  simp only [Drawing.bind_eq_ok_iff, Drawing.pure_eq_ok_iff] at done
  obtain ⟨a, _, drawn, ⟨u, nothing⟩, _, edited, same, rfl⟩ := done
  obtain ⟨rfl, rfl⟩ := Prod.mk.inj same
  obtain ⟨result, _, rfl⟩ := settled_eq_ok_iff.1 edited
  exact ⟨a, drawn, result, rfl⟩

theorem refusable_eq_ok_iff {r : Except Refusal Strategy} : refusable r = .ok t ↔ r = .ok t := by
  cases r <;> simp [refusable, Except.mapError]

theorem editCondition_eq_ok_iff {id : String} {edit : Condition → Except EditError Condition} :
    editCondition s id edit = .ok t ↔
      ∃ old new, s.conditions.get? id = some old ∧ edit old = .ok new ∧
        t = { s with conditions := s.conditions.insert id new } := by
  cases present : s.conditions.get? id with
  | none => simp [editCondition, present]
  | some old =>
    cases result : edit old with
    | error => simp [editCondition, present, result, Except.map]
    | ok new => simp [editCondition, present, result, Except.map, eq_comm]

theorem editAction_eq_ok_iff {id : String} {edit : Action → Except EditError Action} :
    editAction s id edit = .ok t ↔
      ∃ old new, s.actions.get? id = some old ∧ edit old = .ok new ∧
        t = { s with actions := s.actions.insert id new } := by
  cases present : s.actions.get? id with
  | none => simp [editAction, present]
  | some old =>
    cases result : edit old with
    | error => simp [editAction, present, result, Except.map]
    | ok new => simp [editAction, present, result, Except.map, eq_comm]

theorem editCondition_ok {id : String} {edit : Condition → Except EditError Condition}
    (done : editCondition s id edit = .ok t) : s.SameFrame t := by
  obtain ⟨_, new, present, _, rfl⟩ := editCondition_eq_ok_iff.1 done
  exact ⟨rfl, Dict.contains_insert_of_get? present new, fun _ => rfl⟩

theorem editAction_ok {id : String} {edit : Action → Except EditError Action}
    (done : editAction s id edit = .ok t) : s.SameFrame t := by
  obtain ⟨_, new, present, _, rfl⟩ := editAction_eq_ok_iff.1 done
  exact ⟨rfl, fun _ => rfl, Dict.contains_insert_of_get? present new⟩

-- Later proofs go by this statement and not by the definitions of the edits.
def Effect (e : Editor) (s t : Strategy) (created : Option String) : Command → Prop
  | .insertCondition after => ∃ tail, s.graph.tail? = some tail ∧
      (after.any (· ≠ tail.id) = true ∧ t = s ∧ created = none ∨
        after.any (· ≠ tail.id) = false ∧ ∃ id block, s.usesNodeId id = false ∧
          IdSource.Drawn "condition" id ∧ t = e.withCondition s tail id block ∧ created = some id)
  | .insertAction via => ∃ id, s.usesNodeId id = false ∧ IdSource.Drawn "action" id ∧
      t = e.withAction s via id ∧ created = some id
  | .connect condition action => s.connect condition action = .ok t
  | .disconnect edge => s.disconnect edge = .ok t
  | .deleteNodes ids => s.deleteNodes ids = .ok t
  | .swapConditions a b => s.swapConditions a b = .ok t
  | .moveNode id position => t = s.moveNode id position
  | _ => s.SameFrame t

theorem perform_ok {command : Command}
    (done : (e.perform s command).exec source = (.ok (t, created), rest)) :
    e.Effect s t created command := by
  cases command with
  -- Only here can a command be carried out and change nothing.
  | insertCondition =>
    rw [perform, Drawing.relabel_eq_ok_iff, insertCondition_eq_ok_iff] at done
    obtain ⟨tail, found, ⟨elsewhere, same, nothing, _⟩ | ⟨below, id, _, block, drawn, _, rest⟩⟩ :=
      done
    · exact ⟨tail, found, .inl ⟨elsewhere, same, nothing⟩⟩
    · obtain ⟨free, gives⟩ := Drawing.unique_ok drawn
      exact ⟨tail, found, .inr ⟨below, id, block, free, gives.drawn, rest⟩⟩
  | insertAction via =>
    simp only [perform, Drawing.bind_eq_ok_iff, Drawing.relabel_eq_ok_iff,
      Drawing.pure_eq_ok_iff] at done
    obtain ⟨⟨u, id⟩, middle, inserted, same, _⟩ := done
    obtain ⟨rfl, rfl⟩ := Prod.mk.inj same
    obtain ⟨drawn, made⟩ := insertAction_eq_ok_iff.1 inserted
    obtain ⟨free, gives⟩ := Drawing.unique_ok drawn
    exact ⟨id, free, gives.drawn, made, rfl⟩
  | connect | disconnect | deleteNodes | swapConditions =>
    exact refusable_eq_ok_iff.1 (settled_eq_ok_iff.1 done).1
  | moveNode id position => exact (Except.ok.inj (settled_eq_ok_iff.1 done).1).symm
  | addBlock | addSubSection =>
    obtain ⟨_, _, edited, _⟩ := settled_after_ok done
    exact editCondition_ok edited
  | removeBlock | setBlockRelation | updateSubSection | removeSubSection | updateConditionMeta =>
    exact editCondition_ok (settled_eq_ok_iff.1 done).1
  | addItem =>
    obtain ⟨_, _, edited, _⟩ := settled_after_ok done
    exact editAction_ok edited
  | updateItem | removeItem | moveItem => exact editAction_ok (settled_eq_ok_iff.1 done).1

def Outcome.accepted : Outcome → Bool
  | .applied _ => true
  | _ => false

theorem Outcome.accepted_iff {outcome : Outcome} :
    outcome.accepted = true ↔ ∃ created, outcome = .applied created := by
  cases outcome <;> simp [accepted]

theorem apply_eq_applied_iff {command : Command} :
    e.apply s command source = (t, .applied created, rest) ↔
      (e.perform s command).exec source = (.ok (t, created), rest) := by
  rw [apply]
  split
  next u made left done =>
    rw [done]
    simp [and_assoc]
  next done =>
    rw [done]
    simp
  next done =>
    rw [done]
    simp

theorem outcome_eq_applied_iff {command : Command} :
    (e.apply s command source).2.1 = .applied created ↔
      ∃ t rest, (e.perform s command).exec source = (.ok (t, created), rest) := by
  simp only [← apply_eq_applied_iff]
  constructor
  · intro outcome
    exact ⟨_, _, by rw [← outcome]⟩
  · intro holds
    obtain ⟨t, rest, done⟩ := holds
    rw [done]

-- A command that is not carried out is seen in the outcome and leaves the strategy.
theorem apply_cases (e : Editor) (s : Strategy) (command : Command) (source : IdSource) :
    ((e.apply s command source).2.1.accepted = false ∧ (e.apply s command source).1 = s) ∨
      ∃ created, (e.apply s command source).2.1 = .applied created ∧
        e.Effect s (e.apply s command source).1 created command := by
  rw [apply]
  split
  next t created rest done => exact .inr ⟨created, rfl, perform_ok done⟩
  next => exact .inl ⟨rfl, rfl⟩
  next => exact .inl ⟨rfl, rfl⟩

theorem effect_of_accepted {command : Command}
    (accepted : (e.apply s command source).2.1.accepted = true) :
    ∃ created, (e.apply s command source).2.1 = .applied created ∧
      e.Effect s (e.apply s command source).1 created command := by
  rcases e.apply_cases s command source with ⟨refused, _⟩ | applied
  · simp [refused] at accepted
  · exact applied

theorem apply_of_refused {command : Command}
    (refused : (e.apply s command source).2.1.accepted = false) :
    (e.apply s command source).1 = s := by
  rcases e.apply_cases s command source with ⟨_, same⟩ | ⟨created, outcome, _⟩
  · exact same
  · simp [outcome, Outcome.accepted] at refused

theorem accepted_settled_iff {command : Command} {r : Except Refusal Strategy}
    (settles : e.perform s command = settled (refusable r)) :
    (e.apply s command source).2.1.accepted = true ↔ ∃ t, r = .ok t := by
  simp only [Outcome.accepted_iff, outcome_eq_applied_iff, settles, settled_eq_ok_iff,
    refusable_eq_ok_iff]
  constructor
  · intro holds
    obtain ⟨_, t, _, done, _, _⟩ := holds
    exact ⟨t, done⟩
  · intro holds
    obtain ⟨t, done⟩ := holds
    exact ⟨none, t, source, done, rfl, rfl⟩

end Editor

end TradingStrategy
