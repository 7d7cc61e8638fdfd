import TradingStrategy.Proofs.Deletion
import TradingStrategy.Proofs.Reachable

set_option autoImplicit false

namespace TradingStrategy

namespace Dict

variable {α β : Type} {d e : Dict α} {key : String}

def SameBut (d e : Dict α) (key : String) : Prop :=
  ∀ other, other ≠ key → e.get? other = d.get? other

theorem sameBut_insert (d : Dict α) (key : String) (value : α) :
    d.SameBut (d.insert key value) key := by
  intro other distinct
  rw [get?_insert, if_neg distinct]

theorem SameBut.filter (same : d.SameBut e key) (keep : String → Bool) :
    (d.filter fun key _ => keep key).SameBut (e.filter fun key _ => keep key) key := by
  intro other distinct
  rw [get?_filter, get?_filter, same other distinct]

theorem SameBut.map (same : d.SameBut e key) (f : String → α → β) :
    (d.map f).SameBut (e.map f) key := by
  intro other distinct
  rw [get?_map, get?_map, same other distinct]

def Keeps (d e : Dict α) (gone : List String) (created : Option String) : Prop :=
  ∀ key, created ≠ some key → e.get? key = d.get? key ∨ key ∈ gone ∧ e.get? key = none

end Dict

structure Payload.SameButCondition (p q : Payload) (id : String) : Prop where
  conditions : p.conditions.SameBut q.conditions id
  rest : q = { p with conditions := q.conditions }

structure Payload.SameButAction (p q : Payload) (id : String) : Prop where
  actions : p.actions.SameBut q.actions id
  rest : q = { p with actions := q.actions }

namespace Strategy

variable {s t : Strategy} {ids : List String}

structure SameButCondition (s t : Strategy) (id : String) : Prop where
  conditions : s.conditions.SameBut t.conditions id
  rest : t = { s with conditions := t.conditions }
  compiledWith : ∀ registry, (s.compileWith registry).SameButCondition (t.compileWith registry) id
  compiled : ∀ overrides, (s.compile overrides).SameButCondition (t.compile overrides) id

structure SameButAction (s t : Strategy) (id : String) : Prop where
  actions : s.actions.SameBut t.actions id
  rest : t = { s with actions := t.actions }
  compiledWith : ∀ registry, (s.compileWith registry).SameButAction (t.compileWith registry) id
  compiled : ∀ overrides, (s.compile overrides).SameButAction (t.compile overrides) id

-- A condition is compiled from its own contents and from the graph.
theorem sameButCondition_insert (s : Strategy) (id : String) (c : Condition) :
    s.SameButCondition { s with conditions := s.conditions.insert id c } id := by
  have entries := Dict.sameBut_insert s.conditions id c
  have payload (registry : Registry) :
      (s.compileWith registry).SameButCondition
        ({ s with conditions := s.conditions.insert id c }.compileWith registry) id :=
    ⟨(entries.filter _).map _, rfl⟩
  exact ⟨entries, rfl, payload, fun _ => payload _⟩

theorem sameButAction_insert (s : Strategy) (id : String) (a : Action) :
    s.SameButAction { s with actions := s.actions.insert id a } id := by
  have entries := Dict.sameBut_insert s.actions id a
  have payload (registry : Registry) :
      (s.compileWith registry).SameButAction
        ({ s with actions := s.actions.insert id a }.compileWith registry) id :=
    ⟨(entries.filter _).map _, rfl⟩
  exact ⟨entries, rfl, payload, fun _ => payload _⟩

structure Added (s t : Strategy) (id : String) : Prop where
  fresh : s.usesNodeId id = false
  kind : t.graph.isKind .condition id = true ∨ t.graph.isKind .action id = true
  conditions : t.conditions.contains id = t.graph.isKind .condition id
  actions : t.actions.contains id = t.graph.isKind .action id

structure KeepsContents (s t : Strategy) (gone : List String) (created : Option String) : Prop where
  conditions : s.conditions.Keeps t.conditions gone created
  actions : s.actions.Keeps t.actions gone created
  added : ∀ id, created = some id → s.Added t id
  rest : t = { s with graph := t.graph, conditions := t.conditions, actions := t.actions }

theorem keepsContents_graph (s : Strategy) (g : Graph) :
    s.KeepsContents { s with graph := g } [] none :=
  ⟨fun _ _ => .inl rfl, fun _ _ => .inl rfl, nofun, rfl⟩

theorem keeps_of_dropped {α : Type} {before after : Dict α} {kind : Node.Kind}
    (dropped : ∀ id, after.get? id =
      if id ∈ ids ∧ s.graph.isKind kind id = true then none else before.get? id) :
    before.Keeps after (ids.filter s.graph.contains) none := by
  intro id _
  rw [dropped]
  split
  next lost =>
    exact .inr ⟨List.mem_filter.2 ⟨lost.1, Graph.contains_of_isKind lost.2⟩, rfl⟩
  next => exact .inl rfl

theorem Deleted.keepsContents (deleted : s.Deleted t ids) :
    s.KeepsContents t (ids.filter s.graph.contains) none :=
  ⟨keeps_of_dropped deleted.conditions, keeps_of_dropped deleted.actions, nofun, deleted.rest⟩

theorem keepsContents_withCondition (e : Editor) (s : Strategy) (tail : Node) {id : String}
    (free : s.usesNodeId id = false) (block : Block) :
    s.KeepsContents (e.withCondition s tail id block) [] (some id) := by
  obtain ⟨fresh, _, unacted⟩ := usesNodeId_eq_false_iff.1 free
  have kinds (kind : Node.Kind) :
      (e.withCondition s tail id block).graph.isKind kind id =
        decide (Node.Kind.condition = kind) :=
    (Graph.isKind_addNode (n := ⟨id, .condition, _⟩) fresh kind id).trans (if_pos rfl)
  refine ⟨fun key other => .inl ?_, fun _ _ => .inl rfl, ?_, rfl⟩
  · exact Dict.sameBut_insert _ _ _ key fun same => other (same ▸ rfl)
  · rintro _ ⟨⟩
    refine ⟨free, .inl (kinds .condition), ?_, ?_⟩
    · rw [kinds]
      simp [Editor.withCondition, Dict.contains_insert]
    · rw [kinds]
      exact unacted

theorem keepsContents_withAction (e : Editor) (s : Strategy) (via : Option String) {id : String}
    (free : s.usesNodeId id = false) :
    s.KeepsContents (e.withAction s via id) [] (some id) := by
  obtain ⟨fresh, unconditioned, _⟩ := usesNodeId_eq_false_iff.1 free
  have kinds (kind : Node.Kind) :
      (e.withAction s via id).graph.isKind kind id = decide (Node.Kind.action = kind) :=
    (Graph.isKind_addNode (n := ⟨id, .action, _⟩) fresh kind id).trans (if_pos rfl)
  refine ⟨fun _ _ => .inl rfl, fun key other => .inl ?_, ?_, rfl⟩
  · exact Dict.sameBut_insert _ _ _ key fun same => other (same ▸ rfl)
  · rintro _ ⟨⟩
    refine ⟨free, .inr (kinds .action), ?_, ?_⟩
    · rw [kinds]
      exact unconditioned
    · rw [kinds]
      simp [Editor.withAction, Dict.contains_insert]

theorem moveNode_eq (s : Strategy) (id : String) (p : Position) :
    s.moveNode id p = { s with graph := (s.moveNode id p).graph } := by
  unfold moveNode
  split <;> rfl

end Strategy

namespace Command

def condition? : Command → Option String
  | .addBlock condition _ => some condition
  | .removeBlock condition _ => some condition
  | .setBlockRelation condition _ _ => some condition
  | .addSubSection condition _ => some condition
  | .updateSubSection condition _ _ => some condition
  | .removeSubSection condition _ _ => some condition
  | .updateConditionMeta condition _ => some condition
  | _ => none

def action? : Command → Option String
  | .addItem action _ => some action
  | .updateItem action _ _ => some action
  | .removeItem action _ => some action
  | .moveItem action _ _ => some action
  | _ => none

def deletes : Command → List String
  | .deleteNodes ids => ids
  | _ => []

structure Confined (command : Command) (s t : Strategy) (created : Option String) : Prop where
  rest : t = { s with graph := t.graph, conditions := t.conditions, actions := t.actions }
  condition : ∀ id, command.condition? = some id → s.SameButCondition t id
  action : ∀ id, command.action? = some id → s.SameButAction t id
  structural : command.condition? = none → command.action? = none →
    s.KeepsContents t (command.deletes.filter s.graph.contains) created
  deletion : ∀ ids, command = .deleteNodes ids → s.Deleted t ids

end Command

namespace Editor

open Strategy (keepsContents_graph)

variable {e : Editor} {s t : Strategy} {source rest : IdSource} {created : Option String}
  {command : Command} {id : String}

theorem sameButCondition_of_perform (names : command.condition? = some id)
    (done : (e.perform s command).exec source = (.ok (t, created), rest)) :
    s.SameButCondition t id := by
  have edited : ∃ edit, editCondition s id edit = .ok t := by
    cases command with
    | addBlock | addSubSection =>
      obtain rfl := Option.some.inj names
      obtain ⟨_, _, edited, _⟩ := settled_after_ok done
      exact ⟨_, edited⟩
    | removeBlock | setBlockRelation | updateSubSection | removeSubSection | updateConditionMeta =>
      obtain rfl := Option.some.inj names
      exact ⟨_, (settled_eq_ok_iff.1 done).1⟩
    | _ => contradiction
  obtain ⟨edit, result⟩ := edited
  obtain ⟨_, new, _, _, rfl⟩ := editCondition_eq_ok_iff.1 result
  exact s.sameButCondition_insert id new

theorem sameButAction_of_perform (names : command.action? = some id)
    (done : (e.perform s command).exec source = (.ok (t, created), rest)) :
    s.SameButAction t id := by
  have edited : ∃ edit, editAction s id edit = .ok t := by
    cases command with
    | addItem =>
      obtain rfl := Option.some.inj names
      obtain ⟨_, _, edited, _⟩ := settled_after_ok done
      exact ⟨_, edited⟩
    | updateItem | removeItem | moveItem =>
      obtain rfl := Option.some.inj names
      exact ⟨_, (settled_eq_ok_iff.1 done).1⟩
    | _ => contradiction
  obtain ⟨edit, result⟩ := edited
  obtain ⟨_, new, _, _, rfl⟩ := editAction_eq_ok_iff.1 result
  exact s.sameButAction_insert id new

theorem keepsContents_of_perform (noCondition : command.condition? = none)
    (noAction : command.action? = none)
    (done : (e.perform s command).exec source = (.ok (t, created), rest)) :
    s.KeepsContents t (command.deletes.filter s.graph.contains) created := by
  have effect := perform_ok done
  cases command with
  | insertCondition =>
    obtain ⟨tail, _, ⟨_, rfl, rfl⟩ | ⟨_, id, block, free, _, rfl, rfl⟩⟩ := effect
    · exact keepsContents_graph t t.graph
    · exact Strategy.keepsContents_withCondition e s tail free block
  | insertAction via =>
    obtain ⟨id, free, _, rfl, rfl⟩ := effect
    exact Strategy.keepsContents_withAction e s via free
  | connect =>
    obtain ⟨_, rfl, _⟩ := settled_eq_ok_iff.1 done
    obtain ⟨_, _, _, rfl⟩ := Strategy.connect_ok effect
    exact keepsContents_graph s _
  | disconnect =>
    obtain ⟨_, rfl, _⟩ := settled_eq_ok_iff.1 done
    rcases Strategy.disconnect_ok effect with ⟨_, rfl⟩ | ⟨_, _, _, _, _, rfl⟩
    · exact keepsContents_graph t t.graph
    · exact keepsContents_graph s _
  | deleteNodes =>
    obtain ⟨_, rfl, _⟩ := settled_eq_ok_iff.1 done
    exact (Strategy.deleted_deleteNodes effect).keepsContents
  | swapConditions =>
    obtain ⟨_, rfl, _⟩ := settled_eq_ok_iff.1 done
    obtain ⟨_, _, _, _, _, _, _, rfl⟩ := Strategy.swapConditions_eq_ok_iff.1 effect
    exact keepsContents_graph s _
  | moveNode id position =>
    obtain ⟨_, rfl, _⟩ := settled_eq_ok_iff.1 done
    obtain rfl : t = s.moveNode id position := effect
    rw [Strategy.moveNode_eq]
    exact keepsContents_graph s _
  | addBlock | removeBlock | setBlockRelation | addSubSection | updateSubSection
    | removeSubSection | updateConditionMeta => contradiction
  | addItem | updateItem | removeItem | moveItem => contradiction

/-- A command that is carried out changes what it names and nothing else, whatever strategy it is
applied to. -/
theorem apply_confined (done : e.apply s command source = (t, .applied created, rest)) :
    command.Confined s t created := by
  rw [apply_eq_applied_iff] at done
  refine ⟨?_, fun id names => sameButCondition_of_perform names done,
    fun id names => sameButAction_of_perform names done,
    fun noCondition noAction => keepsContents_of_perform noCondition noAction done, ?_⟩
  · cases condition : command.condition? with
    | some id =>
      have same := (sameButCondition_of_perform condition done).rest
      rw [same]
    | none =>
      cases action : command.action? with
      | some id =>
        have same := (sameButAction_of_perform action done).rest
        rw [same]
      | none => exact (keepsContents_of_perform condition action done).rest
  · rintro ids rfl
    exact Strategy.deleted_deleteNodes (perform_ok done)

-- An action and a condition of one id, an edge to an action that is not there, and contents without
-- a node.
def scrambled : Strategy :=
  { Strategy.initial "Scrambled" .origin with
    graph :=
      { nodes :=
          [⟨"exit", .action, .origin⟩, ⟨Graph.startId, .start, .origin⟩,
            ⟨"hedge", .action, .origin⟩, ⟨"exit", .condition, .origin⟩,
            ⟨"entry", .condition, .origin⟩]
        edges :=
          [.action "entry" "exit", .action "entry" "ghost", .action "entry" "hedge",
            .condition "exit" "entry"] }
    conditions := .ofList
      [("entry", ⟨⟨"Entry", .entry, 1, false, false⟩, [], []⟩),
        ("exit", ⟨⟨"Exit", .exit, 1, false, false⟩, [], []⟩),
        ("ghost", ⟨⟨"Ghost", .entry, 1, false, false⟩, [], []⟩)]
    actions := .ofList [("exit", .empty "Exit"), ("hedge", .empty "Hedge")] }

def scrambledEdits : List (Command × Option String) :=
  [(.deleteNodes ["exit", "ghost"], none), (.insertCondition none, some "condition_00000000"),
    (.addBlock "ghost" .or, some "block_00000000"),
    (.addItem "exit" (.action .squareOffAll), some "item_00000000")]

-- The action takes the condition of its id along, but not its contents, and no edge goes with the
-- ghost.
theorem scrambled_apply_confined :
    (∀ p ∈ scrambledEdits, ∃ t rest,
      standard.apply scrambled p.1 .counter = (t, .applied p.2, rest) ∧
        p.1.Confined scrambled t p.2) ∧
      (standard.apply scrambled (.deleteNodes ["exit", "ghost"]) .counter).1.graph.edges =
        [.action "entry" "ghost", (Edge.action "entry" "hedge").setSequence 1,
          .condition Graph.startId "entry"] ∧
      (standard.apply scrambled (.deleteNodes ["exit", "ghost"]) .counter).1.conditions =
        scrambled.conditions := by
  refine ⟨fun p member => ?_, by decide +kernel, by decide +kernel⟩
  have known : ∀ p ∈ scrambledEdits,
      (standard.apply scrambled p.1 .counter).2.1 = .applied p.2 := by decide +kernel
  have done : standard.apply scrambled p.1 .counter = (_, .applied p.2, _) :=
    Prod.ext rfl (Prod.ext (known p member) rfl)
  exact ⟨_, _, done, apply_confined done⟩

end Editor

end TradingStrategy
