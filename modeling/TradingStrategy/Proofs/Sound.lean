import TradingStrategy.Proofs.Effects
import TradingStrategy.Proofs.FanOutChange

/-!
Sound strategies: the graph is strung along a path, its fan-outs are numbered, and there are
contents for its conditions and actions and for nothing else. Every edit keeps a strategy sound; the
statement says what becomes of the path.
-/

set_option autoImplicit false

namespace TradingStrategy

namespace Strategy

open TradingStrategy.Graph (isFanOut Shaped)

def Filled {α : Type} (contents : Dict α) (g : Graph) (kind : Node.Kind) : Prop :=
  ∀ id, contents.contains id = g.isKind kind id

namespace Filled

variable {α : Type} {contents : Dict α} {g h : Graph} {kind : Node.Kind} {id : String}

theorem of_labels (filled : Filled contents g kind)
    (labels : h.nodes.map Node.label = g.nodes.map Node.label) : Filled contents h kind := by
  intro other
  rw [Graph.isKind_congr labels, filled]

theorem insert (filled : Filled contents g kind) (value : α)
    (kinds : ∀ other, h.isKind kind other = if other = id then true else g.isKind kind other) :
    Filled (contents.insert id value) h kind := by
  intro other
  rw [Dict.contains_insert, filled, kinds]
  by_cases same : other = id <;> simp [same]

theorem erase (filled : Filled contents g kind)
    (kinds : ∀ other, h.isKind kind other = if other = id then false else g.isKind kind other) :
    Filled (contents.erase id) h kind := by
  intro other
  rw [Dict.contains_erase, filled, kinds]
  by_cases same : other = id <;> simp [same]

-- The node that comes or goes is of the other kind.
theorem elsewhere (filled : Filled contents g kind) (absent : contents.contains id = false)
    (kinds : ∀ other, h.isKind kind other = if other = id then false else g.isKind kind other) :
    Filled contents h kind := by
  intro other
  rw [kinds]
  by_cases same : other = id
  · rw [if_pos same, same, absent]
  · rw [if_neg same, filled]

end Filled

structure Sound (s : Strategy) (path : List String) : Prop where
  shaped : s.graph.Shaped path
  numbered : ∀ c, s.graph.Numbered c
  conditions : Filled s.conditions s.graph .condition
  actions : Filled s.actions s.graph .action

theorem nodes_deleteCondition (s : Strategy) (id : String) :
    (s.deleteCondition id).graph.nodes = (s.graph.removeNode id).nodes := by
  simp only [deleteCondition]
  split <;> rfl

theorem isKind_deleteCondition (s : Strategy) (gone : String) (kind : Node.Kind) (id : String) :
    (s.deleteCondition gone).graph.isKind kind id =
      if id = gone then false else s.graph.isKind kind id := by
  rw [Graph.isKind_congr (congrArg (List.map Node.label) (s.nodes_deleteCondition gone)),
    Graph.isKind_removeNode]

-- The splice is no action edge.
theorem filter_isAction_deleteCondition (s : Strategy) (id : String) :
    (s.deleteCondition id).graph.edges.filter Edge.isAction =
      (s.graph.removeNode id).edges.filter Edge.isAction := by
  simp only [deleteCondition]
  split
  · rw [Graph.filter_isAction_addCondition]
  · rfl

theorem filter_isFanOut_deleteCondition (s : Strategy) (id condition : String) :
    (s.deleteCondition id).graph.edges.filter (isFanOut condition) =
      (s.graph.removeNode id).edges.filter (isFanOut condition) := by
  rw [Graph.filter_isFanOut_eq, filter_isAction_deleteCondition, ← Graph.filter_isFanOut_eq]

theorem isKind_deleteAction (s : Strategy) (gone : String) (kind : Node.Kind) (id : String) :
    (s.deleteAction gone).graph.isKind kind id =
      if id = gone then false else s.graph.isKind kind id := by
  rw [deleteAction, Graph.isKind_congr (congrArg _ (Graph.nodes_numberFanOuts _)),
    Graph.isKind_removeNode]

theorem heads_eq_nil {g : Graph} (shaped : g.Shaped []) : heads g = [] := by
  have none : g.nodesOf .condition = [] := by
    rw [Graph.nodesOf, List.filter_eq_nil_iff]
    intro n member condition
    have kind : g.isKind .condition n.id = true :=
      Graph.isKind_iff.2 ⟨n, Graph.node?_of_mem shaped.ids member, by simpa using condition⟩
    exact List.not_mem_nil ((shaped.conditions n.id).2 kind)
  rw [heads, none, List.filter_nil]

-- A deletion leaves START linked while there is a condition to link it to.
theorem linkStart_eq {g : Graph} {path : List String} (shaped : g.Shaped path) :
    linkStart g = g := by
  obtain ⟨start, first, name, _⟩ := shaped.start?_eq
  simp only [linkStart, first, name]
  cases path with
  | nil => simp [heads_eq_nil shaped, topmost?]
  | cons head rest =>
    have linked := shaped.outgoing?_link (e := .condition Graph.startId head) List.mem_cons_self
    rw [Edge.source_condition] at linked
    simp [linked]

theorem nodes_moveNode (s : Strategy) (id : String) (p : Position) :
    (s.moveNode id p).graph.nodes = (s.graph.setPosition id p).nodes := by
  rw [moveNode]
  split
  next missing =>
    have unknown : s.graph.nodes.findIdx? (·.id == id) = none :=
      List.findIdx?_eq_none_iff.2 fun n member => by
        simpa using List.find?_eq_none.1 missing n member
    simp only [Graph.setPosition, unknown]
  next =>
    split
    next => exact Graph.nodes_numberFanOuts _
    next => rfl

namespace Sound

variable {s t : Strategy} {path : List String}

theorem initial (name : String) (start : Position) : (Strategy.initial name start).Sound [] := by
  have shaped := Shaped.initial start
  refine ⟨shaped, fun c => shaped.numbered_of_not_mem List.not_mem_nil, fun id => ?_, fun id => ?_⟩
  · have unlisted := mt (shaped.conditions id).2 List.not_mem_nil
    rw [Bool.not_eq_true] at unlisted
    exact unlisted.symm
  · by_cases same : Graph.startId = id <;>
      simp [Strategy.initial, Graph.initial, Graph.isKind, Graph.node?, Dict.contains, same]

theorem sameFrame (sound : s.Sound path) (same : s.SameFrame t) : t.Sound path := by
  refine ⟨?_, ?_, ?_, ?_⟩
  · rw [same.graph]
    exact sound.shaped
  · rw [same.graph]
    exact sound.numbered
  · intro id
    rw [same.conditions, same.graph, sound.conditions]
  · intro id
    rw [same.actions, same.graph, sound.actions]

theorem connect (sound : s.Sound path) {condition action : String}
    (done : s.connect condition action = .ok t) : t.Sound path := by
  obtain ⟨source, target, new, rfl⟩ := connect_ok done
  have shaped := sound.shaped.addFan ((sound.shaped.conditions condition).2 source) target new
  refine ⟨shaped.numberFanOuts [condition], fun other => ?_, sound.conditions, sound.actions⟩
  apply Graph.numbered_numberFanOuts (shaped.fansWithin other) [condition]
  by_cases same : other = condition
  · exact .inl (by simp [same])
  · refine .inr ((sound.numbered other).congr ?_ fun _ _ _ => rfl)
    rw [Graph.filter_isFanOut_addFan, if_neg (Ne.symm same), List.append_nil]

theorem disconnect (sound : s.Sound path) {edge : String} (done : s.disconnect edge = .ok t) :
    t.Sound path := by
  rcases disconnect_ok done with ⟨_, rfl⟩ | ⟨e, member, _, _, action, rfl⟩
  · exact sound
  · have shaped := sound.shaped.cut member action
    refine ⟨shaped.numberFanOuts [e.source], fun other => ?_, sound.conditions, sound.actions⟩
    apply Graph.numbered_numberFanOuts (shaped.fansWithin other) [e.source]
    by_cases same : other = e.source
    · exact .inl (by simp [same])
    · refine .inr ((sound.numbered other).congr ?_ fun _ _ _ => rfl)
      rw [Graph.cut, sound.shaped.filter_isFanOut_disconnect member, List.filter_eq_self]
      simp [same]

theorem deleteAction (sound : s.Sound path) {id : String}
    (action : s.graph.isKind .action id = true) : (s.deleteAction id).Sound path := by
  have shaped := sound.shaped.removeAction action
  have absent : s.conditions.contains id = false := by
    rw [sound.conditions]
    exact Graph.isKind_eq_false action (by decide)
  refine ⟨shaped.numberFanOuts _, fun c => ?_,
    sound.conditions.elsewhere absent (s.isKind_deleteAction id .condition),
    sound.actions.erase (s.isKind_deleteAction id .action)⟩
  · by_cases inside : c ∈ path
    · have distinct : c ≠ id := by
        intro equal
        exact sound.shaped.not_mem_of_isKind action (by decide) (equal ▸ inside)
      apply Graph.numbered_numberFanOuts (shaped.fansWithin c)
      -- Conditions that fanned out to it are numbered again; the rest keep their edges.
      by_cases lost : id ∈ s.graph.fanOutTargets c
      · exact .inl (Graph.mem_feeders.2 lost)
      · exact .inr ((sound.numbered c).removeNode distinct lost)
    · exact (shaped.numberFanOuts _).numbered_of_not_mem inside

theorem deleteCondition (sound : s.Sound path) {id : String} (member : id ∈ path) :
    (s.deleteCondition id).Sound (path.filter (· ≠ id)) := by
  have condition := (sound.shaped.conditions id).1 member
  have shaped := sound.shaped.removeCondition member
  have absent : s.actions.contains id = false := by
    rw [sound.actions]
    exact Graph.isKind_eq_false condition (by decide)
  refine ⟨shaped, fun c => ?_, sound.conditions.erase (s.isKind_deleteCondition id .condition),
    sound.actions.elsewhere absent (s.isKind_deleteCondition id .action)⟩
  · by_cases inside : c ∈ path.filter (· ≠ id)
    -- Fan-outs lead to actions only, so no condition loses an edge to it.
    · have distinct : c ≠ id := by simpa using (List.mem_filter.1 inside).2
      have kept : id ∉ s.graph.fanOutTargets c := fun target =>
        sound.shaped.not_mem_of_isKind (sound.shaped.isKind_of_mem_fanOutTargets target)
          (by decide) member
      refine ((sound.numbered c).removeNode distinct kept).congr
        (s.filter_isFanOut_deleteCondition id c) fun e _ _ => Graph.height_congr ?_
      rw [Graph.node?, nodes_deleteCondition]
      rfl
    · exact shaped.numbered_of_not_mem inside

theorem deleteNode (sound : s.Sound path) (id : String) :
    (s.deleteNode id).Sound (path.filter (· ≠ id)) := by
  have whole (plain : s.graph.isKind .condition id = false) : path.filter (· ≠ id) = path := by
    apply filter_ne_of_not_mem
    rw [sound.shaped.conditions, plain]
    decide
  unfold Strategy.deleteNode
  split
  next missing =>
    rw [whole (by simp [Graph.isKind, missing])]
    exact sound
  next n found =>
    have kind := Graph.isKind_iff.2 ⟨n, found, rfl⟩
    split
    next action =>
      rw [action] at kind
      rw [whole (Graph.isKind_eq_false kind (by decide))]
      exact sound.deleteAction kind
    next condition =>
      rw [condition] at kind
      exact sound.deleteCondition ((sound.shaped.conditions id).2 kind)
    next start =>
      rw [start] at kind
      rw [whole (Graph.isKind_eq_false kind (by decide))]
      exact sound

theorem foldl_deleteNode (sound : s.Sound path) (ids : List String) :
    (ids.foldl Strategy.deleteNode s).Sound (path.filter (· ∉ ids)) := by
  induction ids generalizing s path with
  | nil => simpa using sound
  | cons id rest ih =>
    rw [filter_not_mem_cons]
    exact ih (sound.deleteNode id)

theorem deleteNodes_eq (sound : s.Sound path) {ids : List String}
    (done : s.deleteNodes ids = .ok t) : t = ids.foldl Strategy.deleteNode s := by
  rw [(deleteNodes_ok done).2, linkStart_eq (sound.foldl_deleteNode ids).shaped]

theorem deleteNodes (sound : s.Sound path) {ids : List String}
    (done : s.deleteNodes ids = .ok t) : t.Sound (path.filter (· ∉ ids)) := by
  rw [sound.deleteNodes_eq done]
  exact sound.foldl_deleteNode ids

theorem mem_of_found (sound : s.Sound path) {a b : String} {first second : Node}
    (foundA : s.graph.node? a = some first) (foundB : s.graph.node? b = some second)
    (kindA : first.kind = .condition) (kindB : second.kind = .condition) : a ∈ path ∧ b ∈ path :=
  ⟨(sound.shaped.conditions a).2 (Graph.isKind_iff.2 ⟨first, foundA, kindA⟩),
    (sound.shaped.conditions b).2 (Graph.isKind_iff.2 ⟨second, foundB, kindB⟩)⟩

theorem swapConditions (sound : s.Sound path) {a b : String}
    (done : s.swapConditions a b = .ok t) : t.Sound (path.map (exchanged a b)) := by
  obtain ⟨first, second, foundA, foundB, kindA, kindB, _, rfl⟩ := swapConditions_eq_ok_iff.1 done
  have members := sound.mem_of_found foundA foundB kindA kindB
  have labels := map_label_repositioned s a b first second
  refine ⟨sound.shaped.exchange members.1 members.2 labels, fun c => ?_,
    sound.conditions.of_labels labels, sound.actions.of_labels labels⟩
  · refine (sound.numbered c).congr (Graph.filter_isFanOut_exchange s.graph a b) ?_
    intro e member fans
    have action := (Graph.isFanOut_iff.1 fans).1
    have apart (id : String) (listed : id ∈ path) : e.target ≠ id := by
      intro equal
      exact sound.shaped.target_not_mem member action (equal ▸ listed)
    apply Graph.height_congr
    rw [Graph.node?, node?_repositioned]
    cases found : s.graph.node? e.target with
    | none => rfl
    | some n =>
      have name := (Graph.node?_eq_some found).2
      rw [Option.map_some, if_neg (name ▸ apart a members.1), if_neg (name ▸ apart b members.2)]

theorem map_label_moveNode (sound : s.Sound path) (id : String) (p : Position) :
    (s.moveNode id p).graph.nodes.map Node.label = s.graph.nodes.map Node.label := by
  rw [nodes_moveNode]
  exact sound.shaped.map_label_setPosition id p

theorem moveNode (sound : s.Sound path) (id : String) (p : Position) :
    (s.moveNode id p).Sound path := by
  have shaped := sound.shaped.setPosition id p
  -- The heights that the order depends on are those of the targets.
  have kept (c : String) (absent : id ∉ s.graph.fanOutTargets c) :
      (s.graph.setPosition id p).Numbered c := by
    refine (sound.numbered c).congr (by rw [Graph.edges_setPosition]) fun e member fans => ?_
    apply sound.shaped.height_setPosition
    intro same
    exact absent (Graph.mem_fanOutTargets.2 ⟨e, member, fans, same⟩)
  have labels := sound.shaped.map_label_setPosition id p
  simp only [Strategy.moveNode]
  split
  next => exact sound
  next n found =>
    split
    next =>
      refine ⟨shaped.numberFanOuts _, fun c => ?_, sound.conditions.of_labels ?_,
        sound.actions.of_labels ?_⟩
      · apply Graph.numbered_numberFanOuts (shaped.fansWithin c)
        have same : (s.graph.setPosition id p).fanOutTargets c = s.graph.fanOutTargets c :=
          Graph.fanOutTargets_congr (by rw [Graph.edges_setPosition])
        rw [Graph.mem_feeders, same]
        by_cases moved : id ∈ s.graph.fanOutTargets c
        · exact .inl moved
        · exact .inr (kept c moved)
      · rwa [Graph.nodes_numberFanOuts]
      · rwa [Graph.nodes_numberFanOuts]
    next plain =>
      refine ⟨shaped, fun c => kept c fun target => ?_, sound.conditions.of_labels labels,
        sound.actions.of_labels labels⟩
      · obtain ⟨m, same, action⟩ :=
          Graph.isKind_iff.1 (sound.shaped.isKind_of_mem_fanOutTargets target)
        rw [found] at same
        rw [Option.some.inj same] at plain
        simp [Node.isAction, action] at plain

theorem withCondition (sound : s.Sound path) (e : Editor) {tail : Node} {id : String}
    (last : s.graph.tail? = some tail) (free : s.usesNodeId id = false)
    (drawn : IdSource.Drawn "condition" id) (block : Block) :
    (e.withCondition s tail id block).Sound (path ++ [id]) := by
  obtain ⟨fresh, _, unacted⟩ := usesNodeId_eq_false_iff.1 free
  obtain ⟨n, found, name⟩ := sound.shaped.tail?_eq
  rw [last] at found
  rw [← Option.some.inj found] at name
  have shaped := sound.shaped.addCondition fresh drawn
    (tail.position.offset .zero e.layout.verticalGap)
  rw [← name] at shaped
  have kinds (kind : Node.Kind) (other : String) :
      (e.withCondition s tail id block).graph.isKind kind other =
        if other = id then decide (Node.Kind.condition = kind) else s.graph.isKind kind other :=
    Graph.isKind_addNode (n := ⟨id, .condition, _⟩) fresh kind other
  refine ⟨shaped, fun c => ?_, sound.conditions.insert _ (kinds .condition),
    sound.actions.elsewhere unacted (kinds .action)⟩
  · refine (sound.numbered c).congr (Graph.filter_isFanOut_addCondition _ _ _) ?_
    intro edge member fans
    exact Graph.height_addNode fresh (sound.shaped.fansWithin c edge member fans)

theorem withAction (sound : s.Sound path) (e : Editor) (via : Option String) {id : String}
    (free : s.usesNodeId id = false) : (e.withAction s via id).Sound path := by
  obtain ⟨fresh, unconditioned, _⟩ := usesNodeId_eq_false_iff.1 free
  have kinds (kind : Node.Kind) (other : String) :
      (e.withAction s via id).graph.isKind kind other =
        if other = id then decide (Node.Kind.action = kind) else s.graph.isKind kind other :=
    Graph.isKind_addNode (n := ⟨id, .action, _⟩) fresh kind other
  refine ⟨sound.shaped.addAction fresh _, fun c => ?_,
    sound.conditions.elsewhere unconditioned (kinds .condition),
    sound.actions.insert _ (kinds .action)⟩
  refine (sound.numbered c).congr rfl fun edge member fans => ?_
  exact Graph.height_addNode fresh (sound.shaped.fansWithin c edge member fans)

end Sound

end Strategy

def Command.rechain (created : Option String) (path : List String) : Command → List String
  | .insertCondition _ => path ++ created.toList
  | .deleteNodes ids => path.filter (· ∉ ids)
  | .swapConditions a b => path.map (Strategy.exchanged a b)
  | _ => path

theorem Strategy.Sound.effect {s t : Strategy} {path : List String} (sound : s.Sound path)
    {e : Editor} {created : Option String} {command : Command}
    (effect : e.Effect s t created command) : t.Sound (command.rechain created path) := by
  cases command with
  | insertCondition =>
    obtain ⟨tail, last, ⟨_, rfl, rfl⟩ | ⟨_, id, block, free, drawn, rfl, rfl⟩⟩ := effect
    · simpa [Command.rechain] using sound
    · exact sound.withCondition e last free drawn block
  | insertAction via =>
    obtain ⟨id, free, _, rfl, _⟩ := effect
    exact sound.withAction e via free
  | connect => exact sound.connect effect
  | disconnect => exact sound.disconnect effect
  | deleteNodes => exact sound.deleteNodes effect
  | swapConditions => exact sound.swapConditions effect
  | moveNode id position =>
    have moved := sound.moveNode id position
    rwa [← show t = s.moveNode id position from effect] at moved
  | _ => exact sound.sameFrame effect

end TradingStrategy
