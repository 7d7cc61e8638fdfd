import TradingStrategy.Proofs.ChainRefinement

set_option autoImplicit false

namespace TradingStrategy

open TradingStrategy.Graph (isFanOut)

namespace Graph

variable {g h : Graph} {id : String} {p : Position}

def heightAfter (g : Graph) (id : String) (p : Position) (other : String) : Int :=
  if other = id then p.y.rank else g.height other

-- The order that a move asks for, told from the nodes before it and the position asked for.
def lowerAfter (g : Graph) (id : String) (p : Position) (a b : String) : Bool :=
  g.heightAfter id p a ≤ g.heightAfter id p b

structure Moved (id : String) (p : Position) (g h : Graph) : Prop where
  labels : h.nodes.map Node.label = g.nodes.map Node.label
  positions : ∀ other, (h.node? other).map (·.position) =
    if other = id then some p else (g.node? other).map (·.position)

theorem height_eq_position (g : Graph) (id : String) :
    g.height id = (((g.node? id).map (·.position)).map (·.y.rank)).getD 0 := by
  rw [Option.map_map]
  rfl

theorem Moved.lower_eq (moved : Moved id p g h) : h.lower = g.lowerAfter id p := by
  have heights (other : String) : h.height other = g.heightAfter id p other := by
    rw [height_eq_position, moved.positions, heightAfter]
    split
    next => rfl
    next => rw [← height_eq_position]
  funext a b
  simp only [lower, lowerAfter, heights]

end Graph

namespace Strategy

variable {s t : Strategy} {path : List String} {condition : String}

theorem Sound.sorted (sound : s.Sound path)
    (bound : (s.graph.fanOutTargets condition).length < UInt32.size) :
    (s.graph.fanOutTargets condition).Pairwise fun a b => s.graph.lower a b = true := by
  rw [Graph.length_fanOutTargets] at bound
  exact ((sound.numbered condition).fanOut_eq bound).2

theorem fanOutTargets_connect (sound : s.Sound path) {action : String}
    (done : s.connect condition action = .ok t)
    (bound : (s.graph.fanOutTargets condition).length + 1 < UInt32.size) :
    t.graph.fanOutTargets condition =
      (s.graph.fanOutTargets condition ++ [action]).mergeSort s.graph.lower := by
  obtain ⟨source, target, new, rfl⟩ := connect_ok done
  have shaped := sound.shaped.addFan ((sound.shaped.conditions condition).2 source) target new
  have grown : (s.graph.addEdge (.action condition action)).fanOutTargets condition =
      s.graph.fanOutTargets condition ++ [action] :=
    Graph.fanOutTargets_concat (by rw [Graph.filter_isFanOut_addFan, if_pos rfl])
  have counted := Graph.fanOutTargets_numberFanOut (shaped.fansWithin condition) (by
    rw [← Graph.length_fanOutTargets, grown, List.length_append]
    exact bound)
  rw [grown] at counted
  exact counted

theorem fanOutTargets_connect_of_ne {other action : String} (done : s.connect other action = .ok t)
    (distinct : condition ≠ other) :
    t.graph.fanOutTargets condition = s.graph.fanOutTargets condition := by
  obtain ⟨_, _, _, rfl⟩ := connect_ok done
  apply Graph.fanOutTargets_congr
  rw [Graph.filter_isFanOut_numberFanOut _ distinct, Graph.filter_isFanOut_addFan,
    if_neg distinct.symm, List.append_nil]

theorem fanOutTargets_disconnect (sound : s.Sound path) {edge : String} {e : Edge}
    (found : s.graph.edge? edge = some e) (source : e.source = condition)
    (done : s.disconnect edge = .ok t)
    (bound : (s.graph.fanOutTargets condition).length < UInt32.size) :
    t.graph.fanOutTargets condition =
      (s.graph.fanOutTargets condition).filter (· ≠ e.target) := by
  rcases disconnect_ok done with ⟨missing, _⟩ | ⟨same, member, alsoFound, _, action, rfl⟩
  · simp [found] at missing
  · rw [found, Option.some.injEq] at alsoFound
    subst alsoFound source
    have rest : (s.graph.cut e.id).fanOutTargets e.source =
        (s.graph.fanOutTargets e.source).filter (· ≠ e.target) := by
      apply Graph.fanOutTargets_filter
      rw [Graph.cut, sound.shaped.filter_isFanOut_disconnect member]
      apply List.filter_congr
      intro x _
      by_cases target : x.target = e.target <;> simp [target]
    have shaped := sound.shaped.cut member action
    have counted := Graph.fanOutTargets_numberFanOut (shaped.fansWithin e.source) (by
      rw [← Graph.length_fanOutTargets, rest]
      exact Nat.lt_of_le_of_lt (List.length_filter_le _ _) bound)
    rw [rest] at counted
    -- What is left of a sorted list is sorted, and numbering it again does not rearrange it.
    exact counted.trans (List.mergeSort_of_pairwise ((sound.sorted bound).filter _))

theorem fanOutTargets_disconnect_of_ne (sound : s.Sound path) {edge : String}
    (done : s.disconnect edge = .ok t)
    (elsewhere : ∀ e, s.graph.edge? edge = some e → e.source ≠ condition) :
    t.graph.fanOutTargets condition = s.graph.fanOutTargets condition := by
  rcases disconnect_ok done with ⟨_, rfl⟩ | ⟨e, member, found, _, _, rfl⟩
  · rfl
  · have distinct : condition ≠ e.source := (elsewhere e found).symm
    apply Graph.fanOutTargets_congr
    rw [Graph.filter_isFanOut_numberFanOut _ distinct, Graph.cut,
      sound.shaped.filter_isFanOut_disconnect member, List.filter_eq_self]
    simp [distinct]

theorem fanOutTargets_deleteAction (sound : s.Sound path) {id : String}
    (action : s.graph.isKind .action id = true) (distinct : condition ≠ id)
    (bound : (s.graph.fanOutTargets condition).length < UInt32.size) :
    (s.deleteAction id).graph.fanOutTargets condition =
      (s.graph.fanOutTargets condition).filter (· ≠ id) := by
  have rest : (s.graph.removeNode id).fanOutTargets condition =
      (s.graph.fanOutTargets condition).filter (· ≠ id) :=
    Graph.fanOutTargets_filter (Graph.filter_isFanOut_removeNode distinct)
  have sorted : ((s.graph.removeNode id).fanOutTargets condition).Pairwise
      fun a b => (s.graph.removeNode id).lower a b = true := by
    rw [rest]
    refine ((sound.sorted bound).filter _).imp_of_mem fun {a b} memberA memberB lower => ?_
    have leftA : a ≠ id := by simpa using (List.mem_filter.1 memberA).2
    have leftB : b ≠ id := by simpa using (List.mem_filter.1 memberB).2
    rwa [Graph.lower, Graph.height_removeNode leftA, Graph.height_removeNode leftB]
  have shaped := sound.shaped.removeAction action
  have counted := Graph.fanOutTargets_numberFanOuts (shaped.fansWithin condition) (by
    rw [← Graph.length_fanOutTargets, rest]
    exact Nat.lt_of_le_of_lt (List.length_filter_le _ _) bound) (s.graph.feeders id) (.inr sorted)
  rw [List.mergeSort_of_pairwise sorted, rest] at counted
  exact counted

theorem fanOutTargets_deleteNode (sound : s.Sound path) {id : String} (distinct : condition ≠ id)
    (bound : (s.graph.fanOutTargets condition).length < UInt32.size) :
    (s.deleteNode id).graph.fanOutTargets condition =
      (s.graph.fanOutTargets condition).filter (· ≠ id) := by
  have whole (plain : s.graph.isKind .action id = false) :
      (s.graph.fanOutTargets condition).filter (· ≠ id) = s.graph.fanOutTargets condition := by
    apply filter_ne_of_not_mem
    intro member
    simp [sound.shaped.isKind_of_mem_fanOutTargets member] at plain
  unfold deleteNode
  split
  next missing => rw [whole (by simp [Graph.isKind, missing])]
  next n found =>
    split
    next action =>
      exact fanOutTargets_deleteAction sound (Graph.isKind_iff.2 ⟨n, found, action⟩) distinct bound
    next =>
      apply Graph.fanOutTargets_filter
      rw [filter_isFanOut_deleteCondition, Graph.filter_isFanOut_removeNode distinct]
    next start => rw [whole (by simp [Graph.isKind, found, start])]

theorem fanOutTargets_foldl_deleteNode (sound : s.Sound path) {ids : List String}
    (survives : condition ∉ ids) (bound : (s.graph.fanOutTargets condition).length < UInt32.size) :
    (ids.foldl deleteNode s).graph.fanOutTargets condition =
      (s.graph.fanOutTargets condition).filter (· ∉ ids) := by
  induction ids generalizing s path with
  | nil => simp
  | cons id rest ih =>
    rw [List.mem_cons, not_or] at survives
    have once := fanOutTargets_deleteNode sound survives.1 bound
    have later := ih (sound.deleteNode id) survives.2 (by
      rw [once]
      exact Nat.lt_of_le_of_lt (List.length_filter_le _ _) bound)
    rw [List.foldl_cons, later, once, filter_not_mem_cons]

theorem Sound.moved_moveNode (sound : s.Sound path) {id : String} (p : Position)
    (known : s.graph.contains id = true) :
    Graph.Moved id p s.graph (s.moveNode id p).graph := by
  refine ⟨sound.map_label_moveNode id p, fun other => ?_⟩
  rw [Graph.node?, nodes_moveNode, ← Graph.node?, sound.shaped.node?_setPosition, Option.map_map]
  split
  next same =>
    obtain ⟨n, found⟩ := Option.isSome_iff_exists.1 known
    have name := (Graph.node?_eq_some found).2
    simp [same, found, name]
  next apart =>
    cases found : s.graph.node? other with
    | none => rfl
    | some n =>
      have name := (Graph.node?_eq_some found).2
      simp [name, apart]

theorem fanOutTargets_moveNode (sound : s.Sound path) {id : String} (p : Position)
    (action : s.graph.isKind .action id = true)
    (bound : (s.graph.fanOutTargets condition).length < UInt32.size) :
    (s.moveNode id p).graph.fanOutTargets condition =
      (s.graph.fanOutTargets condition).mergeSort (s.graph.lowerAfter id p) := by
  obtain ⟨n, found, kind⟩ := Graph.isKind_iff.1 action
  have same : (s.graph.setPosition id p).fanOutTargets condition =
      s.graph.fanOutTargets condition :=
    Graph.fanOutTargets_congr (by rw [Graph.edges_setPosition])
  have shaped := sound.shaped.setPosition id p
  have chosen : condition ∈ (s.graph.setPosition id p).feeders id ∨
      ((s.graph.setPosition id p).fanOutTargets condition).Pairwise
        fun a b => (s.graph.setPosition id p).lower a b = true := by
    rw [Graph.mem_feeders, same]
    -- A fan-out without the moved action is sorted by the new heights as by the old ones.
    by_cases moved : id ∈ s.graph.fanOutTargets condition
    · exact .inl moved
    · refine .inr ((sound.sorted bound).imp_of_mem fun {a b} memberA memberB lower => ?_)
      have apartA : a ≠ id := fun equal => moved (equal ▸ memberA)
      have apartB : b ≠ id := fun equal => moved (equal ▸ memberB)
      rwa [Graph.lower, sound.shaped.height_setPosition p apartA,
        sound.shaped.height_setPosition p apartB]
  have counted := Graph.fanOutTargets_numberFanOuts (shaped.fansWithin condition) (by
    rw [← Graph.length_fanOutTargets, same]
    exact bound) _ chosen
  rw [same] at counted
  have result : (s.moveNode id p).graph =
      (s.graph.setPosition id p).numberFanOuts ((s.graph.setPosition id p).feeders id) := by
    simp [moveNode, found, Node.isAction, kind]
  have moved := sound.moved_moveNode p (Graph.contains_of_isKind action)
  rw [← moved.lower_eq, result, Graph.lower_congr (Graph.nodes_numberFanOuts _), ← counted]

theorem fanOutTargets_moveNode_of_not_action {id : String} (p : Position)
    (plain : s.graph.isKind .action id = false) :
    (s.moveNode id p).graph.fanOutTargets condition = s.graph.fanOutTargets condition := by
  simp only [moveNode]
  split
  next => rfl
  next n found =>
    have still : n.isAction = false := by simpa [Graph.isKind, found, Node.isAction] using plain
    rw [still]
    exact Graph.fanOutTargets_congr (by rw [if_neg (by decide), Graph.edges_setPosition])

end Strategy

def Command.changesFanOut (s : Strategy) (condition : String) : Command → Bool
  | .connect other _ => other = condition
  | .disconnect edge => (s.graph.edge? edge).any (·.source = condition)
  | .deleteNodes _ => true
  | .moveNode id _ => s.graph.isKind .action id
  | _ => false

namespace Editor

-- A list that is sorted again must fit the 32 bits of its numbers.
structure FanOutStep (e : Editor) (s : Strategy) (source : IdSource) (condition : String) :
    Prop where
  connected : ∀ action, (e.apply s (.connect condition action) source).2.1.accepted = true →
    (s.graph.fanOutTargets condition).length + 1 < UInt32.size →
    (e.apply s (.connect condition action) source).1.graph.fanOutTargets condition =
      (s.graph.fanOutTargets condition ++ [action]).mergeSort s.graph.lower
  disconnected : ∀ edge x, s.graph.edge? edge = some x → x.source = condition →
    (e.apply s (.disconnect edge) source).2.1.accepted = true →
    (s.graph.fanOutTargets condition).length < UInt32.size →
    (e.apply s (.disconnect edge) source).1.graph.fanOutTargets condition =
      (s.graph.fanOutTargets condition).filter (· ≠ x.target)
  deleted : ∀ ids, (e.apply s (.deleteNodes ids) source).2.1.accepted = true →
    (e.apply s (.deleteNodes ids) source).1.graph.isKind .condition condition = true →
    (s.graph.fanOutTargets condition).length < UInt32.size →
    (e.apply s (.deleteNodes ids) source).1.graph.fanOutTargets condition =
      (s.graph.fanOutTargets condition).filter (· ∉ ids)
  moved : ∀ id p, s.graph.isKind .action id = true →
    (s.graph.fanOutTargets condition).length < UInt32.size →
    (e.apply s (.moveNode id p) source).1.graph.fanOutTargets condition =
      (s.graph.fanOutTargets condition).mergeSort (s.graph.lowerAfter id p)
  placed : ∀ id p, s.graph.contains id = true →
    Graph.Moved id p s.graph (e.apply s (.moveNode id p) source).1.graph
  others : ∀ command : Command, command.changesFanOut s condition = false →
    (e.apply s command source).1.graph.fanOutTargets condition = s.graph.fanOutTargets condition
  refused : ∀ command, (e.apply s command source).2.1.accepted = false →
    (e.apply s command source).1 = s

variable {e : Editor} {s : Strategy} {path : List String} {source : IdSource} {condition : String}

theorem apply_moveNode (e : Editor) (s : Strategy) (id : String) (p : Position)
    (source : IdSource) : (e.apply s (.moveNode id p) source).1 = s.moveNode id p := rfl

theorem fanOutTargets_of_not_changesFanOut (sound : s.Sound path) {command : Command}
    (keeps : command.changesFanOut s condition = false) :
    (e.apply s command source).1.graph.fanOutTargets condition =
      s.graph.fanOutTargets condition := by
  rcases e.apply_cases s command source with ⟨_, same⟩ | ⟨created, _, effect⟩
  · rw [same]
  generalize (e.apply s command source).1 = t at effect
  cases command with
  | insertCondition =>
    obtain ⟨tail, _, ⟨_, rfl, _⟩ | ⟨_, id, block, _, _, rfl, _⟩⟩ := effect
    · rfl
    · exact Graph.fanOutTargets_congr (Graph.filter_isFanOut_addCondition _ _ _)
  | insertAction =>
    obtain ⟨id, _, _, rfl, _⟩ := effect
    exact Graph.fanOutTargets_congr rfl
  | connect other action =>
    refine Strategy.fanOutTargets_connect_of_ne effect ?_
    intro equal
    subst equal
    simp [Command.changesFanOut] at keeps
  | disconnect edge =>
    refine Strategy.fanOutTargets_disconnect_of_ne sound effect fun x found same => ?_
    simp [Command.changesFanOut, found, same] at keeps
  | deleteNodes => simp [Command.changesFanOut] at keeps
  | swapConditions a b =>
    exact (Strategy.swapped_of_swapConditions effect).targets condition
  | moveNode id p =>
    rw [show t = s.moveNode id p from effect]
    exact Strategy.fanOutTargets_moveNode_of_not_action p keeps
  | _ => rw [show t.graph = s.graph from Strategy.SameFrame.graph effect]

theorem Reachable.fanOutStep (reachable : e.Reachable s) (source : IdSource)
    (condition : String) : e.FanOutStep s source condition := by
  have sound := reachable.sound
  refine ⟨fun action accepted bound => ?_, fun edge x found from_ accepted bound => ?_,
    fun ids accepted survives bound => ?_, fun id p action bound => ?_, fun id p known => ?_,
    fun command => fanOutTargets_of_not_changesFanOut sound, fun command => apply_of_refused⟩
  · obtain ⟨_, _, effect⟩ := effect_of_accepted accepted
    exact Strategy.fanOutTargets_connect sound effect bound
  · obtain ⟨_, _, effect⟩ := effect_of_accepted accepted
    exact Strategy.fanOutTargets_disconnect sound found from_ effect bound
  · obtain ⟨_, _, effect⟩ := effect_of_accepted accepted
    have left := ((sound.deleteNodes effect).shaped.conditions condition).2 survives
    have listed : condition ∉ ids := by simpa using (List.mem_filter.1 left).2
    rw [sound.deleteNodes_eq effect]
    exact Strategy.fanOutTargets_foldl_deleteNode sound listed bound
  · rw [apply_moveNode]
    exact Strategy.fanOutTargets_moveNode sound p action bound
  · rw [apply_moveNode]
    exact sound.moved_moveNode p known

theorem fanOutTargets_draft : draft.graph.fanOutTargets "condition_00000000" =
    ["action_00000006", "action_00000007"] := by
  have fans : draft.graph.edges.filter (isFanOut "condition_00000000") =
      [(Edge.action "condition_00000000" "action_00000007").setSequence 2,
        (Edge.action "condition_00000000" "action_00000006").setSequence 1] := by
    rw [draft_eq]
    decide +kernel
  rw [Graph.fanOutTargets, Graph.fanOut, fans]
  simp [List.mergeSort, Edge.sequenceKey, Edge.action]

-- The upper action goes below the lower one.
theorem draft_fanOutStep :
    draft.graph.fanOutTargets "condition_00000000" = ["action_00000006", "action_00000007"] ∧
      (draftAfter (.connect "condition_00000000" "action_00000008")).fanOutTargets
          "condition_00000000" =
        ["action_00000006", "action_00000007", "action_00000008"] ∧
      (draftAfter (.disconnect "e_condition_00000000_action_00000006")).fanOutTargets
          "condition_00000000" = ["action_00000007"] ∧
      (draftAfter (.deleteNodes ["action_00000006"])).fanOutTargets "condition_00000000" =
        ["action_00000007"] ∧
      (draftAfter (.moveNode "action_00000006" ⟨.zero, .ofInt 1000⟩)).fanOutTargets
          "condition_00000000" = ["action_00000007", "action_00000006"] ∧
      ((draftAfter (.moveNode "action_00000006" ⟨.zero, .ofInt 1000⟩)).node?
          "action_00000006").map (·.position) = some ⟨.zero, .ofInt 1000⟩ := by
  have step := reachable_draft.fanOutStep .counter "condition_00000000"
  have targets := fanOutTargets_draft
  have few : (draft.graph.fanOutTargets "condition_00000000").length + 1 < UInt32.size := by
    rw [targets]
    decide
  have small := Nat.lt_of_succ_lt few
  have accepted : ∀ command ∈ [.connect "condition_00000000" "action_00000008",
      .disconnect "e_condition_00000000_action_00000006", .deleteNodes ["action_00000006"]],
      (standard.apply draft command .counter).2.1.accepted = true := by
    rw [draft_eq]
    decide +kernel
  have found : draft.graph.edge? "e_condition_00000000_action_00000006" =
      some ((Edge.action "condition_00000000" "action_00000006").setSequence 1) := by
    rw [draft_eq]
    decide +kernel
  have survives : (draftAfter (.deleteNodes ["action_00000006"])).isKind .condition
      "condition_00000000" = true := by
    rw [draftAfter, draft_eq]
    decide +kernel
  have action : draft.graph.isKind .action "action_00000006" = true := by
    rw [draft_eq]
    decide +kernel
  refine ⟨targets, (step.connected _ (accepted _ (by simp)) few).trans ?_,
    (step.disconnected _ _ found rfl (accepted _ (by simp)) small).trans ?_,
    (step.deleted _ (accepted _ (by simp)) survives small).trans ?_,
    (step.moved _ _ action small).trans ?_,
    (step.placed _ _ (Graph.contains_of_isKind action)).positions _⟩
  · have sorted : ["action_00000006", "action_00000007", "action_00000008"].Pairwise
        fun a b => draft.graph.lower a b = true := by
      rw [draft_eq]
      decide +kernel
    rw [targets]
    exact List.mergeSort_of_pairwise sorted
  · rw [targets]
    decide
  · rw [targets]
    decide
  · have below : draft.graph.lowerAfter "action_00000006" ⟨.zero, .ofInt 1000⟩
        "action_00000006" "action_00000007" = false := by
      rw [draft_eq]
      decide +kernel
    rw [targets]
    simp [List.mergeSort, below]

end Editor

end TradingStrategy
