import TradingStrategy.Proofs.Batches
import TradingStrategy.Proofs.Undo

set_option autoImplicit false

namespace TradingStrategy

namespace Strategy

variable {s t : Strategy} {path : List String}

-- So there are no more of them than a fan-out has numbers.
def ActionsGiven (s : Strategy) : Prop :=
  ∀ id, s.graph.isKind .action id = true → ∃ k < UInt32.size, id = IdSource.idOf "action" k

theorem ActionsGiven.length_fanOutTargets_le (given : s.ActionsGiven) (sound : s.Sound path)
    (condition : String) : (s.graph.fanOutTargets condition).length ≤ UInt32.size :=
  IdSource.Given.length_le
    ⟨sound.shaped.fanOutTargets_nodup condition, fun _ member =>
      given _ (sound.shaped.isKind_of_mem_fanOutTargets member)⟩

theorem ActionsGiven.of_labels (given : s.ActionsGiven)
    (labels : t.graph.nodes.map Node.label = s.graph.nodes.map Node.label) : t.ActionsGiven := by
  intro id action
  rw [Graph.isKind_congr labels] at action
  exact given id action

theorem ActionsGiven.of_addNode (given : s.ActionsGiven) {n : Node}
    (fresh : s.graph.contains n.id = false) (nodes : t.graph.nodes = (s.graph.addNode n).nodes)
    (drawn : n.kind = .action → ∃ k < UInt32.size, n.id = IdSource.idOf "action" k) :
    t.ActionsGiven := by
  intro id action
  rw [Graph.isKind_congr (congrArg (List.map Node.label) nodes),
    Graph.isKind_addNode fresh] at action
  split at action
  next same => exact same ▸ drawn (of_decide_eq_true action)
  next => exact given id action

theorem Sound.isKind_start_eq (sound : s.Sound path) {id : String} (other : id ≠ Graph.startId) :
    s.graph.isKind .start id = false := by
  by_contra holds
  have listed := (Graph.mem_nodesOf_iff sound.shaped.ids .start id).2 (by simpa using holds)
  rw [sound.shaped.start, List.mem_singleton] at listed
  exact other listed

theorem Sound.deleteNodes_eq_ok (sound : s.Sound path) {ids : List String}
    (start : Graph.startId ∉ ids) :
    s.deleteNodes ids = .ok (ids.foldl Strategy.deleteNode s) := by
  have allowed : ids.any (s.graph.isKind .start) = false := by
    rw [List.any_eq_false]
    intro id member
    rw [sound.isKind_start_eq fun same => start (same ▸ member)]
    decide
  simp only [Strategy.deleteNodes, allowed, linkStart_eq (sound.foldl_deleteNode ids).shaped]
  rfl

end Strategy

namespace Editor

open Strategy (ActionsGiven)

variable {e : Editor} {s t : Strategy} {path : List String} {source rest : IdSource}
  {created : Option String}

-- Only one command adds an action; nodes of other commands are there before or of another kind.
theorem actionsGiven_of_perform (given : s.ActionsGiven) (sound : s.Sound path)
    (narrow : source.Narrow) {command : Command}
    (done : (e.perform s command).exec source = (.ok (t, created), rest)) : t.ActionsGiven := by
  have effect := perform_ok done
  cases command with
  | insertCondition =>
    obtain ⟨tail, _, ⟨_, rfl, _⟩ | ⟨_, id, block, free, _, rfl, _⟩⟩ := effect
    · exact given
    · exact given.of_addNode (Strategy.usesNodeId_eq_false_iff.1 free).1 rfl nofun
  | insertAction via =>
    simp only [perform, Drawing.bind_eq_ok_iff, Drawing.relabel_eq_ok_iff,
      Drawing.pure_eq_ok_iff] at done
    obtain ⟨⟨u, id⟩, middle, inserted, same, _⟩ := done
    obtain ⟨rfl, rfl⟩ := Prod.mk.inj same
    obtain ⟨drawn, rfl⟩ := insertAction_eq_ok_iff.1 inserted
    obtain ⟨free, gives⟩ := Drawing.unique_ok drawn
    exact given.of_addNode (Strategy.usesNodeId_eq_false_iff.1 free).1 rfl fun _ =>
      gives.narrow narrow
  | connect =>
    obtain ⟨_, _, _, rfl⟩ := Strategy.connect_ok effect
    exact given
  | disconnect =>
    rcases Strategy.disconnect_ok effect with ⟨_, rfl⟩ | ⟨_, _, _, _, _, rfl⟩
    · exact given
    · exact given
  | deleteNodes ids =>
    intro id action
    rw [sound.deleteNodes_eq effect] at action
    have pruned := sound.pruned_foldl_deleteNode (Strategy.deleteNodes_ok effect).1
    rw [pruned.isKind_eq] at action
    split at action
    next => contradiction
    next => exact given id action
  | swapConditions a b =>
    obtain ⟨first, second, _, _, _, _, _, rfl⟩ := Strategy.swapConditions_eq_ok_iff.1 effect
    exact given.of_labels (Strategy.map_label_repositioned s a b first second)
  | moveNode id position =>
    obtain rfl : t = s.moveNode id position := effect
    exact given.of_labels (sound.map_label_moveNode id position)
  | _ => exact given.of_labels (congrArg (fun g => g.nodes.map Node.label) effect.graph)

theorem actionsGiven_apply (given : s.ActionsGiven) (sound : s.Sound path)
    (narrow : source.Narrow) (command : Command) :
    (e.apply s command source).1.ActionsGiven := by
  rw [apply]
  split
  next done => exact actionsGiven_of_perform given sound narrow done
  next => exact given
  next => exact given

/-- A run whose sources draw 32 bits each time, as many as the digits of an id hold. -/
inductive NarrowlyReaches (e : Editor) (s : Strategy) : Strategy → Prop
  | refl : NarrowlyReaches e s s
  | command {t : Strategy} (reached : NarrowlyReaches e s t) (command : Command)
    {source : IdSource} (narrow : source.Narrow) : NarrowlyReaches e s (e.apply t command source).1
  | reload {t u : Strategy} (reached : NarrowlyReaches e s t)
    {overrides : List (String × Capabilities)} {source rest : IdSource} (narrow : source.Narrow)
    (done : ((t.compile overrides).restore overrides).exec source = (.ok u, rest)) :
    NarrowlyReaches e s u

def NarrowlyReachable (e : Editor) (s : Strategy) : Prop :=
  ∃ name, e.NarrowlyReaches (e.initial name) s

theorem NarrowlyReaches.reaches (narrowly : e.NarrowlyReaches s t) : e.Reaches s t := by
  induction narrowly with
  | refl => exact .refl
  | command _ command _ ih => exact ih.command command _
  | reload _ _ done ih => exact ih.reload done

theorem NarrowlyReaches.actionsGiven (narrowly : e.NarrowlyReaches s t) (given : s.ActionsGiven)
    (sound : s.Sound path) : t.ActionsGiven := by
  induction narrowly with
  | refl => exact given
  | command reached command narrow ih =>
    obtain ⟨_, before⟩ := reached.reaches.sound sound
    exact actionsGiven_apply ih before narrow command
  | reload reached _ done ih =>
    obtain ⟨_, before⟩ := reached.reaches.sound sound
    exact ih.of_labels (congrArg (fun g => g.nodes.map Node.label) (before.reload done).graph)

theorem NarrowlyReaches.session (reaches : e.NarrowlyReaches s t) (commands : List Command)
    (narrow : source.Narrow) : e.NarrowlyReaches s (e.session t commands source) := by
  induction commands generalizing t source with
  | nil => exact reaches
  | cons command rest ih =>
    exact ih (reaches.command command narrow) (narrow_apply narrow e t command)

theorem NarrowlyReachable.actionsGiven (reachable : e.NarrowlyReachable s) : s.ActionsGiven := by
  obtain ⟨name, narrowly⟩ := reachable
  refine narrowly.actionsGiven (fun id action => ?_) (.initial name e.layout.start)
  have plain : (Graph.initial e.layout.start).isKind .action id = false := by
    by_cases same : Graph.startId = id <;> simp [Graph.initial, Graph.isKind, Graph.node?, same]
  rw [show (e.initial name).graph.isKind .action id = false from plain] at action
  contradiction

theorem NarrowlyReachable.sound (reachable : e.NarrowlyReachable s) :
    s.Sound s.graph.chainedConditions := by
  obtain ⟨name, narrowly⟩ := reachable
  exact Reachable.sound ⟨name, narrowly.reaches⟩

/-- Two batches in a row are one, to the last number and place. And two batches that name the same
nodes, in whatever order, repeatedly or among unknown ids, leave the same strategy but for the order
of the edge list, which no payload depends on. -/
theorem NarrowlyReachable.deleteNodes_batches (reachable : e.NarrowlyReachable s)
    (xs ys : List String) (start : Graph.startId ∉ xs) (startToo : Graph.startId ∉ ys) :
    (∃ t u, s.deleteNodes xs = .ok t ∧ t.deleteNodes ys = .ok u ∧
        s.deleteNodes (xs ++ ys) = .ok u) ∧
      ((∀ id, s.graph.contains id = true → (id ∈ ys ↔ id ∈ xs)) →
        ∃ t u, s.deleteNodes xs = .ok t ∧ s.deleteNodes ys = .ok u ∧ t.SameButOrder u) := by
  have sound := reachable.sound
  have plain (ids : List String) (absent : Graph.startId ∉ ids) :
      ∀ id ∈ ids, s.graph.isKind .start id = false := fun id member =>
    sound.isKind_start_eq fun same => absent (same ▸ member)
  refine ⟨⟨_, _, sound.deleteNodes_eq_ok start,
    (sound.foldl_deleteNode xs).deleteNodes_eq_ok startToo, ?_⟩, fun agree => ?_⟩
  · have both : Graph.startId ∉ xs ++ ys := by simp [start, startToo]
    rw [sound.deleteNodes_eq_ok both, List.foldl_append]
  · exact ⟨_, _, sound.deleteNodes_eq_ok start, sound.deleteNodes_eq_ok startToo,
      sound.sameButOrder agree (reachable.actionsGiven.length_fanOutTargets_le sound)
        (plain xs start) (plain ys startToo)⟩

theorem narrowlyReachable_strangle : standard.NarrowlyReachable strangle :=
  ⟨_, NarrowlyReaches.refl.session _ IdSource.narrow_wrapping⟩

theorem strangle_deleteNodes_batches :
    standard.NarrowlyReachable strangle ∧
      (∃ t u, strangle.deleteNodes ["condition_00000000", "action_00000003"] = .ok t ∧
        t.deleteNodes ["action_00000003", "ghost", "condition_00000000"] = .ok u ∧
        strangle.deleteNodes ["condition_00000000", "action_00000003", "action_00000003", "ghost",
          "condition_00000000"] = .ok u) ∧
      ∃ t u, strangle.deleteNodes ["condition_00000000", "action_00000003"] = .ok t ∧
        strangle.deleteNodes ["action_00000003", "ghost", "condition_00000000"] = .ok u ∧
        t.SameButOrder u := by
  have batches := narrowlyReachable_strangle.deleteNodes_batches
    ["condition_00000000", "action_00000003"]
    ["action_00000003", "ghost", "condition_00000000"] (by decide) (by decide)
  refine ⟨narrowlyReachable_strangle, batches.1, batches.2 fun id known => ?_⟩
  have ghost : strangle.graph.contains "ghost" = false := by decide +kernel
  have other : id ≠ "ghost" := by
    rintro rfl
    rw [ghost] at known
    contradiction
  simp [other, or_comm]

end Editor

end TradingStrategy
