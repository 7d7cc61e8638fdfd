import TradingStrategy.Proofs.Reachable

set_option autoImplicit false

namespace TradingStrategy

open Strategy (exchanged)

namespace Graph

structure Swapped (a b : String) (g h : Graph) : Prop where
  labels : h.nodes.map Node.label = g.nodes.map Node.label
  positions : ∀ id, (h.node? id).map (·.position) = (g.node? (exchanged a b id)).map (·.position)
  fans : h.edges.filter Edge.isAction = g.edges.filter Edge.isAction
  targets : ∀ condition, h.fanOutTargets condition = g.fanOutTargets condition

theorem Shaped.condition_mem_iff {g : Graph} {path : List String} (shaped : g.Shaped path)
    (a b : String) : Edge.condition a b ∈ g.edges ↔ [a, b] <:+: startId :: path := by
  rw [← Edge.condition_mem_links_iff, ← shaped.links.mem_iff, List.mem_filter]
  simp

theorem Shaped.infix_iff {g : Graph} {path : List String} (shaped : g.Shaped path) {a : String}
    (member : a ∈ path) (b : String) : [a, b] <:+: startId :: path ↔ [a, b] <:+: path := by
  have apart : a ≠ startId := by
    intro equal
    subst equal
    exact shaped.startId_not_mem member
  simp [List.infix_cons_iff, List.cons_prefix_cons, apart]

end Graph

namespace Strategy

variable {s t : Strategy} {path : List String}

theorem Sound.adjacent_iff_infix (sound : s.Sound path) {a b : String} (memberA : a ∈ path)
    (memberB : b ∈ path) : s.Adjacent a b ↔ [a, b] <:+: path ∨ [b, a] <:+: path := by
  rw [← sound.shaped.infix_iff memberA, ← sound.shaped.infix_iff memberB,
    ← sound.shaped.condition_mem_iff, ← sound.shaped.condition_mem_iff]
  constructor
  · intro holds
    obtain ⟨e, member, link, ends⟩ := holds
    simp only [Edge.isLink, Bool.and_eq_true] at link
    have drawn := (sound.shaped.eq_condition member link.1).1
    rcases ends with ⟨source, target⟩ | ⟨source, target⟩
    · exact .inl (source ▸ target ▸ drawn ▸ member)
    · exact .inr (source ▸ target ▸ drawn ▸ member)
  · rintro (member | member)
    · exact ⟨_, member, rfl, .inl ⟨rfl, rfl⟩⟩
    · exact ⟨_, member, rfl, .inr ⟨rfl, rfl⟩⟩

theorem Sound.swappable_iff (sound : s.Sound path) {a b : String} :
    (∃ t, s.swapConditions a b = .ok t) ↔ [a, b] <:+: path ∨ [b, a] <:+: path := by
  constructor
  · intro holds
    obtain ⟨t, done⟩ := holds
    obtain ⟨first, second, foundA, foundB, kindA, kindB, near, _⟩ := swapConditions_eq_ok_iff.1 done
    have members := sound.mem_of_found foundA foundB kindA kindB
    exact (sound.adjacent_iff_infix members.1 members.2).1 near
  · intro neighbours
    have members : a ∈ path ∧ b ∈ path := by
      rcases neighbours with forward | backward
      · exact ⟨forward.subset (by simp), forward.subset (by simp)⟩
      · exact ⟨backward.subset (by simp), backward.subset (by simp)⟩
    have near := (sound.adjacent_iff_infix members.1 members.2).2 neighbours
    obtain ⟨first, foundA, kindA⟩ := Graph.isKind_iff.1 ((sound.shaped.conditions a).1 members.1)
    obtain ⟨second, foundB, kindB⟩ := Graph.isKind_iff.1 ((sound.shaped.conditions b).1 members.2)
    exact ⟨_, swapConditions_eq_ok_iff.2 ⟨first, second, foundA, foundB, kindA, kindB, near, rfl⟩⟩

theorem swapped_of_swapConditions {a b : String} (done : s.swapConditions a b = .ok t) :
    s.graph.Swapped a b t.graph := by
  obtain ⟨first, second, foundA, foundB, _, _, _, rfl⟩ := swapConditions_eq_ok_iff.1 done
  refine ⟨map_label_repositioned s a b first second, fun id => ?_,
    Graph.filter_isAction_exchange s.graph a b, fun c => ?_⟩
  -- Of the two nodes each has the position of the other; the rest have their own.
  · rw [Graph.node?, node?_repositioned, exchanged]
    by_cases atA : id = a
    · subst atA
      have name := (Graph.node?_eq_some foundA).2
      simp [foundA, foundB, name]
    · by_cases atB : id = b
      · subst atB
        have name := (Graph.node?_eq_some foundB).2
        simp [foundA, foundB, name, atA]
      · rw [if_neg atA, if_neg atB]
        cases found : s.graph.node? id with
        | none => rfl
        | some n =>
          have name := (Graph.node?_eq_some found).2
          simp [name, atA, atB]
  · exact Graph.fanOutTargets_congr (Graph.filter_isFanOut_exchange s.graph a b)

end Strategy

def Command.reordersChain : Command → Bool
  | .insertCondition _ | .deleteNodes _ | .swapConditions .. => true
  | _ => false

namespace Editor

def DrawsCondition (e : Editor) (s : Strategy) (source : IdSource) (id : String) : Prop :=
  ∃ second block third sub rest, (e.nodeId s "condition").exec source = (.ok id, second) ∧
    (e.partId s "block").exec second = (.ok block, third) ∧
    (e.partId s "sub").exec third = (.ok sub, rest)

structure ChainStep (e : Editor) (s : Strategy) (source : IdSource) : Prop where
  creates : ∀ after id, (e.apply s (.insertCondition after) source).2.1 = .applied (some id) ↔
    (after = none ∨ after = some (s.graph.chainedConditions.getLastD Graph.startId)) ∧
      e.DrawsCondition s source id
  created : ∀ after id, (e.apply s (.insertCondition after) source).2.1 = .applied (some id) →
    (e.apply s (.insertCondition after) source).1.graph.chainedConditions =
      s.graph.chainedConditions ++ [id]
  notCreated : ∀ after,
    (∀ id, (e.apply s (.insertCondition after) source).2.1 ≠ .applied (some id)) →
      (e.apply s (.insertCondition after) source).1 = s
  deleted : ∀ ids, (e.apply s (.deleteNodes ids) source).2.1.accepted = true →
    (e.apply s (.deleteNodes ids) source).1.graph.chainedConditions =
      s.graph.chainedConditions.filter (· ∉ ids)
  swaps : ∀ a b, (e.apply s (.swapConditions a b) source).2.1.accepted = true ↔
    [a, b] <:+: s.graph.chainedConditions ∨ [b, a] <:+: s.graph.chainedConditions
  swapped : ∀ a b, (e.apply s (.swapConditions a b) source).2.1.accepted = true →
    (e.apply s (.swapConditions a b) source).1.graph.chainedConditions =
        s.graph.chainedConditions.map (exchanged a b) ∧
      s.graph.Swapped a b (e.apply s (.swapConditions a b) source).1.graph
  others : ∀ command : Command, command.reordersChain = false →
    (e.apply s command source).1.graph.chainedConditions = s.graph.chainedConditions
  refused : ∀ command, (e.apply s command source).2.1.accepted = false →
    (e.apply s command source).1 = s

variable {e : Editor} {s t : Strategy} {path : List String} {source : IdSource}

theorem newBlock_eq_ok_iff {block : Block} {rest : IdSource} :
    (e.newBlock s).exec source = (.ok block, rest) ↔
      ∃ id middle sub, (e.partId s "block").exec source = (.ok id, middle) ∧
        (e.partId s "sub").exec middle = (.ok sub, rest) ∧ block = .ofFirst id (.blank sub) := by
  simp only [newBlock, Drawing.bind_eq_ok_iff, Drawing.pure_eq_ok_iff]
  constructor
  · intro holds
    obtain ⟨id, middle, first, sub, last, second, rfl, rfl⟩ := holds
    exact ⟨id, middle, sub, first, second, rfl⟩
  · intro holds
    obtain ⟨id, middle, sub, first, second, rfl⟩ := holds
    exact ⟨id, middle, first, sub, rest, second, rfl, rfl⟩

theorem creates_iff {tail : Node} (last : s.graph.tail? = some tail) (after : Option String)
    (id : String) : (e.apply s (.insertCondition after) source).2.1 = .applied (some id) ↔
      (after = none ∨ after = some tail.id) ∧ e.DrawsCondition s source id := by
  have below : after.any (· ≠ tail.id) = false ↔ after = none ∨ after = some tail.id := by
    cases after <;> simp
  rw [outcome_eq_applied_iff, ← below]
  simp only [perform, Drawing.relabel_eq_ok_iff, insertCondition_eq_ok_iff, newBlock_eq_ok_iff]
  constructor
  -- A condition is created in the second case only; in the first it is asked for elsewhere.
  · rintro ⟨t, rest, other, same, ⟨_, _, nothing, _⟩ |
      ⟨allowed, drawn, second, block, node, ⟨first, third, sub, blockDrawn, subDrawn, _⟩, _, made⟩⟩
    · simp at nothing
    · rw [last] at same
      rw [Option.some.inj same, Option.some.inj made]
      exact ⟨allowed, second, first, third, sub, rest, node, blockDrawn, subDrawn⟩
  · intro holds
    obtain ⟨allowed, second, first, third, sub, rest, node, blockDrawn, subDrawn⟩ := holds
    exact ⟨_, rest, tail, last, .inr ⟨allowed, id, second, _, node,
      ⟨first, third, sub, blockDrawn, subDrawn, rfl⟩, rfl, rfl⟩⟩

-- What becomes of the path is what becomes of the chain, which is its walk.
theorem chainedConditions_of_accepted (sound : s.Sound path) {command : Command}
    (accepted : (e.apply s command source).2.1.accepted = true) :
    ∃ created, (e.apply s command source).2.1 = .applied created ∧
      (e.apply s command source).1.graph.chainedConditions = command.rechain created path := by
  obtain ⟨created, outcome, effect⟩ := effect_of_accepted accepted
  exact ⟨created, outcome, (sound.effect effect).shaped.chainedConditions_eq⟩

theorem chainedConditions_of_not_reordersChain (sound : s.Sound path) {command : Command}
    (keeps : command.reordersChain = false) :
    (e.apply s command source).1.graph.chainedConditions = path := by
  by_cases accepted : (e.apply s command source).2.1.accepted = true
  · obtain ⟨created, _, chain⟩ := chainedConditions_of_accepted sound accepted
    rw [chain]
    cases command with
    | insertCondition | deleteNodes | swapConditions => contradiction
    | _ => rfl
  · rw [apply_of_refused (by simpa using accepted)]
    exact sound.shaped.chainedConditions_eq

theorem apply_insertCondition_of_not_created {after : Option String}
    (nothing : ∀ id, (e.apply s (.insertCondition after) source).2.1 ≠ .applied (some id)) :
    (e.apply s (.insertCondition after) source).1 = s := by
  rcases e.apply_cases s (.insertCondition after) source with ⟨_, same⟩ | ⟨created, outcome, effect⟩
  · exact same
  · obtain ⟨_, _, ⟨_, same, _⟩ | ⟨_, id, _, _, _, _, rfl⟩⟩ := effect
    · exact same
    · exact absurd outcome (nothing id)

theorem Reachable.chainStep (reachable : e.Reachable s) (source : IdSource) :
    e.ChainStep s source := by
  have sound := reachable.sound
  refine ⟨fun after id => ?_, fun after id outcome => ?_, fun after => ?_, fun ids accepted => ?_,
    fun a b => ?_, fun a b accepted => ?_, fun command keeps => ?_, fun command => apply_of_refused⟩
  · obtain ⟨tail, last, name⟩ := sound.shaped.tail?_eq
    rw [creates_iff last, name]
  · obtain ⟨created, same, chain⟩ := chainedConditions_of_accepted sound
      (Outcome.accepted_iff.2 ⟨_, outcome⟩)
    rw [outcome, Outcome.applied.injEq] at same
    rw [chain, ← same]
    rfl
  · exact apply_insertCondition_of_not_created
  · obtain ⟨_, _, chain⟩ := chainedConditions_of_accepted sound accepted
    exact chain
  · rw [accepted_settled_iff rfl, sound.swappable_iff]
  · obtain ⟨_, _, chain⟩ := chainedConditions_of_accepted sound accepted
    obtain ⟨_, _, effect⟩ := effect_of_accepted accepted
    exact ⟨chain, Strategy.swapped_of_swapConditions effect⟩
  · exact chainedConditions_of_not_reordersChain sound keeps

theorem draft_chainStep :
    draft.graph.chainedConditions = ["condition_00000000", "condition_00000003"] ∧
      (draftAfter (.insertCondition none)).chainedConditions =
        ["condition_00000000", "condition_00000003", "condition_00000001"] ∧
      (draftAfter (.deleteNodes ["condition_00000000"])).chainedConditions =
        ["condition_00000003"] ∧
      (draftAfter (.swapConditions "condition_00000003" "condition_00000000")).chainedConditions =
        ["condition_00000003", "condition_00000000"] ∧
      draft.graph.Swapped "condition_00000003" "condition_00000000"
        (draftAfter (.swapConditions "condition_00000003" "condition_00000000")) ∧
      (standard.apply draft (.swapConditions "condition_00000000" "action_00000006")
        .counter).2.1.accepted = false := by
  have step := reachable_draft.chainStep .counter
  have chain : draft.graph.chainedConditions = ["condition_00000000", "condition_00000003"] := by
    rw [draft_eq]
    decide +kernel
  have created : (standard.apply draft (.insertCondition none) .counter).2.1 =
      .applied (some "condition_00000001") := by
    rw [draft_eq]
    decide +kernel
  have deleted : (standard.apply draft (.deleteNodes ["condition_00000000"])
      .counter).2.1.accepted = true := by
    rw [draft_eq]
    decide +kernel
  have swaps := (step.swaps "condition_00000003" "condition_00000000").2
    (.inr (by rw [chain]))
  have refused := mt (step.swaps "condition_00000000" "action_00000006").1 (by
    rw [chain]
    decide)
  refine ⟨chain, (step.created none _ created).trans ?_, (step.deleted _ deleted).trans ?_,
    (step.swapped _ _ swaps).1.trans ?_, (step.swapped _ _ swaps).2, by simpa using refused⟩
  · rw [chain]
    rfl
  · rw [chain]
    decide
  · rw [chain]
    decide

end Editor

end TradingStrategy
