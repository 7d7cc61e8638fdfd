import Mathlib.Logic.Relation
import Mathlib.Order.WellFoundedSet
import TradingStrategy.Proofs.Sound

/-!
Deletion in a graph as it may be loaded, in which condition edges branch and meet and need not reach
every condition. All that is asked of them is that they lead forward. Splicing around a node that
goes puts a link where there was a path, so they still do; and since they do, some condition is
without a predecessor when START has no link, and START can be linked to it.
-/

set_option autoImplicit false

namespace TradingStrategy

namespace Graph

def Leads (g : Graph) (u v : String) : Prop :=
  ∃ e ∈ g.edges, e.isCondition = true ∧ e.source = u ∧ e.target = v

/-- One START, and condition edges from it or a condition to a condition, without a way back. -/
structure Forward (g : Graph) : Prop where
  ids : (g.nodes.map (·.id)).Nodup
  start : ∃ n, g.nodesOf .start = [n]
  leads : ∀ u v, g.Leads u v →
    (g.isKind .start u = true ∨ g.isKind .condition u = true) ∧ g.isKind .condition v = true
  acyclic : ∀ v, ¬ Relation.TransGen g.Leads v v

def StartLeads (g : Graph) : Prop := ∃ n ∈ g.nodesOf .start, ∃ v, g.Leads n.id v

structure Topmost (g : Graph) (n : Node) : Prop where
  condition : n ∈ g.nodesOf .condition
  first : ∀ u, ¬ g.Leads u n.id
  highest : ∀ m ∈ g.nodesOf .condition, (∀ u, ¬ g.Leads u m.id) →
    n.position.y.rank ≤ m.position.y.rank

variable {g h : Graph} {u v : String}

theorem leads_congr (same : h.edges.filter Edge.isCondition = g.edges.filter Edge.isCondition) :
    h.Leads u v ↔ g.Leads u v := by
  have listed (k : Graph) : k.Leads u v ↔
      ∃ e ∈ k.edges.filter Edge.isCondition, e.source = u ∧ e.target = v := by
    simp only [Leads, List.mem_filter, and_assoc]
  rw [listed, listed, same]

theorem leads_removeNode (gone : String) :
    (g.removeNode gone).Leads u v ↔ g.Leads u v ∧ u ≠ gone ∧ v ≠ gone := by
  constructor
  · rintro ⟨e, member, condition, rfl, rfl⟩
    obtain ⟨old, untouched⟩ := List.mem_filter.1 member
    exact ⟨⟨e, old, condition, rfl, rfl⟩, by simpa [Edge.touches] using untouched⟩
  · rintro ⟨⟨e, member, condition, rfl, rfl⟩, apart⟩
    exact ⟨e, List.mem_filter.2 ⟨member, by simpa [Edge.touches] using apart⟩, condition, rfl, rfl⟩

theorem leads_addCondition (a b : String) :
    (g.addEdge (.condition a b)).Leads u v ↔ g.Leads u v ∨ (u = a ∧ v = b) := by
  simp only [Leads, addEdge, List.mem_append, List.mem_singleton, or_and_right, exists_or,
    exists_eq_left, Edge.isCondition_condition, Edge.source_condition, Edge.target_condition,
    true_and, eq_comm]

theorem leads_of_outgoing? {id : String} {e : Edge} (found : g.outgoing? id = some e) :
    g.Leads id e.target := by
  have holds := List.find?_some found
  simp only [Bool.and_eq_true, beq_iff_eq] at holds
  exact ⟨e, List.mem_of_find?_eq_some found, holds.1, holds.2, rfl⟩

theorem leads_of_incoming? {id : String} {e : Edge} (found : g.incoming? id = some e) :
    g.Leads e.source id := by
  have holds := List.find?_some found
  simp only [Bool.and_eq_true, beq_iff_eq] at holds
  exact ⟨e, List.mem_of_find?_eq_some found, holds.1, rfl, holds.2⟩

theorem not_leads_of_outgoing? {id : String} (missing : g.outgoing? id = none) :
    ¬ g.Leads id v := by
  rintro ⟨e, member, condition, rfl, _⟩
  have absent := List.find?_eq_none.1 missing e member
  simp [condition] at absent

-- Numbers that grow along every condition edge rule out a way back.
theorem acyclic_of_rank (rank : String → Nat)
    (grows : ∀ e ∈ g.edges, e.isCondition = true → rank e.source < rank e.target) :
    ¬ Relation.TransGen g.Leads v v := by
  have further {a b : String} (path : Relation.TransGen g.Leads a b) : rank a < rank b := by
    induction path with
    | single step =>
      obtain ⟨e, member, condition, rfl, rfl⟩ := step
      exact grows e member condition
    | tail _ step ih =>
      obtain ⟨e, member, condition, rfl, rfl⟩ := step
      exact Nat.lt_trans ih (grows e member condition)
  intro cycle
  exact Nat.lt_irrefl _ (further cycle)

namespace Forward

theorem kinds_of_path (forward : g.Forward) (path : Relation.TransGen g.Leads u v) :
    (g.isKind .start u = true ∨ g.isKind .condition u = true) ∧ g.isKind .condition v = true := by
  induction path with
  | single step => exact forward.leads _ _ step
  | tail _ step ih => exact ⟨ih.1, (forward.leads _ _ step).2⟩

theorem start?_eq (forward : g.Forward) :
    ∃ n, g.start? = some n ∧ g.nodesOf .start = [n] ∧ g.isKind .start n.id = true := by
  obtain ⟨n, only⟩ := forward.start
  have listed : n ∈ g.nodesOf .start := by rw [only]; exact List.mem_singleton_self n
  refine ⟨n, ?_, only, ?_⟩
  · rw [start?, ← List.head?_filter]
    exact congrArg List.head? only
  · exact (mem_nodesOf_iff forward.ids .start n.id).1 (List.mem_map_of_mem listed)

-- What is left leads where there was a path before.
theorem shrink (forward : g.Forward) {gone : String} (plain : g.isKind .start gone = false)
    (nodes : h.nodes = (g.removeNode gone).nodes)
    (paths : ∀ u v, h.Leads u v → u ≠ gone ∧ v ≠ gone ∧ Relation.TransGen g.Leads u v) :
    h.Forward := by
  have kinds (kind : Node.Kind) {id : String} (kept : id ≠ gone)
      (holds : g.isKind kind id = true) : h.isKind kind id = true := by
    rw [isKind_congr (congrArg (List.map Node.label) nodes), isKind_removeNode, if_neg kept, holds]
  refine ⟨?_, ?_, fun u v leads => ?_, fun v cycle => ?_⟩
  · rw [nodes]
    exact forward.ids.sublist (List.filter_sublist.map _)
  · obtain ⟨n, _, only, start⟩ := forward.start?_eq
    have kept : n.id ≠ gone := by
      intro same
      rw [same, plain] at start
      contradiction
    refine ⟨n, ?_⟩
    have swapped : h.nodesOf .start = (g.nodesOf .start).filter (·.id != gone) := by
      simp only [nodesOf, nodes, removeNode, List.filter_filter, Bool.and_comm]
    rw [swapped, only, List.filter_cons_of_pos (by simpa using kept), List.filter_nil]
  · obtain ⟨source, target, path⟩ := paths u v leads
    have ends := forward.kinds_of_path path
    exact ⟨ends.1.imp (kinds .start source) (kinds .condition source),
      kinds .condition target ends.2⟩
  · have before := Relation.TransGen.closed (fun a b step => (paths a b step).2.2) v v cycle
    exact forward.acyclic v before

theorem linked (forward : g.Forward) {start head : String} (first : g.isKind .start start = true)
    (condition : g.isKind .condition head = true) :
    (g.addEdge (.condition start head)).Forward := by
  have leads (u v : String) (step : (g.addEdge (.condition start head)).Leads u v) :
      (g.isKind .start u = true ∨ g.isKind .condition u = true) ∧
        g.isKind .condition v = true := by
    rcases (leads_addCondition start head).1 step with old | ⟨rfl, rfl⟩
    · exact forward.leads u v old
    · exact ⟨.inl first, condition⟩
  have apart {id : String} (reached : g.isKind .condition id = true) : id ≠ start := by
    rintro rfl
    rw [isKind_eq_false first (by decide)] at reached
    contradiction
  -- No edge enters START, so a path takes the new link at its beginning or not at all.
  have old {a b : String} (path : Relation.TransGen (g.addEdge (.condition start head)).Leads a b) :
      g.isKind .condition b = true ∧ (a ≠ start → Relation.TransGen g.Leads a b) := by
    induction path with
    | single step =>
      refine ⟨(leads _ _ step).2, fun distinct => .single ?_⟩
      exact ((leads_addCondition start head).1 step).resolve_right fun new => distinct new.1
    | tail _ step ih =>
      refine ⟨(leads _ _ step).2, fun distinct => (ih.2 distinct).tail ?_⟩
      exact ((leads_addCondition start head).1 step).resolve_right fun new => apart ih.1 new.1
  refine ⟨forward.ids, forward.start, leads, fun v cycle => ?_⟩
  obtain ⟨reached, path⟩ := old cycle
  exact forward.acyclic v (path (apart reached))

-- Finitely many conditions, and no way back among them.
theorem exists_first (forward : g.Forward) (unlinked : ¬ g.StartLeads)
    (some : g.nodesOf .condition ≠ []) :
    ∃ n ∈ g.nodesOf .condition, ∀ u, ¬ g.Leads u n.id := by
  have order : IsStrictOrder String (Relation.TransGen g.Leads) :=
    { irrefl := forward.acyclic, trans := fun _ _ _ => Relation.TransGen.trans }
  let ids := {id | g.isKind .condition id = true}
  have listed (id : String) : id ∈ ids ↔ id ∈ (g.nodesOf .condition).map (·.id) :=
    (mem_nodesOf_iff forward.ids .condition id).symm
  have finite : ids.Finite :=
    (List.finite_toSet ((g.nodesOf .condition).map Node.id)).subset fun id => (listed id).1
  obtain ⟨n, member⟩ := List.exists_mem_of_ne_nil _ some
  have inhabited : n.id ∈ ids := (listed n.id).2 (List.mem_map_of_mem member)
  have wellFounded : ids.WellFoundedOn (Relation.TransGen g.Leads) := finite.wellFoundedOn
  obtain ⟨⟨first, inside⟩, _, least⟩ :=
    wellFounded.has_min Set.univ ⟨⟨n.id, inhabited⟩, trivial⟩
  obtain ⟨head, condition, rfl⟩ := List.mem_map.1 ((listed first).1 inside)
  refine ⟨head, condition, fun u leads => ?_⟩
  rcases (forward.leads u head.id leads).1 with start | source
  · obtain ⟨m, begins, rfl⟩ := List.mem_map.1 ((mem_nodesOf_iff forward.ids .start u).2 start)
    exact unlinked ⟨m, begins, head.id, leads⟩
  · exact least ⟨u, source⟩ trivial (.single leads)

end Forward

end Graph

namespace Strategy

variable {s t : Strategy} {g : Graph}

theorem topmost?_eq_none {nodes : List Node} (missing : topmost? nodes = none) : nodes = [] := by
  cases nodes with
  | nil => rfl
  | cons n rest =>
    rw [topmost?] at missing
    split at missing
    · split at missing <;> contradiction
    · contradiction

theorem topmost?_eq_some {nodes : List Node} {top : Node} (found : topmost? nodes = some top) :
    top ∈ nodes ∧ ∀ n ∈ nodes, top.position.y.rank ≤ n.position.y.rank := by
  induction nodes generalizing top with
  | nil => contradiction
  | cons n rest ih =>
    rw [topmost?] at found
    split at found
    next m later =>
      obtain ⟨member, highest⟩ := ih later
      split at found
      next below =>
        obtain rfl := Option.some.inj found
        refine ⟨List.mem_cons_of_mem _ member, List.forall_mem_cons.2 ⟨?_, highest⟩⟩
        exact Int.le_of_lt below
      next above =>
        obtain rfl := Option.some.inj found
        refine ⟨List.mem_cons_self, List.forall_mem_cons.2 ⟨Int.le_refl _, fun x inside => ?_⟩⟩
        exact Int.le_trans (Int.not_lt.1 above) (highest x inside)
    next alone =>
      obtain rfl := Option.some.inj found
      rw [topmost?_eq_none alone]
      simp

theorem mem_heads_iff {n : Node} :
    n ∈ heads g ↔ n ∈ g.nodesOf .condition ∧ ∀ u, ¬ g.Leads u n.id := by
  rw [heads, List.mem_filter]
  simp only [Bool.not_eq_true', List.any_eq_false, Bool.and_eq_true, beq_iff_eq, Graph.Leads]
  refine and_congr_right fun _ => ⟨fun none u => ?_, fun none e member holds => ?_⟩
  · rintro ⟨e, member, condition, _, target⟩
    exact none e member ⟨condition, target⟩
  · exact none e.source ⟨e, member, holds.1, rfl, holds.2⟩

theorem topmost_of_heads {n : Node} (found : topmost? (heads g) = some n) : g.Topmost n := by
  obtain ⟨member, highest⟩ := topmost?_eq_some found
  obtain ⟨condition, first⟩ := mem_heads_iff.1 member
  exact ⟨condition, first, fun m listed head => highest m (mem_heads_iff.2 ⟨listed, head⟩)⟩

/-- A graph with its START linked, as it is found after deletions. A link comes in when START has
none and there is a condition left. -/
structure Healed (g h : Graph) : Prop where
  forward : h.Forward
  linked : h.StartLeads ↔ h.nodesOf .condition ≠ []
  kept : g.StartLeads ∨ g.nodesOf .condition = [] → h = g
  healed : ¬ g.StartLeads → g.nodesOf .condition ≠ [] →
    ∃ start head, g.nodesOf .start = [start] ∧ g.Topmost head ∧
      h = g.addEdge (.condition start.id head.id)

theorem startLeads_iff {start : Node} (only : g.nodesOf .start = [start]) :
    g.StartLeads ↔ ∃ v, g.Leads start.id v := by
  simp only [Graph.StartLeads, only, List.mem_singleton, exists_eq_left]

theorem nodesOf_condition_ne_nil (forward : g.Forward) (linked : g.StartLeads) :
    g.nodesOf .condition ≠ [] := by
  obtain ⟨start, _, v, leads⟩ := linked
  have listed := (Graph.mem_nodesOf_iff forward.ids .condition v).2 (forward.leads _ _ leads).2
  intro none
  rw [none] at listed
  contradiction

theorem healed_self (forward : g.Forward)
    (settled : g.StartLeads ∨ g.nodesOf .condition = []) : Healed g g where
  forward := forward
  linked := ⟨nodesOf_condition_ne_nil forward, settled.resolve_right⟩
  kept _ := rfl
  healed unlinked some := absurd (settled.resolve_left unlinked) some

theorem healed_linked (forward : g.Forward) (unlinked : ¬ g.StartLeads) {start head : Node}
    (only : g.nodesOf .start = [start]) (kind : g.isKind .start start.id = true)
    (top : g.Topmost head) : Healed g (g.addEdge (.condition start.id head.id)) := by
  have some : g.nodesOf .condition ≠ [] := List.ne_nil_of_mem top.condition
  have condition : g.isKind .condition head.id = true :=
    (Graph.mem_nodesOf_iff forward.ids .condition _).1 (List.mem_map_of_mem top.condition)
  have leads : (g.addEdge (.condition start.id head.id)).StartLeads := by
    refine ⟨start, only ▸ List.mem_singleton_self start, head.id, ?_⟩
    exact (Graph.leads_addCondition _ _).2 (.inr ⟨rfl, rfl⟩)
  exact ⟨forward.linked kind condition, ⟨fun _ => some, fun _ => leads⟩,
    fun settled => absurd some (not_not.2 (settled.resolve_left unlinked)),
    fun _ _ => ⟨start, head, only, top, rfl⟩⟩

theorem healed_linkStart (forward : g.Forward) : Healed g (linkStart g) := by
  obtain ⟨start, first, only, kind⟩ := forward.start?_eq
  cases outgoing : g.outgoing? start.id with
  | some e =>
    have same : linkStart g = g := by simp [linkStart, first, outgoing]
    rw [same]
    exact healed_self forward
      (.inl ((startLeads_iff only).2 ⟨_, Graph.leads_of_outgoing? outgoing⟩))
  | none =>
    have unlinked : ¬ g.StartLeads := by
      rw [startLeads_iff only]
      rintro ⟨v, leads⟩
      exact Graph.not_leads_of_outgoing? outgoing leads
    cases found : topmost? (heads g) with
    | none =>
      have same : linkStart g = g := by simp [linkStart, first, outgoing, found]
      rw [same]
      refine healed_self forward (.inr ?_)
      by_contra some
      obtain ⟨n, member, head⟩ := forward.exists_first unlinked some
      have listed := mem_heads_iff.2 ⟨member, head⟩
      rw [topmost?_eq_none found] at listed
      contradiction
    | some head =>
      have made : linkStart g = g.addEdge (.condition start.id head.id) := by
        simp [linkStart, first, outgoing, found]
      rw [made]
      exact healed_linked forward unlinked only kind (topmost_of_heads found)

theorem forward_deleteAction (forward : s.graph.Forward) {id : String}
    (plain : s.graph.isKind .start id = false) : (s.deleteAction id).graph.Forward := by
  refine forward.shrink plain (Graph.nodes_numberFanOuts _) fun u v leads => ?_
  have kept := (Graph.leads_congr (Graph.filter_isCondition_numberFanOuts _ _)).1 leads
  obtain ⟨old, source, target⟩ := (Graph.leads_removeNode id).1 kept
  exact ⟨source, target, .single old⟩

-- The new link stands for the path through the condition.
theorem forward_deleteCondition (forward : s.graph.Forward) {id : String}
    (plain : s.graph.isKind .start id = false) : (s.deleteCondition id).graph.Forward := by
  refine forward.shrink plain (s.nodes_deleteCondition id) fun u v leads => ?_
  have others (old : (s.graph.removeNode id).Leads u v) :
      u ≠ id ∧ v ≠ id ∧ Relation.TransGen s.graph.Leads u v := by
    obtain ⟨old, source, target⟩ := (Graph.leads_removeNode id).1 old
    exact ⟨source, target, .single old⟩
  simp only [deleteCondition] at leads
  split at leads
  next before after entering leaving =>
    rcases (Graph.leads_addCondition _ _).1 leads with old | ⟨rfl, rfl⟩
    · exact others old
    · have into := Graph.leads_of_incoming? entering
      have out := Graph.leads_of_outgoing? leaving
      refine ⟨fun same => ?_, fun same => ?_, (Relation.TransGen.single into).tail out⟩
      · exact forward.acyclic id (.single (same ▸ into))
      · exact forward.acyclic id (.single (same ▸ out))
  next => exact others leads

theorem forward_deleteNode (forward : s.graph.Forward) (id : String) :
    (s.deleteNode id).graph.Forward := by
  have plain {n : Node} (found : s.graph.node? id = some n) (other : n.kind ≠ .start) :
      s.graph.isKind .start id = false :=
    Graph.isKind_eq_false (Graph.isKind_iff.2 ⟨n, found, rfl⟩) other
  unfold deleteNode
  split
  next => exact forward
  next n found =>
    split
    next action => exact forward_deleteAction forward (plain found (by simp [action]))
    next condition => exact forward_deleteCondition forward (plain found (by simp [condition]))
    next => exact forward

theorem forward_foldl_deleteNode (forward : s.graph.Forward) (ids : List String) :
    (ids.foldl deleteNode s).graph.Forward := by
  induction ids generalizing s with
  | nil => exact forward
  | cons id rest ih => exact ih (forward_deleteNode forward id)

theorem deleteNodes_healed (forward : s.graph.Forward) {ids : List String}
    (done : s.deleteNodes ids = .ok t) : Healed (ids.foldl deleteNode s).graph t.graph := by
  rw [(deleteNodes_ok done).2]
  exact healed_linkStart (forward_foldl_deleteNode forward ids)

def grove : Strategy :=
  { Strategy.initial "Grove" .origin with
    graph :=
      { nodes :=
          [⟨Graph.startId, .start, .origin⟩, ⟨"trunk", .condition, .origin⟩,
            ⟨"low", .condition, ⟨.zero, .ofInt 300⟩⟩, ⟨"high", .condition, ⟨.zero, .ofInt 150⟩⟩,
            ⟨"leaf", .condition, .origin⟩]
        edges :=
          [.condition Graph.startId "trunk", .condition "low" "leaf", .condition "high" "leaf"] } }

theorem forward_grove : grove.graph.Forward where
  ids := by decide
  start := ⟨_, rfl⟩
  leads := by
    have ends : ∀ e ∈ grove.graph.edges,
        (grove.graph.isKind .start e.source = true ∨
            grove.graph.isKind .condition e.source = true) ∧
          grove.graph.isKind .condition e.target = true := by decide
    rintro u v ⟨e, member, _, rfl, rfl⟩
    exact ends e member
  acyclic _ := by
    apply Graph.acyclic_of_rank fun id => if id = "leaf" ∨ id = "trunk" then 1 else 0
    decide

-- The trunk goes, and START is linked to the higher of the two conditions that come first.
theorem grove_healed : grove.graph.Forward ∧ ∃ t, grove.deleteNodes ["trunk", "ghost"] = .ok t ∧
    Healed (["trunk", "ghost"].foldl deleteNode grove).graph t.graph ∧
    t.graph.edges =
      [.condition "low" "leaf", .condition "high" "leaf", .condition Graph.startId "high"] := by
  have done : grove.deleteNodes ["trunk", "ghost"] =
      .ok { grove with
        graph :=
          linkStart (["trunk", "ghost"].foldl deleteNode grove).graph } := by decide +kernel
  exact ⟨forward_grove, _, done, deleteNodes_healed forward_grove done, by decide +kernel⟩

end Strategy

end TradingStrategy
