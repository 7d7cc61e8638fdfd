import TradingStrategy.Proofs.GraphUndo

set_option autoImplicit false

namespace TradingStrategy.Strategy

variable {s t : Strategy} {path : List String}

/-- A fan-out edge has been taken out. Links and nodes stay, and of the other edges at most the
numbers of that fan-out are new. -/
structure Detached (s t : Strategy) (e : Edge) : Prop where
  action : e.isAction = true
  others : ∃ before after, s.graph.edges = before ++ e :: after ∧
    List.Forall₂ (Edge.Restamped e.source) (before ++ after) t.graph.edges
  links : t.graph.edges.filter Edge.isCondition = s.graph.edges.filter Edge.isCondition
  rest : t = { s with graph := { s.graph with edges := t.graph.edges } }

structure Detachable (s : Strategy) : Prop where
  alone : ∀ edge e t, s.graph.edge? edge = some e → s.disconnect edge = .ok t → s.Detached t e
  each : ∀ e ∈ s.graph.edges, e.isAction = true → ∃ t, s.disconnect e.id = .ok t

theorem length_cut (g : Graph) (edge : String) :
    (g.cut edge).edges.length + (g.edges.filter (·.id == edge)).length = g.edges.length := by
  have parts := (List.filter_append_perm (fun e : Edge => e.id == edge) g.edges).length_eq
  rw [List.length_append] at parts
  rw [Graph.cut, Nat.add_comm]
  exact parts

theorem eq_singleton_of_mem {α : Type} {x : α} {xs : List α} (member : x ∈ xs)
    (one : xs.length = 1) : xs = [x] := by
  obtain ⟨only, rfl⟩ := List.length_eq_one_iff.1 one
  rw [List.mem_singleton.1 member]

-- One edge less is left, so only one had the id.
theorem Detachable.filter_id_eq (detachable : s.Detachable) {e : Edge} (member : e ∈ s.graph.edges)
    (action : e.isAction = true) : s.graph.edges.filter (·.id == e.id) = [e] := by
  obtain ⟨t, done⟩ := detachable.each e member action
  have listed : e ∈ s.graph.edges.filter (·.id == e.id) := List.mem_filter.2 ⟨member, by simp⟩
  rcases disconnect_ok done with ⟨missing, _⟩ | ⟨first, _, found, name, _, made⟩
  · have absent := List.find?_eq_none.1 missing e member
    simp at absent
  · obtain ⟨before, after, edges, pairs⟩ := (detachable.alone e.id first t found done).others
    have left : t.graph.edges.length + 1 = s.graph.edges.length := by
      rw [← pairs.length_eq, edges]
      simp
      omega
    have cut : t.graph.edges.length = (s.graph.cut e.id).edges.length := by
      rw [made, name]
      exact (Graph.restamped_numberFanOut _ _).length_eq.symm
    have parts := length_cut s.graph e.id
    exact eq_singleton_of_mem listed (by omega)

theorem detached_of_filter_id_eq {e : Edge} (done : s.disconnect e.id = .ok t)
    (found : s.graph.edge? e.id = some e) (alone : s.graph.edges.filter (·.id == e.id) = [e])
    (action : e.isAction = true) : s.Detached t e := by
  rw [disconnect_of_found found action] at done
  obtain rfl := Except.ok.inj done
  obtain ⟨before, after, edges, notBefore, _, notAfter⟩ := List.filter_eq_cons_iff.1 alone
  have cut : (s.graph.cut e.id).edges = before ++ after := by
    have keepBefore : before.filter (·.id != e.id) = before := by
      rw [List.filter_eq_self]
      intro x member
      simpa using notBefore x member
    have keepAfter : after.filter (·.id != e.id) = after := by
      rw [List.filter_eq_self]
      intro x member
      simpa using List.filter_eq_nil_iff.1 notAfter x member
    rw [Graph.cut, edges, List.filter_append, List.filter_cons_of_neg (by simp), keepBefore,
      keepAfter]
  refine ⟨action, ⟨before, after, edges, ?_⟩, ?_, rfl⟩
  · rw [← cut]
    exact Graph.restamped_numberFanOut _ _
  · have plain : e.isCondition = false := by simp [Edge.isCondition_eq_not_isAction, action]
    refine (Graph.filter_isCondition_numberFanOuts _ [e.source]).trans ?_
    rw [cut, edges, List.filter_append, List.filter_append,
      List.filter_cons_of_neg (by simp [plain])]

/-- Edges can be told apart by their ids as far as the fan-outs go: that is all it takes, and no
less will do. -/
theorem detachable_iff (s : Strategy) :
    s.Detachable ↔ ∀ e ∈ s.graph.edges, e.isAction = true →
      s.graph.edges.filter (·.id == e.id) = [e] := by
  constructor
  · intro detachable e member action
    exact detachable.filter_id_eq member action
  · intro alone
    refine ⟨fun edge e t found done => ?_, fun e member action => ?_⟩
    · rcases disconnect_ok done with ⟨missing, _⟩ | ⟨x, member, first, name, action, _⟩
      · rw [found] at missing
        contradiction
      · obtain rfl := Option.some.inj (found.symm.trans first)
        subst name
        exact detached_of_filter_id_eq done found (alone e member action) action
    · have found : s.graph.edge? e.id = some e := by
        rw [Graph.edge?, ← List.head?_filter, alone e member action]
        rfl
      exact ⟨_, disconnect_of_found found action⟩

theorem Sound.detachable (sound : s.Sound path) : s.Detachable := by
  rw [detachable_iff]
  intro e member _
  have ids := sound.shaped.edgeIds_nodup
  have once : (s.graph.edges.filter (·.id == e.id)).length ≤ 1 := by
    have count := List.nodup_iff_count_le_one.1 ids e.id
    rwa [List.count, List.countP_map, List.countP_eq_length_filter] at count
  have listed : e ∈ s.graph.edges.filter (·.id == e.id) := List.mem_filter.2 ⟨member, by simp⟩
  exact eq_singleton_of_mem listed (Nat.le_antisymm once (List.length_pos_of_mem listed))

-- The fan-out edge and the link from the second to the third condition have one standard id.
def namesakes : Strategy :=
  { Strategy.initial "Long exit" .origin with
    graph :=
      { nodes :=
          [⟨Graph.startId, .start, .origin⟩, ⟨"entry", .condition, .origin⟩,
            ⟨"entry_long", .condition, .origin⟩, ⟨"exit", .condition, .origin⟩,
            ⟨"long_exit", .action, .origin⟩]
        edges :=
          [.condition Graph.startId "entry", .condition "entry" "entry_long",
            (Edge.action "entry" "long_exit").setSequence 1, .condition "entry_long" "exit"] } }

theorem namesakes_not_detachable :
    ¬ ∀ s : Strategy, (s.graph.nodes.map (·.id)).Nodup →
      (∀ e ∈ s.graph.edges, e.id = Edge.standardId e.source e.target) →
      (s.graph.edges.map Edge.ends).Nodup → s.Detachable := by
  intro always
  have detachable := always namesakes (by decide) (by decide +kernel) (by decide)
  have both := (detachable_iff _).1 detachable ((Edge.action "entry" "long_exit").setSequence 1)
    (by decide) rfl
  have two : (namesakes.graph.edges.filter (·.id ==
      ((Edge.action "entry" "long_exit").setSequence 1).id)).length = 2 := by decide +kernel
  rw [both] at two
  contradiction

end TradingStrategy.Strategy
