import Mathlib.Data.List.Chain
import Mathlib.Data.List.Dedup
import Mathlib.Data.List.Perm.Subperm
import TradingStrategy.Proofs.Links

set_option autoImplicit false

namespace TradingStrategy.Graph

structure Walker where
  visited : List Node
  cursor : Option Node

def setOut (g : Graph) : Walker := ⟨[], g.start?⟩

namespace Walker

variable {g : Graph} {w v u : Walker} {n : Node} {k : Nat}

def ids (w : Walker) : List String := w.visited.map Node.id

def step? (g : Graph) (w : Walker) : Option Walker :=
  match w.cursor with
  | some n => if n.id ∈ w.ids then none else some ⟨w.visited ++ [n], g.next? n⟩
  | none => none

theorem step?_eq_some_iff :
    w.step? g = some v ↔
      ∃ n, w.cursor = some n ∧ n.id ∉ w.ids ∧ v = ⟨w.visited ++ [n], g.next? n⟩ := by
  rw [step?]
  cases w.cursor with
  | none => simp
  | some n => simp [eq_comm]

theorem step?_eq_none_iff : w.step? g = none ↔ ∀ n, w.cursor = some n → n.id ∈ w.ids := by
  rw [step?]
  cases w.cursor with
  | none => simp
  | some n => simp

inductive Steps (g : Graph) : Nat → Walker → Walker → Prop
  | stay (w : Walker) : Steps g 0 w w
  | more {w v u : Walker} {k : Nat} (first : w.step? g = some v) (later : Steps g k v u) :
    Steps g (k + 1) w u

def ahead (g : Graph) (w : Walker) : List Node :=
  match w.cursor with
  | some n => g.walk ((g.nodes.map Node.id).filter (· ∉ w.ids)) n
  | none => []

theorem ahead_of_step (first : w.step? g = some v) (within : ∀ n ∈ w.cursor, n ∈ g.nodes) :
    w.visited ++ w.ahead g = v.visited ++ v.ahead g := by
  obtain ⟨n, come, fresh, rfl⟩ := step?_eq_some_iff.1 first
  have unvisited : n.id ∈ (g.nodes.map Node.id).filter (· ∉ w.ids) :=
    List.mem_filter.2 ⟨List.mem_map_of_mem (within n come), decide_eq_true fresh⟩
  have left : without ((g.nodes.map Node.id).filter (· ∉ w.ids)) n.id =
      (g.nodes.map Node.id).filter (· ∉ (⟨w.visited ++ [n], g.next? n⟩ : Walker).ids) := by
    rw [without, List.filter_filter]
    refine List.filter_congr fun id _ => ?_
    by_cases same : id = n.id <;> simp [ids, same]
  have here : w.ahead g = n :: ahead g ⟨w.visited ++ [n], g.next? n⟩ := by
    rw [ahead, come]
    dsimp only
    rw [walk, dif_pos unvisited, left]
    cases g.next? n <;> rfl
  rw [here, List.append_assoc, List.singleton_append]

theorem ahead_of_end (ends : w.step? g = none) : w.ahead g = [] := by
  rw [ahead]
  cases come : w.cursor with
  | none => rfl
  | some n =>
    have visited : n.id ∉ (g.nodes.map Node.id).filter (· ∉ w.ids) := by
      intro unvisited
      have fresh := of_decide_eq_true (List.mem_filter.1 unvisited).2
      exact fresh (step?_eq_none_iff.1 ends n come)
    dsimp only
    rw [walk, dif_neg visited]

structure OnTrail (g : Graph) (w : Walker) : Prop where
  distinct : w.ids.Nodup
  within : ∀ n ∈ w.visited ++ w.cursor.toList, n ∈ g.nodes
  begins : (w.visited ++ w.cursor.toList).head? = g.start?
  follows : w.visited.IsChain fun n m => g.next? n = some m
  come : ∀ n ∈ w.visited.getLast?, w.cursor = g.next? n
  chain : w.visited ++ w.ahead g = g.chain

theorem mem_nodes_of_next? {m : Node} (found : g.next? n = some m) : m ∈ g.nodes := by
  obtain ⟨e, _, target⟩ := Option.bind_eq_some_iff.1 found
  exact (node?_eq_some target).1

theorem onTrail_setOut (g : Graph) : g.setOut.OnTrail g where
  distinct := List.nodup_nil
  within n member := by
    have found : g.start? = some n := by simpa [setOut] using member
    exact List.mem_of_find?_eq_some found
  begins := by cases found : g.start? <;> simp [setOut, found]
  follows := .nil
  come n last := by simp [setOut] at last
  chain := by
    rw [setOut, ahead, Graph.chain]
    cases g.start? with
    | none => rfl
    | some s => simp [ids]

theorem OnTrail.step (trail : w.OnTrail g) (first : w.step? g = some v) : v.OnTrail g := by
  obtain ⟨n, come, fresh, same⟩ := step?_eq_some_iff.1 first
  have cursor : w.cursor.toList = [n] := by rw [come, Option.toList_some]
  have within := trail.within
  have begins := trail.begins
  rw [cursor] at within begins
  have here : ∀ m ∈ w.cursor, m ∈ g.nodes := by
    intro m found
    rw [come] at found
    exact within m (by simp [Option.some.inj found])
  -- The node visited goes over from what is ahead to the trail.
  have total := ahead_of_step first here
  subst same
  refine ⟨?_, ?_, ?_, ?_, ?_, total ▸ trail.chain⟩
  · rw [ids, List.map_append, List.map_singleton, ← List.concat_eq_append]
    exact trail.distinct.concat fresh
  · intro m member
    rcases List.mem_append.1 member with old | new
    · exact within m old
    · exact mem_nodes_of_next? (by simpa using new)
  · rw [List.head?_append_of_ne_nil _ (by simp)]
    exact begins
  · refine trail.follows.append (.singleton n) fun m last k first => ?_
    rw [← trail.come m last, come]
    simpa using first
  · intro m last
    rw [List.getLast?_concat] at last
    rw [Option.some.inj last]

theorem OnTrail.steps (trail : w.OnTrail g) (steps : Steps g k w v) : v.OnTrail g := by
  induction steps with
  | stay => exact trail
  | more first later ih => exact ih (trail.step first)

theorem length_visited (steps : Steps g k w v) : v.visited.length = w.visited.length + k := by
  induction steps with
  | stay => rfl
  | more first later ih =>
    obtain ⟨n, _, _, rfl⟩ := step?_eq_some_iff.1 first
    rw [ih, List.length_append, List.length_singleton]
    omega

-- Ids are visited once each, and only those of the graph.
theorem OnTrail.length_le (trail : w.OnTrail g) :
    w.visited.length ≤ (g.nodes.map Node.id).dedup.length := by
  have known : w.ids ⊆ (g.nodes.map Node.id).dedup := by
    intro id member
    obtain ⟨n, visited, rfl⟩ := List.mem_map.1 member
    exact List.mem_dedup.2 (List.mem_map_of_mem (trail.within n (List.mem_append_left _ visited)))
  have shorter := (List.subperm_of_subset trail.distinct known).length_le
  rwa [ids, List.length_map] at shorter

theorem OnTrail.comes_to_end (trail : w.OnTrail g) :
    ∃ k v, Steps g k w v ∧ v.step? g = none := by
  generalize left : (g.nodes.map Node.id).dedup.length - w.visited.length = room
  induction room generalizing w with
  | zero =>
    refine ⟨0, w, .stay w, Option.eq_none_iff_forall_ne_some.2 fun v first => ?_⟩
    have longer := (trail.step first).length_le
    have grown := length_visited (.more first (.stay v))
    omega
  | succ room ih =>
    cases first : w.step? g with
    | none => exact ⟨0, w, .stay w, first⟩
    | some v =>
      have grown := length_visited (.more first (.stay v))
      obtain ⟨k, u, later, ends⟩ := ih (trail.step first) (by omega)
      exact ⟨k + 1, u, .more first later, ends⟩

theorem OnTrail.visited_of_end (trail : w.OnTrail g) (ends : w.step? g = none) :
    w.visited = g.chain := by
  rw [← trail.chain, ahead_of_end ends, List.append_nil]

theorem OnTrail.head?_of_end (trail : w.OnTrail g) (ends : w.step? g = none) :
    w.visited.head? = g.start? := by
  rw [← trail.begins]
  cases start : w.visited with
  | cons n rest => rfl
  | nil =>
    -- A walk that visits nothing has nowhere to start.
    have nowhere : w.cursor = none := by
      rw [Option.eq_none_iff_forall_ne_some]
      intro n come
      simpa [ids, start] using step?_eq_none_iff.1 ends n come
    rw [nowhere]
    rfl

theorem OnTrail.stopped_of_end (trail : w.OnTrail g) (ends : w.step? g = none)
    (last : w.visited.getLast? = some n) {e : Edge} (edge : g.outgoing? n.id = some e) :
    g.node? e.target = none ∨ e.target ∈ w.ids := by
  have come := trail.come n last
  rw [next?, edge, Option.bind_some] at come
  cases target : g.node? e.target with
  | none => exact .inl rfl
  | some m =>
    rw [target] at come
    have visited := step?_eq_none_iff.1 ends m come
    rw [(node?_eq_some target).2] at visited
    exact .inr visited

end Walker

/-- The chain is what a walk from START visits. No walk goes on for ever, and this one stops only
where no edge leads to a node of an id that was not visited. -/
structure Explored (g : Graph) : Prop where
  ends : ∃ last, Walker.Steps g g.chain.length g.setOut last ∧ last.step? g = none ∧
    last.visited = g.chain
  bounded : ∀ k w, Walker.Steps g k g.setOut w → k ≤ (g.nodes.map Node.id).dedup.length
  empty_iff : g.chain = [] ↔ ∀ n ∈ g.nodes, n.kind ≠ .start
  begins : g.chain.head? = g.start?
  distinct : (g.chain.map Node.id).Nodup
  follows : g.chain.IsChain fun n m => ∃ e, g.outgoing? n.id = some e ∧ g.node? e.target = some m
  stops : ∀ n ∈ g.chain.getLast?, ∀ e, g.outgoing? n.id = some e →
    g.node? e.target = none ∨ e.target ∈ g.chain.map Node.id
  length_le : g.chain.length ≤ (g.nodes.map Node.id).dedup.length

theorem explored (g : Graph) : g.Explored := by
  have begun := Walker.onTrail_setOut g
  obtain ⟨k, last, steps, ends⟩ := begun.comes_to_end
  have trail := begun.steps steps
  have visited := trail.visited_of_end ends
  have count : g.chain.length = k := by
    rw [← visited, Walker.length_visited steps]
    exact Nat.zero_add k
  have begins : g.chain.head? = g.start? := by
    rw [← visited]
    exact trail.head?_of_end ends
  refine ⟨⟨last, count ▸ steps, ends, visited⟩, fun k w steps => ?_, ?_, begins, ?_, ?_, ?_, ?_⟩
  · have bound := (begun.steps steps).length_le
    rw [Walker.length_visited steps] at bound
    exact Nat.le_of_add_left_le bound
  · rw [← List.head?_eq_none_iff, begins, start?, List.find?_eq_none]
    simp
  · rw [← visited]
    exact trail.distinct
  · rw [← visited]
    exact trail.follows.imp fun n m next => Option.bind_eq_some_iff.1 next
  · intro n lastNode e edge
    rw [← visited] at lastNode ⊢
    exact trail.stopped_of_end ends lastNode edge
  · rw [← visited]
    exact trail.length_le

def ring : Graph :=
  ⟨[⟨startId, .start, .origin⟩, ⟨"c1", .condition, .origin⟩, ⟨"c2", .condition, .origin⟩],
    [.condition startId "c1", .condition startId "c2", .condition "c1" "c2",
      .condition "c2" startId, .condition "c2" "c9"]⟩

-- The second edge of START is not followed, and the ring is not closed.
example : ring.chain.map Node.id = [startId, "c1", "c2"] := by decide +kernel

end TradingStrategy.Graph
