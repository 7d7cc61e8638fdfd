import Mathlib.Data.List.Nodup
import Mathlib.Data.List.Infix
import TradingStrategy.Graph.Chain

set_option autoImplicit false

namespace TradingStrategy

theorem filter_ne_of_not_mem {gone : String} {ids : List String} (absent : gone ∉ ids) :
    ids.filter (· ≠ gone) = ids := by
  rw [List.filter_eq_self]
  intro id member
  have distinct : id ≠ gone := by
    intro equal
    exact absent (equal ▸ member)
  simpa using distinct

theorem filter_ne_append_cons {gone : String} {before after : List String}
    (nodup : (before ++ gone :: after).Nodup) :
    (before ++ gone :: after).filter (· ≠ gone) = before ++ after := by
  rw [List.nodup_append] at nodup
  obtain ⟨_, afterNodup, disjoint⟩ := nodup
  have notBefore : gone ∉ before := fun member => disjoint gone member gone List.mem_cons_self rfl
  rw [List.filter_append, filter_ne_of_not_mem notBefore, List.filter_cons_of_neg (by simp),
    filter_ne_of_not_mem (List.nodup_cons.1 afterNodup).1]

theorem filter_not_mem_cons (ids : List String) (gone : String) (rest : List String) :
    ids.filter (· ∉ gone :: rest) = (ids.filter (· ≠ gone)).filter (· ∉ rest) := by
  rw [List.filter_filter]
  apply List.filter_congr
  intro id _
  by_cases first : id = gone <;> simp [first]

namespace Edge

def links : String → List String → List Edge
  | _, [] => []
  | u, v :: rest => .condition u v :: links v rest

@[simp] theorem source_condition (u v : String) : (condition u v).source = u := rfl

@[simp] theorem target_condition (u v : String) : (condition u v).target = v := rfl

@[simp] theorem isCondition_condition (u v : String) : (condition u v).isCondition = true := rfl

@[simp] theorem isAction_condition (u v : String) : (condition u v).isAction = false := rfl

@[simp] theorem isLink_condition (u v : String) : (condition u v).isLink = true := rfl

theorem isCondition_eq_not_isAction (e : Edge) : e.isCondition = !e.isAction := by
  cases h : e.kind <;> simp [isCondition, isAction, h]

theorem links_append_cons (u v : String) (before after : List String) :
    links u (before ++ v :: after) =
      links u before ++ condition (before.getLastD u) v :: links v after := by
  induction before generalizing u with
  | nil => rfl
  | cons w rest ih =>
    rw [List.cons_append, links, ih, List.getLastD_cons]
    rfl

theorem map_source_links (u : String) (rest : List String) :
    (links u rest).map source = (u :: rest).dropLast := by
  induction rest generalizing u with
  | nil => rfl
  | cons v rest ih => simp [links, ih]

theorem map_target_links (u : String) (rest : List String) : (links u rest).map target = rest := by
  induction rest generalizing u with
  | nil => rfl
  | cons v rest ih => simp [links, ih]

theorem eq_condition_of_mem_links {u : String} {rest : List String} {e : Edge}
    (member : e ∈ links u rest) : e = condition e.source e.target := by
  induction rest generalizing u with
  | nil => simp [links] at member
  | cons v rest ih =>
    rcases List.mem_cons.1 member with rfl | later
    · rfl
    · exact ih later

theorem source_mem_of_mem_links {u : String} {rest : List String} {e : Edge}
    (member : e ∈ links u rest) : e.source ∈ u :: rest := by
  have source := List.mem_map_of_mem (f := source) member
  rw [map_source_links] at source
  exact List.dropLast_subset _ source

theorem target_mem_of_mem_links {u : String} {rest : List String} {e : Edge}
    (member : e ∈ links u rest) : e.target ∈ rest := by
  have target := List.mem_map_of_mem (f := target) member
  rwa [map_target_links] at target

theorem filter_untouched_links {gone u : String} {rest : List String} (absent : gone ∉ u :: rest) :
    (links u rest).filter (fun e => !e.touches gone) = links u rest := by
  rw [List.filter_eq_self]
  intro e member
  have source : e.source ≠ gone := by
    intro equal
    subst equal
    exact absent (source_mem_of_mem_links member)
  have target : e.target ≠ gone := by
    intro equal
    subst equal
    exact absent (List.mem_cons_of_mem _ (target_mem_of_mem_links member))
  simp [touches, source, target]

theorem condition_mem_links_iff (a b u : String) (rest : List String) :
    condition a b ∈ links u rest ↔ [a, b] <:+: u :: rest := by
  induction rest generalizing u with
  | nil => simp [links, List.infix_cons_iff]
  | cons v rest ih =>
    have split : [a, b] <:+: u :: v :: rest ↔ [a, b] <+: u :: v :: rest ∨ [a, b] <:+: v :: rest :=
      List.infix_cons_iff
    have first : condition a b = condition u v ↔ [a, b] <+: u :: v :: rest := by
      rw [List.cons_prefix_cons, List.cons_prefix_cons]
      constructor
      · intro same
        exact ⟨congrArg source same, congrArg target same, List.nil_prefix⟩
      · intro holds
        obtain ⟨rfl, rfl, _⟩ := holds
        rfl
    rw [links, List.mem_cons, ih, split, first]

theorem map_links (f : String → String) (u : String) (rest : List String) :
    (links u rest).map (fun e => condition (f e.source) (f e.target)) =
      links (f u) (rest.map f) := by
  induction rest generalizing u with
  | nil => rfl
  | cons v rest ih => simp [links, ih]

end Edge

namespace Graph

theorem node?_eq_some {g : Graph} {id : String} {n : Node} (found : g.node? id = some n) :
    n ∈ g.nodes ∧ n.id = id := by
  refine ⟨List.mem_of_find?_eq_some found, ?_⟩
  simpa using List.find?_some found

theorem find?_of_nodup {α : Type} {key : α → String} {xs : List α} (nodup : (xs.map key).Nodup)
    {x : α} (member : x ∈ xs) : xs.find? (key · == key x) = some x := by
  cases found : xs.find? (key · == key x) with
  | none =>
    have never := List.find?_eq_none.1 found x member
    simp at never
  | some other =>
    have named : key other = key x := by simpa using List.find?_some found
    rw [List.inj_on_of_nodup_map nodup (List.mem_of_find?_eq_some found) member named]

theorem find?_eq_some_of_key {edges : List Edge} {chosen : Edge → Bool} {key : Edge → String}
    (nodup : ((edges.filter chosen).map key).Nodup) {e : Edge} (member : e ∈ edges.filter chosen) :
    edges.find? (fun x => chosen x && key x == key e) = some e := by
  have first := find?_of_nodup nodup member
  simpa only [List.find?_filter, Bool.decide_and, Bool.decide_eq_true] using first

theorem outgoing?_eq_some {g : Graph}
    (nodup : ((g.edges.filter Edge.isCondition).map Edge.source).Nodup) {e : Edge}
    (member : e ∈ g.edges.filter Edge.isCondition) : g.outgoing? e.source = some e :=
  find?_eq_some_of_key nodup member

theorem incoming?_eq_some {g : Graph}
    (nodup : ((g.edges.filter Edge.isCondition).map Edge.target).Nodup) {e : Edge}
    (member : e ∈ g.edges.filter Edge.isCondition) : g.incoming? e.target = some e :=
  find?_eq_some_of_key nodup member

theorem outgoing?_eq_none {g : Graph} {id : String}
    (absent : id ∉ (g.edges.filter Edge.isCondition).map Edge.source) : g.outgoing? id = none := by
  rw [outgoing?, List.find?_eq_none]
  intro e member holds
  simp only [Bool.and_eq_true, beq_iff_eq] at holds
  exact absent (List.mem_map.2 ⟨e, List.mem_filter.2 ⟨member, holds.1⟩, holds.2⟩)

-- Each step takes the first link left; the id it leaves is not met again, so it stays unvisited
-- ahead of the walk.
theorem walk_eq {g : Graph} {n : Node} {rest unvisited : List String}
    (follow : ∀ e ∈ Edge.links n.id rest, g.outgoing? e.source = some e)
    (ends : g.outgoing? (rest.getLastD n.id) = none)
    (found : ∀ v ∈ rest, g.contains v = true) (nodup : (n.id :: rest).Nodup)
    (fresh : ∀ id ∈ n.id :: rest, id ∈ unvisited) :
    g.walk unvisited n = n :: rest.filterMap g.node? := by
  induction rest generalizing n unvisited with
  | nil =>
    have stop : g.next? n = none := by
      rw [next?, show g.outgoing? n.id = none from ends]
      rfl
    rw [walk, dif_pos (fresh n.id (by simp)), stop]
    rfl
  | cons v rest ih =>
    obtain ⟨m, node⟩ := Option.isSome_iff_exists.1 (found v (by simp))
    have same : m.id = v := (node?_eq_some node).2
    have link : g.outgoing? n.id = some (.condition n.id v) := follow _ List.mem_cons_self
    have step : g.next? n = some m := by
      rw [next?, link]
      exact node
    have later : g.walk (without unvisited n.id) m = m :: rest.filterMap g.node? := ih
      (fun e member => follow e (List.mem_cons_of_mem _ (same ▸ member)))
      (by rwa [same, ← List.getLastD_cons])
      (fun w member => found w (List.mem_cons_of_mem _ member))
      (same ▸ (List.nodup_cons.1 nodup).2)
      (fun id member => by
        rw [same] at member
        refine List.mem_filter.2 ⟨fresh id (List.mem_cons_of_mem _ member), ?_⟩
        have distinct : id ≠ n.id := by
          intro equal
          subst equal
          exact (List.nodup_cons.1 nodup).1 member
        simpa using distinct)
    rw [walk, dif_pos (fresh n.id (by simp)), step]
    simp [later, node]

end Graph

end TradingStrategy
