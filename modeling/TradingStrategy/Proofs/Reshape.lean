import TradingStrategy.Edit.Structure
import TradingStrategy.Proofs.Shape

set_option autoImplicit false

namespace TradingStrategy

open Strategy (exchanged)

theorem exchanged_exchanged (a b id : String) : exchanged a b (exchanged a b id) = id := by
  unfold exchanged
  grind

theorem exchanged_of_ne {a b id : String} (notA : id ≠ a) (notB : id ≠ b) :
    exchanged a b id = id := by
  rw [exchanged, if_neg notA, if_neg notB]

theorem exchanged_mem {a b id : String} {path : List String} (memberA : a ∈ path)
    (memberB : b ∈ path) (member : id ∈ path) : exchanged a b id ∈ path := by
  unfold exchanged
  split
  · exact memberB
  · split
    · exact memberA
    · exact member

theorem mem_map_exchanged {a b id : String} {path : List String} (memberA : a ∈ path)
    (memberB : b ∈ path) : id ∈ path.map (exchanged a b) ↔ id ∈ path := by
  constructor
  · intro image
    obtain ⟨old, member, rfl⟩ := List.mem_map.1 image
    exact exchanged_mem memberA memberB member
  · intro member
    exact List.mem_map.2 ⟨_, exchanged_mem memberA memberB member, exchanged_exchanged a b id⟩

def Edge.exchange (a b : String) (e : Edge) : Edge :=
  if e.isLink && (e.touches a || e.touches b) then
    .condition (exchanged a b e.source) (exchanged a b e.target)
  else e

namespace Edge

theorem exchange_of_isAction {a b : String} {e : Edge} (action : e.isAction = true) :
    e.exchange a b = e := by
  have plain : e.isCondition = false := by simp [isCondition_eq_not_isAction, action]
  simp [exchange, isLink, plain]

theorem isCondition_exchange (a b : String) (e : Edge) :
    (e.exchange a b).isCondition = e.isCondition := by
  unfold exchange
  split
  next link =>
    simp only [isLink, Bool.and_eq_true] at link
    rw [link.1.1, isCondition_condition]
  next => rfl

theorem isAction_exchange (a b : String) (e : Edge) :
    (e.exchange a b).isAction = e.isAction := by
  have kinds := isCondition_exchange a b e
  simpa [isCondition_eq_not_isAction] using kinds

theorem exchange_condition (a b u v : String) :
    (condition u v).exchange a b = condition (exchanged a b u) (exchanged a b v) := by
  unfold exchange
  split
  next => rfl
  next apart =>
    simp only [isLink_condition, Bool.true_and, touches, source_condition, target_condition,
      Bool.or_eq_true, beq_iff_eq, not_or] at apart
    rw [exchanged_of_ne apart.1.1 apart.2.1, exchanged_of_ne apart.1.2 apart.2.2]

end Edge

namespace Graph

def cut (g : Graph) (edge : String) : Graph :=
  { g with edges := g.edges.filter (·.id != edge) }

theorem contains_iff {g : Graph} {id : String} :
    g.contains id = true ↔ id ∈ g.nodes.map (·.id) := by
  rw [contains, node?, List.find?_isSome]
  simp

theorem node?_addNode {g : Graph} {n : Node} (fresh : g.contains n.id = false) (id : String) :
    (g.addNode n).node? id = if id = n.id then some n else g.node? id := by
  have absent : g.node? n.id = none := by simpa [contains] using fresh
  by_cases same : id = n.id
  · subst same
    have missing : g.nodes.find? (·.id == n.id) = none := absent
    simp [addNode, node?, missing]
  · have other : (n.id == id) = false := by simpa using Ne.symm same
    simp [addNode, node?, same, other]

theorem isKind_addNode {g : Graph} {n : Node} (fresh : g.contains n.id = false)
    (kind : Node.Kind) (id : String) :
    (g.addNode n).isKind kind id =
      if id = n.id then decide (n.kind = kind) else g.isKind kind id := by
  rw [isKind, node?_addNode fresh]
  split <;> rfl

theorem isKind_addNode_of_isKind {g : Graph} {n : Node} (fresh : g.contains n.id = false)
    {kind : Node.Kind} {id : String} (holds : g.isKind kind id = true) :
    (g.addNode n).isKind kind id = true := by
  have distinct : id ≠ n.id := by
    intro equal
    subst equal
    rw [contains_of_isKind holds] at fresh
    contradiction
  rwa [isKind_addNode fresh, if_neg distinct]

theorem node?_removeNode (g : Graph) (gone id : String) :
    (g.removeNode gone).node? id = if id = gone then none else g.node? id := by
  rw [node?, removeNode, List.find?_filter]
  by_cases same : id = gone
  · rw [if_pos same, List.find?_eq_none]
    intro n _
    simp [same]
  · rw [if_neg same, node?]
    congr 1
    funext n
    by_cases here : n.id = id <;> simp [here, same]

theorem isKind_removeNode (g : Graph) (gone : String) (kind : Node.Kind) (id : String) :
    (g.removeNode gone).isKind kind id = if id = gone then false else g.isKind kind id := by
  rw [isKind, node?_removeNode]
  split <;> rfl

theorem filter_isCondition_removeNode (g : Graph) (gone : String) :
    (g.removeNode gone).edges.filter Edge.isCondition =
      (g.edges.filter Edge.isCondition).filter fun e => !e.touches gone := by
  simp only [removeNode, List.filter_filter, Bool.and_comm]

theorem node?_map {nodes : List Node} {change : Node → Node} (same : ∀ n, (change n).id = n.id)
    (id : String) :
    (nodes.map change).find? (·.id == id) = (nodes.find? (·.id == id)).map change := by
  rw [List.find?_map]
  congr 2
  funext n
  simp [same]

-- It is the first node of the id that is moved, which is the only one.
theorem setPosition_eq {g : Graph} (ids : (g.nodes.map (·.id)).Nodup) (id : String) (p : Position) :
    g.setPosition id p =
      { g with nodes := g.nodes.map fun n => if n.id = id then { n with position := p } else n } := by
  rw [setPosition]
  split
  next i found =>
    obtain ⟨bound, here, _⟩ := List.findIdx?_eq_some_iff_getElem.1 found
    rw [beq_iff_eq] at here
    congr 1
    apply List.ext_getElem
    · simp
    · intro j atLeft atRight
      rw [List.length_modify] at atLeft
      rw [List.getElem_modify, List.getElem_map]
      by_cases same : i = j
      · subst same
        rw [if_pos rfl, if_pos here]
      · have apart : g.nodes[j].id ≠ id := by
          intro equal
          have atI : i < (g.nodes.map (·.id)).length := by simpa using bound
          have atJ : j < (g.nodes.map (·.id)).length := by simpa using atLeft
          have ends : (g.nodes.map (·.id))[i] = (g.nodes.map (·.id))[j] := by simp [here, equal]
          exact same ((List.Nodup.getElem_inj_iff ids).1 ends)
        rw [if_neg same, if_neg apart]
  next missing =>
    have absent := List.findIdx?_eq_none_iff.1 missing
    have same : g.nodes.map (fun n => if n.id = id then { n with position := p } else n) =
        g.nodes := by
      refine (List.map_congr_left fun n member => ?_).trans (List.map_id _)
      have other : n.id ≠ id := by simpa using absent n member
      rw [if_neg other]
      rfl
    rw [same]

theorem filter_isAction_exchange (g : Graph) (a b : String) :
    (g.edges.map (Edge.exchange a b)).filter Edge.isAction = g.edges.filter Edge.isAction := by
  have same : Edge.isAction ∘ Edge.exchange a b = Edge.isAction :=
    funext (Edge.isAction_exchange a b)
  rw [List.filter_map, same]
  refine (List.map_congr_left fun e member => ?_).trans (List.map_id _)
  exact Edge.exchange_of_isAction (List.mem_filter.1 member).2

theorem edges_setPosition (g : Graph) (id : String) (p : Position) :
    (g.setPosition id p).edges = g.edges := by
  rw [setPosition]
  split <;> rfl

theorem filter_isCondition_numberFanOuts (g : Graph) (conditions : List String) :
    (g.numberFanOuts conditions).edges.filter Edge.isCondition =
      g.edges.filter Edge.isCondition := by
  rw [← Edge.filter_isCondition_unnumbered, map_unnumbered_numberFanOuts,
    Edge.filter_isCondition_unnumbered]

namespace Shaped

variable {g : Graph} {path : List String}

theorem initial (start : Position) : (Graph.initial start).Shaped [] := by
  refine ⟨by simp [Graph.initial], by simp [Graph.initial, nodesOf], ?_, by simp, by simp,
    ?_, ?_, ?_⟩
  · intro id
    by_cases same : startId = id <;> simp [Graph.initial, isKind, node?, same]
  · simp [Graph.initial, Edge.links]
  · simp [Graph.initial]
  · simp [Graph.initial]

theorem ids_addNode (shaped : g.Shaped path) {n : Node} (fresh : g.contains n.id = false) :
    ((g.addNode n).nodes.map (·.id)).Nodup := by
  have absent : n.id ∉ g.nodes.map (·.id) := by simp [← contains_iff, fresh]
  simp only [addNode, List.map_append, List.map_cons, List.map_nil]
  refine List.nodup_append.2 ⟨shaped.ids, by simp, fun id inside last atEnd same => ?_⟩
  rw [List.mem_singleton.1 atEnd] at same
  exact absent (same ▸ inside)

theorem start_addNode (shaped : g.Shaped path) {n : Node} (kind : n.kind ≠ .start) :
    ((g.addNode n).nodesOf .start).map (·.id) = [startId] := by
  simpa [addNode, nodesOf, kind] using shaped.start

theorem fans_addNode (shaped : g.Shaped path) {n : Node} (fresh : g.contains n.id = false)
    {e : Edge} (member : e ∈ g.edges) (action : e.isAction = true) :
    e.unnumbered = .action e.source e.target ∧ e.source ∈ path ∧
      (g.addNode n).isKind .action e.target = true := by
  obtain ⟨drawnAs, source, target⟩ := shaped.fans e member action
  exact ⟨drawnAs, source, isKind_addNode_of_isKind fresh target⟩

theorem addCondition (shaped : g.Shaped path) {id : String} (fresh : g.contains id = false)
    (drawn : IdSource.Drawn "condition" id) (p : Position) :
    ((g.addNode ⟨id, .condition, p⟩).addEdge (.condition (path.getLastD startId) id)).Shaped
      (path ++ [id]) := by
  have unlisted : id ∉ path := by
    rw [shaped.conditions, isKind_of_not_contains fresh]
    decide
  have kinds (other : String) :
      ((g.addNode ⟨id, .condition, p⟩).addEdge (.condition (path.getLastD startId) id)).isKind
        .condition other = if other = id then true else g.isKind .condition other :=
    isKind_addNode (n := ⟨id, .condition, p⟩) fresh .condition other
  refine ⟨shaped.ids_addNode fresh, shaped.start_addNode (n := ⟨id, .condition, p⟩) (by simp),
    ?_, ?_, ?_, ?_, ?_, ?_⟩
  · intro other
    rw [kinds, List.mem_append, List.mem_singleton]
    by_cases same : other = id
    · simp [same]
    · simp [same, shaped.conditions other]
  · intro other member
    rcases List.mem_append.1 member with old | new
    · exact shaped.names other old
    · rwa [List.mem_singleton.1 new]
  · refine List.nodup_append.2 ⟨shaped.nodup, by simp, fun other inside last atEnd same => ?_⟩
    rw [List.mem_singleton.1 atEnd] at same
    exact unlisted (same ▸ inside)
  -- The new link is the last of the links along the longer path.
  · rw [Edge.links_append_cons]
    change ((g.edges ++ [_]).filter Edge.isCondition).Perm _
    rw [List.filter_append]
    exact shaped.links.append_right _
  · intro e member action
    rcases List.mem_append.1 member with old | new
    · obtain ⟨drawnAs, source, target⟩ :=
        shaped.fans_addNode (n := ⟨id, .condition, p⟩) fresh old action
      exact ⟨drawnAs, List.mem_append_left _ source, target⟩
    · rw [List.mem_singleton.1 new] at action
      contradiction
  · simpa [addEdge, addNode] using shaped.fansOnce

theorem addAction (shaped : g.Shaped path) {id : String} (fresh : g.contains id = false)
    (p : Position) : (g.addNode ⟨id, .action, p⟩).Shaped path := by
  refine ⟨shaped.ids_addNode fresh, shaped.start_addNode (by simp), ?_, shaped.names, shaped.nodup,
    shaped.links, fun e => shaped.fans_addNode fresh, shaped.fansOnce⟩
  intro other
  rw [isKind_addNode (n := ⟨id, .action, p⟩) fresh, shaped.conditions other]
  by_cases same : other = id
  · simp [same, isKind_of_not_contains fresh]
  · simp [same]

theorem addFan (shaped : g.Shaped path) {condition action : String}
    (source : condition ∈ path) (target : g.isKind .action action = true)
    (new : g.fansOut condition action = false) :
    (g.addEdge (.action condition action)).Shaped path := by
  refine ⟨shaped.ids, shaped.start, shaped.conditions, shaped.names, shaped.nodup, ?_, ?_, ?_⟩
  · simpa [addEdge, List.filter_append, Edge.action, Edge.isCondition] using shaped.links
  · intro e member isAction
    rcases List.mem_append.1 member with old | last
    · exact shaped.fans e old isAction
    · rw [List.mem_singleton.1 last]
      exact ⟨rfl, source, target⟩
  · have parts : (g.addEdge (.action condition action)).edges.filter Edge.isAction =
        g.edges.filter Edge.isAction ++ [.action condition action] := by
      simp [addEdge, List.filter_append, Edge.action, Edge.isAction]
    rw [parts, List.map_append, List.nodup_append]
    refine ⟨shaped.fansOnce, by simp, fun ends inside other last => ?_⟩
    simp only [List.map_cons, List.map_nil, List.mem_singleton] at last
    obtain ⟨e, member, rfl⟩ := List.mem_map.1 inside
    rw [last]
    intro same
    obtain ⟨inEdges, isAction⟩ := List.mem_filter.1 member
    have sameSource : e.source = condition := congrArg Prod.fst same
    have sameTarget : e.target = action := congrArg Prod.snd same
    have found := List.any_eq_false.1 new e inEdges
    simp [isFanOut, isAction, sameSource, sameTarget] at found

theorem filterEdges (shaped : g.Shaped path) {keep : Edge → Bool}
    (kept : ∀ e ∈ g.edges, e.isCondition = true → keep e = true) :
    ({ g with edges := g.edges.filter keep } : Graph).Shaped path := by
  refine ⟨shaped.ids, shaped.start, shaped.conditions, shaped.names, shaped.nodup, ?_, ?_, ?_⟩
  · have same : (g.edges.filter keep).filter Edge.isCondition =
        g.edges.filter Edge.isCondition := by
      rw [List.filter_filter]
      apply List.filter_congr
      intro e member
      by_cases condition : e.isCondition = true
      · simp [condition, kept e member condition]
      · simp [condition]
    exact same ▸ shaped.links
  · intro e member
    exact shaped.fans e (List.mem_filter.1 member).1
  · have fewer : ((g.edges.filter keep).filter Edge.isAction).Sublist
        (g.edges.filter Edge.isAction) := (List.filter_sublist).filter _
    exact shaped.fansOnce.sublist (fewer.map _)

theorem source_mem (shaped : g.Shaped path) {e : Edge} (member : e ∈ g.edges) :
    e.source ∈ startId :: path := by
  by_cases action : e.isAction = true
  · exact List.mem_cons_of_mem _ (shaped.fans e member action).2.1
  · have condition : e.isCondition = true := by simp [Edge.isCondition_eq_not_isAction, action]
    exact Edge.source_mem_of_mem_links
      (shaped.links.mem_iff.1 (List.mem_filter.2 ⟨member, condition⟩))

theorem eq_condition (shaped : g.Shaped path) {e : Edge} (member : e ∈ g.edges)
    (condition : e.isCondition = true) :
    e = .condition e.source e.target ∧ e.target ∈ path := by
  have link := shaped.links.mem_iff.1 (List.mem_filter.2 ⟨member, condition⟩)
  exact ⟨Edge.eq_condition_of_mem_links link, Edge.target_mem_of_mem_links link⟩

theorem id_eq (shaped : g.Shaped path) {e : Edge} (member : e ∈ g.edges) :
    e.id = Edge.standardId e.source e.target := by
  by_cases action : e.isAction = true
  · rw [← Edge.id_unnumbered, (shaped.fans e member action).1]
    rfl
  · have condition : e.isCondition = true := by simp [Edge.isCondition_eq_not_isAction, action]
    rw [congrArg Edge.id (shaped.eq_condition member condition).1]
    rfl

theorem sourceName (shaped : g.Shaped path) {e : Edge} (member : e ∈ g.edges) :
    Edge.SourceName e.source := by
  rcases List.mem_cons.1 (shaped.source_mem member) with start | inside
  · exact .inl start
  · exact .inr (shaped.names _ inside)

theorem ends_eq_of_id_eq (shaped : g.Shaped path) {e other : Edge} (member : e ∈ g.edges)
    (otherMember : other ∈ g.edges) (same : e.id = other.id) : e.ends = other.ends := by
  rw [shaped.id_eq member, shaped.id_eq otherMember] at same
  have parts := Edge.standardId_inj (shaped.sourceName member) (shaped.sourceName otherMember) same
  exact Prod.ext parts.1 parts.2

theorem cut (shaped : g.Shaped path) {e : Edge} (member : e ∈ g.edges)
    (action : e.isAction = true) : (g.cut e.id).Shaped path := by
  refine shaped.filterEdges fun x inside condition => ?_
  have apart : x.id ≠ e.id := by
    intro same
    -- Edges of one id have one target, and no condition is an action.
    have targets : x.target = e.target :=
      congrArg Prod.snd (shaped.ends_eq_of_id_eq inside member same)
    exact shaped.target_not_mem member action (targets ▸ (shaped.eq_condition inside condition).2)
  simpa using apart

theorem map_label_setPosition (shaped : g.Shaped path) (id : String) (p : Position) :
    (g.setPosition id p).nodes.map Node.label = g.nodes.map Node.label := by
  rw [setPosition_eq shaped.ids, List.map_map]
  apply List.map_congr_left
  intro n _
  by_cases here : n.id = id <;> simp [Node.label, here]

theorem node?_setPosition (shaped : g.Shaped path) (id : String) (p : Position) (other : String) :
    (g.setPosition id p).node? other =
      (g.node? other).map fun n => if n.id = id then { n with position := p } else n := by
  rw [setPosition_eq shaped.ids]
  apply node?_map
  intro n
  split <;> rfl

theorem setPosition (shaped : g.Shaped path) (id : String) (p : Position) :
    (g.setPosition id p).Shaped path :=
  shaped.congr (shaped.map_label_setPosition id p) (by rw [edges_setPosition])

theorem numberFanOuts (shaped : g.Shaped path) (conditions : List String) :
    (g.numberFanOuts conditions).Shaped path :=
  shaped.congr (by rw [nodes_numberFanOuts]) (map_unnumbered_numberFanOuts conditions)

-- The nodes go the same way for actions and conditions; what is left to say is which condition
-- edges remain or are put in.
theorem removeNode (shaped : g.Shaped path) {gone : String} (kept : gone ≠ startId)
    (edges : List Edge)
    (links : (edges.filter Edge.isCondition).Perm (Edge.links startId (path.filter (· ≠ gone))))
    (fans : edges.filter Edge.isAction = (g.removeNode gone).edges.filter Edge.isAction) :
    ({ g.removeNode gone with edges } : Graph).Shaped (path.filter (· ≠ gone)) := by
  have kinds (kind : Node.Kind) (id : String) :
      ({ g.removeNode gone with edges } : Graph).isKind kind id =
        if id = gone then false else g.isKind kind id := isKind_removeNode g gone kind id
  have oldFan {e : Edge} (member : e ∈ edges) (action : e.isAction = true) :
      e ∈ g.edges ∧ e.touches gone = false := by
    have inside := List.mem_filter.2 ⟨member, action⟩
    rw [fans, List.mem_filter, Graph.removeNode, List.mem_filter] at inside
    exact ⟨inside.1.1, by simpa using inside.1.2⟩
  refine ⟨?_, ?_, ?_, ?_, shaped.nodup.filter _, links, ?_, ?_⟩
  · exact shaped.ids.sublist ((List.filter_sublist).map _)
  · have same : ({ g.removeNode gone with edges } : Graph).nodesOf .start = g.nodesOf .start := by
      simp only [nodesOf, Graph.removeNode, List.filter_filter]
      apply List.filter_congr
      intro n member
      by_cases start : n.kind = .start
      · have listed : n.id ∈ (g.nodesOf .start).map (·.id) :=
          List.mem_map_of_mem (List.mem_filter.2 ⟨member, by simpa using start⟩)
        rw [shaped.start, List.mem_singleton] at listed
        simp [start, listed, kept.symm]
      · simp [start]
    rw [same]
    exact shaped.start
  · intro id
    rw [kinds, List.mem_filter, shaped.conditions]
    by_cases same : id = gone <;> simp [same]
  · intro id member
    exact shaped.names id (List.mem_filter.1 member).1
  · intro e member action
    obtain ⟨inEdges, apart⟩ := oldFan member action
    obtain ⟨drawnAs, source, target⟩ := shaped.fans e inEdges action
    simp only [Edge.touches, Bool.or_eq_false_iff, beq_eq_false_iff_ne] at apart
    refine ⟨drawnAs, List.mem_filter.2 ⟨source, by simpa using apart.1⟩, ?_⟩
    rwa [kinds, if_neg apart.2]
  · have fewer : (edges.filter Edge.isAction).Sublist (g.edges.filter Edge.isAction) := by
      rw [fans]
      exact (List.filter_sublist).filter _
    exact shaped.fansOnce.sublist (fewer.map _)

theorem removeAction (shaped : g.Shaped path) {gone : String}
    (action : g.isKind .action gone = true) : (g.removeNode gone).Shaped path := by
  have notStart : gone ≠ startId := by
    intro equal
    subst equal
    exact absurd (isKind_unique action shaped.isKind_start) (by decide)
  have unlisted : gone ∉ path := shaped.not_mem_of_isKind action (by decide)
  have whole : path.filter (· ≠ gone) = path := filter_ne_of_not_mem unlisted
  have links : ((g.removeNode gone).edges.filter Edge.isCondition).Perm
      (Edge.links startId path) := by
    have absent : gone ∉ startId :: path := by simp [notStart, unlisted]
    rw [filter_isCondition_removeNode, ← Edge.filter_untouched_links absent]
    exact shaped.links.filter _
  have result := shaped.removeNode notStart (g.removeNode gone).edges (by rwa [whole]) rfl
  rwa [whole] at result

-- Of the links along the path those into and out of the removed condition fall away.
theorem links_removeNode {before after : List String} {gone : String}
    (shaped : g.Shaped (before ++ gone :: after)) :
    ((g.removeNode gone).edges.filter Edge.isCondition).Perm
      (Edge.links startId before ++ (Edge.links gone after).filter fun e => !e.touches gone) := by
  have apart := shaped.nodup_from_start
  rw [← List.cons_append, List.nodup_append] at apart
  have notBefore : gone ∉ startId :: before := fun member =>
    apart.2.2 gone member gone List.mem_cons_self rfl
  rw [filter_isCondition_removeNode]
  refine (shaped.links.filter _).trans (List.Perm.of_eq ?_)
  rw [Edge.links_append_cons, List.filter_append, Edge.filter_untouched_links notBefore,
    List.filter_cons_of_neg (by simp [Edge.touches])]

theorem incoming?_inner {before after : List String} {gone : String}
    (shaped : g.Shaped (before ++ gone :: after)) :
    g.incoming? gone = some (.condition (before.getLastD startId) gone) := by
  apply shaped.incoming?_link (e := .condition (before.getLastD startId) gone)
  rw [Edge.links_append_cons]
  simp

theorem outgoing?_inner {before after : List String} {gone next : String}
    (shaped : g.Shaped (before ++ gone :: next :: after)) :
    g.outgoing? gone = some (.condition gone next) := by
  apply shaped.outgoing?_link (e := .condition gone next)
  rw [Edge.links_append_cons, Edge.links]
  simp

-- A link from the predecessor to the successor, if there is one, closes the gap.
theorem removeCondition (shaped : g.Shaped path) {gone : String} (member : gone ∈ path) :
    (match g.incoming? gone, g.outgoing? gone with
      | some before, some after =>
        (g.removeNode gone).addEdge (.condition before.source after.target)
      | _, _ => g.removeNode gone).Shaped (path.filter (· ≠ gone)) := by
  have notStart : gone ≠ startId := by
    intro equal
    exact shaped.startId_not_mem (equal ▸ member)
  obtain ⟨before, after, rfl⟩ := List.append_of_mem member
  have remaining := filter_ne_append_cons shaped.nodup
  have links := shaped.links_removeNode
  rw [shaped.incoming?_inner]
  cases after with
  | nil =>
    have outgoing : g.outgoing? gone = none := by
      have last := shaped.outgoing?_last
      rwa [List.getLastD_concat] at last
    rw [outgoing]
    refine shaped.removeNode notStart (g.removeNode gone).edges ?_ rfl
    rw [remaining]
    simpa [Edge.links] using links
  | cons next rest =>
    have notAfter : gone ∉ next :: rest :=
      (List.nodup_cons.1 (List.nodup_append.1 shaped.nodup).2.1).1
    rw [shaped.outgoing?_inner]
    refine shaped.removeNode notStart
      ((g.removeNode gone).edges ++ [.condition (before.getLastD startId) next]) ?_ ?_
    -- What is left of the links lacks just the one across the gap.
    · rw [remaining, List.filter_append, Edge.links_append_cons]
      rw [Edge.links, List.filter_cons_of_neg (by simp [Edge.touches]),
        Edge.filter_untouched_links notAfter] at links
      refine (links.append_right _).trans ?_
      rw [List.append_assoc]
      exact (List.perm_append_singleton _ _).append_left _
    · rw [List.filter_append]
      exact List.append_nil _

theorem exchange (shaped : g.Shaped path) {a b : String} (memberA : a ∈ path) (memberB : b ∈ path)
    {nodes : List Node} (labels : nodes.map Node.label = g.nodes.map Node.label) :
    ({ nodes, edges := g.edges.map (Edge.exchange a b) } : Graph).Shaped
      (path.map (exchanged a b)) := by
  have moved := shaped.congr (h := { g with nodes }) labels rfl
  have startFixed : exchanged a b startId = startId := by
    apply exchanged_of_ne
    · intro equal
      subst equal
      exact shaped.startId_not_mem memberA
    · intro equal
      subst equal
      exact shaped.startId_not_mem memberB
  refine ⟨moved.ids, moved.start, ?_, ?_, ?_, ?_, ?_, ?_⟩
  · intro id
    rw [mem_map_exchanged memberA memberB]
    exact moved.conditions id
  · intro id member
    exact shaped.names id ((mem_map_exchanged memberA memberB).1 member)
  · exact shaped.nodup.map fun id other same => by
      rw [← exchanged_exchanged a b id, same, exchanged_exchanged]
  -- Links along the path go to links along the path with the two exchanged.
  · have parts : (g.edges.map (Edge.exchange a b)).filter Edge.isCondition =
        (g.edges.filter Edge.isCondition).map
          fun e => .condition (exchanged a b e.source) (exchanged a b e.target) := by
      have same : Edge.isCondition ∘ Edge.exchange a b = Edge.isCondition :=
        funext (Edge.isCondition_exchange a b)
      rw [List.filter_map, same]
      apply List.map_congr_left
      intro e member
      obtain ⟨inside, condition⟩ := List.mem_filter.1 member
      rw [(shaped.eq_condition inside condition).1, Edge.exchange_condition]
      rfl
    rw [parts]
    refine (shaped.links.map _).trans (List.Perm.of_eq ?_)
    rw [Edge.map_links, startFixed]
  · intro e member action
    obtain ⟨old, oldMember, rfl⟩ := List.mem_map.1 member
    rw [Edge.isAction_exchange] at action
    rw [Edge.exchange_of_isAction action]
    obtain ⟨drawnAs, source, target⟩ := moved.fans old oldMember action
    exact ⟨drawnAs, (mem_map_exchanged memberA memberB).2 source, target⟩
  · rw [filter_isAction_exchange]
    exact shaped.fansOnce

end Shaped

end Graph

end TradingStrategy
