import TradingStrategy.Proofs.ActionRoundTrip
import TradingStrategy.Proofs.ConditionRoundTrip
import TradingStrategy.Proofs.Keys
import TradingStrategy.Proofs.Reachable

set_option autoImplicit false

namespace TradingStrategy

namespace Payload

variable {p : Payload} {overrides : List (String × Capabilities)} {source rest : IdSource}
  {t : Strategy}

def savedGraph (p : Payload) : Graph := ⟨p.nodes, p.edges⟩

def registry (p : Payload) (overrides : List (String × Capabilities)) : Registry :=
  ((Catalog.ofDeclared p.data (p.indicators.map (·.spec))).extend overrides).registry

end Payload

structure SentCondition.Canonical (registry : Registry) (g : Graph) (id : String)
    (c : SentCondition) : Prop where
  kind : g.isKind .condition id = true
  node : c.node = id
  actions : c.actions = g.fanOutTargets id
  regular : c.Regular
  readsBack : ∀ k ∈ c.comparisons, k.ReadsBack registry

structure SentAction.Canonical (g : Graph) (id : String) (c : SentAction) : Prop where
  kind : g.isKind .action id = true
  calls : ∀ call ∈ c.act, call.Canonical

namespace Payload

variable {p : Payload} {overrides : List (String × Capabilities)} {source rest : IdSource}
  {t : Strategy}

structure Canonical (overrides : List (String × Capabilities)) (p : Payload) : Prop where
  start : p.savedGraph.start?.isSome = true
  sequence : p.sequence = p.savedGraph.chainedConditions
  indicators : ∀ i ∈ p.indicators, i.onEntireData = false
  actions : ∀ e ∈ p.actions.entries, e.2.Canonical p.savedGraph e.1
  conditions : ∀ e ∈ p.conditions.entries,
    e.2.Canonical (p.registry overrides) p.savedGraph e.1

def RestoresCondition (registry : Registry) (e : String × SentCondition)
    (made : String × Condition) : Prop :=
  made.1 = e.1 ∧ ∃ source rest, (e.2.restore registry).exec source = (.ok made.2, rest)

def RestoresAction (e : String × SentAction) (made : String × Action) : Prop :=
  made.1 = e.1 ∧ ∃ source rest, source.Narrow ∧
    (e.2.restore e.1).exec source = (.ok made.2, rest)

theorem drawIds_ok {α β γ : Type} {stem : String} {make : String → α → β} {as : List α}
    {taken left : List String} {made : List β}
    (done : (drawIds stem make as taken).exec source = (.ok (made, left), rest))
    {f : α → γ} {g : β → γ} (kept : ∀ id a, g (make id a) = f a) : made.map g = as.map f := by
  induction as generalizing taken left source rest made with
  | nil =>
    rw [drawIds, Drawing.pure_eq_ok_iff] at done
    rw [← (Prod.mk.inj done.1).1]
    rfl
  | cons a others ih =>
    simp only [drawIds, Drawing.bind_eq_ok_iff, Drawing.pure_eq_ok_iff] at done
    obtain ⟨⟨id, _⟩, _, _, ⟨later, _⟩, _, drawn, same, _⟩ := done
    rw [← (Prod.mk.inj same).1, List.map_cons, List.map_cons, kept, ih drawn]

theorem keepsDraws_drawIds {α β : Type} (stem : String) (make : String → α → β) (as : List α)
    (taken : List String) : (drawIds stem make as taken).KeepsDraws := by
  induction as generalizing taken with
  | nil => exact Drawing.keepsDraws_pure _
  | cons a others ih =>
    exact (Drawing.keepsDraws_uniqueAmong stem taken).bind fun drawn =>
      (ih drawn.2).bind fun _ => Drawing.keepsDraws_pure _

theorem drawIds_draws {α β : Type} (stem : String) (make : String → α → β) (as : List α)
    (taken : List String) : (drawIds stem make as taken).Draws taken as.length Prod.snd := by
  induction as generalizing taken with
  | nil => exact Drawing.draws_pure ([], taken) Prod.snd
  | cons a others ih =>
    rw [drawIds, List.length_cons, Nat.add_comm]
    exact (Drawing.draws_uniqueAmong stem taken).bind fun drawn _ _ _ =>
      (ih drawn.2).map fun _ => rfl

theorem restoreConditions_ok {registry : Registry} {sent : List (String × SentCondition)}
    {made : List (String × Condition)}
    (done : (restoreConditions registry sent).exec source = (.ok made, rest)) :
    List.Forall₂ (RestoresCondition registry) sent made := by
  induction sent generalizing source made with
  | nil =>
    rw [restoreConditions, Drawing.pure_eq_ok_iff] at done
    rw [← done.1]
    exact .nil
  | cons entry others ih =>
    simp only [restoreConditions, Drawing.bind_eq_ok_iff, Drawing.pure_eq_ok_iff,
      Drawing.relabel_eq_ok_iff] at done
    obtain ⟨condition, _, restored, later, _, drawn, rfl, rfl⟩ := done
    exact .cons ⟨rfl, _, _, restored⟩ (ih drawn)

theorem restoreActions_ok (narrow : source.Narrow) {sent : List (String × SentAction)}
    {made : List (String × Action)}
    (done : (restoreActions sent).exec source = (.ok made, rest)) :
    List.Forall₂ RestoresAction sent made := by
  induction sent generalizing source made with
  | nil =>
    rw [restoreActions, Drawing.pure_eq_ok_iff] at done
    rw [← done.1]
    exact .nil
  | cons entry others ih =>
    simp only [restoreActions, Drawing.bind_eq_ok_iff, Drawing.pure_eq_ok_iff] at done
    obtain ⟨action, _, restored, later, _, drawn, rfl, rfl⟩ := done
    exact .cons ⟨rfl, _, _, narrow, restored⟩
      (ih ((entry.2.keepsDraws_restore).narrow restored narrow) drawn)

structure Restored (overrides : List (String × Capabilities)) (p : Payload) (t : Strategy) :
    Prop where
  name : t.name = p.strategyName
  settings : t.settings = p.settings
  listing : t.listing = p.listing
  graph : t.graph = p.graph
  dataPoints : t.dataPoints.map DataPoint.declaration = p.data
  indicators : t.indicators.map Indicator.spec = p.indicators.map IndicatorDeclaration.spec
  conditions : List.Forall₂ (RestoresCondition (p.registry overrides)) p.conditions.entries
    t.conditions.entries

theorem sorted_of_forall₂ {α β : Type} {R : String × α → String × β → Prop}
    (key : ∀ e made, R e made → made.1 = e.1) {es : List (String × α)} {fs : List (String × β)}
    (each : List.Forall₂ R es fs) (sorted : Entries.Sorted es) : Entries.Sorted fs := by
  have keys : fs.map Prod.fst = es.map Prod.fst := by
    induction each with
    | nil => rfl
    | cons related _ ih =>
      rw [List.map_cons, List.map_cons, key _ _ related, ih (List.pairwise_cons.1 sorted).2]
  exact Entries.sorted_of_keys keys sorted

theorem restored_of_restore (done : (p.restore overrides).exec source = (.ok t, rest)) :
    Restored overrides p t ∧
      (source.Narrow → List.Forall₂ RestoresAction p.actions.entries t.actions.entries) := by
  simp only [restore, Drawing.bind_eq_ok_iff, Drawing.pure_eq_ok_iff, Drawing.relabel_eq_ok_iff]
    at done
  obtain ⟨⟨dataPoints, taken⟩, _, dataDone, ⟨indicators, _⟩, _, indicatorsDone, actions, _,
    actionsDone, conditions, _, conditionsDone, rfl, _⟩ := done
  have restoredConditions := restoreConditions_ok conditionsDone
  have conditionEntries : (Dict.ofList conditions).entries = conditions :=
    Dict.entries_ofList
      (sorted_of_forall₂ (fun _ _ related => related.1) restoredConditions p.conditions.sorted)
  refine ⟨⟨rfl, rfl, rfl, rfl, ?_, ?_, ?_⟩, fun narrow => ?_⟩
  · rw [drawIds_ok dataDone (f := id) fun _ _ => rfl, List.map_id]
  · exact drawIds_ok indicatorsDone fun _ _ => rfl
  · rw [conditionEntries]
    exact restoredConditions
  · have narrow' := (keepsDraws_drawIds _ _ _ _).narrow dataDone narrow
    have narrow'' := (keepsDraws_drawIds _ _ _ _).narrow indicatorsDone narrow'
    have restoredActions := restoreActions_ok narrow'' actionsDone
    show List.Forall₂ _ _ (Dict.ofList actions).entries
    rw [Dict.entries_ofList
      (sorted_of_forall₂ (fun _ _ related => related.1) restoredActions p.actions.sorted)]
    exact restoredActions

theorem graph_eq (start : p.savedGraph.start?.isSome = true) : p.graph = p.savedGraph :=
  if_pos start

theorem isSome_start?_graph (p : Payload) : p.graph.start?.isSome = true := by
  rw [graph]
  dsimp only
  split
  next found => exact found
  next => rfl

theorem edges_graph (p : Payload) : p.graph.edges = p.edges := by
  rw [graph]
  dsimp only
  split
  next => rfl
  next => rfl

theorem Restored.registry (restored : Restored overrides p t) :
    (t.catalog.extend overrides).registry = p.registry overrides := by
  rw [Strategy.catalog, restored.dataPoints, restored.indicators]
  rfl

theorem map_filter_of_forall₂ {α β : Type} {R : α → β → Prop} {as : List α} {bs : List β}
    (each : List.Forall₂ R as bs) {keep : β → Bool} {f : β → α}
    (back : ∀ a ∈ as, ∀ b, R a b → keep b = true ∧ f b = a) : (bs.filter keep).map f = as := by
  induction each with
  | nil => rfl
  | cons related _ ih =>
    rw [List.forall_mem_cons] at back
    obtain ⟨kept, same⟩ := back.1 _ related
    rw [List.filter_cons_of_pos kept, List.map_cons, same, ih back.2]

theorem Canonical.compiled_conditions (canonical : p.Canonical overrides)
    (restored : Restored overrides p t) :
    ((t.conditions.filter fun id _ => t.graph.isKind .condition id).map fun id c =>
      c.compile (p.registry overrides) id (t.graph.fanOutTargets id)) = p.conditions := by
  refine Dict.eq_of_entries (map_filter_of_forall₂ restored.conditions ?_)
  intro e member made related
  obtain ⟨key, source, rest, done⟩ := related
  have saved := canonical.conditions e member
  -- The key names a condition, so the entry is not left out of what is saved.
  rw [restored.graph, graph_eq canonical.start, key]
  have again := (SentCondition.compile_restored_eq_iff saved.regular done).2 saved.readsBack
  rw [saved.node, saved.actions] at again
  exact ⟨saved.kind, Prod.ext rfl again⟩

theorem Canonical.compiled_actions (canonical : p.Canonical overrides)
    (restored : Restored overrides p t)
    (each : List.Forall₂ RestoresAction p.actions.entries t.actions.entries) :
    ((t.actions.filter fun id _ => t.graph.isKind .action id).map fun _ a => a.compile) =
      p.actions := by
  refine Dict.eq_of_entries (map_filter_of_forall₂ each ?_)
  intro e member made related
  obtain ⟨key, source, rest, narrow, done⟩ := related
  have saved := canonical.actions e member
  rw [restored.graph, graph_eq canonical.start, key]
  exact ⟨saved.kind, Prod.ext rfl (SentAction.compile_restored saved.calls narrow done)⟩

theorem Canonical.compile_restored (canonical : p.Canonical overrides) (narrow : source.Narrow)
    (done : (p.restore overrides).exec source = (.ok t, rest)) : t.compile overrides = p := by
  obtain ⟨restored, actions⟩ := restored_of_restore done
  have graph : t.graph = p.savedGraph := restored.graph.trans (graph_eq canonical.start)
  have indicators : t.indicators.map Indicator.declaration = p.indicators := by
    have specs := congrArg (List.map fun spec => IndicatorDeclaration.mk spec false)
      restored.indicators
    rw [List.map_map, List.map_map] at specs
    refine specs.trans ((List.map_congr_left fun i member => ?_).trans (List.map_id _))
    rw [Function.comp_apply, ← canonical.indicators i member]
    rfl
  rw [Strategy.compile, restored.registry, Strategy.compileWith,
    canonical.compiled_conditions restored, canonical.compiled_actions restored (actions narrow),
    indicators, restored.dataPoints, restored.name, restored.settings, restored.listing, graph,
    ← canonical.sequence]
  rfl

def idCount (p : Payload) : Nat :=
  p.data.length + (p.indicators.length +
    ((p.actions.values.map fun a => a.act.length).sum +
      (p.conditions.values.map SentCondition.idCount).sum))

theorem restoreConditions_draws {registry : Registry} (sent : List (String × SentCondition)) :
    (restoreConditions registry sent).Draws []
      ((sent.map Prod.snd).map SentCondition.idCount).sum fun _ => [] := by
  induction sent with
  | nil => exact Drawing.draws_pure [] fun _ => []
  | cons entry others ih =>
    exact (entry.2.restore_draws.relabel _).bind fun _ _ _ _ => ih.map fun _ => rfl

def fault? (sent : List (String × SentAction)) : Option RestoreError :=
  sent.findSome? fun e => SentAction.fault? e.1 e.2.act

theorem restoreActions_ends (sent : List (String × SentAction)) :
    (restoreActions sent).Ends [] (sent.map fun e => (Call.bodies e.1 e.2.act).length).sum
      (fun _ => []) (fault? sent) := by
  induction sent with
  | nil => exact Drawing.draws_pure [] fun _ => []
  | cons entry others ih =>
    have first : fault? (entry :: others) =
        (SentAction.fault? entry.1 entry.2.act).or (fault? others) := by
      rw [fault?, List.findSome?_cons]
      cases SentAction.fault? entry.1 entry.2.act <;> rfl
    rw [first, List.map_cons, List.sum_cons, restoreActions]
    exact (entry.2.restore_ends entry.1).bind fun _ _ _ _ =>
      ih.bind_draws fun made _ _ _ => Drawing.draws_pure ((entry.1, _) :: made) fun _ => []

def drawCount (p : Payload) : Nat :=
  p.data.length + (p.indicators.length +
    ((p.actions.entries.map fun e => (Call.bodies e.1 e.2.act).length).sum +
      (p.conditions.values.map SentCondition.idCount).sum))

theorem restore_ends (p : Payload) (overrides : List (String × Capabilities)) :
    (p.restore overrides).Ends [] p.drawCount (fun _ => []) (fault? p.actions.entries) := by
  rw [restore, drawCount]
  refine ((drawIds_draws "data" DataPoint.mk p.data []).relabel _).ends.bind fun first _ _ _ => ?_
  refine ((drawIds_draws "indicator" _ p.indicators first.2).forget.relabel _).ends.bind
    fun second _ _ _ => ?_
  refine (restoreActions_ends p.actions.entries).bind_draws fun _ _ _ _ => ?_
  exact (restoreConditions_draws _).map fun _ => rfl

theorem Canonical.drawCount (canonical : p.Canonical overrides) : p.drawCount = p.idCount := by
  have calls : (p.actions.entries.map fun e => (Call.bodies e.1 e.2.act).length) =
      p.actions.values.map fun a => a.act.length := by
    rw [Dict.values, List.map_map]
    exact List.map_congr_left fun e member =>
      Call.length_bodies (canonical.actions e member).calls e.1
  rw [Payload.drawCount, calls, idCount]

theorem fault?_eq_none_iff {sent : List (String × SentAction)} :
    fault? sent = none ↔ ∀ entry ∈ sent, entry.2.lacksParams = false := by
  simp only [fault?, List.findSome?_eq_none_iff, SentAction.fault?_act, ite_eq_right_iff,
    reduceCtorEq, imp_false, Bool.not_eq_true]

theorem Canonical.restore_draws (canonical : p.Canonical overrides) :
    (p.restore overrides).Draws [] p.idCount fun _ => [] := by
  have ends := p.restore_ends overrides
  rw [canonical.drawCount, fault?_eq_none_iff.2 fun e member =>
    SentAction.lacksParams_eq_false (canonical.actions e member).calls] at ends
  exact ends

/-- A payload in the form of saved ones comes back as it was when it is loaded and saved. -/
theorem Canonical.resaved (canonical : p.Canonical overrides) (source : IdSource)
    (narrow : source.Narrow) :
    (source.Distinct p.idCount → ∃ t rest, (p.restore overrides).exec source = (.ok t, rest)) ∧
      ∀ t rest, (p.restore overrides).exec source = (.ok t, rest) → t.compile overrides = p :=
  ⟨canonical.restore_draws.succeeds, fun _ _ => canonical.compile_restored narrow⟩

def soldLeg : SentLeg :=
  { terms := ⟨"leg_1", .opt, .sell, some .put, 2, .moneyness, "ATM", .weekly, 0⟩
    stopLoss := ⟨some true, some "val", some (.ofInt 40)⟩
    stopReEntry := ⟨some true, some "ReCost", some .zero, some 20⟩ }

def savedBreakout : Payload :=
  { strategyName := "Breakout"
    settings := {}
    data := [⟨"spotNF", .candleData, .empty⟩]
    indicators := []
    actions := ⟨[("a1", ⟨"Sell", [⟨"squareoff_all", none⟩, ⟨"addLeg", some soldLeg⟩]⟩)],
      List.pairwise_singleton ..⟩
    conditions := ⟨[("c1", ⟨"c1", .entry, "Above", 1, false, true, ["a1"],
      [.block [.comparison ⟨"spotNF.close.prev-1", ">", ⟨.integer 20000, rfl⟩⟩, .join .or,
        .comparison ⟨"day_of_week", "==", .string "FRIDAY"⟩]]⟩)], List.pairwise_singleton ..⟩
    sequence := ["c1"]
    nodes := [⟨Graph.startId, .start, .origin⟩, ⟨"c1", .condition, .origin⟩,
      ⟨"a1", .action, .origin⟩]
    edges := [.condition Graph.startId "c1", .action "c1" "a1"]
    listing := none }

theorem soldLeg_canonical : soldLeg.Canonical := by
  have noUnit : RiskUnit.Named none := nofun
  have noCount : ReEntry.Limited none := nofun
  refine ⟨⟨.inl rfl, noUnit⟩, ⟨.inr ⟨_, _, rfl⟩, ?_⟩, ⟨.inl rfl, noUnit⟩, .inl rfl,
    ⟨.inl rfl, noCount⟩, ⟨.inr ⟨_, _, _, rfl⟩, ?_⟩⟩
  · exact RiskUnit.named_token .currency
  · intro n same
    rw [← Option.some.inj same]
    decide

theorem savedBreakout_canonical : savedBreakout.Canonical [] := by
  refine ⟨by decide +kernel, by decide +kernel, by decide, ?_, ?_⟩
  · refine List.forall_mem_singleton.2 ⟨by decide +kernel, ?_⟩
    exact List.forall_mem_cons.2
      ⟨.instruction .squareOffAll, List.forall_mem_singleton.2 (.leg soldLeg_canonical)⟩
  · refine List.forall_mem_singleton.2 ⟨by decide +kernel, rfl, by decide +kernel,
      ⟨.inr (by decide +kernel), by decide⟩, fun k member => ?_⟩
    have back : ∀ e ∈ savedBreakout.conditions.entries, ∀ k ∈ e.2.comparisons,
        k.reread? (savedBreakout.registry []) = some k := by decide +kernel
    exact Comparison.readsBack_iff.2 (back _ List.mem_cons_self k member)

theorem savedBreakout_resaved :
    savedBreakout.Canonical [] ∧ IdSource.wrapping.Narrow ∧
      ∃ t rest, (savedBreakout.restore []).exec .wrapping = (.ok t, rest) ∧
        t.compile [] = savedBreakout := by
  have resaved := savedBreakout_canonical.resaved .wrapping IdSource.narrow_wrapping
  obtain ⟨t, rest, done⟩ := resaved.1 (IdSource.distinct_wrapping (by decide +kernel))
  exact ⟨savedBreakout_canonical, IdSource.narrow_wrapping, t, rest, done, resaved.2 t rest done⟩

def elementNames (overrides : List (String × Capabilities)) (p : Payload) : List String :=
  p.data.map (·.name) ++ p.indicators.map (·.spec.name) ++ overrides.map Prod.fst

/-- No element has a name that the text of a value other than a string begins with. -/
def LiteralsPlain (overrides : List (String × Capabilities)) (p : Payload) : Prop :=
  ∀ e ∈ p.conditions.entries, ∀ k ∈ e.2.comparisons, (∀ raw, k.rhs ≠ .string raw) →
    Text.beforeFirst '.' k.rhs.json.compact ∉ p.elementNames overrides

theorem registry_eq_none {name : String} (unnamed : name ∉ p.elementNames overrides)
    (plain : name ∉ enumeratedNames) : p.registry overrides name = none := by
  have absent :
      name ∉ ((Catalog.ofDeclared p.data (p.indicators.map (·.spec))).extend overrides).keys := by
    rw [Catalog.extend, Dict.mem_keys_foldl_insert, Catalog.ofDeclared, Catalog.extend,
      Dict.mem_keys_foldl_insert, Catalog.builtin, Dict.mem_keys_ofList]
    simp only [List.map_map, List.map_append, Function.comp_def, Catalog.ofData,
      Catalog.ofIndicator, List.map_id']
    simpa [elementNames, plain, not_or, and_assoc] using unnamed
  exact Option.not_isSome_iff_eq_none.1 fun present => absent (Dict.contains_iff.1 present)

theorem LiteralsPlain.registry_eq_none (plain : p.LiteralsPlain overrides)
    {e : String × SentCondition} (member : e ∈ p.conditions.entries) {k : Comparison}
    (within : k ∈ e.2.comparisons) (other : ∀ raw, k.rhs ≠ .string raw) :
    p.registry overrides (Text.beforeFirst '.' k.rhs.json.compact) = none := by
  refine Payload.registry_eq_none (plain e member k within other) fun enumerated => ?_
  have noString : ∀ raw, k.rhs.json ≠ .string raw :=
    fun raw same => other raw (Value.eq_of_json same)
  have letter : ∀ name ∈ enumeratedNames, name.toList.head? ∈ [some 'c', some 'd', some 'v'] := by
    decide
  exact Json.beforeFirst_compact_ne noString (letter _ enumerated) rfl

theorem related_of_mem {α β : Type} {R : α → β → Prop} {as : List α} {bs : List β}
    (each : List.Forall₂ R as bs) {b : β} (member : b ∈ bs) : ∃ a ∈ as, R a b := by
  induction each with
  | nil => contradiction
  | cons related _ ih =>
    rcases List.mem_cons.1 member with rfl | later
    · exact ⟨_, List.mem_cons_self, related⟩
    · obtain ⟨a, inside, relatedLater⟩ := ih later
      exact ⟨a, List.mem_cons_of_mem _ inside, relatedLater⟩

theorem Restored.registry_compile (restored : Restored overrides p t) :
    (t.compile overrides).registry overrides = p.registry overrides := by
  have specs : (t.compile overrides).indicators.map (·.spec) = p.indicators.map (·.spec) := by
    rw [← restored.indicators]
    exact List.map_map
  have data : (t.compile overrides).data = p.data := restored.dataPoints
  rw [Payload.registry, specs, data]
  rfl

theorem Restored.canonical_compile (restored : Restored overrides p t)
    (plain : p.LiteralsPlain overrides) : (t.compile overrides).Canonical overrides := by
  refine ⟨?_, rfl, ?_, ?_, ?_⟩
  · show t.graph.start?.isSome = true
    rw [restored.graph]
    exact isSome_start?_graph p
  · intro i member
    obtain ⟨_, _, rfl⟩ := List.mem_map.1 member
    rfl
  · intro e member
    obtain ⟨⟨id, a⟩, inside, rfl⟩ := List.mem_map.1 member
    exact ⟨(List.mem_filter.1 inside).2, a.compile_canonical⟩
  · -- The comparisons saved are those loaded, read once, and these come back again.
    rw [restored.registry_compile]
    intro e member
    obtain ⟨⟨id, c⟩, inside, rfl⟩ := List.mem_map.1 member
    obtain ⟨made, isCondition⟩ := List.mem_filter.1 inside
    obtain ⟨origin, given, key, source, rest, done⟩ := related_of_mem restored.conditions made
    refine ⟨isCondition, rfl, rfl, SentCondition.regular_compile .., fun k within => ?_⟩
    dsimp only at within
    rw [restored.registry] at within
    obtain ⟨l, of, reread⟩ := SentCondition.reread_of_mem_comparisons done within
    exact Comparison.reread?_readsBack reread (plain.registry_eq_none given of)

/-- Once loaded and saved, a payload stays as it is: it can be loaded, and saving it changes
nothing. -/
theorem resaved_twice (p : Payload) (overrides : List (String × Capabilities))
    (plain : p.LiteralsPlain overrides) {source rest : IdSource} {t : Strategy}
    (done : (p.restore overrides).exec source = (.ok t, rest)) (later : IdSource)
    (narrow : later.Narrow) :
    let q := t.compile overrides
    (later.Distinct q.idCount → ∃ u rest, (q.restore overrides).exec later = (.ok u, rest)) ∧
      ∀ u rest, (q.restore overrides).exec later = (.ok u, rest) → u.compile overrides = q := by
  intro q
  have canonical : q.Canonical overrides := (restored_of_restore done).1.canonical_compile plain
  exact ⟨canonical.restore_draws.succeeds, fun _ _ => canonical.compile_restored narrow⟩

-- No START node, a key that is not the node's, relations that join nothing, and a literal that is
-- no text.
def handMade : Payload :=
  { strategyName := "By hand"
    settings := {}
    data := [⟨"spotNF", .candleData, .empty⟩]
    indicators := []
    actions := ⟨[("a1", ⟨"Close", [⟨"close_all", none⟩, ⟨"squareoff_all", none⟩]⟩)],
      List.pairwise_singleton ..⟩
    conditions := ⟨[("c1", ⟨"c7", .exit, "Above", 1, true, true, ["a9"],
      [.join .or, .block [], .join .and,
        .block [.comparison ⟨"spotNF.close.prev-01", ">", ⟨.null, rfl⟩⟩,
          .comparison ⟨"spotNF.close", "<", .string "1e2"⟩, .join .or]]⟩)],
      List.pairwise_singleton ..⟩
    sequence := ["c7"]
    nodes := [⟨"c1", .condition, .origin⟩, ⟨"a1", .action, .origin⟩]
    edges := [.action "c1" "a1", .action "c1" "a5"]
    listing := none }

theorem handMade_resaved :
    handMade.LiteralsPlain [] ∧ ∃ t rest, (handMade.restore []).exec .wrapping = (.ok t, rest) ∧
      ∃ u rest, ((t.compile []).restore []).exec .wrapping = (.ok u, rest) ∧
        u.compile [] = t.compile [] := by
  have plain : handMade.LiteralsPlain [] := by
    have others : ∀ e ∈ handMade.conditions.entries, ∀ k ∈ e.2.comparisons,
        Text.beforeFirst '.' k.rhs.json.compact ∉ handMade.elementNames [] := by decide +kernel
    exact fun e member k within _ => others e member k within
  have loads : ((handMade.restore []).exec .wrapping).1.toOption.any (fun t =>
      decide ((t.compile []).idCount ≤ UInt32.size)) = true := by decide +kernel
  cases outcome : (handMade.restore []).exec .wrapping with
  | mk result rest =>
    rw [outcome] at loads
    cases result with
    | error e => contradiction
    | ok t =>
      have few : (t.compile []).idCount ≤ UInt32.size := of_decide_eq_true loads
      have resaved := resaved_twice handMade [] plain outcome .wrapping IdSource.narrow_wrapping
      obtain ⟨u, last, done⟩ := resaved.1 (IdSource.distinct_wrapping few)
      exact ⟨plain, t, rest, rfl, u, last, done, resaved.2 u last done⟩

end Payload

end TradingStrategy
