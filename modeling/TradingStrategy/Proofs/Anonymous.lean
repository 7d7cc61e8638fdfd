import TradingStrategy.Proofs.PayloadRoundTrip
import TradingStrategy.Proofs.UniqueIds

set_option autoImplicit false

namespace TradingStrategy

namespace Block

def anonymous (b : Block) : Block :=
  { b with id := "", subSections := b.subSections.map fun sub => ⟨"", sub.row⟩ }

def ofRows (rows : List Row) : Block := ⟨"", rows.map fun row => ⟨"", row⟩, .and⟩

theorem rows_anonymous (b : Block) : b.anonymous.rows = b.rows := by
  rw [rows, anonymous, List.map_map]
  rfl

-- What relations the blocks had does not matter, because each gets a new one.
theorem map_anonymous_mirror (relations : List Relation) (bs : List Block) :
    (mirror relations bs).map anonymous = mirror relations ((bs.map rows).map ofRows) := by
  have same (b : Block) (r : Relation) :
      { b with relation := r }.anonymous = { ofRows b.rows with relation := r } := by
    simp [anonymous, ofRows, rows]
  fun_induction mirror relations bs with
  | case1 => rfl
  | case2 b bs ih =>
    rw [List.map_cons, ih, same]
    rfl
  | case3 r rs b bs ih =>
    rw [List.map_cons, ih, same]
    rfl

end Block

namespace Condition

def anonymous (c : Condition) : Condition := { c with blocks := c.blocks.map Block.anonymous }

theorem compile_anonymous (registry : Registry) (node : String) (actions : List String)
    (c : Condition) : c.anonymous.compile registry node actions =
      c.compile registry node actions := by
  have rows : (c.blocks.map Block.anonymous).map Block.rows = c.blocks.map Block.rows := by
    rw [List.map_map]
    exact List.map_congr_left fun b _ => b.rows_anonymous
  have sent : emitted registry (c.blocks.map Block.anonymous) = emitted registry c.blocks := by
    rw [ConditionPart.emitted_eq, rows, ← ConditionPart.emitted_eq]
  rw [compile, compile, anonymous]
  dsimp only
  rw [sent]

end Condition

namespace SentCondition

def read (registry : Registry) (c : SentCondition) : Condition :=
  let (filled, relations) := ConditionPart.layout c.parts none false
  Condition.mirrored
    { header := ⟨c.description, c.kind, c.maxEntries, c.checkTriggerOpen, c.checkPositionOpen⟩
      blocks := (if filled = [] then [[.blank]] else filled.map (Row.ofTokens registry)).map
        Block.ofRows
      blockRelations := relations }

theorem anonymous_of_restore {registry : Registry} {c : SentCondition} {source rest : IdSource}
    {y : Condition} (done : (c.restore registry).exec source = (.ok y, rest)) :
    y.anonymous = c.read registry := by
  obtain ⟨header, relations, rows, bs, mirrored⟩ := restore_ok done
  rw [mirrored, Block.map_rows_mirror] at rows
  rw [Condition.anonymous, mirrored, Block.map_anonymous_mirror, rows, header, relations]
  rfl

end SentCondition

namespace Item

def anonymous (x : Item) : Item := { x with id := "" }

theorem sorted_map_anonymous (items : List Item) :
    sorted (items.map anonymous) = (sorted items).map anonymous :=
  (List.map_mergeSort (f := anonymous) fun _ _ _ _ => rfl).symm

theorem numbered_map_anonymous (items : List Item) :
    numbered (items.map anonymous) = (numbered items).map anonymous := by
  rw [numbered, numbered, List.zipIdx_map, List.map_map, List.map_map]
  rfl

end Item

namespace Action

def anonymous (a : Action) : Action := { a with items := a.items.map Item.anonymous }

theorem compile_anonymous (a : Action) : a.anonymous.compile = a.compile := by
  rw [compile, compile, anonymous, Item.sorted_map_anonymous, List.map_map]
  rfl

theorem renumber_anonymous (a : Action) : a.anonymous.renumber = a.renumber.anonymous := by
  rw [renumber, anonymous, Item.sorted_map_anonymous, Item.numbered_map_anonymous]
  rfl

theorem anonymous_addItem (a : Action) (id : String) (body : ItemContent) :
    (a.addItem id body).anonymous = a.anonymous.addItem "" body := by
  rw [addItem, addItem, renumber_anonymous]
  simp [anonymous, Item.anonymous]

end Action

namespace SentAction

variable {action : String} {source rest : IdSource}

def read (action : String) (c : SentAction) : Action :=
  (Call.bodies action c.act).foldl (fun node body => node.addItem "" body) (.empty c.description)

theorem anonymous_of_addItems {calls : List Call} {taken : List String} {node y : Action}
    (done : (addItems action calls taken node).exec source = (.ok y, rest)) :
    y.anonymous =
      (Call.bodies action calls).foldl (fun node body => node.addItem "" body) node.anonymous := by
  induction calls generalizing taken node source with
  | nil =>
    rw [addItems, Drawing.pure_eq_ok_iff] at done
    rw [← done.1]
    rfl
  | cons call others ih =>
    rw [addItems, Drawing.bind_eq_ok_iff] at done
    obtain ⟨body, _, read, done⟩ := done
    rw [Drawing.exec_lift] at read
    obtain ⟨known, rfl⟩ := Prod.mk.inj read
    rw [Call.bodies_cons known, List.foldl_append]
    cases body with
    | none => exact ih done
    | some body =>
      obtain ⟨⟨id, left⟩, _, _, done⟩ := Drawing.bind_eq_ok_iff.1 done
      rw [ih done, Action.anonymous_addItem]
      rfl

theorem anonymous_of_restore {c : SentAction} {y : Action}
    (done : (c.restore action).exec source = (.ok y, rest)) : y.anonymous = c.read action :=
  anonymous_of_addItems done

end SentAction

namespace Strategy

/-- The strategy without the ids of its sub-sections, blocks, items, data and indicators. Nodes and
legs keep theirs. -/
def anonymous (s : Strategy) : Strategy :=
  { s with
    conditions := s.conditions.map fun _ c => c.anonymous
    actions := s.actions.map fun _ a => a.anonymous
    dataPoints := s.dataPoints.map fun d => ⟨"", d.declaration⟩
    indicators := s.indicators.map fun i => ⟨"", i.spec⟩ }

def SameButIds (s t : Strategy) : Prop := s.anonymous = t.anonymous

instance (s t : Strategy) : Decidable (s.SameButIds t) := by
  unfold SameButIds
  infer_instance

theorem catalog_anonymous (s : Strategy) : s.anonymous.catalog = s.catalog := by
  rw [catalog, catalog, anonymous, List.map_map, List.map_map]
  rfl

theorem compileWith_anonymous (registry : Registry) (s : Strategy) :
    s.anonymous.compileWith registry = s.compileWith registry := by
  have data : s.anonymous.dataPoints.map DataPoint.declaration =
      s.dataPoints.map DataPoint.declaration := List.map_map
  have indicators : s.anonymous.indicators.map Indicator.declaration =
      s.indicators.map Indicator.declaration := List.map_map
  rw [compileWith, data, indicators]
  simp only [anonymous, Dict.map_filter_map, Action.compile_anonymous, Condition.compile_anonymous]
  rfl

theorem SameButIds.compileWith_eq {s t : Strategy} (same : s.SameButIds t) (registry : Registry) :
    s.compileWith registry = t.compileWith registry := by
  rw [← compileWith_anonymous, same, compileWith_anonymous]

theorem SameButIds.compile_eq {s t : Strategy} (same : s.SameButIds t)
    (overrides : List (String × Capabilities)) : s.compile overrides = t.compile overrides := by
  rw [compile, compile, same.compileWith_eq, ← s.catalog_anonymous, same, catalog_anonymous]

end Strategy

namespace Payload

variable {p : Payload} {overrides : List (String × Capabilities)} {source rest : IdSource}
  {t : Strategy}

def read (overrides : List (String × Capabilities)) (p : Payload) : Strategy :=
  { name := p.strategyName
    settings := p.settings
    graph := p.graph
    conditions := p.conditions.map fun _ c => c.read (p.registry overrides)
    actions := p.actions.map fun id c => c.read id
    dataPoints := p.data.map fun d => ⟨"", d⟩
    indicators := p.indicators.map fun i => ⟨"", i.spec⟩
    listing := p.listing }

theorem read_of_restoreActions {sent : List (String × SentAction)} {made : List (String × Action)}
    (done : (restoreActions sent).exec source = (.ok made, rest)) :
    (made.map fun e => (e.1, e.2.anonymous)) = sent.map fun e => (e.1, e.2.read e.1) := by
  induction sent generalizing source made with
  | nil =>
    rw [restoreActions, Drawing.pure_eq_ok_iff] at done
    rw [← done.1]
    rfl
  | cons entry others ih =>
    simp only [restoreActions, Drawing.bind_eq_ok_iff, Drawing.pure_eq_ok_iff] at done
    obtain ⟨action, _, restored, later, _, drawn, rfl, rfl⟩ := done
    rw [List.map_cons, List.map_cons, ih drawn, SentAction.anonymous_of_restore restored]

theorem read_of_restoreConditions {registry : Registry} {sent : List (String × SentCondition)}
    {made : List (String × Condition)}
    (done : (restoreConditions registry sent).exec source = (.ok made, rest)) :
    (made.map fun e => (e.1, e.2.anonymous)) = sent.map fun e => (e.1, e.2.read registry) := by
  have each := restoreConditions_ok done
  clear done
  induction each with
  | nil => rfl
  | cons related _ ih =>
    obtain ⟨key, _, _, restored⟩ := related
    rw [List.map_cons, List.map_cons, ih, key, SentCondition.anonymous_of_restore restored]

theorem anonymous_of_restore (done : (p.restore overrides).exec source = (.ok t, rest)) :
    t.anonymous = p.read overrides := by
  simp only [restore, Drawing.bind_eq_ok_iff, Drawing.pure_eq_ok_iff, Drawing.relabel_eq_ok_iff]
    at done
  obtain ⟨⟨dataPoints, _⟩, _, dataDone, ⟨indicators, _⟩, _, indicatorsDone, actions, _,
    actionsDone, conditions, _, conditionsDone, rfl, _⟩ := done
  have data : (dataPoints.map fun d => (⟨"", d.declaration⟩ : DataPoint)) =
      p.data.map fun d => ⟨"", d⟩ := drawIds_ok dataDone fun _ _ => rfl
  have specs : (indicators.map fun i => (⟨"", i.spec⟩ : Indicator)) =
      p.indicators.map fun i => ⟨"", i.spec⟩ := drawIds_ok indicatorsDone fun _ _ => rfl
  have conditions : ((Dict.ofList conditions).map fun _ c => c.anonymous) =
      p.conditions.map fun _ c => c.read (p.registry overrides) :=
    Dict.map_ofList (read_of_restoreConditions conditionsDone)
  have actions : ((Dict.ofList actions).map fun _ a => a.anonymous) =
      p.actions.map fun id c => c.read id :=
    Dict.map_ofList (read_of_restoreActions actionsDone)
  rw [Strategy.anonymous, read, data, specs, conditions, actions]

/-- Two loadings of one payload differ in drawn ids at most, whatever the draws were, and strategies
that differ in such ids at most are saved alike: under one registry, and under those of their own
elements. -/
theorem drawn_ids_unsent :
    (∀ (p : Payload) overrides source source' t t' rest rest',
        (p.restore overrides).exec source = (.ok t, rest) →
        (p.restore overrides).exec source' = (.ok t', rest') →
        t.SameButIds t' ∧ ∀ others, t.compile others = t'.compile others) ∧
      ∀ s t : Strategy, s.SameButIds t →
        (∀ registry, s.compileWith registry = t.compileWith registry) ∧
          ∀ overrides, s.compile overrides = t.compile overrides := by
  refine ⟨fun p overrides source source' t t' rest rest' done done' => ?_,
    fun s t same => ⟨same.compileWith_eq, same.compile_eq⟩⟩
  have same : t.SameButIds t' := (anonymous_of_restore done).trans (anonymous_of_restore done').symm
  exact ⟨same, same.compile_eq⟩

theorem savedBreakout_ids_unsent :
    ∃ t t' rest rest', (savedBreakout.restore []).exec .counter = (.ok t, rest) ∧
      (savedBreakout.restore []).exec Editor.stammering = (.ok t', rest') ∧
      t.dataPoints.map DataPoint.id = ["data_00000000"] ∧
      t'.dataPoints.map DataPoint.id = ["data_00000007"] ∧
      t.SameButIds t' ∧ t.compile [] = t'.compile [] ∧
      t.compileWith (savedBreakout.registry []) = t'.compileWith (savedBreakout.registry []) := by
  obtain ⟨loads, saves⟩ := drawn_ids_unsent
  have counted : ((savedBreakout.restore []).exec .counter).1.toOption.map
      (fun t => t.dataPoints.map DataPoint.id) = some ["data_00000000"] := by decide +kernel
  have stammered : ((savedBreakout.restore []).exec Editor.stammering).1.toOption.map
      (fun t => t.dataPoints.map DataPoint.id) = some ["data_00000007"] := by decide +kernel
  obtain ⟨t, rest, done, ids⟩ := Drawing.exists_ok counted
  obtain ⟨t', rest', done', ids'⟩ := Drawing.exists_ok stammered
  obtain ⟨same, saved⟩ := loads _ _ _ _ t t' rest rest' done done'
  exact ⟨t, t', rest, rest', done, done', ids, ids', same, saved [], (saves t t' same).1 _⟩

end Payload

end TradingStrategy
