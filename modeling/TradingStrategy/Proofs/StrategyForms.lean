import TradingStrategy.Proofs.ActionForms
import TradingStrategy.Proofs.ContentForms
import TradingStrategy.Proofs.PayloadRoundTrip

set_option autoImplicit false

namespace TradingStrategy

open Wire (Lossless ReadsBack)

def OrderLimits.Writable (o : OrderLimits) : Prop := ∀ x ∈ o.priceBuffer, x.isFinite = true

instance : DecidablePred OrderLimits.Writable := fun o =>
  inferInstanceAs (Decidable (∀ x ∈ o.priceBuffer, x.isFinite = true))

theorem OrderLimits.lossless {o : OrderLimits} (writable : o.Writable) : Lossless o := by
  have buffer := Wire.lossless_of_finite writable
  refine .of_record rfl (fun _ => rfl) rfl (by decide) ?_ ?_
  · simp only [List.forall_mem_cons, Option.forall_mem_map]
    simp_all [Wire.Lossless.plain]
  · rintro f ⟨timeLimit, shouldExecute, priceBuffer, _⟩
    simp [Fields.optional_eq timeLimit (by simp) rfl,
      Fields.optional_eq shouldExecute (by simp) rfl, Fields.optional_eq priceBuffer buffer rfl]

@[mk_iff]
structure ExecutionSettings.Writable (s : ExecutionSettings) : Prop where
  entryOperation : s.entryOperation.Writable
  exitOperation : s.exitOperation.Writable

instance : DecidablePred ExecutionSettings.Writable := fun _ =>
  decidable_of_iff' _ (ExecutionSettings.writable_iff _)

theorem ExecutionSettings.lossless {s : ExecutionSettings} (writable : s.Writable) :
    Lossless s := by
  have days : Lossless s.tradingDaysList := Wire.lossless_list (by simp)
  have entry := OrderLimits.lossless writable.entryOperation
  have exit := OrderLimits.lossless writable.exitOperation
  refine .of_record rfl (fun _ => rfl) rfl (by decide)
    (by simp [Wire.Lossless.plain, days.plain, entry.plain, exit.plain]) ?_
  rintro f ⟨underlying, strategyType, timeframe, tradingDays, list, productType, first, last,
    orderType, squareOff, _⟩
  simp [Fields.required_eq underlying, Fields.required_eq strategyType,
    Fields.required_eq timeframe, Fields.required_eq tradingDays, Fields.withDefault_eq list days,
    Fields.required_eq productType, Fields.withDefault_eq first entry,
    Fields.withDefault_eq last exit, Fields.required_eq orderType,
    Fields.optional_eq squareOff (by simp) rfl]

def Listing.Writable (l : Listing) : Prop := l.capitalRequired.isFinite = true

instance : DecidablePred Listing.Writable := fun l =>
  inferInstanceAs (Decidable (l.capitalRequired.isFinite = true))

theorem Listing.lossless {l : Listing} (writable : l.Writable) : Lossless l := by
  have capital := (Wire.scalar_binary64 writable).lossless
  refine .of_record rfl (fun _ => rfl) rfl (by decide)
    (by simp [Wire.Lossless.plain, capital.plain]) ?_
  rintro f ⟨visibility, description, required, createdOn, status, _⟩
  simp [Fields.required_eq visibility, Fields.required_eq description,
    Fields.required_eq required capital, Fields.required_eq createdOn, Fields.required_eq status]

@[mk_iff]
structure Strategy.Writable (s : Strategy) : Prop where
  settings : s.settings.Writable
  graph : s.graph.Writable
  conditions : ∀ c ∈ s.conditions.values, c.Writable
  actions : ∀ a ∈ s.actions.values, a.Writable
  indicators : ∀ i ∈ s.indicators, i.spec.params.Writable
  listing : ∀ l ∈ s.listing, l.Writable

instance : DecidablePred Strategy.Writable := fun _ =>
  decidable_of_iff' _ (Strategy.writable_iff _)

theorem Strategy.lossless {s : Strategy} (writable : s.Writable) : Lossless s := by
  have settings := ExecutionSettings.lossless writable.settings
  have graph := Graph.lossless writable.graph
  have conditions := Wire.lossless_dict fun c member =>
    Condition.lossless (writable.conditions c member)
  have actions := Wire.lossless_dict fun a member => Action.lossless (writable.actions a member)
  have dataPoints : Lossless s.dataPoints := Wire.lossless_list (by simp)
  have indicators := Wire.lossless_list fun i member =>
    Indicator.lossless (writable.indicators i member)
  have listing : ∀ l ∈ s.listing, Lossless l := fun l held =>
    Listing.lossless (writable.listing l held)
  refine .of_record rfl (fun _ => rfl) rfl (by decide) ?_ ?_
  · simp_all [Wire.Lossless.plain]
  · rintro f ⟨name, set, drawn, rules, acts, data, computed, shown, _⟩
    simp [Fields.required_eq name, Fields.required_eq set settings, Fields.required_eq drawn graph,
      Fields.required_eq rules conditions, Fields.required_eq acts actions,
      Fields.withDefault_eq data dataPoints, Fields.withDefault_eq computed indicators,
      Fields.optional_eq shown listing rfl]

@[mk_iff]
structure Payload.Writable (p : Payload) : Prop where
  settings : p.settings.Writable
  indicators : ∀ i ∈ p.indicators, i.spec.params.Writable
  actions : ∀ a ∈ p.actions.values, a.Writable
  nodes : ∀ n ∈ p.nodes, n.position.Writable
  edges : ∀ e ∈ p.edges, e.Writable
  listing : ∀ l ∈ p.listing, l.Writable

instance : DecidablePred Payload.Writable := fun _ =>
  decidable_of_iff' _ (Payload.writable_iff _)

theorem Payload.lossless {p : Payload} (writable : p.Writable) : Lossless p := by
  have settings := ExecutionSettings.lossless writable.settings
  have data : Lossless p.data := Wire.lossless_list (by simp)
  have indicators := Wire.lossless_list fun i member =>
    IndicatorDeclaration.lossless (writable.indicators i member)
  have actions := Wire.lossless_dict fun a member =>
    SentAction.lossless (writable.actions a member)
  have conditions : Lossless p.conditions := Wire.lossless_dict (by simp)
  have sequence := Wire.lossless_strings p.sequence
  have nodes := Wire.lossless_list fun n member => Node.lossless (writable.nodes n member)
  have edges := Wire.lossless_list fun e member => Edge.lossless (writable.edges e member)
  have listing : ∀ l ∈ p.listing, Lossless l := fun l held =>
    Listing.lossless (writable.listing l held)
  refine .of_record rfl (fun _ => rfl) rfl (by decide) ?_ ?_
  · simp_all [Wire.Lossless.plain]
  · rintro f ⟨name, set, declared, computed, acts, rules, chain, places, links, shown, _⟩
    simp [Fields.required_eq name, Fields.required_eq set settings,
      Fields.withDefault_eq declared data, Fields.withDefault_eq computed indicators,
      Fields.withDefault_eq acts actions, Fields.withDefault_eq rules conditions,
      Fields.withDefault_eq chain sequence, Fields.withDefault_eq places nodes,
      Fields.withDefault_eq links edges, Fields.optional_eq shown listing rfl]

theorem Strategy.Writable.compileWith {s : Strategy} (writable : s.Writable)
    (registry : Registry) : (s.compileWith registry).Writable where
  settings := writable.settings
  indicators := List.forall_mem_map.2 writable.indicators
  actions := by
    intro c member
    obtain ⟨e, listed, rfl⟩ := List.mem_map.1 member
    obtain ⟨kept, within, rfl⟩ := List.mem_map.1 listed
    have held := List.mem_map_of_mem (f := Prod.snd) (List.mem_of_mem_filter within)
    exact Action.Writable.compile (writable.actions kept.2 held)
  nodes := writable.graph.nodes
  edges := writable.graph.edges
  listing := writable.listing

theorem readsBack_of_writable :
    (∀ s : Strategy, s.Writable → ReadsBack s) ∧ ∀ p : Payload, p.Writable → ReadsBack p :=
  ⟨fun _ writable => (Strategy.lossless writable).readsBack,
    fun _ writable => (Payload.lossless writable).readsBack⟩

def pullback : Strategy :=
  { name := "Pullback"
    settings := { entryOperation := { timeLimit := some 30, priceBuffer := some (.ofInt 2) } }
    graph :=
      { nodes := [⟨Graph.startId, .start, .origin⟩, ⟨"c1", .condition, .origin⟩,
          ⟨"a1", .action, .origin⟩]
        edges :=
          [{ Edge.condition Graph.startId "c1" with
              sourceHandle := some ⟨"", .other "bottom"⟩
              targetHandle := some ⟨"c-1", .other "inlet"⟩ },
            .action "c1" "a1"] }
    conditions := ⟨[("c1", Condition.profitExit)], List.pairwise_singleton ..⟩
    actions :=
      ⟨[("a1", ⟨"Buy",
          [⟨"i1", 1, .position (.standard "leg_1")⟩, ⟨"i2", 0, .action .squareOffAll⟩]⟩)],
        List.pairwise_singleton ..⟩
    dataPoints := [⟨"d1", "spotNF", .candleData,
      ⟨[("session", .string "morning")], List.pairwise_singleton ..⟩⟩]
    indicators := [⟨"n1", "trend", .supertrend, "spotNF", ["up", "down"],
      ⟨10, none, some (.ofInt 3)⟩⟩]
    listing := some ⟨"private", "", .ofInt 150000, "2024-01-01", "draft"⟩ }

theorem pullback_readsBack :
    pullback.Writable ∧ ReadsBack pullback ∧
      Payload.savedBreakout.Writable ∧ ReadsBack Payload.savedBreakout := by
  have strategy : pullback.Writable := by decide +kernel
  have payload : Payload.savedBreakout.Writable := by decide +kernel
  exact ⟨strategy, readsBack_of_writable.1 _ strategy, payload, readsBack_of_writable.2 _ payload⟩

end TradingStrategy
