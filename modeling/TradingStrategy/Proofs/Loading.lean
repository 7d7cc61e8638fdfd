import Mathlib.Algebra.Order.BigOperators.Group.List
import TradingStrategy.Proofs.PayloadRoundTrip

set_option autoImplicit false

namespace TradingStrategy.Payload

variable {p : Payload} {overrides : List (String × Capabilities)} {source rest : IdSource}
  {t : Strategy}

theorem drawCount_le_idCount (p : Payload) : p.drawCount ≤ p.idCount := by
  have calls : (p.actions.entries.map fun e => (Call.bodies e.1 e.2.act).length).sum ≤
      (p.actions.values.map fun a => a.act.length).sum := by
    rw [Dict.values, List.map_map]
    exact List.sum_le_sum fun e _ => List.length_filterMap_le ..
  exact Nat.add_le_add_left (Nat.add_le_add_left (Nat.add_le_add_right calls _) _) _

structure FirstLacking (sent : List (String × SentAction)) (entry : String × SentAction) :
    Prop where
  member : entry ∈ sent
  lacks : entry.2.lacksParams = true
  least : ∀ other ∈ sent, other.2.lacksParams = true → entry.1 ≤ other.1

theorem firstLacking_of_fault? {sent : List (String × SentAction)} (sorted : Entries.Sorted sent)
    {e : RestoreError} (fault : fault? sent = some e) :
    ∃ entry, FirstLacking sent entry ∧ e = .missingLegParams entry.1 := by
  obtain ⟨earlier, entry, later, rfl, found, before⟩ := List.findSome?_eq_some_iff.1 fault
  rw [SentAction.fault?_act, Option.ite_none_right_eq_some] at found
  refine ⟨entry, ⟨by simp, found.1, fun other member lacks => ?_⟩, (Option.some.inj found.2).symm⟩
  have after := (List.pairwise_append.1 sorted).2.1
  rcases List.mem_append.1 member with left | right
  · have unfaulted := before other left
    rw [SentAction.fault?_act, if_pos lacks] at unfaulted
    contradiction
  · rcases List.mem_cons.1 right with rfl | right
    · exact String.le_refl _
    · exact String.not_lt.1 (String.lt_asymm ((List.pairwise_cons.1 after).1 other right))

theorem lacksParams_of_compileWith {registry : Registry} {s : Strategy}
    (saved : p = s.compileWith registry) :
    ∀ entry ∈ p.actions.entries, entry.2.lacksParams = false := by
  intro entry member
  rw [saved] at member
  obtain ⟨⟨id, a⟩, _, rfl⟩ := List.mem_map.1 member
  exact SentAction.lacksParams_eq_false a.compile_canonical

structure Carried (p : Payload) (t : Strategy) : Prop where
  start : t.graph.start?.isSome = true
  edges : t.graph.edges = p.edges
  conditions : t.conditions.keys = p.conditions.keys
  actions : t.actions.keys = p.actions.keys

theorem carried_of_restore (done : (p.restore overrides).exec source = (.ok t, rest)) :
    p.Carried t := by
  obtain ⟨graph, conditions, actions⟩ := restore_ok done
  exact ⟨graph ▸ isSome_start?_graph p, graph ▸ edges_graph p, conditions, actions⟩

/-- With ids that do not repeat, loading fails exactly for want of the params of a leg, and names
the first action that has such a leg. What was saved has none. A strategy that was loaded has a
START node, the edges, and contents for the same nodes as the payload. -/
theorem restore_outcome (p : Payload) (overrides : List (String × Capabilities)) :
    (∀ source, source.Distinct p.idCount →
      ((∃ e rest, (p.restore overrides).exec source = (.error e, rest)) ↔
          ∃ entry ∈ p.actions.entries, entry.2.lacksParams = true) ∧
        ∀ e rest, (p.restore overrides).exec source = (.error e, rest) →
          ∃ entry, FirstLacking p.actions.entries entry ∧ e = .missingLegParams entry.1) ∧
      (∀ (registry : Registry) (s : Strategy), p = s.compileWith registry →
        ∀ source, source.Distinct p.idCount →
          ∃ t rest, (p.restore overrides).exec source = (.ok t, rest)) ∧
      ∀ source t rest, (p.restore overrides).exec source = (.ok t, rest) → p.Carried t := by
  have ends := p.restore_ends overrides
  refine ⟨fun source distinct => ?_, fun registry s saved source distinct => ?_,
    fun source t rest => carried_of_restore⟩
  · have error_iff {e : RestoreError} :=
      ends.error_iff (e := e) (distinct.fewer p.drawCount_le_idCount)
    refine ⟨?_, fun e rest failed => ?_⟩
    · simp only [error_iff, ← Option.ne_none_iff_exists', ne_eq, fault?_eq_none_iff, not_forall,
        Bool.not_eq_false, exists_prop]
    · exact firstLacking_of_fault? p.actions.sorted (error_iff.1 ⟨rest, failed⟩)
  · rw [fault?_eq_none_iff.2 (lacksParams_of_compileWith saved)] at ends
    exact Drawing.Draws.succeeds ends (distinct.fewer p.drawCount_le_idCount)

-- No node, a condition of stray parts, functions that are not known, and two legs without params.
def legless : Payload :=
  { strategyName := "Legless"
    settings := {}
    data := [⟨"spotNF", .candleData, .empty⟩]
    indicators := []
    actions := .ofList [
      ("a1", ⟨"Sell", [⟨"sell_it_all", none⟩, ⟨"addLeg", some soldLeg⟩]⟩),
      ("a2", ⟨"Buy", [⟨"squareoff_all", none⟩, ⟨"addLeg", none⟩]⟩),
      ("a3", ⟨"Hold", [⟨"addLeg", none⟩]⟩)]
    conditions := .ofList [("c1", ⟨"c9", .entry, "Stray", 1, false, true, ["a9"],
      [.join .or, .block [.join .and, .comparison ⟨"no.such.path", "?", .string ""⟩],
        .block []]⟩)]
    sequence := []
    nodes := []
    edges := [.action "c1" "a9"]
    listing := none }

-- Two rules on a chain that share an action, an action without items, and the contents of a node
-- that is gone.
def swing : Strategy :=
  { Strategy.initial "Swing" .origin with
    graph :=
      { nodes := [⟨Graph.startId, .start, .origin⟩, ⟨"c1", .condition, .origin⟩,
          ⟨"c2", .condition, .origin⟩, ⟨"a1", .action, .origin⟩, ⟨"a2", .action, .origin⟩]
        edges := [.condition Graph.startId "c1", .condition "c1" "c2",
          (Edge.action "c1" "a1").setSequence 1, (Edge.action "c2" "a1").setSequence 1] }
    conditions := .ofList [("c1", .unfinished), ("c2", .profitExit)]
    actions := .ofList [
      ("a1", ⟨"Sell", [⟨"i1", 1, .position (.standard "leg_1")⟩, ⟨"i2", 0, .action .squareOffAll⟩]⟩),
      ("a2", .empty "Wait"), ("a3", .empty "Gone")] }

theorem legless_fails :
    IdSource.counter.Distinct legless.idCount ∧
      (∃ rest, (legless.restore []).exec .counter = (.error (.missingLegParams "a2"), rest)) ∧
      ∃ t rest, ((swing.compileWith Condition.profitRegistry).restore []).exec .counter =
          (.ok t, rest) ∧
        t.graph.start?.isSome = true ∧ t.graph.edges = swing.graph.edges ∧
        t.conditions.keys = ["c1", "c2"] ∧ t.actions.keys = ["a1", "a2"] := by
  have distinct := IdSource.distinct_counter legless.idCount
  obtain ⟨fails, _, _⟩ := restore_outcome legless []
  obtain ⟨_, loads, carried⟩ := restore_outcome (swing.compileWith Condition.profitRegistry) []
  obtain ⟨iff, names⟩ := fails .counter distinct
  obtain ⟨e, rest, failed⟩ := iff.2 (by decide)
  obtain ⟨t, left, done⟩ := loads _ _ rfl .counter (IdSource.distinct_counter _)
  have held := carried _ _ _ done
  refine ⟨distinct, ⟨rest, ?_⟩, t, left, done, held.start, held.edges,
    held.conditions.trans (by decide +kernel), held.actions.trans (by decide +kernel)⟩
  obtain ⟨entry, first, rfl⟩ := names e rest failed
  have second : ∀ entry ∈ legless.actions.entries, entry.2.lacksParams = true →
      (∀ other ∈ legless.actions.entries, other.2.lacksParams = true → entry.1 ≤ other.1) →
      entry.1 = "a2" := by decide
  rw [← second entry first.member first.lacks first.least]
  exact failed

end TradingStrategy.Payload
