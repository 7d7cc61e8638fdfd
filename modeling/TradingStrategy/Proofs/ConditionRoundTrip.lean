import TradingStrategy.Proofs.ValidRows

set_option autoImplicit false

namespace TradingStrategy

open ConditionPart (blocks joins layout)

namespace SentCondition

variable {registry : Registry} {source rest : IdSource}

def comparisons (c : SentCondition) : List Comparison := ConditionPart.comparisons c.parts

structure Regular (c : SentCondition) : Prop where
  parts : c.parts = [] ∨ ConditionPart.alternate c.parts = true
  ungated : c.kind = .exit → c.checkPositionOpen = false ∧ c.checkTriggerOpen = false

theorem compile_restored {c : SentCondition} {y : Condition} (regular : c.Regular)
    (done : (c.restore registry).exec source = (.ok y, rest)) :
    y.compile registry c.node c.actions =
      { c with
        parts := Condition.joined y.blockRelations (Condition.emitted registry y.blocks) } := by
  have header := (restore_ok done).1
  obtain ⟨node, kind, description, maxEntries, position, trigger, actions, parts⟩ := c
  have flags := regular.ungated
  rw [Condition.compile, header]
  by_cases exit : kind = .exit
  · obtain ⟨rfl, rfl⟩ := flags exit
    simp
  · simp [exit]

theorem emitted_blank {bs : List Block} (blank : bs.map Block.rows = [[.blank]]) :
    Condition.emitted registry bs = [] := by
  rw [ConditionPart.emitted_eq, blank]
  rfl

theorem with_parts_eq_iff {c : SentCondition} {parts : List ConditionPart} :
    { c with parts } = c ↔ parts = c.parts := by
  constructor
  · exact congrArg SentCondition.parts
  · intro same
    rw [same]

theorem compile_restored_eq_iff {c : SentCondition} {y : Condition} (regular : c.Regular)
    (done : (c.restore registry).exec source = (.ok y, rest)) :
    y.compile registry c.node c.actions = c ↔ ∀ k ∈ c.comparisons, k.ReadsBack registry := by
  rw [compile_restored regular done, with_parts_eq_iff]
  obtain ⟨_, relations, rows, _⟩ := restore_ok done
  rcases regular.parts with empty | alternates
  · -- Without parts the restored condition has one blank row, and nothing is sent of it.
    rw [empty, layout] at rows
    simp [comparisons, ConditionPart.comparisons, empty, emitted_blank rows, Condition.joined]
  · rw [ConditionPart.layout_of_alternate alternates] at relations rows
    have some : blocks c.parts ≠ [] := by
      intro none
      have count := ConditionPart.length_joins alternates
      simp [none] at count
    rw [if_neg some] at rows
    rw [relations, ConditionPart.joined_emitted_iff alternates rows, comparisons]

theorem regular_compile (registry : Registry) (node : String) (actions : List String)
    (x : Condition) : (x.compile registry node actions).Regular := by
  refine ⟨?_, ?_⟩
  · show Condition.joined _ _ = [] ∨ ConditionPart.alternate (Condition.joined _ _) = true
    by_cases none : Condition.emitted registry x.blocks = []
    · left
      rw [none, Condition.joined]
    · right
      exact ConditionPart.alternate_joined none fun p => ConditionPart.alternate_of_mem_emitted
  · intro exit
    have kind : x.header.kind = .exit := exit
    simp [Condition.compile, kind]

theorem comparisons_of_compileAll? {ts ts' : List BlockPart}
    (compiled : Row.compileAll? registry (Row.ofTokens registry ts) = some ts') :
    BlockPart.comparisons ts' = (BlockPart.comparisons ts).filterMap (·.reread? registry) := by
  obtain ⟨_, _, rfl⟩ := Row.compileAll?_eq_some_iff.1 compiled
  rw [Row.comparisons_tokens, Row.ofTokens_eq, Row.map_fst_sent, ← BlockPart.map_fst_badged,
    List.filterMap_map]
  rfl

theorem blocks_compile_restored {c : SentCondition} {y : Condition}
    (done : (c.restore registry).exec source = (.ok y, rest)) (node : String)
    (actions : List String) :
    blocks (y.compile registry node actions).parts =
      (blocks c.parts).filterMap fun ts => Row.compileAll? registry (Row.ofTokens registry ts) := by
  have sent : blocks (y.compile registry node actions).parts =
      (y.blocks.map Block.rows).filterMap (Row.compileAll? registry) := by
    rw [← ConditionPart.map_snd_emitted, ← ConditionPart.blocks_joined y.blockRelations]
    rfl
  have unsent {ts : List BlockPart} (empty : BlockPart.comparisons ts = []) :
      Row.compileAll? registry (Row.ofTokens registry ts) = none := by
    rw [← List.length_eq_zero_iff, ← Row.length_ofTokens registry, List.length_eq_zero_iff] at empty
    rw [empty]
    rfl
  rw [sent, (restore_ok done).2.2.1, ConditionPart.fst_layout]
  split
  next none =>
    refine (List.filterMap_eq_nil_iff.2 fun ts member => unsent ?_).symm
    simpa using List.filter_eq_nil_iff.1 none ts member
  next =>
    rw [List.filterMap_map, List.filterMap_filter]
    refine List.filterMap_congr fun ts _ => ?_
    split
    next => rfl
    next empty => exact (unsent (by simpa using empty)).symm

theorem reread_of_mem_comparisons {c : SentCondition} {y : Condition}
    (done : (c.restore registry).exec source = (.ok y, rest)) {node : String}
    {actions : List String} {k : Comparison}
    (member : k ∈ (y.compile registry node actions).comparisons) :
    ∃ l ∈ c.comparisons, l.reread? registry = some k := by
  obtain ⟨ts', sent, within⟩ := List.mem_flatMap.1 member
  rw [blocks_compile_restored done] at sent
  obtain ⟨ts, inside, compiled⟩ := List.mem_filterMap.1 sent
  rw [comparisons_of_compileAll? compiled] at within
  obtain ⟨l, of, reread⟩ := List.mem_filterMap.1 within
  exact ⟨l, List.mem_flatMap.2 ⟨ts, inside, of⟩, reread⟩

theorem restore_succeeds (c : SentCondition) (distinct : source.Distinct c.idCount) :
    ∃ y rest, (c.restore registry).exec source = (.ok y, rest) :=
  c.restore_draws.succeeds distinct

end SentCondition

namespace Condition

variable {registry : Registry}

/-- Whatever an editor holds, saving, loading and saving again gives the saved condition exactly if
each of its comparisons reads back. -/
theorem resaved_eq_iff (registry : Registry) (x : Condition) (node : String)
    (actions : List String) (source : IdSource) :
    let c := x.compile registry node actions
    (source.Distinct c.idCount → ∃ y rest, (c.restore registry).exec source = (.ok y, rest)) ∧
      ∀ y rest, (c.restore registry).exec source = (.ok y, rest) →
        (y.compile registry node actions = c ↔ ∀ k ∈ c.comparisons, k.ReadsBack registry) := by
  intro c
  refine ⟨c.restore_succeeds, fun y rest done => ?_⟩
  exact SentCondition.compile_restored_eq_iff (SentCondition.regular_compile ..) done

structure Valid (registry : Registry) (x : Condition) : Prop where
  filled : ∀ b ∈ x.blocks, b.rows ≠ []
  rows : ∀ b ∈ x.blocks, ∀ r ∈ b.rows, r.Valid registry
  count : x.blocks.length = x.blockRelations.length + 1

/-- The two differ in ids, in what joins the last row of a block and the last block to nothing, and
in the flags of an exit condition. -/
structure SameContent (x y : Condition) : Prop where
  header : y.header = { x.header with
    waitTrigger := x.header.kind ≠ .exit && x.header.waitTrigger
    positionOpen := x.header.kind ≠ .exit && x.header.positionOpen }
  rows : y.blocks.map Block.rows = x.blocks.map fun b => Row.setLastBadge .and b.rows
  blockRelations : y.blockRelations = x.blockRelations
  relations : y.blocks.map Block.relation = x.blockRelations ++ [.and]

theorem emitted_of_valid {x : Condition} (valid : x.Valid registry) :
    ∃ tss : List (List BlockPart), emitted registry x.blocks = tss.zipIdx.map Prod.swap ∧
      (tss.map (Row.ofTokens registry) = x.blocks.map fun b => Row.setLastBadge .and b.rows) ∧
      ∀ ts ∈ tss, ∀ c ∈ BlockPart.comparisons ts, c.ReadsBack registry := by
  let sent (b : Block) : List BlockPart := (Row.compileAll? registry b.rows).getD []
  have each : ∀ b ∈ x.blocks, Row.compileAll? registry b.rows = some (sent b) ∧
      Row.ofTokens registry (sent b) = Row.setLastBadge .and b.rows ∧
      ∀ c ∈ BlockPart.comparisons (sent b), c.ReadsBack registry := by
    intro b member
    obtain ⟨ts, compiled, back⟩ :=
      Row.compileAll?_of_valid (valid.filled b member) (valid.rows b member)
    have same : sent b = ts := by simp [sent, compiled]
    rw [same]
    exact ⟨compiled, back⟩
  refine ⟨x.blocks.map sent, ?_, ?_, ?_⟩
  · rw [emitted, List.zipIdx_map, List.map_map, List.filterMap_eq_map_iff_forall_eq_some]
    intro p member
    dsimp only
    rw [(each p.1 (List.fst_mem_of_mem_zipIdx member)).1]
    rfl
  · rw [List.map_map]
    exact List.map_congr_left fun b member => (each b member).2.1
  · rw [List.forall_mem_map]
    exact fun b member => (each b member).2.2

theorem restored_of_valid (registry : Registry) (x : Condition) (valid : x.Valid registry)
    (node : String) (actions : List String) (source : IdSource) :
    let c := x.compile registry node actions
    (source.Distinct c.idCount → ∃ y rest, (c.restore registry).exec source = (.ok y, rest)) ∧
      ∀ y rest, (c.restore registry).exec source = (.ok y, rest) →
        x.SameContent y ∧ y.compile registry node actions = c := by
  intro c
  refine ⟨c.restore_succeeds, fun y rest done => ?_⟩
  obtain ⟨tss, sent, back, reads⟩ := emitted_of_valid valid
  have count : tss.length = x.blockRelations.length + 1 := by
    have same := congrArg List.length back
    rwa [List.length_map, List.length_map, valid.count] at same
  have parts : c.parts = joined x.blockRelations (tss.zipIdx.map Prod.swap) := by
    rw [← sent]
    rfl
  have blocksSent : ConditionPart.blocks c.parts = tss := by
    rw [parts, ConditionPart.blocks_joined, List.map_map]
    exact List.zipIdx_map_fst 0 tss
  -- Every block is sent, so the condition is not the one without parts.
  have alternates : ConditionPart.alternate c.parts = true := by
    rcases (SentCondition.regular_compile registry node actions x).parts with none | alternates
    · have length := congrArg List.length blocksSent
      rw [show c.parts = [] from none, count] at length
      simp at length
    · exact alternates
  obtain ⟨header, relations, rows, bs, mirrored⟩ := SentCondition.restore_ok done
  rw [ConditionPart.layout_of_alternate alternates, blocksSent] at rows
  rw [ConditionPart.layout_of_alternate alternates, parts, ConditionPart.joins_joined count]
    at relations
  have some : tss ≠ [] := fun none => by simp [none] at count
  rw [if_neg some, back] at rows
  refine ⟨⟨header, rows, relations, ?_⟩, ?_⟩
  · have length := congrArg List.length rows
    rw [List.length_map, List.length_map, valid.count, mirrored, Block.length_mirror] at length
    rw [mirrored, relations]
    exact Block.map_relation_mirror length
  · refine (SentCondition.compile_restored_eq_iff
      (SentCondition.regular_compile registry node actions x) done).2 fun k member => ?_
    rw [SentCondition.comparisons, ConditionPart.comparisons, blocksSent] at member
    obtain ⟨ts, inside, within⟩ := List.mem_flatMap.1 member
    exact reads ts inside k within

def profitExit : Condition :=
  { header := ⟨"Take profit", .exit, 1, true, true⟩
    blocks :=
      [⟨"b1",
        [⟨"s1", { badge := .or, lhs := ⟨some "spotNF", some "close", some (.prevN 2)⟩,
                  operator := some ">", rhs := ⟨some Row.literalMark, none, none⟩,
                  literal := some "20000" }⟩,
          ⟨"s2", { badge := .or, lhs := ⟨some "spotNF", some "close", none⟩,
                   operator := some "<=", rhs := ⟨some "ema9", none, some .current⟩ }⟩], .or⟩,
        ⟨"b2",
          [⟨"s3", { lhs := ⟨some "day_of_week", none, none⟩, operator := some "==",
                    rhs := ⟨some "FRIDAY", none, none⟩ }⟩], .and⟩]
    blockRelations := [.or] }

def profitRegistry : Registry :=
  (Catalog.builtin.extend [("spotNF", .candle), ("ema9", .indicator [])]).registry

theorem profitExit_valid : profitExit.Valid profitRegistry := by
  have candle (period : Option Period) (counted : period ≠ some (.prevN 0)) :
      (⟨"spotNF", some "close", period⟩ : Reference).Valid profitRegistry := by
    have dotless : '.' ∉ "spotNF".toList := by decide
    have found : profitRegistry "spotNF" = some .candle := by decide +kernel
    exact ⟨dotless, counted, .candle, found, rfl, by decide⟩
  have average : (⟨"ema9", none, some .current⟩ : Reference).Valid profitRegistry :=
    ⟨by decide, by decide, .indicator [], by decide +kernel, by decide⟩
  have day : (⟨"day_of_week", none, none⟩ : Reference).Valid profitRegistry :=
    ⟨by decide, by decide, .enumerated, by decide +kernel, by decide⟩
  refine ⟨by decide, ?_, rfl⟩
  simp only [profitExit, Block.rows, List.map_cons, List.map_nil, List.forall_mem_cons,
    List.not_mem_nil, false_imp_iff, implies_true, and_true]
  refine ⟨⟨⟨⟨_, rfl, candle (some (.prevN 2)) (by decide), ?_⟩, rfl⟩,
    ⟨⟨_, rfl, candle none (by decide), ?_⟩, rfl⟩⟩, ⟨⟨_, rfl, day, ?_⟩, rfl⟩⟩
  · have written : (⟨.integer 20000, rfl⟩ : Value).json.compact = "20000" := by decide +kernel
    exact .literal "20000" (by decide) rfl rfl
      (.inl ⟨by decide +kernel, ⟨.integer 20000, rfl⟩, by decide +kernel, written⟩)
  · exact .element ⟨"ema9", none, some .current⟩ (by decide) rfl rfl average (by decide)
  · exact .token "FRIDAY" (by decide) rfl rfl (by decide)

theorem profitExit_restored :
    profitExit.Valid profitRegistry ∧
      ∃ y rest, ((profitExit.compile profitRegistry "c1" ["a1"]).restore profitRegistry).exec
          .counter = (.ok y, rest) ∧
        profitExit.SameContent y ∧
        y.compile profitRegistry "c1" ["a1"] = profitExit.compile profitRegistry "c1" ["a1"] := by
  have restored := restored_of_valid profitRegistry profitExit profitExit_valid "c1" ["a1"] .counter
  obtain ⟨y, rest, done⟩ := restored.1 (IdSource.distinct_counter _)
  exact ⟨profitExit_valid, y, rest, done, restored.2 y rest done⟩

def unfinished : Condition :=
  { header := ⟨"Breakout", .entry, 1, true, false⟩
    blocks :=
      [⟨"b1",
        [⟨"s1", { badge := .and, lhs := ⟨some "spotNF", some "close", none⟩, operator := some ">",
                  rhs := ⟨some Row.literalMark, none, none⟩, literal := some "1.50e4" }⟩], .or⟩,
        ⟨"b2", [⟨"s2", { lhs := ⟨some "spotNF", some "open", none⟩ }⟩], .and⟩]
    blockRelations := [.or] }

theorem unfinished_resaved :
    ∃ y rest, ((unfinished.compile profitRegistry "c1" []).restore profitRegistry).exec .counter =
        (.ok y, rest) ∧
      y.compile profitRegistry "c1" [] = unfinished.compile profitRegistry "c1" [] := by
  have resaved := resaved_eq_iff profitRegistry unfinished "c1" [] .counter
  obtain ⟨y, rest, done⟩ := resaved.1 (IdSource.distinct_counter _)
  have back : ∀ k ∈ (unfinished.compile profitRegistry "c1" []).comparisons,
      k.reread? profitRegistry = some k := by decide +kernel
  exact ⟨y, rest, done,
    (resaved.2 y rest done).2 fun k member => Comparison.readsBack_iff.2 (back k member)⟩

def namesakeRegistry : Registry := (Catalog.builtin.extend [("spotNF", .candle)]).registry

def namesake : Condition :=
  { header := ⟨"Namesake", .entry, 1, false, false⟩
    blocks :=
      [⟨"block_0", [⟨"sub_0",
        { lhs := ⟨some "spotNF", some "close", none⟩, operator := some ">",
          rhs := ⟨some Row.literalMark, none, none⟩, literal := some "spotNF" }⟩], .and⟩]
    blockRelations := [] }

theorem namesake_lost :
    ¬ ∀ (registry : Registry) (x : Condition) (node : String) (actions : List String)
        (source : IdSource), (∀ n, source.Distinct n) →
        let c := x.compile registry node actions
        ∃ y rest, (c.restore registry).exec source = (.ok y, rest) ∧
          y.compile registry node actions = c := by
  intro always
  obtain ⟨y, rest, done, same⟩ := always namesakeRegistry namesake "c1" [] .counter
    IdSource.distinct_counter
  have reads := (SentCondition.compile_restored_eq_iff
    (SentCondition.regular_compile namesakeRegistry "c1" [] namesake) done).1 same
  have sent : ⟨"spotNF.close", ">", .string "spotNF"⟩ ∈
      (namesake.compile namesakeRegistry "c1" []).comparisons := by decide +kernel
  have lost :
      Comparison.reread? namesakeRegistry ⟨"spotNF.close", ">", .string "spotNF"⟩ = none := by
    decide +kernel
  rw [Comparison.readsBack_iff.1 (reads _ sent)] at lost
  contradiction

end Condition

end TradingStrategy
