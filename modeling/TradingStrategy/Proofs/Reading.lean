import TradingStrategy.Proofs.Alignment
import TradingStrategy.Proofs.ConditionRoundTrip

set_option autoImplicit false

namespace TradingStrategy

def stretches {α β : Type} (mark? : β → Option α) : List β → List (α × List β)
  | [] => []
  | x :: rest =>
    match mark? x with
    | some a => (a, rest.takeWhile fun y => (mark? y).isNone) :: stretches mark? rest
    | none => stretches mark? rest

section stretches

variable {α β : Type} {mark? : β → Option α} {x : β} {a : α} {rest : List β}

theorem stretches_of_marked (marked : mark? x = some a) :
    stretches mark? (x :: rest) =
      (a, rest.takeWhile fun y => (mark? y).isNone) :: stretches mark? rest := by
  rw [stretches, marked]

theorem stretches_of_unmarked (unmarked : mark? x = none) :
    stretches mark? (x :: rest) = stretches mark? rest := by
  rw [stretches, unmarked]

theorem takeWhile_of_marked (marked : mark? x = some a) :
    ((x :: rest).takeWhile fun y => (mark? y).isNone) = [] := by
  simp [marked]

theorem takeWhile_of_unmarked (unmarked : mark? x = none) :
    ((x :: rest).takeWhile fun y => (mark? y).isNone) =
      x :: rest.takeWhile fun y => (mark? y).isNone := by
  simp [unmarked]

theorem map_fst_stretches (mark? : β → Option α) (xs : List β) :
    (stretches mark? xs).map Prod.fst = xs.filterMap mark? := by
  induction xs with
  | nil => rfl
  | cons x rest ih =>
    cases marked : mark? x with
    | none => rw [stretches_of_unmarked marked, List.filterMap_cons_none marked, ih]
    | some a => rw [stretches_of_marked marked, List.filterMap_cons_some marked, List.map_cons, ih]

end stretches

def lastRelation {β : Type} (join? : β → Option Relation) (otherwise : Relation) (xs : List β) :
    Relation :=
  (xs.filterMap join?).getLast?.getD otherwise

section lastRelation

variable {β : Type} {join? : β → Option Relation} {otherwise : Relation} {x : β} {xs : List β}

theorem lastRelation_of_join {r : Relation} (join : join? x = some r) :
    lastRelation join? otherwise (x :: xs) = lastRelation join? r xs := by
  rw [lastRelation, List.filterMap_cons_some join, List.getLast?_cons, Option.getD_some]
  rfl

theorem lastRelation_of_none (other : join? x = none) :
    lastRelation join? otherwise (x :: xs) = lastRelation join? otherwise xs := by
  rw [lastRelation, List.filterMap_cons_none other]
  rfl

end lastRelation

namespace BlockPart

def comparison? : BlockPart → Option Comparison
  | .comparison c => some c
  | .join _ => none

def join? : BlockPart → Option Relation
  | .comparison _ => none
  | .join r => some r

theorem lastJoin_eq (badge : Relation) (ts : List BlockPart) :
    lastJoin badge ts = lastRelation join? badge (ts.takeWhile fun t => t.comparison?.isNone) := by
  induction ts generalizing badge with
  | nil => rfl
  | cons t rest ih =>
    cases t with
    | comparison c => rfl
    | join r =>
      have joins : (BlockPart.join r).join? = some r := rfl
      exact (ih r).trans (lastRelation_of_join joins).symm

theorem badged_eq (ts : List BlockPart) :
    badged ts = (stretches comparison? ts).map fun p => (p.1, lastRelation join? .and p.2) := by
  induction ts with
  | nil => rfl
  | cons t rest ih =>
    cases t with
    | comparison c =>
      rw [badged, ih, lastJoin_eq]
      rfl
    | join r => exact ih

end BlockPart

namespace ConditionPart

def filled? : ConditionPart → Option (List BlockPart)
  | .block ts => if BlockPart.comparisons ts = [] then none else some ts
  | .join _ => none

def join? : ConditionPart → Option Relation
  | .block _ => none
  | .join r => some r

theorem filled?_of_nil {ts : List BlockPart} (none : BlockPart.comparisons ts = []) :
    filled? (.block ts) = .none := if_pos none

theorem filled?_of_ne_nil {ts : List BlockPart} (some : BlockPart.comparisons ts ≠ []) :
    filled? (.block ts) = .some ts := if_neg some

theorem map_fst_layout (parts : List ConditionPart) (pending : Option Relation) (started : Bool) :
    (layout parts pending started).1 = (stretches filled? parts).map Prod.fst := by
  induction parts generalizing pending started with
  | nil => rfl
  | cons part rest ih =>
    cases part with
    | join r => exact ih (some r) started
    | block ts =>
      by_cases empty : BlockPart.comparisons ts = []
      · rw [layout, if_pos empty, ih, stretches_of_unmarked (filled?_of_nil empty)]
      · rw [layout, if_neg empty, stretches_of_marked (filled?_of_ne_nil empty)]
        exact congrArg (ts :: ·) (ih none true)

def relationsAfter (parts : List ConditionPart) : List Relation :=
  (stretches filled? parts).map fun p => lastRelation join? .and p.2

def leading (pending : Option Relation) (parts : List ConditionPart) : Relation :=
  lastRelation join? (pending.getD .and) (parts.takeWhile fun part => part.filled?.isNone)

-- What comes after the last block is dropped: there is no block for it to stand before.
theorem relations_layout (parts : List ConditionPart) (pending : Option Relation) :
    (layout parts pending true).2 = (leading pending parts :: relationsAfter parts).dropLast := by
  induction parts generalizing pending with
  | nil => rfl
  | cons part rest ih =>
    cases part with
    | join r =>
      have first : leading pending (.join r :: rest) = leading (some r) rest :=
        lastRelation_of_join rfl
      rw [first]
      exact ih (some r)
    | block ts =>
      by_cases empty : BlockPart.comparisons ts = []
      · have unmarked := filled?_of_nil empty
        have first : leading pending (.block ts :: rest) = leading pending rest := by
          rw [leading, takeWhile_of_unmarked unmarked]
          exact lastRelation_of_none rfl
        rw [layout, if_pos empty, ih, first, relationsAfter, relationsAfter,
          stretches_of_unmarked unmarked]
      · have marked := filled?_of_ne_nil empty
        have first : leading pending (.block ts :: rest) = pending.getD .and := by
          rw [leading, takeWhile_of_marked marked]
          rfl
        rw [layout, if_neg empty, first, relationsAfter, stretches_of_marked marked, List.map_cons,
          List.dropLast_cons_cons]
        exact congrArg (pending.getD .and :: ·) (ih none)

theorem relations_layout_unstarted (parts : List ConditionPart) (pending : Option Relation) :
    (layout parts pending false).2 = (relationsAfter parts).dropLast := by
  induction parts generalizing pending with
  | nil => rfl
  | cons part rest ih =>
    cases part with
    | join r => exact ih (some r)
    | block ts =>
      by_cases empty : BlockPart.comparisons ts = []
      · rw [layout, if_pos empty, ih, relationsAfter, relationsAfter,
          stretches_of_unmarked (filled?_of_nil empty)]
      · rw [layout, if_neg empty, relationsAfter, stretches_of_marked (filled?_of_ne_nil empty)]
        exact relations_layout rest none

/-- The second list is the first without one relation that joins nothing: one before the first
block with a comparison, or after the last one, or before the first comparison of a block. -/
inductive DropsIdle : List ConditionPart → List ConditionPart → Prop
  | before {earlier later : List ConditionPart} (r : Relation)
    (first : earlier.filterMap filled? = []) :
    DropsIdle (earlier ++ .join r :: later) (earlier ++ later)
  | after {earlier later : List ConditionPart} (r : Relation)
    (last : later.filterMap filled? = []) :
    DropsIdle (earlier ++ .join r :: later) (earlier ++ later)
  | inside {earlier later : List ConditionPart} {ts us : List BlockPart} (r : Relation)
    (first : ts.filterMap BlockPart.comparison? = []) :
    DropsIdle (earlier ++ .block (ts ++ .join r :: us) :: later)
      (earlier ++ .block (ts ++ us) :: later)

end ConditionPart

namespace Row

variable {registry : Registry}

def ofStretch (registry : Registry) (p : Comparison × List BlockPart) : Row :=
  { ofComparison registry p.1 with badge := lastRelation BlockPart.join? .and p.2 }

theorem ofTokens_eq_map (registry : Registry) (ts : List BlockPart) :
    ofTokens registry ts = (stretches BlockPart.comparison? ts).map (ofStretch registry) := by
  rw [ofTokens_eq, ofBadged, BlockPart.badged_eq, List.map_map]
  rfl

theorem operator_ofComparison (c : Comparison) :
    (ofComparison registry c).operator = some c.operator := by
  rw [ofComparison_eq]

theorem ofTokens_of_idle {ts us : List BlockPart} (r : Relation)
    (first : ts.filterMap BlockPart.comparison? = []) :
    ofTokens registry (ts ++ .join r :: us) = ofTokens registry (ts ++ us) := by
  rw [ofTokens_eq, ofTokens_eq]
  induction ts with
  | nil => rfl
  | cons t rest ih =>
    cases t with
    | comparison c => simp [BlockPart.comparison?] at first
    | join r' => exact ih first

end Row

namespace SentCondition

open ConditionPart (DropsIdle filled? relationsAfter)

variable {registry : Registry}

theorem drawBlocks_congr {parts parts' : List ConditionPart}
    (same : ∀ pending started taken, drawBlocks registry parts pending started taken =
      drawBlocks registry parts' pending started taken)
    (earlier : List ConditionPart) (pending : Option Relation) (started : Bool)
    (taken : List String) :
    drawBlocks registry (earlier ++ parts) pending started taken =
      drawBlocks registry (earlier ++ parts') pending started taken := by
  induction earlier generalizing pending started taken with
  | nil => exact same pending started taken
  | cons part rest ih =>
    cases part with
    | join r => exact ih (some r) started taken
    | block ts =>
      simp only [List.cons_append, drawBlocks, ih]

theorem drawBlocks_empty {ts : List BlockPart} (empty : filled? (.block ts) = none)
    (rest : List ConditionPart) (pending : Option Relation) (started : Bool)
    (taken : List String) :
    drawBlocks registry (.block ts :: rest) pending started taken =
      (Drawing.uniqueAmong "block" taken >>= fun drawn =>
        drawBlocks registry rest pending started drawn.2) := by
  have none : BlockPart.comparisons ts = [] := by simpa [filled?] using empty
  have rows : Row.ofTokens registry ts = [] := by
    rw [← List.length_eq_zero_iff, Row.length_ofTokens, none, List.length_nil]
  simp only [drawBlocks, drawBlock, drawSubSections, rows, pure_bind, bind_assoc,
    List.isEmpty_nil, if_true]

-- Before the first block with a comparison no relation is put anywhere.
theorem drawBlocks_unstarted (parts : List ConditionPart) (pending pending' : Option Relation)
    (taken : List String) :
    drawBlocks registry parts pending false taken =
      drawBlocks registry parts pending' false taken := by
  induction parts generalizing pending pending' taken with
  | nil => rfl
  | cons part rest ih =>
    cases part with
    | join r => rfl
    | block ts => simp only [drawBlocks, ih pending pending', Bool.false_eq_true, if_false]

theorem drawBlocks_unfilled {parts : List ConditionPart}
    (unfilled : ∀ part ∈ parts, part.filled? = none) (pending pending' : Option Relation)
    (started : Bool) (taken : List String) :
    drawBlocks registry parts pending started taken =
      drawBlocks registry parts pending' started taken := by
  induction parts generalizing pending pending' taken with
  | nil => rfl
  | cons part rest ih =>
    rw [List.forall_mem_cons] at unfilled
    cases part with
    | join r => rfl
    | block ts =>
      simp only [drawBlocks_empty unfilled.1, ih unfilled.2 pending pending']

theorem drawBlocks_before {earlier : List ConditionPart}
    (unfilled : ∀ part ∈ earlier, part.filled? = none) (r : Relation)
    (later : List ConditionPart) (pending : Option Relation) (taken : List String) :
    drawBlocks registry (earlier ++ .join r :: later) pending false taken =
      drawBlocks registry (earlier ++ later) pending false taken := by
  induction earlier generalizing pending taken with
  | nil => exact drawBlocks_unstarted later (some r) pending taken
  | cons part rest ih =>
    rw [List.forall_mem_cons] at unfilled
    cases part with
    | join r' => exact ih unfilled.2 (some r') taken
    | block ts => simp only [List.cons_append, drawBlocks_empty unfilled.1, ih unfilled.2]

theorem drawBlocks_dropsIdle {parts parts' : List ConditionPart} (drops : DropsIdle parts parts') :
    drawBlocks registry parts none false [] = drawBlocks registry parts' none false [] := by
  cases drops with
  | before r first => exact drawBlocks_before (List.filterMap_eq_nil_iff.1 first) r _ none []
  | after r last =>
    refine drawBlocks_congr (fun pending started taken => ?_) _ none false []
    exact drawBlocks_unfilled (List.filterMap_eq_nil_iff.1 last) (some r) pending started taken
  | inside r first =>
    refine drawBlocks_congr (fun pending started taken => ?_) _ none false []
    simp only [drawBlocks, Row.ofTokens_of_idle r first]

/-- What a condition says that is read from what was sent: a block for each block with a
comparison, a row for each comparison in it, and of the relations up to the next one the last. -/
structure ReadAs (registry : Registry) (c : SentCondition) (y : Condition) : Prop where
  header : y.header = ⟨c.description, c.kind, c.maxEntries, c.checkTriggerOpen, c.checkPositionOpen⟩
  blank : c.parts.filterMap filled? = [] → y.blocks.map Block.rows = [[.blank]]
  operators : c.parts.filterMap filled? ≠ [] →
    (y.blocks.map fun b => b.rows.map Row.operator) =
      (c.parts.filterMap filled?).map fun ts =>
        (ts.filterMap BlockPart.comparison?).map fun k => some k.operator
  rows : c.parts.filterMap filled? ≠ [] →
    y.blocks.map Block.rows = (stretches filled? c.parts).map fun p =>
      (stretches BlockPart.comparison? p.1).map (Row.ofStretch registry)
  relations : y.blockRelations = (relationsAfter c.parts).dropLast
  aligned : y.Aligned

theorem operators_ofStretch (ts : List BlockPart) :
    ((stretches BlockPart.comparison? ts).map (Row.ofStretch registry)).map Row.operator =
      (ts.filterMap BlockPart.comparison?).map fun k => some k.operator := by
  rw [← map_fst_stretches, List.map_map, List.map_map]
  exact List.map_congr_left fun p _ => Row.operator_ofComparison p.1

theorem readAs_of_restore {c : SentCondition} {source rest : IdSource} {y : Condition}
    (done : (c.restore registry).exec source = (.ok y, rest)) : c.ReadAs registry y := by
  obtain ⟨header, relations, rows, _⟩ := restore_ok done
  have filled := ConditionPart.map_fst_layout c.parts none false
  have read : c.parts.filterMap filled? ≠ [] →
      y.blocks.map Block.rows = (stretches filled? c.parts).map fun p =>
        (stretches BlockPart.comparison? p.1).map (Row.ofStretch registry) := by
    intro some
    rw [filled, map_fst_stretches, if_neg some, ← map_fst_stretches, List.map_map] at rows
    rw [rows]
    exact List.map_congr_left fun p _ => Row.ofTokens_eq_map registry p.1
  refine ⟨header, fun none => ?_, fun some => ?_, read, ?_, aligned_of_restore done⟩
  · rw [rows, if_pos]
    rw [filled, map_fst_stretches, none]
  · have mapped := congrArg (List.map (List.map Row.operator)) (read some)
    rw [List.map_map, List.map_map] at mapped
    refine mapped.trans ?_
    rw [← map_fst_stretches, List.map_map]
    exact List.map_congr_left fun p _ => operators_ofStretch p.1
  · rw [relations, ConditionPart.relations_layout_unstarted]

/-- Every list of parts, well formed or not, is read block by block and comparison by comparison,
and a relation that stands between no two of them might as well not be there. -/
theorem restore_reads (registry : Registry) (c : SentCondition) :
    (∀ source, source.Distinct c.idCount →
        ∃ y rest, (c.restore registry).exec source = (.ok y, rest)) ∧
      (∀ source y rest, (c.restore registry).exec source = (.ok y, rest) → c.ReadAs registry y) ∧
      ∀ parts, DropsIdle c.parts parts →
        c.restore registry = { c with parts }.restore registry := by
  refine ⟨fun source => c.restore_succeeds, fun source y rest => readAs_of_restore,
    fun parts drops => ?_⟩
  rw [restore, restore, drawBlocks_dropsIdle drops]

def garbled : SentCondition :=
  { node := "c1"
    kind := .entry
    description := "Garbled"
    maxEntries := 1
    checkPositionOpen := false
    checkTriggerOpen := false
    actions := []
    parts :=
      [.join .or,
        .block [.join .or, .comparison ⟨"spotNF.close", ">", .string "spotNF.open"⟩, .join .and,
          .join .or, .comparison ⟨"spotNF.low", "<", .string "spotNF.high.prev"⟩, .join .or],
        .join .and, .block [.join .and], .join .or,
        .block [.comparison ⟨"day_of_week", "==", .string "FRIDAY"⟩], .join .or] }

theorem garbled_reads :
    IdSource.counter.Distinct garbled.idCount ∧
      (∃ y rest, (garbled.restore Condition.profitRegistry).exec .counter = (.ok y, rest) ∧
        garbled.ReadAs Condition.profitRegistry y ∧
        (y.blocks.map fun b => b.rows.map Row.operator) =
          [[some ">", some "<"], [some "=="]] ∧
        (y.blocks.map fun b => b.rows.map Row.badge) = [[.or, .or], [.and]] ∧
        y.blockRelations = [.or]) ∧
      DropsIdle garbled.parts garbled.parts.tail ∧
      garbled.restore Condition.profitRegistry =
        { garbled with parts := garbled.parts.tail }.restore Condition.profitRegistry := by
  obtain ⟨succeeds, reads, same⟩ := restore_reads Condition.profitRegistry garbled
  have distinct := IdSource.distinct_counter garbled.idCount
  obtain ⟨y, rest, done⟩ := succeeds .counter distinct
  have read := reads .counter y rest done
  have drops : DropsIdle ([] ++ .join .or :: garbled.parts.tail) ([] ++ garbled.parts.tail) :=
    .before .or rfl
  refine ⟨distinct, ⟨y, rest, done, read, ?_, ?_, ?_⟩, drops, same _ drops⟩
  · exact read.operators (by decide +kernel)
  · have rows := congrArg (List.map (List.map Row.badge)) (read.rows (by decide +kernel))
    rw [List.map_map] at rows
    exact rows.trans (by decide +kernel)
  · exact read.relations.trans (by decide +kernel)

end SentCondition

end TradingStrategy
