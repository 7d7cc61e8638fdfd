import Mathlib.Data.List.Forall2
import TradingStrategy.Proofs.ConditionRoundTrip

set_option autoImplicit false

namespace TradingStrategy

open ConditionPart (blocks)

variable {registry : Registry}

structure Reference.Numeric (registry : Registry) (e : Reference) : Prop where
  takes : (registry e.base).any Capabilities.takesNumbers = true
  column : Row.lacksColumn registry e = false

namespace Comparison

/-- The second comparison is the first with its left side written anew and a number on the right:
the same integer if it has 64 bits with sign, and else the double nearest to it. -/
structure ResentInteger (registry : Registry) (k l : Comparison) (n : Int) : Prop where
  lhs : l.lhs = (Reference.ofPath registry k.lhs).path
  operator : l.operator = k.operator
  signed : n < 0x8000000000000000 → l.rhs = k.rhs
  rounded : 0x8000000000000000 ≤ n → l.rhs.json = .float (.ofInt n)

theorem fits_of_json {v : Value} {n : Int} (whole : v.json = .integer n) :
    -0x8000000000000000 ≤ n ∧ n < 0x10000000000000000 := by
  have fits := v.canonical
  rw [whole, Json.canonical, Json.fits, Bool.and_eq_true, decide_eq_true_eq, decide_eq_true_eq]
    at fits
  exact fits

theorem numberOfText?_of_integer {v : Value} {n : Int} (whole : v.json = .integer n) :
    ∃ w, numberOfText? v.json.compact = some w ∧ (n < 0x8000000000000000 → w = v) ∧
      (0x8000000000000000 ≤ n → w.json = .float (.ofInt n)) := by
  obtain ⟨low, high⟩ := fits_of_json whole
  rw [whole, Json.compact]
  by_cases small : n < 0x8000000000000000
  · refine ⟨v, ?_, fun _ => rfl, fun large => by omega⟩
    have fits := v.canonical
    rw [whole, Json.canonical] at fits
    rw [numberOfText?_integerText low small, Value.ofJson?_eq_some_iff, Json.normalize,
      if_pos fits, whole]
  · have large : 0x8000000000000000 ≤ n := by omega
    have finite := Binary64.isFinite_ofInt (n := n) (by omega)
    refine ⟨⟨.float (.ofInt n), finite⟩, ?_, fun small => by omega, fun _ => rfl⟩
    rw [numberOfText?_integerText_of_large large high, Value.ofJson?_eq_some_iff, Json.normalize,
      if_pos finite]

theorem reread?_of_integer {k : Comparison} {n : Int}
    (numeric : (Reference.ofPath registry k.lhs).Numeric registry)
    (whole : k.rhs.json = .integer n) :
    ∃ l, k.reread? registry = some l ∧ ResentInteger registry k l n := by
  obtain ⟨v, read, same, rounded⟩ := numberOfText?_of_integer whole
  have right : rereadRight? registry (Reference.ofPath registry k.lhs).base k.rhs = some v := by
    rw [whole] at read
    simp only [rereadRight?, whole, Row.sentLiteral, numeric.takes, if_true, read, Option.getD_some]
  refine ⟨⟨(Reference.ofPath registry k.lhs).path, k.operator, v⟩, ?_, rfl, rfl, same, rounded⟩
  rw [reread?_eq]
  simp only [numeric.column, right, Bool.false_eq_true, if_false, Option.map_some]

end Comparison

namespace Row

open BlockPart (badged)

theorem progress_eq_blank_iff {r : Row} : r.progress registry = .blank ↔ r.isBlank = true := by
  fun_cases progress registry r <;> simp_all

-- The left side of such a row is there.
theorem progress_ofComparison (c : Comparison) (badge : Relation) :
    ({ ofComparison registry c with badge } : Row).progress registry ≠ .started ↔
      (c.reread? registry).isSome = true := by
  have written : (ofComparison registry c).progress registry ≠ .blank := by
    rw [ne_eq, progress_eq_blank_iff, ofComparison_eq]
    exact Bool.false_ne_true
  rw [Comparison.reread?, isSome_comparison?]
  show (ofComparison registry c).progress registry ≠ .started ↔ _
  cases progress : (ofComparison registry c).progress registry with
  | blank => exact absurd progress written
  | started => simp
  | complete => simp

theorem isSome_compileAll?_ofTokens (ts : List BlockPart) :
    (compileAll? registry (ofTokens registry ts)).isSome = true ↔
      BlockPart.comparisons ts ≠ [] ∧
        ∀ k ∈ BlockPart.comparisons ts, (k.reread? registry).isSome = true := by
  have started : (∀ r ∈ ofBadged registry (badged ts), r.progress registry ≠ .started) ↔
      ∀ k ∈ BlockPart.comparisons ts, (k.reread? registry).isSome = true := by
    rw [ofBadged, List.forall_mem_map, ← BlockPart.map_fst_badged, List.forall_mem_map]
    exact forall₂_congr fun p _ => progress_ofComparison p.1 p.2
  have sent : (ofBadged registry (badged ts)).filterMap (sent? registry) = [] ↔
      ∀ k ∈ BlockPart.comparisons ts, k.reread? registry = none := by
    rw [← List.map_eq_nil_iff (f := Prod.fst), map_fst_sent, List.filterMap_eq_nil_iff,
      ← BlockPart.map_fst_badged, List.forall_mem_map]
  simp only [Option.isSome_iff_exists, compileAll?_eq_some_iff, exists_and_left, exists_eq',
    and_true, ofTokens_eq, started, ne_eq, sent]
  constructor
  · rintro ⟨each, some⟩
    exact ⟨fun none => some (by simp [none]), each⟩
  · rintro ⟨some, each⟩
    obtain ⟨k, member⟩ := List.exists_mem_of_ne_nil _ some
    obtain ⟨l, reread⟩ := each k member
    exact ⟨each, fun none => by simp [none k member] at reread⟩

end Row

theorem forall₂_filterMap {α β : Type} (f : α → Option β) (xs : List α) :
    List.Forall₂ (fun x y => f x = some y) (xs.filter fun x => (f x).isSome) (xs.filterMap f) := by
  induction xs with
  | nil => exact .nil
  | cons x rest ih =>
    cases made : f x with
    | none =>
      rw [List.filter_cons_of_neg (by simp [made]), List.filterMap_cons_none made]
      exact ih
    | some y =>
      rw [List.filter_cons_of_pos (by simp [made]), List.filterMap_cons_some made]
      exact .cons made ih

namespace SentCondition

def finished (registry : Registry) (ts : List BlockPart) : Bool :=
  !(BlockPart.comparisons ts).isEmpty &&
    (BlockPart.comparisons ts).all fun k =>
      (Row.ofComparison registry k).progress registry = .complete

theorem finished_eq (registry : Registry) : finished registry = fun ts =>
    (Row.compileAll? registry (Row.ofTokens registry ts)).isSome := by
  funext ts
  rw [Bool.eq_iff_iff, Row.isSome_compileAll?_ofTokens]
  simp [finished, Comparison.reread?, Row.isSome_comparison?]

theorem rereads_of_restore {c : SentCondition} {source rest : IdSource} {y : Condition}
    (done : (c.restore registry).exec source = (.ok y, rest)) (node : String)
    (actions : List String) :
    List.Forall₂ (fun k l => k.reread? registry = some l)
      (((blocks c.parts).filter (finished registry)).flatMap BlockPart.comparisons)
      (y.compile registry node actions).comparisons := by
  rw [SentCondition.comparisons, ConditionPart.comparisons, blocks_compile_restored done,
    finished_eq]
  refine List.rel_flatMap (forall₂_filterMap _ (blocks c.parts)) fun ts us compiled => ?_
  have sent : (Row.compileAll? registry (Row.ofTokens registry ts)).isSome = true := by
    rw [compiled]
    rfl
  have each := ((Row.isSome_compileAll?_ofTokens ts).1 sent).2
  have rows := forall₂_filterMap (·.reread? registry) (BlockPart.comparisons ts)
  rwa [List.filter_eq_self.2 each, ← comparisons_of_compileAll? compiled] at rows

/-- Wherever its comparison stands, an integer beside an element that compares with numbers is saved
as that integer when the condition has been loaded, unless it is beyond the integers of 64 bits with
sign; those are rounded. -/
theorem integers_resent (registry : Registry) (c : SentCondition) (node : String)
    (actions : List String) :
    (∀ source, source.Distinct c.idCount →
        ∃ y rest, (c.restore registry).exec source = (.ok y, rest)) ∧
      (∀ k : Comparison, (Reference.ofPath registry k.lhs).Numeric registry →
        ∀ n, k.rhs.json = .integer n →
          (Row.ofComparison registry k).progress registry = .complete) ∧
      ∀ source y rest, (c.restore registry).exec source = (.ok y, rest) →
        List.Forall₂
          (fun k l => (Reference.ofPath registry k.lhs).Numeric registry →
            ∀ n, k.rhs.json = .integer n → k.ResentInteger registry l n)
          (((blocks c.parts).filter (finished registry)).flatMap BlockPart.comparisons)
          (y.compile registry node actions).comparisons := by
  refine ⟨fun source => c.restore_succeeds, fun k numeric n whole => ?_,
    fun source y rest done => ?_⟩
  · obtain ⟨l, reread, _⟩ := Comparison.reread?_of_integer numeric whole
    exact (Row.isSome_comparison? _).1 (Option.isSome_iff_exists.2 ⟨l, reread⟩)
  · refine (rereads_of_restore done node actions).imp fun k l reread numeric n whole => ?_
    obtain ⟨l', reread', resent⟩ := Comparison.reread?_of_integer numeric whole
    obtain rfl : l = l' := Option.some.inj (reread.symm.trans reread')
    exact resent

def limits : SentCondition :=
  { node := "c1"
    kind := .entry
    description := "Limits"
    maxEntries := 1
    checkPositionOpen := false
    checkTriggerOpen := false
    actions := []
    parts :=
      [.block [.comparison ⟨"rsi14", ">", ⟨.integer (-0x8000000000000000), by decide⟩⟩, .join .and,
          .comparison ⟨"rsi14", "<", ⟨.integer 0x7fffffffffffffff, by decide⟩⟩],
        .join .or, .block [.comparison ⟨"rsi14", ">", ⟨.integer 0x8000000000000001, by decide⟩⟩]] }

def limitsRegistry : Registry := (Catalog.builtin.extend [("rsi14", .indicator [])]).registry

theorem limits_resent :
    IdSource.counter.Distinct limits.idCount ∧
      ∃ y rest, (limits.restore limitsRegistry).exec .counter = (.ok y, rest) ∧
        (y.compile limitsRegistry "c1" []).comparisons.map (fun l => l.rhs.json) =
          [.integer (-0x8000000000000000), .integer 0x7fffffffffffffff,
            .float ⟨0x43e0000000000000⟩] := by
  have distinct := IdSource.distinct_counter limits.idCount
  obtain ⟨succeeds, _, resent⟩ := integers_resent limitsRegistry limits "c1" []
  obtain ⟨y, rest, done⟩ := succeeds .counter distinct
  refine ⟨distinct, y, rest, done, ?_⟩
  have numeric : (Reference.ofPath limitsRegistry "rsi14").Numeric limitsRegistry :=
    ⟨by decide +kernel, by decide +kernel⟩
  have finish : (blocks limits.parts).filter (finished limitsRegistry) = blocks limits.parts := by
    decide +kernel
  have sent := resent .counter y rest done
  rw [finish] at sent
  generalize (y.compile limitsRegistry "c1" []).comparisons = again at sent ⊢
  change List.Forall₂ _ [_, _, _] _ at sent
  obtain ⟨⟩ | ⟨first, ⟨⟩ | ⟨second, ⟨⟩ | ⟨third, ⟨⟩⟩⟩⟩ := sent
  have double : Binary64.ofInt 0x8000000000000001 = ⟨0x43e0000000000000⟩ := by decide +kernel
  rw [List.map_cons, List.map_cons, List.map_singleton,
    (first numeric _ rfl).signed (by decide), (second numeric _ rfl).signed (by decide),
    (third numeric _ rfl).rounded (by decide), double]

-- The integer just beyond the limit comes back as a double, so it is not there any more.
theorem large_integer_lost :
    ¬ ∀ (registry : Registry) (c : SentCondition) (node : String) (actions : List String)
        (source rest : IdSource) (y : Condition),
        (c.restore registry).exec source = (.ok y, rest) →
        ∀ ts ∈ (blocks c.parts).filter (finished registry), ∀ k ∈ BlockPart.comparisons ts,
          (Reference.ofPath registry k.lhs).Numeric registry → ∀ n, k.rhs.json = .integer n →
            ∃ l ∈ (y.compile registry node actions).comparisons, l.rhs.json = .integer n := by
  intro always
  obtain ⟨y, rest, done⟩ : ∃ y rest,
      (limits.restore limitsRegistry).exec .counter = (.ok y, rest) :=
    limits.restore_succeeds (IdSource.distinct_counter _)
  have beyond : ([.comparison ⟨"rsi14", ">", ⟨.integer 0x8000000000000001, by decide⟩⟩] :
      List BlockPart) ∈ (blocks limits.parts).filter (finished limitsRegistry) := by decide +kernel
  obtain ⟨l, member, whole⟩ := always limitsRegistry limits "c1" [] .counter rest y done _ beyond
    _ List.mem_cons_self ⟨by decide +kernel, by decide +kernel⟩ _ rfl
  obtain ⟨k, given, reread⟩ := reread_of_mem_comparisons done member
  have others : ∀ l ∈ limits.comparisons.filterMap (·.reread? limitsRegistry),
      l.rhs.json ≠ .integer 0x8000000000000001 := by decide +kernel
  exact others l (List.mem_filterMap.2 ⟨k, given, reread⟩) whole

end SentCondition

end TradingStrategy
