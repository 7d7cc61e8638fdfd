import TradingStrategy.Condition.Compiled
import TradingStrategy.Proofs.GraphForms

set_option autoImplicit false

namespace TradingStrategy

open Wire (Lossless Scalar)

@[simp] theorem Feed.scalar (k : Feed) : Scalar k := by
  cases k <;> exact ⟨rfl, rfl⟩

@[simp] theorem Formula.scalar (k : Formula) : Scalar k := by
  cases k <;> exact ⟨rfl, rfl⟩

@[simp] theorem Relation.scalar (r : Relation) : Scalar r := by
  cases r <;> exact ⟨rfl, rfl⟩

@[simp] theorem ConditionKind.scalar (k : ConditionKind) : Scalar k := by
  cases k <;> exact ⟨rfl, rfl⟩

def IndicatorSettings.Writable (p : IndicatorSettings) : Prop :=
  ∀ x ∈ p.multiplier, x.isFinite = true

instance : DecidablePred IndicatorSettings.Writable := fun p =>
  inferInstanceAs (Decidable (∀ x ∈ p.multiplier, x.isFinite = true))

theorem IndicatorSettings.lossless {p : IndicatorSettings} (writable : p.Writable) :
    Lossless p := by
  have multiplier := Wire.lossless_of_finite writable
  refine .of_record rfl (fun _ => rfl) rfl (by decide) ?_ ?_
  · simp_all [Wire.Lossless.plain]
  · rintro f ⟨length, offset, factor, _⟩
    simp [Fields.required_eq length, Fields.optional_eq offset (by simp) rfl,
      Fields.optional_eq factor multiplier rfl]

theorem Wire.lossless_params (params : Dict Value) : Lossless params := Wire.lossless_dict (by simp)

@[simp] theorem DataDeclaration.lossless (d : DataDeclaration) : Lossless d := by
  have params := Wire.lossless_params d.params
  refine .of_record rfl (fun _ => rfl) rfl (by decide)
    (by simp [Wire.Lossless.plain, params.plain]) ?_
  rintro f ⟨name, kind, free, _⟩
  simp [Fields.required_eq name, Fields.required_eq kind, Fields.withDefault_eq free params]

@[simp] theorem DataPoint.lossless (d : DataPoint) : Lossless d := by
  have params := Wire.lossless_params d.declaration.params
  refine .of_record rfl (fun _ => rfl) rfl (by decide)
    (by simp [Wire.Lossless.plain, params.plain]) ?_
  rintro f ⟨id, name, kind, free, _⟩
  simp [Fields.required_eq id, Fields.required_eq name, Fields.required_eq kind,
    Fields.withDefault_eq free params]

theorem Wire.lossless_strings (xs : List String) : Lossless xs := Wire.lossless_list (by simp)

theorem Indicator.lossless {i : Indicator} (writable : i.spec.params.Writable) : Lossless i := by
  have columns := Wire.lossless_strings i.spec.columns
  have params := IndicatorSettings.lossless writable
  refine .of_record rfl (fun _ => rfl) rfl (by decide)
    (by simp [Wire.Lossless.plain, columns.plain, params.plain]) ?_
  rintro f ⟨id, name, kind, onData, list, settings, _⟩
  simp [Fields.required_eq id, Fields.required_eq name, Fields.required_eq kind,
    Fields.required_eq onData, Fields.withDefault_eq list columns,
    Fields.required_eq settings params]

theorem IndicatorDeclaration.lossless {i : IndicatorDeclaration}
    (writable : i.spec.params.Writable) : Lossless i := by
  have columns := Wire.lossless_strings i.spec.columns
  have params := IndicatorSettings.lossless writable
  refine .of_record rfl (fun _ => rfl) rfl (by decide)
    (by simp [Wire.Lossless.plain, columns.plain, params.plain]) ?_
  rintro f ⟨name, kind, onData, onEntireData, list, settings, _⟩
  simp [Fields.required_eq name, Fields.required_eq kind, Fields.required_eq onData,
    Fields.withDefault_eq onEntireData, Fields.withDefault_eq list columns,
    Fields.required_eq settings params]

@[mk_iff]
structure Row.Writable (r : Row) : Prop where
  lhs : ∀ p ∈ r.lhs.period, p.Writable
  rhs : ∀ p ∈ r.rhs.period, p.Writable

instance : DecidablePred Row.Writable := fun _ =>
  decidable_of_iff' _ (Row.writable_iff _)

theorem SubSection.lossless {s : SubSection} (writable : s.row.Writable) : Lossless s := by
  have left : ∀ p ∈ s.row.lhs.period, Lossless p := fun p held =>
    (Period.scalar (writable.lhs p held)).lossless
  have right : ∀ p ∈ s.row.rhs.period, Lossless p := fun p held =>
    (Period.scalar (writable.rhs p held)).lossless
  refine .of_record rfl (fun _ => rfl) rfl (by decide) ?_ ?_
  · simp_all [Wire.Lossless.plain]
  · rintro f ⟨id, badge, lhs, column, period, operator, rhs, rhsColumn, rhsPeriod, literal, _⟩
    simp [Fields.required_eq id, Fields.required_eq badge, Fields.optional_eq lhs (by simp) rfl,
      Fields.optional_eq column (by simp) rfl, Fields.optional_eq period left rfl,
      Fields.optional_eq operator (by simp) rfl, Fields.optional_eq rhs (by simp) rfl,
      Fields.optional_eq rhsColumn (by simp) rfl, Fields.optional_eq rhsPeriod right rfl,
      Fields.optional_eq literal (by simp) rfl]

def Block.Writable (b : Block) : Prop := ∀ r ∈ b.rows, r.Writable

instance : DecidablePred Block.Writable := fun b =>
  inferInstanceAs (Decidable (∀ r ∈ b.rows, r.Writable))

theorem Block.lossless {b : Block} (writable : b.Writable) : Lossless b := by
  have subs : Lossless b.subSections := Wire.lossless_list fun s member =>
    SubSection.lossless (writable s.row (List.mem_map_of_mem member))
  refine .of_record rfl (fun _ => rfl) rfl (by decide)
    (by simp [Wire.Lossless.plain, subs.plain]) ?_
  rintro f ⟨id, list, relation, _⟩
  simp [Fields.required_eq id, Fields.required_eq list subs, Fields.required_eq relation]

def Condition.Writable (c : Condition) : Prop := ∀ b ∈ c.blocks, b.Writable

instance : DecidablePred Condition.Writable := fun c =>
  inferInstanceAs (Decidable (∀ b ∈ c.blocks, b.Writable))

theorem Condition.lossless {c : Condition} (writable : c.Writable) : Lossless c := by
  have blocks := Wire.lossless_list fun b member => Block.lossless (writable b member)
  have relations : Lossless c.blockRelations := Wire.lossless_list (by simp)
  refine .of_record rfl (fun _ => rfl) rfl (by decide)
    (by simp [Wire.Lossless.plain, blocks.plain, relations.plain]) ?_
  rintro f ⟨name, kind, maxEntries, wait, opened, list, joins, _⟩
  simp [Fields.required_eq name, Fields.required_eq kind, Fields.required_eq maxEntries,
    Fields.required_eq wait, Fields.required_eq opened, Fields.required_eq list blocks,
    Fields.required_eq joins relations]

@[simp] theorem Comparison.lossless (c : Comparison) : Lossless c := by
  have rhs := Wire.lossless_value c.rhs
  have lhsText := (Wire.scalar_string c.lhs).settled
  have operatorText := (Wire.scalar_string c.operator).settled
  refine ⟨Json.plain_array ?_, fun j alike => ?_⟩
  · simpa using ⟨Json.plain_of_settled lhsText, Json.plain_of_settled operatorText, rhs.plain⟩
  · obtain ⟨items, rfl, pairs⟩ := alike.array
    simp only [List.forall₂_cons_left_iff, List.forall₂_nil_left_iff] at pairs
    obtain ⟨_, _, first, ⟨_, _, second, ⟨j, _, third, rfl, rfl⟩, rfl⟩, rfl⟩ := pairs
    rw [first.settled lhsText, second.settled operatorText]
    show (Wire.ofJson? j).map (Comparison.mk c.lhs c.operator) = some c
    rw [rhs.reads j third]
    rfl

@[simp] theorem BlockPart.lossless (t : BlockPart) : Lossless t := by
  cases t with
  | comparison c => exact (Comparison.lossless c).of_first rfl fun _ => rfl
  | join r => exact ((Relation.scalar r).of_second rfl rfl).lossless

@[simp] theorem ConditionPart.lossless (t : ConditionPart) : Lossless t := by
  cases t with
  | block ts =>
    have tokens : Lossless ts := Wire.lossless_list (by simp)
    exact tokens.of_first rfl fun _ => rfl
  | join r => exact ((Relation.scalar r).of_second rfl rfl).lossless

@[simp] theorem SentCondition.lossless (c : SentCondition) : Lossless c := by
  have actions := Wire.lossless_strings c.actions
  have parts : Lossless c.parts := Wire.lossless_list (by simp)
  refine .of_record rfl (fun _ => rfl) rfl (by decide)
    (by simp [Wire.Lossless.plain, actions.plain, parts.plain]) ?_
  rintro f ⟨node, kind, description, maxEntries, position, trigger, ids, list, _⟩
  simp [Fields.required_eq node, Fields.required_eq kind, Fields.required_eq description,
    Fields.required_eq maxEntries, Fields.required_eq position, Fields.required_eq trigger,
    Fields.required_eq ids actions, Fields.required_eq list parts]

end TradingStrategy
