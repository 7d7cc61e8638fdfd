import TradingStrategy.Proofs.NumberText
import TradingStrategy.Proofs.Paths
import TradingStrategy.Proofs.Rows

set_option autoImplicit false

namespace TradingStrategy

theorem Value.string_inj {s t : String} : Value.string s = .string t ↔ s = t := by
  constructor
  · intro same
    exact Json.string.inj (congrArg Value.json same)
  · exact congrArg Value.string

namespace Row

variable {registry : Registry}

def rightOf (registry : Registry) (left : String) (rhs : Value) : Side × Option String :=
  match rhs.json with
  | .string raw =>
    if isEnumerated left then ({ base := some raw }, none)
    else if (registry (Text.beforeFirst '.' raw)).isSome then
      (.ofReference (.ofPath registry raw), none)
    else ({ base := some literalMark }, some raw)
  | other => ({ base := some literalMark }, some other.compact)

theorem ofComparison_eq (c : Comparison) :
    ofComparison registry c =
      let left := Reference.ofPath registry c.lhs
      { lhs := .ofReference left
        operator := some c.operator
        rhs := (rightOf registry left.base c.rhs).1
        literal := (rightOf registry left.base c.rhs).2 } := by
  obtain ⟨lhs, operator, json, canonical⟩ := c
  cases json with
  | string raw =>
    simp only [ofComparison, rightOf]
    by_cases enumerated : isEnumerated (Reference.ofPath registry lhs).base = true
    · simp only [enumerated, if_true]
      rfl
    · by_cases registered : (registry (Text.beforeFirst '.' raw)).isSome = true
      · simp only [enumerated, registered, if_true]
        rfl
      · simp only [enumerated, registered]
        rfl
  | _ => rfl

theorem sentLiteral_eq_string_iff {left text : String} :
    sentLiteral registry left text = .string text ↔
      ((registry left).any Capabilities.takesNumbers = true → numberOfText? text = none) := by
  rw [sentLiteral]
  split
  next takes =>
    cases read : numberOfText? text with
    | none => simp
    | some v => simp [takes, ne_string_of_numberOfText? read]
  next plain => simp [plain]

theorem sentLiteral_eq_iff {left text : String} {v : Value} (other : ∀ raw, v ≠ .string raw) :
    sentLiteral registry left text = v ↔
      (registry left).any Capabilities.takesNumbers = true ∧ numberOfText? text = some v := by
  rw [sentLiteral]
  split
  next takes =>
    cases read : numberOfText? text with
    | none => simp [(other text).symm]
    | some w => simp [takes]
  next plain => simp [plain, (other text).symm]

end Row

namespace Comparison

variable {registry : Registry}

def reread? (registry : Registry) (c : Comparison) : Option Comparison :=
  (Row.ofComparison registry c).comparison? registry

def rereadRight? (registry : Registry) (left : String) (rhs : Value) : Option Value :=
  match rhs.json with
  | .string raw =>
    if isEnumerated left then if raw = Row.literalMark then none else some (.string raw)
    else if (registry (Text.beforeFirst '.' raw)).isSome then
      let e := Reference.ofPath registry raw
      if e.base = Row.literalMark ∨ Row.lacksColumn registry e = true then none
      else some (.string e.path)
    else some (Row.sentLiteral registry left raw)
  | other => some (Row.sentLiteral registry left other.compact)

theorem sentRight?_ofComparison (c : Comparison) :
    let left := (Reference.ofPath registry c.lhs).base
    (Row.ofComparison registry c).sentRight? registry left = rereadRight? registry left c.rhs := by
  obtain ⟨lhs, operator, json, canonical⟩ := c
  rw [Row.ofComparison_eq]
  cases json with
  | string raw =>
    simp only [Row.sentRight?, Row.rightOf, rereadRight?, Row.right?]
    -- A token or a base that is the mark of literals leaves the row without a right side.
    by_cases enumerated : isEnumerated (Reference.ofPath registry lhs).base = true
    · by_cases mark : raw = Row.literalMark
      · simp [enumerated, mark, Side.reference?]
      · simp [enumerated, mark, Side.reference?, Option.filter_some]
    · by_cases registered : (registry (Text.beforeFirst '.' raw)).isSome = true
      · by_cases mark : (Reference.ofPath registry raw).base = Row.literalMark
        · simp [enumerated, registered, mark, Side.reference?, Side.ofReference]
        · simp [enumerated, registered, mark, Side.reference?, Side.ofReference,
            Option.filter_some]
      · simp [enumerated, registered]
  | _ => rfl

theorem reread?_eq (c : Comparison) :
    c.reread? registry =
      let left := Reference.ofPath registry c.lhs
      if Row.lacksColumn registry left then none
      else (rereadRight? registry left.base c.rhs).map (⟨left.path, c.operator, ·⟩) := by
  have left : (Row.ofComparison registry c).left? = some (Reference.ofPath registry c.lhs) := by
    rw [Row.ofComparison_eq]
    rfl
  have operator : (Row.ofComparison registry c).operator = some c.operator := by
    rw [Row.ofComparison_eq]
  simp only [reread?, Row.comparison?, left, operator, Option.bind_eq_bind, Option.bind_some]
  rw [sentRight?_ofComparison]

/-- A right side is sent as it was. A string has to be a token other than the mark of literals, the
written path of an element that can stand there, or free text that is no number where numbers are
compared; any other value has to be a number, written as numbers are, where numbers are compared. -/
def RightReadsBack (registry : Registry) (left : String) (rhs : Value) : Prop :=
  match rhs.json with
  | .string raw =>
    if isEnumerated left then raw ≠ Row.literalMark
    else if (registry (Text.beforeFirst '.' raw)).isSome then
      (Reference.ofPath registry raw).base ≠ Row.literalMark ∧
        Row.lacksColumn registry (Reference.ofPath registry raw) = false ∧
        (Reference.ofPath registry raw).path = raw
    else (registry left).any Capabilities.takesNumbers = true → numberOfText? raw = none
  | other =>
    (registry left).any Capabilities.takesNumbers = true ∧ numberOfText? other.compact = some rhs

structure ReadsBack (registry : Registry) (c : Comparison) : Prop where
  path : (Reference.ofPath registry c.lhs).path = c.lhs
  column : Row.lacksColumn registry (Reference.ofPath registry c.lhs) = false
  right : RightReadsBack registry (Reference.ofPath registry c.lhs).base c.rhs

theorem rightReadsBack_iff {left : String} {rhs : Value} :
    RightReadsBack registry left rhs ↔ rereadRight? registry left rhs = some rhs := by
  obtain ⟨json, canonical⟩ := rhs
  cases json with
  | string raw =>
    have self : (⟨.string raw, canonical⟩ : Value) = .string raw := rfl
    simp only [RightReadsBack, rereadRight?, self]
    by_cases enumerated : isEnumerated left = true
    · simp [enumerated]
    · by_cases registered : (registry (Text.beforeFirst '.' raw)).isSome = true
      · simp [enumerated, registered, Value.string_inj, and_assoc]
      · simp [enumerated, registered, Row.sentLiteral_eq_string_iff]
  | _ => exact (Option.some_inj.trans (Row.sentLiteral_eq_iff fun raw same => by cases same)).symm

theorem readsBack_iff {c : Comparison} : c.ReadsBack registry ↔ c.reread? registry = some c := by
  rw [reread?_eq]
  simp only [Option.ite_none_left_eq_some, Option.map_eq_some_iff]
  constructor
  · intro reads
    exact ⟨by simp [reads.column], c.rhs, rightReadsBack_iff.1 reads.right, by rw [reads.path]⟩
  · intro holds
    obtain ⟨column, v, right, same⟩ := holds
    obtain ⟨lhs, operator, rhs⟩ := c
    obtain ⟨path, -, rfl⟩ := Comparison.mk.injEq .. ▸ same
    exact ⟨path, by simpa using column, rightReadsBack_iff.2 right⟩

theorem rightReadsBack_of_not_string {left : String} {v : Value} (other : ∀ raw, v ≠ .string raw) :
    RightReadsBack registry left v ↔
      (registry left).any Capabilities.takesNumbers = true ∧
        numberOfText? v.json.compact = some v := by
  obtain ⟨json, canonical⟩ := v
  cases json with
  | string raw => exact absurd rfl (other raw)
  | _ => rfl

theorem compact_ne_mark {j : Json} (other : ∀ raw, j ≠ .string raw) :
    j.compact ≠ Row.literalMark := by
  intro same
  refine Json.beforeFirst_compact_ne other (show Row.literalMark.toList.head? ∈ _ by decide) ?_
  rw [same]
  rfl

theorem rightReadsBack_sentLiteral {left text : String}
    (free : if isEnumerated left then text ≠ Row.literalMark
      else registry (Text.beforeFirst '.' text) = none) :
    RightReadsBack registry left (Row.sentLiteral registry left text) := by
  have asText (unread : (registry left).any Capabilities.takesNumbers = true →
      numberOfText? text = none) : RightReadsBack registry left (.string text) := by
    show if _ then _ else _
    split at free
    next enumerated => rwa [if_pos enumerated]
    next plain => rwa [if_neg plain, free, if_neg (by simp)]
  rw [Row.sentLiteral]
  split
  next takes =>
    cases read : numberOfText? text with
    | none => exact asText fun _ => read
    | some v =>
      -- The number need not be written as the text was; it is read from its own text.
      exact (rightReadsBack_of_not_string fun raw => ne_string_of_numberOfText? read).2
        ⟨takes, numberOfText?_compact read⟩
  next plain => exact asText fun takes => absurd takes plain

/-- What comes back once comes back again. The proviso is that no registered name begins the text of
a value that is no string, which would make a reference of a literal. -/
theorem rightReadsBack_of_reread {left : String} {rhs v : Value}
    (came : rereadRight? registry left rhs = some v)
    (plain : (∀ raw, rhs ≠ .string raw) →
      registry (Text.beforeFirst '.' rhs.json.compact) = none) :
    RightReadsBack registry left v := by
  obtain ⟨json, canonical⟩ := rhs
  cases json with
  | string raw =>
    simp only [rereadRight?] at came
    split at came
    next enumerated =>
      obtain ⟨token, made⟩ := Option.ite_none_left_eq_some.1 came
      rw [← Option.some.inj made]
      show if _ then _ else _
      rwa [if_pos enumerated]
    next other =>
      split at came
      next registered =>
        -- The path may be written anew, and its written form stands for the same reference.
        obtain ⟨usable, made⟩ := Option.ite_none_left_eq_some.1 came
        rw [not_or, Bool.not_eq_true] at usable
        rw [← Option.some.inj made]
        show if _ then _ else _
        rw [if_neg other, if_pos (Reference.registered_path_ofPath registered),
          Reference.ofPath_path_ofPath]
        exact ⟨usable.1, usable.2, rfl⟩
      next free =>
        rw [← Option.some.inj came]
        refine rightReadsBack_sentLiteral ?_
        rw [if_neg other]
        simpa using free
  | _ =>
    rw [← Option.some.inj came]
    refine rightReadsBack_sentLiteral ?_
    split
    next => exact compact_ne_mark fun raw same => by cases same
    next => exact plain fun raw same => by cases same

theorem reread?_readsBack {c d : Comparison} (came : c.reread? registry = some d)
    (plain : (∀ raw, c.rhs ≠ .string raw) →
      registry (Text.beforeFirst '.' c.rhs.json.compact) = none) : d.ReadsBack registry := by
  rw [reread?_eq] at came
  simp only [Option.ite_none_left_eq_some, Option.map_eq_some_iff] at came
  obtain ⟨column, v, right, rfl⟩ := came
  have left := Reference.ofPath_path_ofPath registry c.lhs
  refine ⟨by rw [left], by rw [left]; simpa using column, ?_⟩
  rw [left]
  exact rightReadsBack_of_reread right plain

end Comparison

namespace Row

open BlockPart (alternate badged comparisons)

variable {registry : Registry}

theorem filterMap_sent?_ofBadged (cs : List (Comparison × Relation)) :
    (ofBadged registry cs).filterMap (sent? registry) =
      cs.filterMap fun p => (p.1.reread? registry).map (·, p.2) := by
  rw [ofBadged, List.filterMap_map]
  rfl

theorem map_fst_sent (cs : List (Comparison × Relation)) :
    ((ofBadged registry cs).filterMap (sent? registry)).map Prod.fst =
      cs.filterMap fun p => p.1.reread? registry := by
  rw [filterMap_sent?_ofBadged, List.map_filterMap]
  refine List.filterMap_congr fun p _ => ?_
  cases p.1.reread? registry <;> rfl

theorem compileAll?_ofTokens_iff {ts : List BlockPart} (alternates : alternate ts = true) :
    compileAll? registry (ofTokens registry ts) = some ts ↔
      ∀ c ∈ comparisons ts, c.ReadsBack registry := by
  simp only [compileAll?_eq_some_iff, ofTokens_eq, Comparison.readsBack_iff,
    ← BlockPart.map_fst_badged, List.forall_mem_map]
  constructor
  · intro holds
    rw [← List.filterMap_eq_map_iff_forall_eq_some, ← map_fst_sent, ← comparisons_tokens,
      holds.2.2, BlockPart.map_fst_badged]
  · intro each
    have sent : (ofBadged registry (badged ts)).filterMap (sent? registry) = badged ts := by
      have kept : ∀ p ∈ badged ts, (p.1.reread? registry).map (·, p.2) = some (id p) := by
        intro p member
        rw [each p member]
        rfl
      rw [filterMap_sent?_ofBadged, List.filterMap_eq_map_iff_forall_eq_some.2 kept, List.map_id]
    refine ⟨fun r member => ?_, ?_, ?_⟩
    · obtain ⟨p, inside, rfl⟩ := List.mem_map.1 member
      have complete : (sent? registry { ofComparison registry p.1 with badge := p.2 }).isSome := by
        show ((p.1.reread? registry).map (·, p.2)).isSome = true
        rw [each p inside]
        rfl
      rw [(isSome_sent? _).1 complete]
      decide
    · rw [sent]
      exact BlockPart.badged_ne_nil alternates
    · rw [sent, tokens_badged alternates]

end Row

end TradingStrategy
