import TradingStrategy.Proofs.Restored

set_option autoImplicit false

namespace TradingStrategy

namespace Row

variable {registry : Registry}

/-- A literal beside the element `left` is read back as a literal: it is a number in the form in
which numbers are written, or else free text that no registered name begins. -/
def LiteralKept (registry : Registry) (left text : String) : Prop :=
  ((registry left).any Capabilities.takesNumbers = true ∧
      ∃ v, numberOfText? text = some v ∧ v.json.compact = text) ∨
    (((registry left).any Capabilities.takesNumbers = true → numberOfText? text = none) ∧
      registry (Text.beforeFirst '.' text) = none)

inductive RightValid (registry : Registry) (left : String) (r : Row) : Prop
  | literal (text : String) (plain : isEnumerated left = false)
      (mark : r.rhs = { base := some literalMark }) (given : r.literal = some text)
      (kept : LiteralKept registry left text)
  | element (e : Reference) (plain : isEnumerated left = false) (given : r.rhs = .ofReference e)
      (free : r.literal = none) (valid : e.Valid registry) (unmarked : e.base ≠ literalMark)
  | token (name : String) (enumerated : isEnumerated left = true)
      (given : r.rhs = { base := some name }) (free : r.literal = none)
      (unmarked : name ≠ literalMark)

structure Valid (registry : Registry) (r : Row) : Prop where
  left : ∃ e, r.lhs = .ofReference e ∧ e.Valid registry ∧ RightValid registry e.base r
  operator : r.operator.isSome = true

theorem lacksColumn_of_valid {e : Reference} (valid : e.Valid registry) :
    lacksColumn registry e = false := by
  obtain ⟨o, found, fits⟩ := valid.fits
  unfold Reference.Fits at fits
  rw [lacksColumn, needsColumn, found]
  split at fits
  next given => simp [given]
  next => simp [fits.1]

theorem left?_ofReference {r : Row} {e : Reference} (given : r.lhs = .ofReference e) :
    r.left? = some e := by
  rw [left?, given]
  rfl

theorem right?_ofReference {r : Row} {e : Reference} (given : r.rhs = .ofReference e)
    (unmarked : e.base ≠ literalMark) : r.right? = some e := by
  rw [right?, given]
  simp [Side.ofReference, Side.reference?, Option.filter_some, unmarked]

theorem rightOf_of_not_string {left : String} {v : Value} (other : ∀ raw, v ≠ .string raw) :
    rightOf registry left v = ({ base := some literalMark }, some v.json.compact) := by
  obtain ⟨json, canonical⟩ := v
  cases json with
  | string raw => exact absurd rfl (other raw)
  | _ => rfl

theorem RightValid.rightOf {left : String} {r : Row} (valid : RightValid registry left r) :
    ∃ v, r.sentRight? registry left = some v ∧ rightOf registry left v = (r.rhs, r.literal) := by
  cases valid with
  | literal text plain mark given kept =>
    refine ⟨sentLiteral registry left text, by rw [sentRight?, given], ?_⟩
    rw [mark, given]
    -- A number comes back as its text, free text as itself unless it begins with a name.
    rcases kept with ⟨takes, v, read, written⟩ | ⟨unread, free⟩
    · rw [sentLiteral, if_pos takes, read, Option.getD_some,
        rightOf_of_not_string fun raw => ne_string_of_numberOfText? read, written]
    · rw [sentLiteral_eq_string_iff.2 unread]
      simp [Row.rightOf, Value.string, plain, free]
  | element e plain given free valid unmarked =>
    refine ⟨.string e.path, ?_, ?_⟩
    · simp [sentRight?, free, right?_ofReference given unmarked, plain, lacksColumn_of_valid valid]
    · have registered : (registry (Text.beforeFirst '.' e.path)).isSome = true := by
        obtain ⟨o, found, _⟩ := valid.fits
        rw [valid.beforeFirst_path, found]
        rfl
      simp [Row.rightOf, Value.string, plain, registered, valid.ofPath_path, given, free]
  | token name enumerated given free unmarked =>
    have bare : r.right? = some (.bare name) := right?_ofReference given unmarked
    refine ⟨.string name, ?_, ?_⟩
    · simp [sentRight?, free, bare, enumerated, Reference.bare]
    · simp [Row.rightOf, Value.string, enumerated, given, free]

theorem Valid.ofComparison {r : Row} (valid : r.Valid registry) :
    ∃ c, r.comparison? registry = some c ∧ ofComparison registry c = { r with badge := .and } := by
  obtain ⟨e, given, known, right⟩ := valid.left
  obtain ⟨operator, operatorGiven⟩ := Option.isSome_iff_exists.1 valid.operator
  obtain ⟨v, sent, back⟩ := right.rightOf
  refine ⟨⟨e.path, operator, v⟩, ?_, ?_⟩
  · simp [comparison?, left?_ofReference given, operatorGiven, lacksColumn_of_valid known, sent]
  · rw [ofComparison_eq, known.ofPath_path]
    dsimp only
    rw [back, ← given, ← operatorGiven]

theorem ofBadged_filterMap_sent? {rows : List Row} (valid : ∀ r ∈ rows, r.Valid registry) :
    ofBadged registry (rows.filterMap (sent? registry)) = rows := by
  induction rows with
  | nil => rfl
  | cons r rest ih =>
    rw [List.forall_mem_cons] at valid
    obtain ⟨c, sent, back⟩ := valid.1.ofComparison
    have first : sent? registry r = some (c, r.badge) := by
      rw [sent?, sent]
      rfl
    rw [List.filterMap_cons_some first, ofBadged, List.map_cons, ← ofBadged, ih valid.2, back]

/-- A block of proper rows is sent, read back but for the badge of its last row, which joins it to
nothing, and sent again as it was. -/
theorem compileAll?_of_valid {rows : List Row} (filled : rows ≠ [])
    (valid : ∀ r ∈ rows, r.Valid registry) :
    ∃ ts, compileAll? registry rows = some ts ∧
      ofTokens registry ts = setLastBadge .and rows ∧
      ∀ c ∈ BlockPart.comparisons ts, c.ReadsBack registry := by
  have back := ofBadged_filterMap_sent? valid
  refine ⟨tokens (rows.filterMap (sent? registry)), ?_, ?_, ?_⟩
  · refine compileAll?_eq_some_iff.2 ⟨fun r member => ?_, fun none => ?_, rfl⟩
    · obtain ⟨c, sent, _⟩ := (valid r member).ofComparison
      rw [(isSome_comparison? r).1 (by rw [sent]; rfl)]
      decide
    · rw [none] at back
      exact filled back.symm
  · rw [ofTokens_eq, ofBadged_badged_tokens, back]
  · rw [comparisons_tokens]
    intro c member
    obtain ⟨p, inside, rfl⟩ := List.mem_map.1 member
    obtain ⟨r, given, made⟩ := List.mem_filterMap.1 inside
    obtain ⟨c, sent, same⟩ := (valid r given).ofComparison
    rw [sent?, sent] at made
    rw [← Option.some.inj made, Comparison.readsBack_iff, Comparison.reread?, same]
    exact sent

end Row

end TradingStrategy
