import TradingStrategy.Proofs.Paths
import TradingStrategy.Text.Blank
import TradingStrategy.Text.Numeral

set_option autoImplicit false

namespace TradingStrategy

namespace Text

def IsNumeric (c : Char) : Prop := c.isDigit = true ∨ c ∈ ['-', '+', '.', 'e']

theorem IsNumeric.not_blank {c : Char} (numeric : IsNumeric c) : isBlank c = false := by
  rcases numeric with digit | mark
  · obtain ⟨low, high⟩ : 48 ≤ c.toNat ∧ c.toNat ≤ 57 := Char.isDigit_iff_toNat.1 digit
    simp only [isBlank, Bool.or_eq_false_iff, Bool.and_eq_false_iff, beq_eq_false_iff_ne,
      decide_eq_false_iff_not]
    omega
  · simp only [List.mem_cons, List.not_mem_nil, or_false] at mark
    rcases mark with rfl | rfl | rfl | rfl <;> rfl

theorem trim_of_numeric {cs : List Char} (numeric : ∀ c ∈ cs, IsNumeric c) : trim cs = cs := by
  have kept {l : List Char} (within : ∀ c ∈ l, IsNumeric c) : l.dropWhile isBlank = l := by
    cases l with
    | nil => rfl
    | cons c rest =>
      rw [List.forall_mem_cons] at within
      rw [List.dropWhile_cons_of_neg (by simp [within.1.not_blank])]
  rw [trim, kept numeric, kept (by simpa using numeric), List.reverse_reverse]

def signed (minus : Bool) (body : List Char) : List Char :=
  if minus then '-' :: body else body

theorem signed_eq (n : Int) (body : List Char) :
    (if n < 0 then ['-'] else []) ++ body = signed (n < 0) body := by
  by_cases minus : n < 0
  · simp [signed, minus]
  · simp [signed, minus]

theorem sign_signed (minus : Bool) {body : List Char}
    (digit : ∃ c rest, body = c :: rest ∧ c.isDigit = true) :
    sign (signed minus body) = (minus, body) := by
  obtain ⟨c, rest, rfl, digit⟩ := digit
  cases minus with
  | true => rfl
  | false =>
    rw [signed, if_neg Bool.false_ne_true]
    unfold sign
    split
    next same =>
      rw [(List.cons.inj same).1] at digit
      contradiction
    next same =>
      rw [(List.cons.inj same).1] at digit
      contradiction
    next => rfl

theorem numeric_signed {minus : Bool} {body : List Char} (numeric : ∀ c ∈ body, IsNumeric c) :
    ∀ c ∈ signed minus body, IsNumeric c := by
  cases minus with
  | true => exact List.forall_mem_cons.2 ⟨.inr (by decide), numeric⟩
  | false => exact numeric

theorem starts_with_digit {cs : List Char} (nonempty : cs ≠ [])
    (digits : ∀ c ∈ cs, c.isDigit = true) : ∃ c rest, cs = c :: rest ∧ c.isDigit = true := by
  obtain ⟨c, rest, rfl⟩ := List.exists_cons_of_ne_nil nonempty
  exact ⟨c, rest, rfl, digits c List.mem_cons_self⟩

theorem integer?_signed_eq (n : Int) :
    integer? (signed (n < 0) (Nat.toDigits 10 n.natAbs)) =
      if -0x8000000000000000 ≤ n ∧ n < 0x8000000000000000 then some n else none := by
  have value : (if n < 0 then -(n.natAbs : Int) else n.natAbs) = n := by
    split <;> omega
  have start : ∃ c rest, Nat.toDigits 10 n.natAbs = c :: rest ∧ c.isDigit = true :=
    starts_with_digit Nat.toDigits_ne_nil fun c => isDigit_of_mem_toDigits
  rw [integer?, sign_signed _ start]
  simp only [digits?_toDigits, Option.bind_some, decide_eq_true_eq, value]

theorem integer?_signed {n : Int} (low : -0x8000000000000000 ≤ n) (high : n < 0x8000000000000000) :
    integer? (signed (n < 0) (Nat.toDigits 10 n.natAbs)) = some n := by
  rw [integer?_signed_eq, if_pos ⟨low, high⟩]

end Text

namespace DecimalParts

open Text

def fractionText (p : DecimalParts) : List Char :=
  if p.fraction = [] then [] else '.' :: p.fraction

def exponentText (p : DecimalParts) : List Char :=
  if p.exponent = [] then []
  else 'e' :: (if p.exponentNegative then '-' else '+') :: p.exponent

def written (p : DecimalParts) : List Char :=
  signed p.negative (p.whole ++ (p.fractionText ++ p.exponentText))

structure WellFormed (p : DecimalParts) : Prop where
  begun : p.whole ≠ []
  whole : ∀ c ∈ p.whole, c.isDigit = true
  fraction : ∀ c ∈ p.fraction, c.isDigit = true
  exponent : ∀ c ∈ p.exponent, c.isDigit = true
  unsigned : p.exponent = [] → p.exponentNegative = false

namespace WellFormed

variable {p : DecimalParts}

theorem exponent?_exponentText (formed : p.WellFormed) :
    exponent? p.exponentText = some (p.exponentNegative, p.exponent) := by
  rw [exponentText]
  split
  next none => rw [exponent?, formed.unsigned none, none]
  next given =>
    have read : p.exponent ≠ [] ∧ p.exponent.all Char.isDigit = true :=
      ⟨given, List.all_eq_true.2 formed.exponent⟩
    cases minus : p.exponentNegative with
    | true => simp [exponent?, sign, read]
    | false => simp [exponent?, sign, read]

theorem unsigned_starts (formed : p.WellFormed) :
    ∃ c rest, p.whole ++ (p.fractionText ++ p.exponentText) = c :: rest ∧ c.isDigit = true := by
  obtain ⟨c, rest, made, digit⟩ := starts_with_digit formed.begun formed.whole
  rw [made]
  exact ⟨c, _, rfl, digit⟩

theorem sign_written (formed : p.WellFormed) :
    sign p.written = (p.negative, p.whole ++ (p.fractionText ++ p.exponentText)) :=
  sign_signed _ formed.unsigned_starts

theorem takeWhile_append {digits tail : List Char} (all : ∀ c ∈ digits, c.isDigit = true)
    (ends : ∀ c ∈ tail.head?, c.isDigit = false) :
    (digits ++ tail).takeWhile Char.isDigit = digits ∧
      (digits ++ tail).dropWhile Char.isDigit = tail := by
  rw [List.takeWhile_append_of_pos all, List.dropWhile_append_of_pos all]
  cases tail with
  | nil => simp
  | cons c rest =>
    have stop : ¬ c.isDigit = true := by simpa using ends c rfl
    simp [stop]

theorem exponentText_ends (p : DecimalParts) : ∀ c ∈ p.exponentText.head?, c.isDigit = false := by
  rw [exponentText]
  split
  next => simp
  next => simp

theorem decimal?_written (formed : p.WellFormed) : decimal? p.written = some p := by
  have ends : ∀ c ∈ (p.fractionText ++ p.exponentText).head?, c.isDigit = false := by
    rw [fractionText]
    split
    next => exact exponentText_ends p
    next => simp
  obtain ⟨whole, tail⟩ := takeWhile_append formed.whole ends
  obtain ⟨fraction, rest⟩ := takeWhile_append formed.fraction (exponentText_ends p)
  unfold decimal?
  rw [formed.sign_written]
  simp only [whole, tail, formed.begun, false_and, if_false]
  by_cases point : p.fraction = []
  · -- Without a point the rest is empty or begins with the mark of the exponent.
    rw [fractionText, if_pos point, List.nil_append]
    split
    next found =>
      rw [exponentText] at found
      split at found
      next => contradiction
      next => simp at found
    next =>
      rw [formed.exponent?_exponentText]
      simp [← point]
  · rw [fractionText, if_neg point]
    simp only [List.cons_append, fraction, rest, formed.exponent?_exponentText]
    rfl

theorem integer?_written (formed : p.WellFormed) (inner : p.fraction ≠ [] ∨ p.exponent ≠ []) :
    integer? p.written = none := by
  have mark : '.' ∈ p.fractionText ++ p.exponentText ∨ 'e' ∈ p.fractionText ++ p.exponentText := by
    rcases inner with point | scaled
    · simp [fractionText, point]
    · simp [exponentText, scaled]
  have other : ¬ (p.whole ++ (p.fractionText ++ p.exponentText)).all Char.isDigit = true := by
    intro digits
    rw [List.all_eq_true] at digits
    rcases mark with point | scaled
    · exact absurd (digits _ (List.mem_append_right _ point)) (by decide)
    · exact absurd (digits _ (List.mem_append_right _ scaled)) (by decide)
  rw [integer?, formed.sign_written]
  dsimp only
  rw [digits?, if_neg fun digits => other digits.2, Option.bind_none]

theorem numeric_written (formed : p.WellFormed) : ∀ c ∈ p.written, IsNumeric c := by
  refine numeric_signed fun c member => ?_
  simp only [List.mem_append] at member
  rcases member with whole | fraction | exponent
  · exact .inl (formed.whole c whole)
  · rw [fractionText] at fraction
    split at fraction
    next => contradiction
    next =>
      rcases List.mem_cons.1 fraction with rfl | digit
      · exact .inr (by decide)
      · exact .inl (formed.fraction c digit)
  · rw [exponentText] at exponent
    split at exponent
    next => contradiction
    next =>
      simp only [List.mem_cons] at exponent
      rcases exponent with rfl | sign | digit
      · exact .inr (by decide)
      · rw [sign]
        split
        next => exact .inr (by decide)
        next => exact .inr (by decide)
      · exact .inl (formed.exponent c digit)

end WellFormed

def ofInteger (n : Int) : DecimalParts := ⟨n < 0, Nat.toDigits 10 n.natAbs, [], false, []⟩

theorem wellFormed_ofInteger (n : Int) : (ofInteger n).WellFormed :=
  ⟨Nat.toDigits_ne_nil, fun c => isDigit_of_mem_toDigits, by simp [ofInteger],
    by simp [ofInteger], fun _ => rfl⟩

theorem written_ofInteger (n : Int) :
    (ofInteger n).written = signed (n < 0) (Nat.toDigits 10 n.natAbs) := by
  rw [written, fractionText, exponentText, ofInteger]
  simp

theorem significant_ofInteger (n : Int) : (ofInteger n).significant = n.natAbs := by
  rw [significant, ofInteger, List.append_nil, Nat.ofDigitChars_ten_toDigits]

theorem power_ofInteger (n : Int) : (ofInteger n).power = 0 := by
  simp [power, ofInteger]

end DecimalParts

end TradingStrategy
