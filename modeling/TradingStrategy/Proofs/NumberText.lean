import Mathlib.Data.List.TakeWhile
import TradingStrategy.Condition.Compiled
import TradingStrategy.Proofs.Numeral
import TradingStrategy.Proofs.Shortest

set_option autoImplicit false

namespace TradingStrategy

namespace Digits

open DecimalParts FloatLayout

def number (d : Digits) : Nat := Nat.ofDigitChars 10 d.chars 0

def place (d : Digits) : Int := d.exponent - d.chars.length

theorem toDigits_eq (d : Nat) (place : Int) : ∃ zeros : Nat,
    Nat.toDigits 10 d = (ofGrid d place).chars ++ List.replicate zeros '0' := by
  -- The zeros are those that `ofGrid` drops at the end.
  refine ⟨((Nat.toDigits 10 d).reverse.takeWhile (· == '0')).length, ?_⟩
  have dropped : ((Nat.toDigits 10 d).reverse.takeWhile (· == '0')).reverse =
      List.replicate ((Nat.toDigits 10 d).reverse.takeWhile (· == '0')).length '0' := by
    refine List.eq_replicate_iff.2 ⟨List.length_reverse, fun c member => ?_⟩
    simpa using List.mem_takeWhile_imp (List.mem_reverse.1 member)
  rw [← dropped]
  show _ = (List.dropWhile _ _).reverse ++ _
  rw [← List.reverse_append, List.takeWhile_append_dropWhile, List.reverse_reverse]

theorem isDigit_of_mem_ofGrid {d : Nat} {place : Int} {c : Char}
    (member : c ∈ (ofGrid d place).chars) : c.isDigit = true := by
  obtain ⟨zeros, made⟩ := toDigits_eq d place
  refine Text.isDigit_of_mem_toDigits (n := d) ?_
  rw [made]
  exact List.mem_append_left _ member

theorem number_ofGrid (d : Nat) (place : Int) : ∃ zeros : Nat,
    d = (ofGrid d place).number * 10 ^ zeros ∧ (ofGrid d place).place = place + zeros := by
  obtain ⟨zeros, made⟩ := toDigits_eq d place
  refine ⟨zeros, ?_, ?_⟩
  · have value := Nat.ofDigitChars_ten_toDigits (n := d)
    rw [made, Nat.ofDigitChars_append, Nat.ofDigitChars_replicate_zero, Nat.mul_comm] at value
    exact value.symm
  · have length := congrArg List.length made
    rw [List.length_append, List.length_replicate] at length
    show place + (Nat.toDigits 10 d).length - (ofGrid d place).chars.length = _
    omega

theorem ofGrid_ne_nil {d : Nat} (positive : 0 < d) (place : Int) : (ofGrid d place).chars ≠ [] := by
  intro none
  obtain ⟨zeros, value, _⟩ := number_ofGrid d place
  rw [number, none, Nat.ofDigitChars_nil, Nat.zero_mul] at value
  omega

structure Spelled (d : Digits) (p : DecimalParts) : Prop where
  formed : p.WellFormed
  inner : p.fraction ≠ [] ∨ p.exponent ≠ []
  value : ∃ zeros : Nat, p.significant = d.number * 10 ^ zeros ∧ p.power + zeros = d.place
  least : min d.place (-1) ≤ p.power

variable {d : Digits}

theorem spelled_of_same {p : DecimalParts} (formed : p.WellFormed)
    (inner : p.fraction ≠ [] ∨ p.exponent ≠ []) (value : p.significant = d.number)
    (power : p.power = d.place) : d.Spelled p := by
  refine ⟨formed, inner, ⟨0, ?_, ?_⟩, ?_⟩
  · rw [value, Nat.pow_zero, Nat.mul_one]
  · rw [power, Int.natCast_zero, Int.add_zero]
  · rw [power]
    exact Int.min_le_left ..

theorem isDigit_of_mem_zeros {n : Nat} {c : Char} (member : c ∈ zeros n) : c.isDigit = true := by
  rw [List.eq_of_mem_replicate member]
  decide

theorem fraction_spelled (some : d.chars ≠ []) (digits : ∀ c ∈ d.chars, c.isDigit = true)
    (small : d.exponent ≤ 0) (negative : Bool) :
    d.Spelled ⟨negative, ['0'], zeros (-d.exponent).toNat ++ d.chars, false, []⟩ := by
  refine spelled_of_same ⟨by simp, by simp, fun c member => ?_, by simp, fun _ => rfl⟩
    (.inl (by simp [some])) ?_ ?_
  · rcases List.mem_append.1 member with zero | digit
    · exact isDigit_of_mem_zeros zero
    · exact digits c digit
  · rw [significant, List.singleton_append, Nat.ofDigitChars_cons, Nat.ofDigitChars_append, zeros,
      Nat.ofDigitChars_replicate_zero]
    simp [number]
  · simp only [power, List.length_append, zeros, List.length_replicate, place, Nat.ofDigitChars_nil]
    simp only [Bool.false_eq_true, if_false]
    omega

theorem whole_spelled (some : d.chars ≠ []) (digits : ∀ c ∈ d.chars, c.isDigit = true)
    (large : d.chars.length ≤ d.exponent.toNat) (negative : Bool) :
    d.Spelled
      ⟨negative, d.chars ++ zeros (d.exponent.toNat - d.chars.length), ['0'], false, []⟩ := by
  have length : 0 < d.chars.length := List.length_pos_iff.2 some
  refine ⟨⟨by simp [some], fun c member => ?_, by simp, by simp, fun _ => rfl⟩, .inl (by simp),
    ⟨d.exponent.toNat - d.chars.length + 1, ?_, ?_⟩, Int.min_le_right ..⟩
  · rcases List.mem_append.1 member with digit | zero
    · exact digits c digit
    · exact isDigit_of_mem_zeros zero
  · have zero (init : Nat) : Nat.ofDigitChars 10 ['0'] init = 10 * init := rfl
    rw [significant, Nat.ofDigitChars_append, Nat.ofDigitChars_append, zeros, zero,
      Nat.ofDigitChars_replicate_zero, Nat.pow_succ, number]
    ring
  · simp only [place, power, Nat.ofDigitChars_nil, Bool.false_eq_true, if_false,
      List.length_singleton]
    omega

theorem split_spelled (digits : ∀ c ∈ d.chars, c.isDigit = true) (large : 0 < d.exponent)
    (within : d.exponent.toNat < d.chars.length) (negative : Bool) :
    d.Spelled
      ⟨negative, d.chars.take d.exponent.toNat, d.chars.drop d.exponent.toNat, false, []⟩ := by
  have begun : d.chars.take d.exponent.toNat ≠ [] := by
    rw [ne_eq, ← List.length_eq_zero_iff, List.length_take]
    omega
  have point : d.chars.drop d.exponent.toNat ≠ [] := by
    rw [ne_eq, List.drop_eq_nil_iff]
    omega
  refine spelled_of_same ⟨begun, fun c member => digits c (List.mem_of_mem_take member),
    fun c member => digits c (List.mem_of_mem_drop member), by simp, fun _ => rfl⟩
    (.inl point) ?_ ?_
  · rw [significant, List.take_append_drop, number]
  · simp only [power, List.length_drop, place, Nat.ofDigitChars_nil, Bool.false_eq_true, if_false]
    omega

theorem scientific_spelled (some : d.chars ≠ []) (digits : ∀ c ∈ d.chars, c.isDigit = true)
    (negative : Bool) :
    d.Spelled ⟨negative, d.chars.take 1, d.chars.drop 1, d.exponent - 1 < 0,
      Nat.toDigits 10 (d.exponent - 1).natAbs⟩ := by
  have length : 0 < d.chars.length := List.length_pos_iff.2 some
  have begun : d.chars.take 1 ≠ [] := by simp [some]
  have given : Nat.toDigits 10 (d.exponent - 1).natAbs ≠ [] := Nat.toDigits_ne_nil
  refine spelled_of_same ⟨begun, fun c member => digits c (List.mem_of_mem_take member),
    fun c member => digits c (List.mem_of_mem_drop member),
    fun c => Text.isDigit_of_mem_toDigits, fun none => absurd none given⟩ (.inr given) ?_ ?_
  · rw [significant, List.take_append_drop, number]
  · simp only [power, List.length_drop, place, Nat.ofDigitChars_ten_toDigits, decide_eq_true_eq]
    split <;> omega

end Digits

namespace FloatLayout

variable {d : Digits}

theorem positional_written (some : d.chars ≠ []) (digits : ∀ c ∈ d.chars, c.isDigit = true)
    (negative : Bool) : ∃ p : DecimalParts, p.negative = negative ∧
      Text.signed negative (positional d) = p.written ∧ d.Spelled p := by
  rw [positional]
  split
  next small =>
    refine ⟨_, rfl, ?_, Digits.fraction_spelled some digits small negative⟩
    simp [DecimalParts.written, DecimalParts.fractionText, DecimalParts.exponentText, some]
  next large =>
    dsimp only
    split
    next whole =>
      refine ⟨_, rfl, ?_, Digits.whole_spelled some digits whole negative⟩
      simp [DecimalParts.written, DecimalParts.fractionText, DecimalParts.exponentText]
    next within =>
      refine ⟨_, rfl, ?_, Digits.split_spelled digits (by omega) (by omega) negative⟩
      simp [DecimalParts.written, DecimalParts.fractionText, DecimalParts.exponentText, within]

theorem scientific_written (some : d.chars ≠ []) (digits : ∀ c ∈ d.chars, c.isDigit = true)
    (negative : Bool) : ∃ p : DecimalParts, p.negative = negative ∧
      Text.signed negative (wireLayout.scientific d) = p.written ∧ d.Spelled p := by
  refine ⟨_, rfl, ?_, Digits.scientific_spelled some digits negative⟩
  have given : Nat.toDigits 10 (d.exponent - 1).natAbs ≠ [] := Nat.toDigits_ne_nil
  have sign : (if d.exponent - 1 < 0 then ['-'] else if wireLayout.plus then ['+'] else []) =
      [if d.exponent - 1 < 0 then '-' else '+'] := by
    split <;> rfl
  rw [scientific, DecimalParts.written, DecimalParts.fractionText, DecimalParts.exponentText,
    if_neg given]
  dsimp only
  rw [sign]
  cases d.chars.drop 1 with
  | nil => simp [wireLayout]
  | cons c rest => simp [wireLayout]

end FloatLayout

namespace Binary64

open Text

variable {x : Binary64}

theorem ofMagnitude_self (x : Binary64) : ofMagnitude x.negative x.magnitude = x := by
  have small := x.bits.toNat_lt
  have unit : signBit = 2 ^ 63 := rfl
  have whole : (if x.negative then signBit else 0) + x.magnitude = x.bits.toNat := by
    rw [negative, magnitude, unit]
    split
    next high =>
      rw [decide_eq_true_eq] at high
      omega
    next low =>
      rw [decide_eq_true_eq] at low
      omega
  rw [ofMagnitude, whole, UInt64.ofNat_toNat]

theorem nearest_of_zero {x : Binary64} (zero : x.magnitude = 0) {p : DecimalParts}
    (none : p.significant = 0) (sign : p.negative = x.negative) : p.nearest = x := by
  rw [DecimalParts.nearest, if_pos none, sign, ← zero, ofMagnitude_self]

theorem nearest_of_spelled {x : Binary64} (finite : x.isFinite = true) (nonzero : x.magnitude ≠ 0)
    {p : DecimalParts} (spelled : x.shortest.Spelled p) (sign : p.negative = x.negative) :
    p.nearest = x := by
  obtain ⟨d, place, made, admits, least⟩ := shortest_admits finite nonzero
  obtain ⟨dropped, value, placed⟩ := Digits.number_ofGrid d place
  obtain ⟨_, _, ⟨zeros, significant, power⟩, lowest⟩ := spelled
  rw [made] at significant power lowest
  -- The grid point, its digits and the parts differ by zeros at the end.
  have inside : x.interval.Admits p.significant p.power := by
    rw [significant, Interval.admits_mul_tenTo, power, placed, ← Interval.admits_mul_tenTo, ← value]
    exact admits
  rw [DecimalParts.nearest_of_admits finite nonzero inside (by omega), sign, ofMagnitude_self]

theorem text_written (finite : x.isFinite = true) : ∃ p : DecimalParts,
    wireLayout.text x = p.written ∧ p.WellFormed ∧ (p.fraction ≠ [] ∨ p.exponent ≠ []) ∧
      p.nearest = x := by
  have laid : wireLayout.text x = signed x.negative
      (if x.magnitude = 0 then ['0', '.', '0']
      else if wireLayout.low ≤ x.shortest.exponent ∧ x.shortest.exponent ≤ wireLayout.high then
        FloatLayout.positional x.shortest
      else wireLayout.scientific x.shortest) := rfl
  rw [laid]
  by_cases zero : x.magnitude = 0
  · rw [if_pos zero]
    exact ⟨⟨x.negative, ['0'], ['0'], false, []⟩, rfl,
      ⟨by simp, by simp, by simp, by simp, fun _ => rfl⟩, .inl (by simp),
      nearest_of_zero zero rfl rfl⟩
  · rw [if_neg zero]
    obtain ⟨d, place, made, admits, _⟩ := shortest_admits finite zero
    have some : x.shortest.chars ≠ [] := by
      rw [made]
      exact Digits.ofGrid_ne_nil (pos_of_admits zero admits) place
    have digits : ∀ c ∈ x.shortest.chars, c.isDigit = true := by
      rw [made]
      exact fun c => Digits.isDigit_of_mem_ofGrid
    split
    next =>
      obtain ⟨p, sign, same, spelled⟩ := FloatLayout.positional_written some digits x.negative
      exact ⟨p, same, spelled.formed, spelled.inner, nearest_of_spelled finite zero spelled sign⟩
    next =>
      obtain ⟨p, sign, same, spelled⟩ := FloatLayout.scientific_written some digits x.negative
      exact ⟨p, same, spelled.formed, spelled.inner, nearest_of_spelled finite zero spelled sign⟩

end Binary64

namespace DecimalParts

theorem nearest_ofInteger {n : Int} (positive : 0 < n) (small : n < 0x10000000000000000) :
    (ofInteger n).nearest = .ofInt n := by
  have below : n.natAbs < twoTo 64 := by
    rw [show twoTo 64 = 0x10000000000000000 from rfl]
    omega
  obtain ⟨_, least, _⟩ := digitCount_spec (by omega) below (by decide)
  have size : digitCount n.natAbs ≤ 20 := by
    by_contra more
    have digits : 10 ^ 20 ≤ 10 ^ (digitCount n.natAbs - 1) :=
      Nat.pow_le_pow_right (by decide) (by omega)
    omega
  rw [nearest, significant_ofInteger, power_ofInteger, if_neg (by omega), if_neg (by omega),
    if_neg (by omega), Binary64.ofInt]
  show Binary64.nearest _ (n.natAbs * 1) 1 = _
  rw [Nat.mul_one]
  rfl

end DecimalParts

namespace Binary64

theorem isFinite_ofInt {n : Int} (small : n.natAbs < 0x10000000000000000) :
    (ofInt n).isFinite = true := by
  refine isFinite_nearestUnits (b := 64 + 1074) _ ?_ (by decide)
  have below : n.natAbs < twoTo 64 := small
  rw [Nat.div_one, twoTo_add, unitsPerOne]
  exact Nat.mul_lt_mul_of_pos_right below (twoTo_pos 1074)

end Binary64

namespace Value

theorem eq_of_json {v w : Value} (same : v.json = w.json) : v = w := by
  obtain ⟨json, _⟩ := v
  obtain ⟨json', _⟩ := w
  obtain rfl : json = json' := same
  rfl

theorem ofJson?_eq_some_iff {j : Json} {v : Value} :
    ofJson? j = some v ↔ j.normalize = some v.json := by
  rw [ofJson?]
  split
  next c found =>
    constructor
    · intro same
      rw [← Option.some.inj same]
      exact found
    · intro normal
      exact congrArg some (eq_of_json (Option.some.inj (found.symm.trans normal)))
  next none => simp [none]

end Value

theorem numberOfText?_integerText {n : Int} (low : -0x8000000000000000 ≤ n)
    (high : n < 0x8000000000000000) :
    numberOfText? (integerText n) = Value.ofJson? (.integer n) := by
  have numeric : ∀ c ∈ Text.signed (n < 0) (Nat.toDigits 10 n.natAbs), Text.IsNumeric c :=
    Text.numeric_signed fun c member => .inl (Text.isDigit_of_mem_toDigits member)
  rw [numberOfText?, integerText, String.toList_ofList, Text.signed_eq,
    Text.trim_of_numeric numeric, Text.integer?_signed low high]

theorem numberOfText?_integerText_of_large {n : Int} (low : 0x8000000000000000 ≤ n)
    (high : n < 0x10000000000000000) :
    numberOfText? (integerText n) = Value.ofJson? (.float (.ofInt n)) := by
  have formed := DecimalParts.wellFormed_ofInteger n
  have written := DecimalParts.written_ofInteger n
  rw [numberOfText?, integerText, String.toList_ofList, Text.signed_eq, ← written,
    Text.trim_of_numeric formed.numeric_written, written, Text.integer?_signed_eq,
    if_neg (by omega), ← written]
  dsimp only
  rw [formed.decimal?_written, Option.bind_some,
    DecimalParts.nearest_ofInteger (by omega) (by omega)]

theorem numberOfText?_text {x : Binary64} (finite : x.isFinite = true) :
    numberOfText? x.text = Value.ofJson? (.float x) := by
  obtain ⟨p, made, formed, inner, read⟩ := Binary64.text_written finite
  rw [numberOfText?, Binary64.text, if_pos finite, String.toList_ofList, made,
    Text.trim_of_numeric formed.numeric_written, formed.integer?_written inner]
  dsimp only
  rw [formed.decimal?_written, Option.bind_some, read]

theorem Text.range_of_integer? {cs : List Char} {n : Int} (read : integer? cs = some n) :
    -0x8000000000000000 ≤ n ∧ n < 0x8000000000000000 := by
  obtain ⟨_, _, made⟩ := Option.bind_eq_some_iff.1 read
  obtain ⟨range, same⟩ := Option.ite_none_right_eq_some.1 made
  rwa [← Option.some.inj same]

theorem json_of_numberOfText? {text : String} {v : Value} (read : numberOfText? text = some v) :
    (∃ n, -0x8000000000000000 ≤ n ∧ n < 0x8000000000000000 ∧ v.json = .integer n) ∨
      ∃ x : Binary64, x.isFinite = true ∧ v.json = .float x := by
  simp only [numberOfText?] at read
  split at read
  next n found =>
    obtain ⟨low, high⟩ := Text.range_of_integer? found
    have normal := Value.ofJson?_eq_some_iff.1 read
    rw [Json.normalize, Option.ite_none_right_eq_some] at normal
    exact .inl ⟨n, low, high, (Option.some.inj normal.2).symm⟩
  next =>
    obtain ⟨d, _, made⟩ := Option.bind_eq_some_iff.1 read
    have normal := Value.ofJson?_eq_some_iff.1 made
    rw [Json.normalize, Option.ite_none_right_eq_some] at normal
    exact .inr ⟨d.nearest, normal.1, (Option.some.inj normal.2).symm⟩

theorem ne_string_of_numberOfText? {text raw : String} {v : Value}
    (read : numberOfText? text = some v) : v ≠ .string raw := by
  intro same
  rcases json_of_numberOfText? read with ⟨n, _, _, made⟩ | ⟨x, _, made⟩
  · rw [same] at made
    contradiction
  · rw [same] at made
    contradiction

theorem numberOfText?_compact {text : String} {v : Value} (read : numberOfText? text = some v) :
    numberOfText? v.json.compact = some v := by
  rcases json_of_numberOfText? read with ⟨n, low, high, made⟩ | ⟨x, finite, made⟩
  · have fits : Json.fits n = true := by
      simp only [Json.fits, Bool.and_eq_true, decide_eq_true_eq]
      omega
    rw [made, Json.compact, numberOfText?_integerText low high, Value.ofJson?_eq_some_iff,
      Json.normalize, if_pos fits, made]
  · rw [made, Json.compact, numberOfText?_text finite, Value.ofJson?_eq_some_iff,
      Json.normalize, if_pos finite, made]

def OpensValue (c : Char) : Prop := c.isDigit = true ∨ c ∈ ['-', 'n', 't', 'f', '[', '\x7b']

theorem opensValue_signed {minus : Bool} {body : List Char}
    (digit : ∃ c rest, body = c :: rest ∧ c.isDigit = true) :
    ∃ c rest, Text.signed minus body = c :: rest ∧ OpensValue c := by
  obtain ⟨c, rest, rfl, digit⟩ := digit
  cases minus with
  | true => exact ⟨'-', c :: rest, rfl, .inr (by decide)⟩
  | false => exact ⟨c, rest, rfl, .inl digit⟩

theorem Binary64.opensValue_text (x : Binary64) :
    ∃ c rest, x.text.toList = c :: rest ∧ OpensValue c := by
  rw [text]
  split
  next finite =>
    obtain ⟨p, made, formed, _⟩ := text_written finite
    rw [String.toList_ofList, made]
    exact opensValue_signed formed.unsigned_starts
  next => exact ⟨'n', ['u', 'l', 'l'], rfl, .inr (by decide)⟩

namespace Json

theorem opensValue_compact {j : Json} (other : ∀ raw, j ≠ .string raw) :
    ∃ c rest, j.compact.toList = c :: rest ∧ OpensValue c := by
  cases j with
  | null => exact ⟨'n', ['u', 'l', 'l'], rfl, .inr (by decide)⟩
  | bool b =>
    cases b with
    | true => exact ⟨'t', ['r', 'u', 'e'], rfl, .inr (by decide)⟩
    | false => exact ⟨'f', ['a', 'l', 's', 'e'], rfl, .inr (by decide)⟩
  | integer n =>
    rw [compact, integerText, String.toList_ofList, Text.signed_eq]
    exact opensValue_signed
      (Text.starts_with_digit Nat.toDigits_ne_nil fun c => Text.isDigit_of_mem_toDigits)
  | float x =>
    rw [compact]
    exact x.opensValue_text
  | string raw => exact absurd rfl (other raw)
  | array items =>
    rw [compact, String.toList_append, String.toList_append]
    exact ⟨'[', _, rfl, .inr (by decide)⟩
  | object entries =>
    rw [compact, String.toList_append, String.toList_append]
    exact ⟨'\x7b', _, rfl, .inr (by decide)⟩
  | unreadable => exact ⟨'n', ['u', 'l', 'l'], rfl, .inr (by decide)⟩

theorem beforeFirst_compact_ne {j : Json} (other : ∀ raw, j ≠ .string raw) {name : String}
    (letter : name.toList.head? ∈ [some 'c', some 'd', some 'v']) :
    Text.beforeFirst '.' j.compact ≠ name := by
  obtain ⟨c, rest, made, opens⟩ := opensValue_compact other
  rintro rfl
  have differs : c ≠ '.' := by
    rintro rfl
    rcases opens with digit | mark
    · contradiction
    · revert mark
      decide
  rw [Text.beforeFirst, String.toList_ofList, made,
    List.takeWhile_cons_of_pos (by simpa using differs), List.head?_cons] at letter
  simp only [List.mem_cons, Option.some.injEq, List.not_mem_nil, or_false] at letter
  rcases letter with rfl | rfl | rfl <;> simp [OpensValue] at opens

end Json

end TradingStrategy
