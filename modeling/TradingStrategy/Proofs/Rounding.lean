import Mathlib.Tactic.Linarith
import Mathlib.Tactic.Ring
import TradingStrategy.Number.Decimal

set_option autoImplicit false

namespace TradingStrategy

theorem twoTo_eq (n : Nat) : twoTo n = 2 ^ n := rfl

theorem tenTo_eq (n : Nat) : tenTo n = 10 ^ n := rfl

theorem twoTo_add (m n : Nat) : twoTo (m + n) = twoTo m * twoTo n := Nat.pow_add 2 m n

theorem twoTo_le_twoTo {m n : Nat} (less : m ≤ n) : twoTo m ≤ twoTo n :=
  Nat.pow_le_pow_right (by decide) less

theorem twoTo_pos (n : Nat) : 0 < twoTo n := Nat.two_pow_pos n

theorem tenTo_pos (n : Nat) : 0 < tenTo n := Nat.pow_pos (by decide)

namespace Binary64

structure Rounds (num den s : Nat) : Prop where
  above : 2 * (s * den) ≤ 2 * num + den
  below : 2 * num ≤ 2 * (s * den) + den
  tie : s % 2 = 0 ∨ 2 * (s * den) < 2 * num + den ∧ 2 * num < 2 * (s * den) + den

theorem halfToEven_eq {num den s : Nat} (positive : 0 < den) (rounds : Rounds num den s) :
    halfToEven num den = s := by
  have split := Nat.div_add_mod' num den
  have small := Nat.mod_lt num positive
  obtain ⟨above, below, tie⟩ := rounds
  rw [halfToEven]
  generalize num / den = q at *
  generalize num % den = r at *
  -- The quotient has to be `s` or the number before it.
  have least : q ≤ s := by
    by_contra less
    have product := Nat.mul_le_mul_right den (show s + 1 ≤ q by omega)
    rw [Nat.add_mul] at product
    omega
  have most : s ≤ q + 1 := by
    by_contra more
    have product := Nat.mul_le_mul_right den (show q + 2 ≤ s by omega)
    rw [Nat.add_mul] at product
    omega
  rcases (show s = q ∨ s = q + 1 by omega) with rfl | rfl
  · split_ifs <;> omega
  · rw [Nat.add_mul] at above below tie
    split_ifs <;> omega

theorem parts_spec (x : Binary64) :
    x.parts.2 * fieldUnit + x.parts.1 = x.magnitude ∧ x.parts.1 < 2 * fieldUnit ∧
      (0 < x.parts.2 → fieldUnit ≤ x.parts.1) := by
  have split := Nat.div_add_mod' x.magnitude fieldUnit
  have small := Nat.mod_lt x.magnitude (show 0 < fieldUnit by decide)
  rw [parts]
  split
  next subnormal =>
    rw [subnormal] at split
    dsimp only
    refine ⟨by omega, by omega, by omega⟩
  next normal =>
    have product := Nat.sub_one_mul (x.magnitude / fieldUnit) fieldUnit
    have field := Nat.le_mul_of_pos_left fieldUnit (Nat.pos_of_ne_zero normal)
    dsimp only
    refine ⟨by omega, by omega, by omega⟩

theorem shift_eq {num den e : Nat} (positive : 0 < den)
    (above : num < 2 * (fieldUnit * (den * twoTo e)))
    (below : e = 0 ∨ fieldUnit * (den * twoTo e) ≤ num) : (num / den).log2 - 52 = e := by
  -- A full significand has 53 bits, so the quotient has 53 + e; with e = 0 it may have fewer.
  have lower : 2 ^ (52 + e) * den = fieldUnit * (den * twoTo e) := by
    rw [Nat.pow_add, Nat.mul_assoc, Nat.mul_comm den]
    rfl
  have upper : 2 ^ (53 + e) * den = 2 * (fieldUnit * (den * twoTo e)) := by
    rw [← lower, Nat.add_right_comm 52 1 e, Nat.pow_succ]
    ring
  have most : (num / den).log2 < 53 + e := by
    by_cases zero : num / den = 0
    · rw [zero, Nat.log2_zero]
      omega
    · rw [Nat.log2_lt zero, Nat.div_lt_iff_lt_mul positive, upper]
      exact above
  rcases below with rfl | below
  · omega
  · have least : 52 + e ≤ (num / den).log2 := by
      have quotient : 2 ^ (52 + e) ≤ num / den := by
        rw [Nat.le_div_iff_mul_le positive, lower]
        exact below
      have nonzero : num / den ≠ 0 := by
        have power := Nat.two_pow_pos (52 + e)
        omega
      exact (Nat.le_log2 nonzero).2 quotient
    omega

theorem nearestUnits_of_rounds {num den e s : Nat} (neg : Bool) (positive : 0 < den)
    (above : num < 2 * (fieldUnit * (den * twoTo e)))
    (below : e = 0 ∨ fieldUnit * (den * twoTo e) ≤ num) (rounds : Rounds num (den * twoTo e) s)
    (finite : e * fieldUnit + s < infiniteMagnitude) :
    nearestUnits neg num den = ofMagnitude neg (e * fieldUnit + s) := by
  have unit : 0 < den * twoTo e := Nat.mul_pos positive (twoTo_pos e)
  rw [nearestUnits, shift_eq positive above below, halfToEven_eq unit rounds,
    Nat.min_eq_left (Nat.le_of_lt finite)]

theorem interval_low (x : Binary64) :
    x.interval.low = 4 * x.parts.1 * twoTo x.parts.2 -
      (if x.parts.1 = fieldUnit ∧ 0 < x.parts.2 then twoTo x.parts.2
      else 2 * twoTo x.parts.2) := rfl

theorem interval_value (x : Binary64) : x.interval.value = 4 * x.parts.1 * twoTo x.parts.2 := rfl

theorem interval_high (x : Binary64) :
    x.interval.high = 4 * x.parts.1 * twoTo x.parts.2 + 2 * twoTo x.parts.2 := rfl

theorem interval_closed (x : Binary64) : x.interval.closed = decide (x.parts.1 % 2 = 0) := rfl

theorem Interval.holds_iff {r : Interval} {num den : Nat} :
    r.holds num den = true ↔ r.low * den ≤ num ∧ num ≤ r.high * den ∧
      (r.closed = true ∨ r.low * den < num ∧ num < r.high * den) := by
  rw [holds]
  split
  next closed => simp [closed]
  next opened =>
    simp only [opened, Bool.and_eq_true, decide_eq_true_eq, false_or, Bool.false_eq_true]
    omega

-- Below a least full significand the gap is half as wide.
theorem bounds_of_holds {x : Binary64} {num den : Nat}
    (inside : x.interval.holds (4 * num) den = true) :
    let unit := den * twoTo x.parts.2
    let gap := if x.parts.1 = fieldUnit ∧ 0 < x.parts.2 then unit else 2 * unit
    4 * (x.parts.1 * unit) ≤ 4 * num + gap ∧ 4 * num ≤ 4 * (x.parts.1 * unit) + 2 * unit ∧
      (x.parts.1 % 2 = 0 ∨
        4 * (x.parts.1 * unit) < 4 * num + gap ∧ 4 * num < 4 * (x.parts.1 * unit) + 2 * unit) := by
  obtain ⟨low, high, ends⟩ := Interval.holds_iff.1 inside
  rw [interval_low] at low ends
  rw [interval_high] at high ends
  rw [interval_closed, decide_eq_true_eq] at ends
  generalize x.parts.1 = m at *
  generalize x.parts.2 = e at *
  have scaled : 4 * m * twoTo e * den = 4 * (m * (den * twoTo e)) := by ring
  have gaps : (if m = fieldUnit ∧ 0 < e then twoTo e else 2 * twoTo e) * den =
      if m = fieldUnit ∧ 0 < e then den * twoTo e else 2 * (den * twoTo e) := by
    split_ifs
    · exact Nat.mul_comm ..
    · ring
  rw [Nat.add_mul, scaled, Nat.mul_assoc 2, Nat.mul_comm (twoTo e)] at high ends
  rw [Nat.sub_mul, scaled, gaps] at low ends
  dsimp only
  refine ⟨by omega, by omega, ?_⟩
  rcases ends with even | inner
  · exact .inl even
  · exact .inr (by omega)

theorem nearestUnits_of_full {num den m e : Nat} (neg : Bool) (positive : 0 < den)
    (small : m < 2 * fieldUnit) (finite : e * fieldUnit + m < infiniteMagnitude)
    (reached : e = 0 ∨ fieldUnit * (den * twoTo e) ≤ num)
    (low : 4 * (m * (den * twoTo e)) ≤ 4 * num + 2 * (den * twoTo e))
    (high : 4 * num ≤ 4 * (m * (den * twoTo e)) + 2 * (den * twoTo e))
    (ends : m % 2 = 0 ∨ 4 * (m * (den * twoTo e)) < 4 * num + 2 * (den * twoTo e) ∧
      4 * num < 4 * (m * (den * twoTo e)) + 2 * (den * twoTo e)) :
    nearestUnits neg num den = ofMagnitude neg (e * fieldUnit + m) := by
  have unit : 0 < den * twoTo e := Nat.mul_pos positive (twoTo_pos e)
  have most := Nat.mul_le_mul_right (den * twoTo e) (show m + 1 ≤ 2 * fieldUnit by omega)
  rw [Nat.add_mul, Nat.mul_assoc] at most
  refine nearestUnits_of_rounds neg positive ?_ reached ⟨?_, ?_, ?_⟩ finite
  · omega
  · omega
  · omega
  · omega

-- Just below the least full significand the units are those of the exponent before, and the
-- rounding goes up to it.
theorem nearestUnits_of_edge {num den e : Nat} (neg : Bool) (positive : 0 < den)
    (finite : (e + 1) * fieldUnit + fieldUnit < infiniteMagnitude)
    (under : num < fieldUnit * (den * twoTo (e + 1)))
    (low : 4 * (fieldUnit * (den * twoTo (e + 1))) ≤ 4 * num + den * twoTo (e + 1)) :
    nearestUnits neg num den = ofMagnitude neg ((e + 1) * fieldUnit + fieldUnit) := by
  have step : den * twoTo (e + 1) = 2 * (den * twoTo e) := by
    rw [twoTo_eq, Nat.pow_succ, twoTo_eq]
    ring
  have unit : 0 < den * twoTo e := Nat.mul_pos positive (twoTo_pos e)
  have half : fieldUnit * (2 * (den * twoTo e)) = 2 * (fieldUnit * (den * twoTo e)) := by ring
  have twice : 2 * fieldUnit * (den * twoTo e) = 2 * (fieldUnit * (den * twoTo e)) := by ring
  have least := Nat.mul_le_mul_right (den * twoTo e) (show 2 ≤ fieldUnit by decide)
  have place : (e + 1) * fieldUnit + fieldUnit = e * fieldUnit + 2 * fieldUnit := by ring
  rw [step, half] at under low
  rw [place] at finite ⊢
  refine nearestUnits_of_rounds neg positive ?_ (.inr ?_) ⟨?_, ?_, .inl rfl⟩ finite
  · omega
  · omega
  · omega
  · omega

theorem nearestUnits_of_holds {x : Binary64} (finite : x.isFinite = true) {num den : Nat}
    (positive : 0 < den) (inside : x.interval.holds (4 * num) den = true) (neg : Bool) :
    nearestUnits neg num den = ofMagnitude neg x.magnitude := by
  have below : x.magnitude < infiniteMagnitude := by simpa [isFinite] using finite
  obtain ⟨magnitude, small, full⟩ := x.parts_spec
  obtain ⟨low, high, ends⟩ := bounds_of_holds inside
  rw [← magnitude] at below ⊢
  generalize x.parts.1 = m at *
  generalize x.parts.2 = e at *
  have unit : 0 < den * twoTo e := Nat.mul_pos positive (twoTo_pos e)
  by_cases reached : e = 0 ∨ fieldUnit * (den * twoTo e) ≤ num
  · by_cases edge : m = fieldUnit ∧ 0 < e
    · -- Here the gap below is half as wide, and a tie goes to the even significand.
      rw [if_pos edge] at low
      have even : m % 2 = 0 := by
        rw [edge.1]
        decide
      exact nearestUnits_of_full neg positive small below reached (by omega) high (.inl even)
    · rw [if_neg edge] at low ends
      exact nearestUnits_of_full neg positive small below reached low high ends
  · -- Only the least full significand has quotients in its interval that lie so far below.
    rw [not_or] at reached
    obtain ⟨e', rfl⟩ : ∃ e', e = e' + 1 := ⟨e - 1, by omega⟩
    have edge : m = fieldUnit := by
      refine Nat.le_antisymm (Nat.le_of_not_lt fun above => ?_) (full (Nat.succ_pos e'))
      have next := Nat.mul_le_mul_right (den * twoTo (e' + 1)) (Nat.succ_le_of_lt above)
      rw [Nat.succ_mul] at next
      rw [if_neg (by omega)] at low
      omega
    subst edge
    rw [if_pos ⟨rfl, Nat.succ_pos e'⟩] at low
    exact nearestUnits_of_edge neg positive below (by omega) low

theorem halfToEven_le (num den : Nat) : halfToEven num den ≤ num / den + 1 := by
  rw [halfToEven]
  split_ifs <;> omega

theorem magnitude_ofMagnitude (neg : Bool) {m : Nat} (small : m < signBit) :
    (ofMagnitude neg m).magnitude = m := by
  have unit : signBit = 2 ^ 63 := rfl
  rw [unit] at small
  rw [magnitude, ofMagnitude, unit, UInt64.toNat_ofNat']
  split <;> omega

theorem isFinite_nearestUnits (neg : Bool) {num den b : Nat} (small : num / den < twoTo b)
    (few : b ≤ 2097) : (nearestUnits neg num den).isFinite = true := by
  generalize quotient : num / den = q at small
  have log : q.log2 ≤ 2096 := by
    by_cases zero : q = 0
    · rw [zero, Nat.log2_zero]
      omega
    · have less := (Nat.log2_lt zero).2 small
      omega
  -- The shift leaves 53 bits, and the rounding adds at most 1.
  have bits : q / twoTo (q.log2 - 52) < 2 * fieldUnit := by
    refine Nat.div_lt_of_lt_mul (Nat.lt_of_lt_of_le Nat.lt_log2_self ?_)
    rw [show 2 * fieldUnit = twoTo 53 from rfl, ← twoTo_add]
    exact twoTo_le_twoTo (by omega)
  have rounded := halfToEven_le num (den * twoTo (q.log2 - 52))
  rw [← Nat.div_div_eq_div_mul, quotient] at rounded
  have field := Nat.mul_le_mul_right fieldUnit (show q.log2 - 52 ≤ 2044 by omega)
  have unit : fieldUnit = 2 ^ 52 := rfl
  have least : (q.log2 - 52) * fieldUnit + halfToEven num (den * twoTo (q.log2 - 52)) <
      infiniteMagnitude := by
    rw [infiniteMagnitude]
    omega
  rw [isFinite, nearestUnits, quotient, Nat.min_eq_left (Nat.le_of_lt least),
    magnitude_ofMagnitude neg (Nat.lt_trans least (by decide)), decide_eq_true_eq]
  exact least

end Binary64

end TradingStrategy
