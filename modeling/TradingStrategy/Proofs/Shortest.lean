import TradingStrategy.Proofs.Rounding

set_option autoImplicit false

namespace TradingStrategy

theorem tenTo_le_twoTo {a b : Nat} (few : 196 * a ≤ 59 * b) : tenTo a ≤ twoTo b := by
  rw [tenTo_eq, twoTo_eq]
  have base : 10 ^ 59 ≤ 2 ^ 196 := by decide
  refine (Nat.pow_le_pow_iff_left (show 59 ≠ 0 by decide)).1 ?_
  calc (10 ^ a) ^ 59 = (10 ^ 59) ^ a := by rw [← Nat.pow_mul, ← Nat.pow_mul, Nat.mul_comm]
    _ ≤ (2 ^ 196) ^ a := Nat.pow_le_pow_left base a
    _ = 2 ^ (196 * a) := (Nat.pow_mul ..).symm
    _ ≤ 2 ^ (59 * b) := Nat.pow_le_pow_right (by decide) few
    _ = (2 ^ b) ^ 59 := by rw [← Nat.pow_mul, Nat.mul_comm]

theorem twoTo_le_tenTo {a b : Nat} (few : 28 * a ≤ 93 * b) : twoTo a ≤ tenTo b := by
  rw [tenTo_eq, twoTo_eq]
  have base : 2 ^ 93 ≤ 10 ^ 28 := by decide
  refine (Nat.pow_le_pow_iff_left (show 28 ≠ 0 by decide)).1 ?_
  calc (2 ^ a) ^ 28 = 2 ^ (28 * a) := by rw [← Nat.pow_mul, Nat.mul_comm]
    _ ≤ 2 ^ (93 * b) := Nat.pow_le_pow_right (by decide) few
    _ = (2 ^ 93) ^ b := Nat.pow_mul ..
    _ ≤ (10 ^ 28) ^ b := Nat.pow_le_pow_left base b
    _ = (10 ^ b) ^ 28 := by rw [← Nat.pow_mul, ← Nat.pow_mul, Nat.mul_comm]

-- The estimate by the logarithm is good enough for numbers of up to 15000 bits.
theorem digitCount_spec {n b : Nat} (positive : 0 < n) (small : n < twoTo b) (few : b ≤ 15000) :
    0 < digitCount n ∧ 10 ^ (digitCount n - 1) ≤ n ∧ n < 10 ^ digitCount n := by
  have nonzero : n ≠ 0 := Nat.ne_of_gt positive
  have least := Nat.log2_self_le nonzero
  have most : n < 2 ^ (n.log2 + 1) := Nat.lt_log2_self
  have below := (Nat.log2_lt nonzero).2 small
  rw [digitCount]
  generalize n.log2 = bits at *
  generalize guessed : bits * 30103 / 100000 = guess
  by_cases less : n < tenTo guess
  · have some : guess ≠ 0 := by
      rintro rfl
      have one : tenTo 0 = 1 := rfl
      omega
    have scale : 10 ^ (guess - 1) ≤ 2 ^ bits := tenTo_le_twoTo (by omega)
    rw [if_pos less, Nat.max_eq_left (Nat.pos_of_ne_zero some)]
    exact ⟨Nat.pos_of_ne_zero some, Nat.le_trans scale least, less⟩
  · rw [if_neg less]
    by_cases next : n < tenTo (guess + 1)
    · rw [if_pos next]
      exact ⟨Nat.succ_pos _, Nat.le_of_not_lt less, next⟩
    · have scale : 2 ^ (bits + 1) ≤ 10 ^ (guess + 2) := twoTo_le_tenTo (by omega)
      rw [if_neg next]
      exact ⟨Nat.succ_pos _, Nat.le_of_not_lt next, Nat.lt_of_lt_of_le most scale⟩

namespace Binary64

namespace Interval

variable {r : Interval}

theorem le_iff_of_ratio {num den num' den' : Nat} (positive : 0 < den) (positive' : 0 < den')
    (same : num * den' = num' * den) (bound : Nat) : bound * den ≤ num ↔ bound * den' ≤ num' := by
  rw [← Nat.mul_le_mul_right_iff positive', same, Nat.mul_right_comm,
    Nat.mul_le_mul_right_iff positive]

theorem ge_iff_of_ratio {num den num' den' : Nat} (positive : 0 < den) (positive' : 0 < den')
    (same : num * den' = num' * den) (bound : Nat) : num ≤ bound * den ↔ num' ≤ bound * den' := by
  rw [← Nat.mul_le_mul_right_iff positive', same, Nat.mul_right_comm,
    Nat.mul_le_mul_right_iff positive]

theorem holds_of_ratio {num den num' den' : Nat} (positive : 0 < den) (positive' : 0 < den')
    (same : num * den' = num' * den) : r.holds num den = r.holds num' den' := by
  have low := le_iff_of_ratio positive positive' same
  have high := ge_iff_of_ratio positive positive' same
  rw [Bool.eq_iff_iff, holds_iff, holds_iff, low, high, ← Nat.not_le, ← Nat.not_le, low, high,
    Nat.not_le, Nat.not_le]

def Admits (r : Interval) (n : Nat) (place : Int) : Prop :=
  r.holds (n * (4 * unitsPerOne * tenTo place.toNat)) (tenTo (-place).toNat) = true

theorem admits_mul_tenTo {n zeros : Nat} {place : Int} :
    r.Admits (n * 10 ^ zeros) place ↔ r.Admits n (place + zeros) := by
  have powers : 10 ^ zeros * 10 ^ place.toNat * 10 ^ (-(place + zeros)).toNat =
      10 ^ (place + zeros).toNat * 10 ^ (-place).toNat := by
    rw [← Nat.pow_add, ← Nat.pow_add, ← Nat.pow_add]
    congr 1
    omega
  rw [Admits, Admits, holds_of_ratio (tenTo_pos _) (tenTo_pos (-(place + zeros)).toNat)]
  simp only [tenTo_eq]
  calc n * 10 ^ zeros * (4 * unitsPerOne * 10 ^ place.toNat) * 10 ^ (-(place + zeros)).toNat
      = n * (4 * unitsPerOne) *
          (10 ^ zeros * 10 ^ place.toNat * 10 ^ (-(place + zeros)).toNat) := by ring
    _ = n * (4 * unitsPerOne * 10 ^ (place + zeros).toNat) * 10 ^ (-place).toNat := by
      rw [powers]
      ring

end Interval

theorem onGrid?_admits {r : Interval} {place : Int} {d : Nat} (found : onGrid? r place = some d) :
    r.Admits d place := by
  rw [onGrid?] at found
  split at found
  next => contradiction
  next below _ =>
    rw [← Option.some.inj found]
    exact below
  next _ above =>
    rw [← Option.some.inj found]
    exact above
  next below above =>
    have even : d = r.value * tenTo (-place).toNat / (4 * unitsPerOne * tenTo place.toNat) ∨
        d = r.value * tenTo (-place).toNat / (4 * unitsPerOne * tenTo place.toNat) + 1 := by
      split_ifs at found
      · exact .inl (Option.some.inj found).symm
      · exact .inr (Option.some.inj found).symm
      · have made := Option.some.inj found
        omega
    rcases even with rfl | rfl
    · exact below
    · exact above

theorem exists_onGrid? {r : Interval} {place : Int} {d : Nat}
    (floor : r.value * tenTo (-place).toNat / (4 * unitsPerOne * tenTo place.toNat) = d)
    (neighbour : r.Admits d place ∨ r.Admits (d + 1) place) : ∃ d, onGrid? r place = some d := by
  rw [Interval.Admits, Interval.Admits] at neighbour
  rw [onGrid?, floor]
  split
  next below above => simp [below, above] at neighbour
  next => exact ⟨_, rfl⟩
  next => exact ⟨_, rfl⟩
  next =>
    split_ifs
    · exact ⟨_, rfl⟩
    · exact ⟨_, rfl⟩
    · exact ⟨_, rfl⟩

theorem parts_pos {x : Binary64} (nonzero : x.magnitude ≠ 0) : 0 < x.parts.1 := by
  obtain ⟨magnitude, _, full⟩ := x.parts_spec
  have unitField : 0 < fieldUnit := by decide
  refine Nat.pos_of_ne_zero fun zero => nonzero ?_
  rw [zero] at full
  have noExponent : x.parts.2 = 0 := by omega
  rw [← magnitude, zero, noExponent]
  omega

-- Where the step of the grid is below 10 ^ -16 of the value, a neighbour reads back.
theorem onGrid?_of_fine {x : Binary64} (nonzero : x.magnitude ≠ 0) {place : Int}
    (fine : 4 * unitsPerOne * tenTo place.toNat * 10 ^ 16 ≤
      x.interval.value * tenTo (-place).toNat) : ∃ d, onGrid? x.interval place = some d := by
  refine exists_onGrid? rfl ?_
  have upPositive : 0 < 4 * unitsPerOne * tenTo place.toNat :=
    Nat.mul_pos (Nat.mul_pos (by decide) (twoTo_pos 1074)) (tenTo_pos _)
  have downPositive : 0 < tenTo (-place).toNat := tenTo_pos _
  rw [Interval.Admits, Interval.Admits, Interval.holds_iff, Interval.holds_iff]
  generalize 4 * unitsPerOne * tenTo place.toNat = up at *
  generalize tenTo (-place).toNat = down at *
  have split := Nat.div_add_mod' (x.interval.value * down) up
  have small := Nat.mod_lt (x.interval.value * down) upPositive
  generalize x.interval.value * down / up = d at *
  generalize x.interval.value * down % up = gap at *
  have least := parts_pos nonzero
  obtain ⟨magnitude, most, full⟩ := x.parts_spec
  rw [interval_low, interval_high]
  rw [interval_value] at split fine
  generalize x.parts.1 = m at *
  generalize x.parts.2 = e at *
  -- A gap is at least half a unit of the last place, and the value has less than 2 ^ 53 of these.
  have step : 0 < down * twoTo e := Nat.mul_pos downPositive (twoTo_pos e)
  have scaled : 4 * m * twoTo e * down = 4 * (m * (down * twoTo e)) := by ring
  have lower := Nat.mul_le_mul_right (down * twoTo e) least
  have upper := Nat.mul_le_mul_right (down * twoTo e) (Nat.le_of_lt most)
  rw [scaled] at split fine
  rw [Nat.sub_mul, Nat.add_mul, scaled, Nat.add_mul, Nat.mul_assoc 2, Nat.mul_comm (twoTo e),
    Nat.one_mul]
  generalize made : m * (down * twoTo e) = value at *
  generalize d * up = floor at *
  have field : fieldUnit = 2 ^ 52 := rfl
  rw [field, Nat.mul_assoc] at upper
  by_cases edge : m = fieldUnit ∧ 0 < e
  · rw [if_pos edge, Nat.mul_comm (twoTo e)]
    rw [edge.1, field] at made
    generalize down * twoTo e = step at *
    omega
  · rw [if_neg edge, Nat.mul_assoc 2, Nat.mul_comm (twoTo e)]
    generalize down * twoTo e = step at *
    omega

theorem shortestFrom_admits {r : Interval} {places : Int} {fuel count : Nat}
    (last : ∃ d, onGrid? r (places - (count + fuel : Nat)) = some d) :
    ∃ d place, shortestFrom r places fuel count = .ofGrid d place ∧ r.Admits d place ∧
      places - (count + fuel : Nat) ≤ place := by
  induction fuel generalizing count with
  | zero =>
    obtain ⟨d, found⟩ := last
    rw [Nat.add_zero] at found
    exact ⟨d, places - count, by rw [shortestFrom, found]; rfl, onGrid?_admits found, le_refl _⟩
  | succ fuel ih =>
    rw [shortestFrom]
    cases found : onGrid? r (places - count) with
    | some d => exact ⟨d, places - count, rfl, onGrid?_admits found, by omega⟩
    | none =>
      rw [← Nat.add_assoc, Nat.add_right_comm] at last
      obtain ⟨d, place, made, admits, least⟩ := ih last
      exact ⟨d, place, made, admits, by omega⟩

theorem exponent_lt {x : Binary64} (finite : x.isFinite = true) : x.parts.2 < 2047 := by
  have below : x.magnitude < infiniteMagnitude := by simpa [isFinite] using finite
  obtain ⟨magnitude, _, _⟩ := x.parts_spec
  have field : fieldUnit = 2 ^ 52 := rfl
  rw [infiniteMagnitude, field] at below
  rw [field] at magnitude
  omega

theorem interval_high_lt {x : Binary64} (finite : x.isFinite = true) :
    x.interval.high < twoTo 2101 := by
  obtain ⟨_, small, _⟩ := x.parts_spec
  have exponent : twoTo x.parts.2 ≤ twoTo 2046 :=
    twoTo_le_twoTo (Nat.le_of_lt_succ (exponent_lt finite))
  have significand : 4 * x.parts.1 + 2 < twoTo 55 := by
    have field : twoTo 55 = 8 * fieldUnit := rfl
    omega
  calc x.interval.high = (4 * x.parts.1 + 2) * twoTo x.parts.2 := by
        rw [interval_high]
        ring
    _ ≤ (4 * x.parts.1 + 2) * twoTo 2046 := Nat.mul_le_mul_left _ exponent
    _ < twoTo 55 * twoTo 2046 := Nat.mul_lt_mul_of_pos_right significand (twoTo_pos 2046)
    _ = twoTo 2101 := (twoTo_add 55 2046).symm

theorem decimalPlaces_spec {x : Binary64} (finite : x.isFinite = true) (nonzero : x.magnitude ≠ 0) :
    ∃ count : Nat, decimalPlaces x.interval.value = count - 400 ∧ 0 < count ∧
      10 ^ (count - 1) * (4 * unitsPerOne) ≤ x.interval.value * tenTo 400 := by
  have unit : 0 < 4 * unitsPerOne := Nat.mul_pos (by decide) (twoTo_pos 1074)
  have one : 4 * unitsPerOne ≤ x.interval.value * tenTo 400 := by
    rw [interval_value, Nat.mul_assoc 4, Nat.mul_assoc 4]
    refine Nat.mul_le_mul_left 4 ?_
    have range : unitsPerOne ≤ tenTo 400 := twoTo_le_tenTo (by decide)
    exact Nat.le_trans range
      (Nat.le_mul_of_pos_left _ (Nat.mul_pos (parts_pos nonzero) (twoTo_pos _)))
  have small : x.interval.value * tenTo 400 / (4 * unitsPerOne) < twoTo (2101 + 1600) := by
    have scale : tenTo 400 ≤ twoTo 1600 := tenTo_le_twoTo (by decide)
    have high : x.interval.value < twoTo 2101 :=
      Nat.lt_of_le_of_lt (Nat.le_add_right ..) (interval_high_lt finite)
    refine Nat.lt_of_le_of_lt (Nat.div_le_self ..) ?_
    rw [twoTo_add]
    exact Nat.mul_lt_mul_of_lt_of_le high scale (twoTo_pos 1600)
  obtain ⟨digits, least, _⟩ := digitCount_spec (Nat.div_pos one unit) small (by decide)
  exact ⟨_, rfl, digits, (Nat.le_div_iff_mul_le unit).1 least⟩

theorem shortest_admits {x : Binary64} (finite : x.isFinite = true) (nonzero : x.magnitude ≠ 0) :
    ∃ d place, x.shortest = .ofGrid d place ∧ x.interval.Admits d place ∧ -416 ≤ place := by
  obtain ⟨count, places, digits, least⟩ := decimalPlaces_spec finite nonzero
  -- With seventeen digits the step of the grid is below 10 ^ -16 of the value.
  have last : ∃ d,
      onGrid? x.interval (decimalPlaces x.interval.value - (1 + 16 : Nat)) = some d := by
    refine onGrid?_of_fine nonzero ?_
    generalize placed : decimalPlaces x.interval.value - (1 + 16 : Nat) = place
    have powers : tenTo place.toNat * 10 ^ 16 * tenTo 400 =
        tenTo (-place).toNat * 10 ^ (count - 1) := by
      rw [tenTo_eq, tenTo_eq, tenTo_eq, ← Nat.pow_add, ← Nat.pow_add, ← Nat.pow_add]
      congr 1
      omega
    refine Nat.le_of_mul_le_mul_right ?_ (tenTo_pos 400)
    calc 4 * unitsPerOne * tenTo place.toNat * 10 ^ 16 * tenTo 400
        = tenTo (-place).toNat * (10 ^ (count - 1) * (4 * unitsPerOne)) := by
          rw [Nat.mul_assoc, Nat.mul_assoc, ← Nat.mul_assoc (tenTo _), powers]
          ring
      _ ≤ tenTo (-place).toNat * (x.interval.value * tenTo 400) := Nat.mul_le_mul_left _ least
      _ = x.interval.value * tenTo (-place).toNat * tenTo 400 := by ring
  obtain ⟨d, place, made, admits, bound⟩ := shortestFrom_admits last
  exact ⟨d, place, made, admits, by omega⟩

theorem interval_low_pos {x : Binary64} (nonzero : x.magnitude ≠ 0) : 0 < x.interval.low := by
  have least := Nat.mul_le_mul_right (twoTo x.parts.2) (parts_pos nonzero)
  have step := twoTo_pos x.parts.2
  rw [interval_low, Nat.mul_assoc]
  split
  next => omega
  next => omega

theorem four_mul_unitsPerOne : 4 * unitsPerOne = twoTo 1076 := by
  have four : 4 = twoTo 2 := rfl
  rw [unitsPerOne, four, ← twoTo_add]

theorem pos_of_admits {x : Binary64} (nonzero : x.magnitude ≠ 0) {n : Nat} {place : Int}
    (admits : x.interval.Admits n place) : 0 < n := by
  have low := (Interval.holds_iff.1 admits).1
  have least := Nat.mul_pos (interval_low_pos nonzero) (tenTo_pos (-place).toNat)
  refine Nat.pos_of_ne_zero fun zero => ?_
  rw [zero, Nat.zero_mul] at low
  omega

theorem range_of_admits {x : Binary64} (finite : x.isFinite = true) (nonzero : x.magnitude ≠ 0)
    {n : Nat} {place : Int} (admits : x.interval.Admits n place) :
    tenTo (-place).toNat ≤ n * (twoTo 1076 * tenTo place.toNat) ∧
      n * (twoTo 1076 * tenTo place.toNat) < twoTo 2101 * tenTo (-place).toNat := by
  obtain ⟨low, high, _⟩ := Interval.holds_iff.1 admits
  rw [four_mul_unitsPerOne] at low high
  have one := Nat.le_mul_of_pos_left (tenTo (-place).toNat) (interval_low_pos nonzero)
  have most := Nat.mul_lt_mul_of_pos_right (interval_high_lt finite) (tenTo_pos (-place).toNat)
  exact ⟨Nat.le_trans one low, Nat.lt_of_le_of_lt high most⟩

theorem size_of_admits {x : Binary64} (finite : x.isFinite = true) (nonzero : x.magnitude ≠ 0)
    {n : Nat} {place : Int} (admits : x.interval.Admits n place) (least : -416 ≤ place) :
    place + digitCount n ≤ 400 ∧ -400 ≤ place + digitCount n := by
  obtain ⟨low, high⟩ := range_of_admits finite nonzero admits
  -- The estimate of the digits is good for numbers of this size only.
  have small : n < twoTo (2101 + 1664) := by
    have scale : tenTo (-place).toNat ≤ twoTo 1664 := tenTo_le_twoTo (by omega)
    rw [twoTo_add]
    calc n ≤ n * (twoTo 1076 * tenTo place.toNat) :=
          Nat.le_mul_of_pos_right n (Nat.mul_pos (twoTo_pos 1076) (tenTo_pos _))
      _ < twoTo 2101 * tenTo (-place).toNat := high
      _ ≤ twoTo 2101 * twoTo 1664 := Nat.mul_le_mul_left _ scale
  obtain ⟨digits, atLeast, below⟩ :=
    digitCount_spec (pos_of_admits nonzero admits) small (by decide)
  generalize digitCount n = count at *
  constructor
  · -- From 10 ^ 400 on a decimal lies above all doubles.
    by_contra large
    have scale : twoTo 1200 ≤ tenTo 400 := twoTo_le_tenTo (by decide)
    have powers : tenTo (-place).toNat * tenTo 400 ≤ 10 ^ (count - 1) * tenTo place.toNat := by
      rw [tenTo_eq, tenTo_eq, tenTo_eq, ← Nat.pow_add, ← Nat.pow_add]
      exact Nat.pow_le_pow_right (by decide) (by omega)
    refine Nat.not_le_of_lt high ?_
    calc twoTo 2101 * tenTo (-place).toNat
        ≤ twoTo (1076 + 1200) * tenTo (-place).toNat :=
          Nat.mul_le_mul_right _ (twoTo_le_twoTo (by decide))
      _ = twoTo 1076 * (tenTo (-place).toNat * twoTo 1200) := by
          rw [twoTo_add]
          ring
      _ ≤ twoTo 1076 * (tenTo (-place).toNat * tenTo 400) :=
          Nat.mul_le_mul_left _ (Nat.mul_le_mul_left _ scale)
      _ ≤ twoTo 1076 * (10 ^ (count - 1) * tenTo place.toNat) := Nat.mul_le_mul_left _ powers
      _ ≤ twoTo 1076 * (n * tenTo place.toNat) :=
          Nat.mul_le_mul_left _ (Nat.mul_le_mul_right _ atLeast)
      _ = n * (twoTo 1076 * tenTo place.toNat) := by ring
  · -- Below 10 ^ -400 it lies under all intervals.
    by_contra little
    have scale : twoTo 1076 ≤ tenTo 401 := twoTo_le_tenTo (by decide)
    have powers : 10 ^ count * tenTo place.toNat * tenTo 401 ≤ tenTo (-place).toNat := by
      rw [tenTo_eq, tenTo_eq, tenTo_eq, ← Nat.pow_add, ← Nat.pow_add]
      exact Nat.pow_le_pow_right (by decide) (by omega)
    refine Nat.not_lt_of_le low ?_
    calc n * (twoTo 1076 * tenTo place.toNat)
        < 10 ^ count * (twoTo 1076 * tenTo place.toNat) :=
          Nat.mul_lt_mul_of_pos_right below (Nat.mul_pos (twoTo_pos _) (tenTo_pos _))
      _ = 10 ^ count * tenTo place.toNat * twoTo 1076 := by ring
      _ ≤ 10 ^ count * tenTo place.toNat * tenTo 401 := Nat.mul_le_mul_left _ scale
      _ ≤ tenTo (-place).toNat := powers

end Binary64

namespace DecimalParts

open Binary64 (pos_of_admits size_of_admits nearestUnits_of_holds)

theorem nearest_of_admits {p : DecimalParts} {x : Binary64} (finite : x.isFinite = true)
    (nonzero : x.magnitude ≠ 0) (admits : x.interval.Admits p.significant p.power)
    (least : -416 ≤ p.power) : p.nearest = .ofMagnitude p.negative x.magnitude := by
  obtain ⟨high, low⟩ := size_of_admits finite nonzero admits least
  rw [nearest, if_neg (Nat.ne_of_gt (pos_of_admits nonzero admits)), if_neg (by omega),
    if_neg (by omega), Binary64.nearest]
  have quarters (n up unit : Nat) : 4 * (n * up * unit) = n * (4 * unit * up) := by ring
  refine nearestUnits_of_holds finite (tenTo_pos _) ?_ _
  rw [quarters]
  exact admits

end DecimalParts

end TradingStrategy
