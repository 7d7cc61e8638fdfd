import Mathlib.Tactic.Ring
import TradingStrategy.Proofs.Codec

set_option autoImplicit false

namespace TradingStrategy

namespace Text

def placeValue : List Char → Nat
  | [] => 0
  | c :: rest => (c.toNat - '0'.toNat) * 10 ^ rest.length + placeValue rest

theorem ofDigitChars_eq (cs : List Char) (n : Nat) :
    Nat.ofDigitChars 10 cs n = n * 10 ^ cs.length + placeValue cs := by
  induction cs generalizing n with
  | nil => simp [placeValue]
  | cons c rest ih =>
    rw [Nat.ofDigitChars_cons, ih, placeValue, List.length_cons]
    ring

structure IsNumeral (cs : List Char) (n : Nat) : Prop where
  nonempty : cs ≠ []
  digits : ∀ c ∈ cs, c.isDigit = true
  value : placeValue cs = n

variable {cs : List Char} {n limit : Nat}

theorem IsNumeral.ofDigitChars_eq (numeral : IsNumeral cs n) : Nat.ofDigitChars 10 cs 0 = n := by
  rw [Text.ofDigitChars_eq, numeral.value, Nat.zero_mul, Nat.zero_add]

theorem IsNumeral.head?_ne_plus (numeral : IsNumeral cs n) : cs.head? ≠ some '+' := by
  intro plus
  have digit := numeral.digits _ (List.mem_of_mem_head? plus)
  exact absurd digit (by decide)

theorem digits?_eq_some_iff : digits? cs = some n ↔ IsNumeral cs n := by
  rw [digits?, Option.ite_none_right_eq_some, List.all_eq_true, Option.some.injEq]
  constructor
  · intro holds
    obtain ⟨⟨nonempty, digits⟩, value⟩ := holds
    rw [ofDigitChars_eq, Nat.zero_mul, Nat.zero_add] at value
    exact ⟨nonempty, digits, value⟩
  · intro numeral
    exact ⟨⟨numeral.nonempty, numeral.digits⟩, numeral.ofDigitChars_eq⟩

theorem natural?_eq_some_iff :
    natural? limit cs = some n ↔ n < limit ∧ ∃ sign digits, (sign = [] ∨ sign = ['+']) ∧
      cs = sign ++ digits ∧ IsNumeral digits n := by
  have below (body : List Char) :
      (digits? body).filter (· < limit) = some n ↔ IsNumeral body n ∧ n < limit := by
    rw [Option.filter_eq_some_iff, digits?_eq_some_iff, decide_eq_true_iff]
  unfold natural?
  split
  next rest =>
    rw [below]
    constructor
    · intro holds
      exact ⟨holds.2, ['+'], rest, .inr rfl, rfl, holds.1⟩
    · intro holds
      obtain ⟨small, sign, digits, rfl | rfl, same, numeral⟩ := holds
      · exact absurd (congrArg List.head? same).symm numeral.head?_ne_plus
      · obtain rfl : rest = digits := (List.cons.inj same).2
        exact ⟨numeral, small⟩
  next plain =>
    rw [below]
    constructor
    · intro holds
      exact ⟨holds.2, [], cs, .inl rfl, rfl, holds.1⟩
    · intro holds
      obtain ⟨small, sign, digits, rfl | rfl, same, numeral⟩ := holds
      · exact ⟨same ▸ numeral, small⟩
      · exact absurd same (plain digits)

theorem head?_toDigits_ne_zero (positive : 0 < n) : (Nat.toDigits 10 n).head? ≠ some '0' := by
  intro zero
  obtain ⟨rest, digits⟩ := List.head?_eq_some_iff.1 zero
  have value : Nat.ofDigitChars 10 rest 0 = n := by
    have whole := Nat.ofDigitChars_ten_toDigits (n := n)
    rwa [digits, Nat.ofDigitChars_cons] at whole
  have inner : ∀ c ∈ rest, c.isDigit = true := fun c member =>
    isDigit_of_mem_toDigits (n := n) (by rw [digits]; exact List.mem_cons_of_mem _ member)
  -- The digits would be some of themselves.
  obtain ⟨k, shorter⟩ := eq_zeros_append_toDigits inner (by omega)
  have lengths := congrArg List.length shorter
  rw [value, digits, List.length_append, List.length_cons] at lengths
  omega

theorem IsNumeral.eq_toDigits (numeral : IsNumeral cs n) (positive : 0 < n)
    (first : cs.head? ≠ some '0') : cs = Nat.toDigits 10 n := by
  have value := numeral.ofDigitChars_eq
  obtain ⟨k, whole⟩ := eq_zeros_append_toDigits numeral.digits (by omega)
  cases k with
  | zero => rwa [value] at whole
  | succ k => exact absurd (congrArg List.head? whole) first

end Text

namespace Period

inductive Spells : List Char → Period → Prop
  | current : Spells "current".toList .current
  | prev : Spells "prev".toList .prev
  | counted {sign digits : List Char} {n : Nat} (plus : sign = [] ∨ sign = ['+'])
    (numeral : Text.IsNumeral digits n) (least : 1 ≤ n) (most : n ≤ 2 ^ 32 - 1) :
    Spells ("prev-".toList ++ (sign ++ digits)) (.prevN (UInt32.ofNat n))

def Plain (cs : List Char) : Prop :=
  ∀ number, cs = "prev-".toList ++ number → number.head? ≠ some '+' ∧ number.head? ≠ some '0'

variable {cs : List Char} {p q : Period}

theorem count?_eq_some_iff {m : UInt32} :
    count? cs = some m ↔ ∃ n, 1 ≤ n ∧ n ≤ 2 ^ 32 - 1 ∧ m = UInt32.ofNat n ∧
      ∃ sign digits, (sign = [] ∨ sign = ['+']) ∧ cs = sign ++ digits ∧
        Text.IsNumeral digits n := by
  simp only [count?, Option.bind_eq_some_iff, Text.natural?_eq_some_iff,
    Option.ite_none_right_eq_some, Option.some.injEq]
  constructor
  · intro holds
    obtain ⟨n, ⟨small, spelled⟩, positive, rfl⟩ := holds
    exact ⟨n, positive, by omega, rfl, spelled⟩
  · intro holds
    obtain ⟨n, least, most, rfl, spelled⟩ := holds
    exact ⟨n, ⟨by omega, spelled⟩, least, rfl⟩

theorem ofChars?_eq_some_iff : ofChars? cs = some p ↔ Spells cs p := by
  constructor
  · intro read
    unfold ofChars? at read
    split at read
    next =>
      obtain rfl := Option.some.inj read
      exact .current
    next =>
      obtain rfl := Option.some.inj read
      exact .prev
    next number =>
      obtain ⟨m, found, rfl⟩ := Option.map_eq_some_iff.1 read
      obtain ⟨n, least, most, rfl, sign, digits, plus, rfl, numeral⟩ := count?_eq_some_iff.1 found
      exact .counted plus numeral least most
    next => contradiction
  · intro spells
    cases spells with
    | current => rfl
    | prev => rfl
    | @counted sign digits n plus numeral least most =>
      have found := count?_eq_some_iff.2
        ⟨n, least, most, rfl, sign, digits, plus, rfl, numeral⟩
      show (count? (sign ++ digits)).map prevN = _
      rw [found, Option.map_some]

theorem text_inj (same : p.text = q.text) : p = q := by
  have zero : ofText? (prevN 0).text = none := by decide
  by_cases first : p = .prevN 0
  · by_cases second : q = .prevN 0
    · rw [first, second]
    · rw [← first, same, ofText?_text second] at zero
      contradiction
  · by_cases second : q = .prevN 0
    · rw [← second, ← same, ofText?_text first] at zero
      contradiction
    · have read := ofText?_text first
      rw [same, ofText?_text second] at read
      exact (Option.some.inj read).symm

theorem Spells.chars_eq_iff (spells : Spells cs p) : p.chars = cs ↔ Plain cs := by
  cases spells with
  | current =>
    refine iff_of_true rfl fun number same => ?_
    have first : some 'c' = some 'p' := congrArg List.head? same
    exact absurd first (by decide)
  | prev =>
    refine iff_of_true rfl fun number same => ?_
    have lengths : 4 = number.length + 5 := congrArg List.length same
    omega
  | @counted sign digits n plus numeral least most =>
    have small : n < UInt32.size := Nat.lt_of_le_of_lt most (by decide)
    have count : (UInt32.ofNat n).toNat = n := UInt32.toNat_ofNat_of_lt' small
    show "prev-".toList ++ Nat.toDigits 10 (UInt32.ofNat n).toNat = _ ↔ _
    rw [count, List.append_right_inj]
    constructor
    · intro displayed number same
      obtain rfl : sign ++ digits = number := List.append_cancel_left same
      rw [← displayed]
      have written := Text.digits?_eq_some_iff.1 (Text.digits?_toDigits n)
      exact ⟨written.head?_ne_plus, Text.head?_toDigits_ne_zero least⟩
    · intro plain
      obtain ⟨unsigned, first⟩ := plain _ rfl
      rcases plus with rfl | rfl
      · exact (numeral.eq_toDigits least first).symm
      · exact absurd rfl unsigned

/-- A text is a period exactly if it is one of the two words or a count whose value is from 1 to
2^32 - 1, and then it is the period of that count. Every period but the one of count 0 is read back
from what it is displayed as, no two are displayed alike, and one is displayed as it was spelled
exactly if the spelling is plain. -/
theorem period_grammar :
    (∀ s p, ofText? s = some p ↔ Spells s.toList p) ∧
      (∀ p : Period, p ≠ .prevN 0 → ofText? p.text = some p) ∧
      (∀ p q : Period, p.text = q.text → p = q) ∧
      ∀ s p, ofText? s = some p → (p.text = s ↔ Plain s.toList) := by
  refine ⟨fun s p => ofChars?_eq_some_iff, fun p counted => ofText?_text counted,
    fun p q => text_inj, fun s p read => ?_⟩
  rw [← (ofChars?_eq_some_iff.1 read).chars_eq_iff, ← String.toList_inj, text, String.toList_ofList]

theorem period_grammar_limits :
    Spells "prev-4294967295".toList (.prevN 4294967295) ∧
      (∀ p, ¬ Spells "prev-4294967296".toList p) ∧
      Spells "prev-+0000000000007".toList (.prevN 7) ∧
      ¬ Plain "prev-+0000000000007".toList ∧
      ofText? (prevN 4294967295).text = some (.prevN 4294967295) ∧
      Plain "prev-4294967295".toList := by
  obtain ⟨grammar, back, _, displayed⟩ := period_grammar
  have largest : ofText? "prev-4294967295" = some (.prevN 4294967295) := by decide +kernel
  have padded : ofText? "prev-+0000000000007" = some (.prevN 7) := by decide +kernel
  have beyond : ofText? "prev-4294967296" = none := by decide +kernel
  refine ⟨(grammar _ _).1 largest, fun p spells => ?_, (grammar _ _).1 padded,
    mt (displayed _ _ padded).2 (by decide +kernel), back _ (by decide),
    (displayed _ _ largest).1 (by decide +kernel)⟩
  rw [(grammar "prev-4294967296" p).2 spells] at beyond
  contradiction

end Period

end TradingStrategy
