import TradingStrategy.Proofs.Paths

set_option autoImplicit false

namespace TradingStrategy

namespace Text

theorem digitChar_of_isDigit {c : Char} (digit : c.isDigit = true) :
    c.toNat - '0'.toNat < 10 ∧ (c.toNat - '0'.toNat).digitChar = c := by
  have range : 48 ≤ c.toNat ∧ c.toNat ≤ 57 := by
    simpa [Char.isDigit, UInt32.le_iff_toNat_le] using digit
  have zero : '0'.toNat = 48 := rfl
  have small : c.toNat - '0'.toNat < 10 := by omega
  refine ⟨small, Char.toNat_inj.1 ?_⟩
  rw [Nat.toNat_digitChar_of_lt_ten small]
  omega

theorem toDigits_append_digits {cs : List Char} (digits : ∀ c ∈ cs, c.isDigit = true) {n : Nat}
    (positive : 0 < n) : Nat.toDigits 10 n ++ cs = Nat.toDigits 10 (Nat.ofDigitChars 10 cs n) := by
  induction cs generalizing n with
  | nil => simp
  | cons c rest ih =>
    rw [List.forall_mem_cons] at digits
    obtain ⟨small, digit⟩ := digitChar_of_isDigit digits.1
    have next := Nat.toDigits_append_toDigits (by decide) positive small
    rw [Nat.toDigits_of_lt_base small, digit] at next
    rw [Nat.ofDigitChars_cons, ← ih digits.2 (by omega), ← next, List.append_assoc]
    rfl

theorem eq_zeros_append_toDigits {cs : List Char} (digits : ∀ c ∈ cs, c.isDigit = true)
    (positive : 0 < Nat.ofDigitChars 10 cs 0) :
    ∃ k, cs = List.replicate k '0' ++ Nat.toDigits 10 (Nat.ofDigitChars 10 cs 0) := by
  induction cs with
  | nil => simp at positive
  | cons c rest ih =>
    rw [List.forall_mem_cons] at digits
    rw [Nat.ofDigitChars_cons, Nat.mul_zero, Nat.zero_add] at positive ⊢
    by_cases zero : c = '0'
    · subst zero
      obtain ⟨k, same⟩ := ih digits.2 positive
      exact ⟨k + 1, congrArg ('0' :: ·) same⟩
    · obtain ⟨small, digit⟩ := digitChar_of_isDigit digits.1
      have nonzero : 0 < c.toNat - '0'.toNat := by
        refine Nat.pos_of_ne_zero fun none => zero ?_
        rw [← digit, none]
        rfl
      have whole := toDigits_append_digits digits.2 nonzero
      rw [Nat.toDigits_of_lt_base small, digit] at whole
      exact ⟨0, whole⟩

end Text

namespace Period

structure Respelled (s : String) (n : UInt32) : Prop where
  positive : n ≠ 0
  spelled : ∃ (plus : List Char) (k : Nat), (plus = [] ∨ plus = ['+']) ∧
    s.toList = "prev-".toList ++ plus ++ List.replicate k '0' ++ Nat.toDigits 10 n.toNat
  other : s ≠ (prevN n).text

theorem digits_of_count? {cs : List Char} {n : UInt32} (read : count? cs = some n) :
    ∃ (plus : List Char) (k : Nat), (plus = [] ∨ plus = ['+']) ∧
      cs = plus ++ List.replicate k '0' ++ Nat.toDigits 10 n.toNat := by
  rw [count?, Option.bind_eq_some_iff] at read
  obtain ⟨m, found, made⟩ := read
  obtain ⟨positive, made⟩ := Option.ite_none_right_eq_some.1 made
  obtain ⟨value, below⟩ := Option.filter_eq_some_iff.1 found
  have same : n.toNat = m := by
    rw [← Option.some.inj made, UInt32.toNat_ofNat_of_lt' (by simpa using below)]
  -- What follows the plus, or all of it if there is none.
  have spelled (body : List Char) (value : Text.digits? body = some m) :
      ∃ k, body = List.replicate k '0' ++ Nat.toDigits 10 n.toNat := by
    rw [Text.digits?, Option.ite_none_right_eq_some] at value
    obtain ⟨⟨_, digits⟩, value⟩ := value
    obtain rfl := Option.some.inj value
    rw [same]
    exact Text.eq_zeros_append_toDigits (List.all_eq_true.1 digits) positive
  split at value
  next rest =>
    obtain ⟨k, rfl⟩ := spelled rest value
    exact ⟨['+'], k, .inr rfl, rfl⟩
  next =>
    obtain ⟨k, rfl⟩ := spelled cs value
    exact ⟨[], k, .inl rfl, rfl⟩

theorem text_or_respelled {s : String} {p : Period} (read : ofText? s = some p) :
    p.text = s ∨ ∃ n, p = .prevN n ∧ Respelled s n := by
  refine Classical.or_iff_not_imp_left.2 fun other => ?_
  have counted := counted_of_ofText? read
  have plain {q : Period} (letters : s.toList = q.text.toList) : q.text = s :=
    String.toList_inj.1 letters.symm
  rw [ofText?] at read
  unfold ofChars? at read
  split at read
  next letters =>
    obtain rfl := Option.some.inj read
    exact absurd (plain (letters.trans (by decide))) other
  next letters =>
    obtain rfl := Option.some.inj read
    exact absurd (plain (letters.trans (by decide))) other
  next digits letters =>
    obtain ⟨n, found, rfl⟩ := Option.map_eq_some_iff.1 read
    obtain ⟨plus, k, sign, rfl⟩ := digits_of_count? found
    refine ⟨n, rfl, fun zero => counted (congrArg _ zero), ⟨plus, k, sign, ?_⟩, Ne.symm other⟩
    rw [letters]
    simp
  next => contradiction

end Period

namespace Reference

variable {registry : Registry} {r : Reference}

/-- The forms that the path of a registered element can have: its name alone, or with all that its
capabilities call for. -/
structure Readable (registry : Registry) (r : Reference) : Prop where
  dotless : '.' ∉ r.base.toList
  counted : r.period ≠ some (.prevN 0)
  form : ∃ o, registry r.base = some o ∧
    if o.hasColumns then
      (∃ column, r.column = some column ∧ '.' ∉ column.toList) ∨
        (r.column = none ∧ r.period = none)
    else r.column = none ∧ (o.candleLocation = true ∨ r.period = none)

theorem Valid.readable (valid : r.Valid registry) : r.Readable registry := by
  obtain ⟨o, registered, fits⟩ := valid.fits
  refine ⟨valid.dotless, valid.counted, o, registered, ?_⟩
  unfold Fits at fits
  split at fits
  next column given =>
    rw [if_pos fits.1]
    exact .inl ⟨column, given, fits.2⟩
  next none =>
    rw [if_neg (by simp [fits.1])]
    exact ⟨none, fits.2⟩

theorem ofPath_dotless {base : String} (dotless : '.' ∉ base.toList) :
    ofPath registry base = bare base := by
  have segments : Text.segments '.' base = [base] := by
    have whole := Text.segments_intercalate (List.cons_ne_nil base [])
      (List.forall_mem_singleton.2 dotless)
    rwa [String.intercalate_singleton] at whole
  rw [ofPath, segments]
  dsimp only
  split
  next => rfl
  next => rfl

theorem Readable.ofPath_path (readable : r.Readable registry) : ofPath registry r.path = r := by
  obtain ⟨dotless, counted, o, registered, form⟩ := readable
  split at form
  next columns =>
    rcases form with ⟨column, given, plain⟩ | ⟨noColumn, noPeriod⟩
    · refine Valid.ofPath_path ⟨dotless, counted, o, registered, ?_⟩
      rw [Fits, given]
      exact ⟨columns, plain⟩
    · obtain ⟨base, column, period⟩ := r
      obtain rfl : column = none := noColumn
      obtain rfl : period = none := noPeriod
      exact (congrArg _ (path_bare base)).trans (ofPath_dotless dotless)
  next columns =>
    refine Valid.ofPath_path ⟨dotless, counted, o, registered, ?_⟩
    rw [Fits, form.1]
    exact ⟨by simpa using columns, form.2⟩

/-- The path ends in a count of candles that is spelled in another way, and only that changes. -/
def Recounted (path path' : String) : Prop :=
  ∃ (lead : List String) (last : String) (n : UInt32),
    Text.segments '.' path = lead ++ [last] ∧ Period.Respelled last n ∧
      path' = ".".intercalate (lead ++ [(Period.prevN n).text])

theorem path_ofSuffix? {base : String} {o : Capabilities} {suffix : List String}
    (read : ofSuffix? base o suffix = some r) :
    r.parts = base :: suffix ∨ ∃ (lead : List String) (last : String) (n : UInt32),
      base :: suffix = lead ++ [last] ∧ Period.Respelled last n ∧
        r.parts = lead ++ [(Period.prevN n).text] := by
  unfold ofSuffix? at read
  split at read
  next =>
    obtain rfl := Option.some.inj read
    exact .inl rfl
  next s =>
    split at read
    next =>
      obtain rfl := Option.some.inj read
      exact .inl rfl
    next =>
      obtain ⟨_, read⟩ := Option.ite_none_right_eq_some.1 read
      obtain ⟨p, found, rfl⟩ := Option.map_eq_some_iff.1 read
      rcases Period.text_or_respelled found with same | ⟨n, rfl, respelled⟩
      · exact .inl (by simp [parts, same])
      · exact .inr ⟨[base], s, n, rfl, respelled, rfl⟩
  next s t =>
    obtain ⟨_, read⟩ := Option.ite_none_right_eq_some.1 read
    obtain ⟨p, found, rfl⟩ := Option.map_eq_some_iff.1 read
    rcases Period.text_or_respelled found with same | ⟨n, rfl, respelled⟩
    · exact .inl (by simp [parts, same])
    · exact .inr ⟨[base, s], t, n, rfl, respelled, rfl⟩
  next => contradiction

theorem path_ofPath (registry : Registry) (path : String) :
    (ofPath registry path).path = path ∨ Recounted path (ofPath registry path).path := by
  have whole := Text.intercalate_segments path
  unfold ofPath
  split
  next => exact .inl (path_bare path)
  next base suffix found =>
    split
    next => exact .inl (path_bare path)
    next o registered =>
      cases read : ofSuffix? base o suffix with
      | none => exact .inl (path_bare path)
      | some r =>
        rw [Option.getD_some]
        rcases path_ofSuffix? read with same | ⟨lead, last, n, split, respelled, made⟩
        · refine .inl ?_
          rw [Reference.path, same, ← found, whole]
        · refine .inr ⟨lead, last, n, found.trans split, respelled, ?_⟩
          rw [Reference.path, made]

/-- A readable reference is read back from its path. Any path at all is read as a readable
reference or kept whole, is read the same way once it is written again, and is written as it was
but for the spelling of a count of candles at its end. -/
theorem path_codec (registry : Registry) :
    (∀ r : Reference, r.Readable registry → ofPath registry r.path = r) ∧
      ∀ path, (ofPath registry path = bare path ∨ (ofPath registry path).Readable registry) ∧
        ofPath registry (ofPath registry path).path = ofPath registry path ∧
        ((ofPath registry path).path = path ∨ Recounted path (ofPath registry path).path) :=
  ⟨fun _ readable => readable.ofPath_path, fun path =>
    ⟨(ofPath_eq_bare_or_valid registry path).imp_right Valid.readable,
      ofPath_path_ofPath registry path, path_ofPath registry path⟩⟩

def chartRegistry : Registry :=
  (Catalog.builtin.extend [("spotNF", .candle), ("ema9", .indicator [])]).registry

def seventhClose : Reference := ⟨"spotNF", some "close", some (.prevN 7)⟩

theorem seventhClose_codec :
    seventhClose.Readable chartRegistry ∧ ofPath chartRegistry "spotNF.close.prev-7" = seventhClose ∧
      ofPath chartRegistry "spotNF.close.prev-+007" = seventhClose ∧
      Recounted "spotNF.close.prev-+007" "spotNF.close.prev-7" ∧
      ofPath chartRegistry "ema9.close" = bare "ema9.close" := by
  obtain ⟨back, codec⟩ := path_codec chartRegistry
  have readable : seventhClose.Readable chartRegistry := by
    refine ⟨by decide, by decide, .candle, by decide +kernel, ?_⟩
    exact .inl ⟨"close", rfl, by decide⟩
  have path : seventhClose.path = "spotNF.close.prev-7" := by decide +kernel
  have read : ofPath chartRegistry "spotNF.close.prev-+007" = seventhClose := by decide +kernel
  have recounted := (codec "spotNF.close.prev-+007").2.2
  rw [read, path] at recounted
  have kept : ofPath chartRegistry "ema9.close" = bare "ema9.close" := by decide +kernel
  exact ⟨readable, path ▸ back seventhClose readable, read,
    recounted.resolve_left (by decide), kept⟩

end Reference

end TradingStrategy
