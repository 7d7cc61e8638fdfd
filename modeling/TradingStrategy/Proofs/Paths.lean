import TradingStrategy.Element.Reference

set_option autoImplicit false

namespace TradingStrategy

namespace Text

theorem pieces_eq_splitOn (sep : Char) (cs : List Char) : pieces sep cs = cs.splitOn sep := by
  induction cs with
  | nil => rfl
  | cons c rest ih =>
    rw [pieces, List.splitOn_cons_eq_if_modifyHead, ih]
    by_cases same : c = sep
    · simp [same]
    · rw [if_neg same, if_neg (by simpa using same)]
      cases parts : rest.splitOn sep with
      | nil => exact absurd parts (List.splitOn_ne_nil sep rest)
      | cons first others => rfl

theorem segments_intercalate {parts : List String} (some : parts ≠ [])
    (plain : ∀ s ∈ parts, '.' ∉ s.toList) : segments '.' (".".intercalate parts) = parts := by
  have split : (['.'].intercalate (parts.map String.toList)).splitOn '.' =
      parts.map String.toList := by
    refine List.splitOn_intercalate '.' (fun cs member => ?_) (by simpa using some)
    obtain ⟨s, inside, rfl⟩ := List.mem_map.1 member
    exact plain s inside
  have dot : ".".toList = ['.'] := rfl
  rw [segments, pieces_eq_splitOn, String.toList_intercalate, dot, split, List.map_map]
  simp [Function.comp_def]

theorem intercalate_segments (s : String) : ".".intercalate (segments '.' s) = s := by
  have dot : ".".toList = ['.'] := rfl
  rw [← String.toList_inj, String.toList_intercalate, dot, segments, List.map_map,
    pieces_eq_splitOn]
  simp [Function.comp_def]

theorem not_mem_pieces (sep : Char) (cs : List Char) : ∀ piece ∈ pieces sep cs, sep ∉ piece := by
  induction cs with
  | nil => simp [pieces]
  | cons c rest ih =>
    rw [pieces]
    split
    next => simpa using ih
    next differs =>
      split
      next => simpa using Ne.symm differs
      next first others found =>
        rw [found] at ih
        simp only [List.forall_mem_cons] at ih ⊢
        exact ⟨by simpa [Ne.symm differs] using ih.1, ih.2⟩

theorem not_mem_segments {sep : Char} {s segment : String} (member : segment ∈ segments sep s) :
    sep ∉ segment.toList := by
  obtain ⟨piece, inside, rfl⟩ := List.mem_map.1 member
  simpa using not_mem_pieces sep s.toList piece inside

theorem head?_pieces (sep : Char) (cs : List Char) :
    (pieces sep cs).head? = some (cs.takeWhile (· ≠ sep)) := by
  induction cs with
  | nil => rfl
  | cons c rest ih =>
    rw [pieces]
    split
    next same => simp [same]
    next differs =>
      cases found : pieces sep rest with
      | nil => simp [found] at ih
      | cons first others =>
        rw [found, List.head?_cons, Option.some.injEq] at ih
        simp [differs, ih]

theorem head?_segments (sep : Char) (s : String) :
    (segments sep s).head? = some (beforeFirst sep s) := by
  rw [segments, List.head?_map, head?_pieces]
  rfl

theorem isDigit_of_mem_toDigits {n : Nat} {c : Char} (member : c ∈ Nat.toDigits 10 n) :
    c.isDigit = true := Nat.isDigit_of_mem_toDigits (by decide) (by decide) member

theorem digits?_toDigits (n : Nat) : digits? (Nat.toDigits 10 n) = some n := by
  have digits : (Nat.toDigits 10 n).all Char.isDigit = true :=
    List.all_eq_true.2 fun c => isDigit_of_mem_toDigits
  rw [digits?, if_pos ⟨Nat.toDigits_ne_nil, digits⟩,
    Nat.ofDigitChars_ten_toDigits]

theorem natural?_toDigits {limit n : Nat} (below : n < limit) :
    natural? limit (Nat.toDigits 10 n) = some n := by
  have plain : '+' ∉ Nat.toDigits 10 n := fun member =>
    absurd (isDigit_of_mem_toDigits member) (by decide)
  unfold natural?
  split
  next rest found => simp [found] at plain
  next => simp [digits?_toDigits, below]

end Text

namespace Period

theorem count?_toDigits {n : UInt32} (positive : n ≠ 0) :
    count? (Nat.toDigits 10 n.toNat) = some n := by
  have nonzero : 0 < n.toNat := Nat.pos_of_ne_zero fun zero => positive (UInt32.toNat_inj.1 zero)
  rw [count?, Text.natural?_toDigits n.toNat_lt, Option.bind_some, if_pos nonzero,
    UInt32.ofNat_toNat]

theorem ofText?_text {p : Period} (counted : p ≠ .prevN 0) : ofText? p.text = some p := by
  rw [ofText?, text, String.toList_ofList]
  cases p with
  | current => rfl
  | prev => rfl
  | prevN n =>
    have positive : n ≠ 0 := fun zero => counted (congrArg _ zero)
    show (count? (Nat.toDigits 10 n.toNat)).map prevN = _
    rw [count?_toDigits positive, Option.map_some]

theorem ne_zero_of_count? {cs : List Char} {n : UInt32} (read : count? cs = some n) : n ≠ 0 := by
  rw [count?, Option.bind_eq_some_iff] at read
  obtain ⟨m, found, positive⟩ := read
  have below : m < UInt32.size := by
    simpa using (Option.filter_eq_some_iff.1 found).2
  rw [Option.ite_none_right_eq_some] at positive
  obtain ⟨nonzero, made⟩ := positive
  rw [← Option.some.inj made]
  intro zero
  have same := UInt32.toNat_ofNat_of_lt' below
  rw [zero] at same
  exact absurd same (Nat.ne_of_lt nonzero)

theorem counted_of_ofText? {s : String} {p : Period} (read : ofText? s = some p) :
    p ≠ .prevN 0 := by
  intro zero
  rw [ofText?, zero] at read
  unfold ofChars? at read
  split at read
  · simp at read
  · simp at read
  · obtain ⟨n, found, same⟩ := Option.map_eq_some_iff.1 read
    exact ne_zero_of_count? found (Period.prevN.inj same)
  · simp at read

theorem dot_not_mem_text (p : Period) : '.' ∉ p.text.toList := by
  rw [text, String.toList_ofList]
  cases p with
  | current => decide
  | prev => decide
  | prevN n =>
    have digits : '.' ∉ Nat.toDigits 10 n.toNat := fun member =>
      absurd (Text.isDigit_of_mem_toDigits member) (by decide)
    show '.' ∉ "prev-".toList ++ Nat.toDigits 10 n.toNat
    rw [List.mem_append, not_or]
    exact ⟨by decide, digits⟩

end Period

namespace Reference

def Fits (o : Capabilities) (r : Reference) : Prop :=
  match r.column with
  | some column => o.hasColumns = true ∧ '.' ∉ column.toList
  | none => o.hasColumns = false ∧ (o.candleLocation = true ∨ r.period = none)

instance (o : Capabilities) (r : Reference) : Decidable (r.Fits o) := by
  unfold Fits
  split <;> infer_instance

structure Valid (registry : Registry) (r : Reference) : Prop where
  dotless : '.' ∉ r.base.toList
  counted : r.period ≠ some (.prevN 0)
  fits : ∃ o, registry r.base = some o ∧ r.Fits o

variable {registry : Registry} {r : Reference}

theorem Valid.dot_not_mem_parts (valid : r.Valid registry) : ∀ s ∈ r.parts, '.' ∉ s.toList := by
  obtain ⟨o, _, fits⟩ := valid.fits
  obtain ⟨base, column, period⟩ := r
  simp only [parts, List.forall_mem_cons, List.forall_mem_append, Option.mem_toList,
    Option.map_eq_some_iff]
  refine ⟨valid.dotless, ?_, ?_⟩
  · rintro s given
    have same : column = some s := given
    subst same
    exact fits.2
  · rintro _ ⟨p, _, rfl⟩
    exact p.dot_not_mem_text

theorem Valid.segments_path (valid : r.Valid registry) :
    Text.segments '.' r.path = r.parts :=
  Text.segments_intercalate (by simp [parts]) valid.dot_not_mem_parts

theorem Valid.ofPath_path (valid : r.Valid registry) : ofPath registry r.path = r := by
  obtain ⟨o, found, fits⟩ := valid.fits
  rw [ofPath, valid.segments_path]
  obtain ⟨base, column, period⟩ := r
  have read (p : Period) (given : period = some p) : Period.ofText? p.text = some p := by
    refine Period.ofText?_text fun zero => valid.counted ?_
    rw [given, zero]
  simp only [parts, found]
  cases column with
  | some column =>
    have columns : o.hasColumns = true := fits.1
    cases period with
    | none => simp [ofSuffix?, columns]
    | some p => simp [ofSuffix?, columns, read p rfl]
  | none =>
    have columns : o.hasColumns = false := fits.1
    cases period with
    | none => rfl
    | some p =>
      have location : o.candleLocation = true := by simpa using fits.2
      simp [ofSuffix?, columns, location, read p rfl]

theorem path_bare (path : String) : (bare path).path = path := by
  simp [Reference.path, parts, bare]

theorem ofPath_eq_bare_or_valid (registry : Registry) (path : String) :
    ofPath registry path = bare path ∨ (ofPath registry path).Valid registry := by
  have whole := Text.intercalate_segments path
  have plain : ∀ s ∈ Text.segments '.' path, '.' ∉ s.toList :=
    fun s member => Text.not_mem_segments member
  unfold ofPath
  split
  next => exact .inl rfl
  next base suffix found =>
    rw [found] at whole plain
    split
    next => exact .inl rfl
    next o registered =>
      have dotless := plain base List.mem_cons_self
      -- A suffix that the element cannot have leaves the path whole.
      match suffix with
      | [] =>
        rw [String.intercalate_singleton] at whole
        exact .inl (congrArg bare whole)
      | [s] =>
        have plainS := plain s (by simp)
        by_cases columns : o.hasColumns = true
        · simp only [ofSuffix?, columns, if_true, Option.getD_some]
          exact .inr ⟨dotless, by simp, o, registered, columns, plainS⟩
        · by_cases location : o.candleLocation = true
          · cases read : Period.ofText? s with
            | none => simp [ofSuffix?, columns, location, read]
            | some p =>
              simp only [ofSuffix?, columns, location, read, if_false, if_true, Bool.false_eq_true,
                Option.map_some, Option.getD_some]
              refine .inr ⟨dotless, ?_, o, registered, by simpa using columns, .inl location⟩
              exact fun same => Period.counted_of_ofText? read (Option.some.inj same)
          · simp [ofSuffix?, columns, location]
      | [s, t] =>
        have plainS := plain s (by simp)
        by_cases columns : o.hasColumns = true
        · cases read : Period.ofText? t with
          | none => simp [ofSuffix?, columns, read]
          | some p =>
            simp only [ofSuffix?, columns, read, if_true, Option.map_some, Option.getD_some]
            refine .inr ⟨dotless, ?_, o, registered, columns, plainS⟩
            exact fun same => Period.counted_of_ofText? read (Option.some.inj same)
        · simp [ofSuffix?, columns]
      | _ :: _ :: _ :: _ => exact .inl rfl

theorem ofPath_path_ofPath (registry : Registry) (path : String) :
    ofPath registry (ofPath registry path).path = ofPath registry path := by
  rcases ofPath_eq_bare_or_valid registry path with same | valid
  · rw [same, path_bare, same]
  · exact valid.ofPath_path

theorem Valid.beforeFirst_path (valid : r.Valid registry) :
    Text.beforeFirst '.' r.path = r.base := by
  have first := Text.head?_segments '.' r.path
  rw [valid.segments_path] at first
  exact (Option.some.inj first).symm

theorem registered_path_ofPath {path : String}
    (registered : (registry (Text.beforeFirst '.' path)).isSome = true) :
    (registry (Text.beforeFirst '.' (ofPath registry path).path)).isSome = true := by
  rcases ofPath_eq_bare_or_valid registry path with same | valid
  · rwa [same, path_bare]
  · obtain ⟨o, found, _⟩ := valid.fits
    rw [valid.beforeFirst_path, found]
    rfl

end Reference

end TradingStrategy
