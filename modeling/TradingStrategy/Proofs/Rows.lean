import Mathlib.Data.List.Basic
import TradingStrategy.Condition.Compiled

set_option autoImplicit false

namespace TradingStrategy

namespace BlockPart

def alternate : List BlockPart → Bool
  | [.comparison _] => true
  | .comparison _ :: .join _ :: rest => alternate rest
  | _ => false

def comparisons (ts : List BlockPart) : List Comparison :=
  ts.filterMap fun
    | .comparison c => some c
    | .join _ => none

def lastJoin (badge : Relation) : List BlockPart → Relation
  | .join r :: rest => lastJoin r rest
  | _ => badge

def badged : List BlockPart → List (Comparison × Relation)
  | [] => []
  | .comparison c :: rest => (c, lastJoin .and rest) :: badged rest
  | .join _ :: rest => badged rest

theorem map_fst_badged (ts : List BlockPart) : (badged ts).map Prod.fst = comparisons ts := by
  induction ts with
  | nil => rfl
  | cons t rest ih =>
    cases t with
    | comparison c => simp [badged, comparisons, ih]
    | join r => simpa [badged, comparisons] using ih

theorem starts_of_alternate {ts : List BlockPart} (alternates : alternate ts = true) :
    ∃ c rest, ts = .comparison c :: rest := by
  cases ts with
  | nil => simp [alternate] at alternates
  | cons t rest =>
    cases t with
    | comparison c => exact ⟨c, rest, rfl⟩
    | join r => simp [alternate] at alternates

theorem lastJoin_of_alternate {ts : List BlockPart} (alternates : alternate ts = true)
    (badge : Relation) : lastJoin badge ts = badge := by
  obtain ⟨c, rest, rfl⟩ := starts_of_alternate alternates
  rfl

theorem badged_ne_nil {ts : List BlockPart} (alternates : alternate ts = true) :
    badged ts ≠ [] := by
  obtain ⟨c, rest, rfl⟩ := starts_of_alternate alternates
  simp [badged]

end BlockPart

namespace Row

open BlockPart (alternate badged comparisons lastJoin)

variable {registry : Registry}

theorem tokens_cons {p : Comparison × Relation} {rest : List (Comparison × Relation)}
    (some : rest ≠ []) : tokens (p :: rest) = .comparison p.1 :: .join p.2 :: tokens rest := by
  cases rest with
  | nil => exact absurd rfl some
  | cons q others => rfl

theorem tokens_badged {ts : List BlockPart} (alternates : alternate ts = true) :
    tokens (badged ts) = ts := by
  fun_induction alternate ts with
  | case1 c => rfl
  | case2 c r rest ih =>
    rw [badged, badged, tokens_cons (BlockPart.badged_ne_nil alternates), ih alternates, lastJoin,
      BlockPart.lastJoin_of_alternate alternates]
  | case3 => contradiction

theorem alternate_tokens {cs : List (Comparison × Relation)} (some : cs ≠ []) :
    alternate (tokens cs) = true := by
  induction cs with
  | nil => exact absurd rfl some
  | cons p rest ih =>
    cases rest with
    | nil => rfl
    | cons q others =>
      rw [tokens_cons (by simp), alternate]
      exact ih (by simp)

theorem comparisons_tokens (cs : List (Comparison × Relation)) :
    comparisons (tokens cs) = cs.map Prod.fst := by
  induction cs with
  | nil => rfl
  | cons p rest ih =>
    cases rest with
    | nil => rfl
    | cons q others =>
      rw [tokens_cons (by simp), List.map_cons, ← ih]
      rfl

theorem badge_ofComparison (c : Comparison) : (ofComparison registry c).badge = .and := by
  rw [ofComparison]
  dsimp only
  split
  · split
    · rfl
    · split <;> rfl
  · rfl

theorem setLastBadge_concat (badge : Relation) (rows : List Row) (r : Row) :
    setLastBadge badge (rows ++ [r]) = rows ++ [{ r with badge }] := by
  induction rows with
  | nil => rfl
  | cons first rest ih =>
    cases rest with
    | nil => rfl
    | cons second others => exact congrArg (first :: ·) ih

def ofBadged (registry : Registry) (cs : List (Comparison × Relation)) : List Row :=
  cs.map fun p => { ofComparison registry p.1 with badge := p.2 }

theorem foldl_take (ts : List BlockPart) (rows : List Row) (r : Row) :
    ts.foldl (take registry) (rows ++ [r]) =
      rows ++ { r with badge := lastJoin r.badge ts } :: ofBadged registry (badged ts) := by
  -- `r` is the row that the relations up to the next comparison go to.
  induction ts generalizing rows r with
  | nil => simp [lastJoin, badged, ofBadged]
  | cons t rest ih =>
    cases t with
    | comparison c =>
      rw [List.foldl_cons, take, ih (rows ++ [r]), badge_ofComparison]
      simp [lastJoin, badged, ofBadged]
    | join b =>
      rw [List.foldl_cons, take, setLastBadge_concat, ih]
      rfl

-- Relations before the first comparison find no row to go to.
theorem ofTokens_eq (registry : Registry) (ts : List BlockPart) :
    ofTokens registry ts = ofBadged registry (badged ts) := by
  rw [ofTokens]
  induction ts with
  | nil => rfl
  | cons t rest ih =>
    cases t with
    | comparison c =>
      have first : rest.foldl (take registry) ([] ++ [ofComparison registry c]) = _ :=
        foldl_take rest [] _
      rw [badge_ofComparison] at first
      exact first
    | join r => exact ih

theorem ofBadged_badged_tokens (cs : List (Comparison × Relation)) :
    ofBadged registry (badged (tokens cs)) = setLastBadge .and (ofBadged registry cs) := by
  induction cs with
  | nil => rfl
  | cons p rest ih =>
    cases rest with
    | nil => rfl
    | cons q others =>
      have alternates : alternate (tokens (q :: others)) = true := alternate_tokens (by simp)
      rw [tokens_cons (by simp), badged, badged, lastJoin,
        BlockPart.lastJoin_of_alternate alternates]
      exact congrArg _ ih

def sentLiteral (registry : Registry) (left text : String) : Value :=
  if (registry left).any Capabilities.takesNumbers then (numberOfText? text).getD (.string text)
  else .string text

def sentRight? (registry : Registry) (r : Row) (left : String) : Option Value :=
  match r.literal with
  | some text => some (sentLiteral registry left text)
  | none => r.right?.bind fun right =>
    if isEnumerated left then some (.string right.base)
    else if lacksColumn registry right then none
    else some (.string right.path)

def comparison? (registry : Registry) (r : Row) : Option Comparison := do
  let left ← r.left?
  let operator ← r.operator
  if lacksColumn registry left then none
  else (r.sentRight? registry left.base).map (⟨left.path, operator, ·⟩)

theorem base_of_right? {r : Row} {right : Reference} (given : r.right? = some right) :
    r.rhs.base = some right.base := by
  obtain ⟨found, _⟩ := Option.filter_eq_some_iff.1 given
  obtain ⟨base, side, rfl⟩ := Option.map_eq_some_iff.1 found
  exact side

theorem compileRight?_of_sentRight? {r : Row} {left : String} {v : Value}
    (sent : r.sentRight? registry left = some v) : r.compileRight? registry left = some v := by
  rw [sentRight?] at sent
  rw [compileRight?]
  cases literal : r.literal with
  | some text =>
    simp only [literal, Option.some.injEq] at sent
    rw [← sent, sentLiteral]
    dsimp only
    split <;> rfl
  | none =>
    simp only [literal, Option.bind_eq_some_iff] at sent
    obtain ⟨right, given, sent⟩ := sent
    dsimp only
    split at sent
    next enumerated => rw [if_pos enumerated, base_of_right? given, ← sent]; rfl
    next plain =>
      rw [if_neg plain, given, ← (Option.ite_none_left_eq_some.1 sent).2]
      rfl

-- What makes a row complete is all that its comparison needs.
theorem isSome_comparison? (r : Row) :
    (r.comparison? registry).isSome = true ↔ r.progress registry = .complete := by
  rw [comparison?, progress]
  -- The cases are the questions of `progress` in their order.
  cases leftGiven : r.left? with
  | none => split <;> simp
  | some left =>
    have filled : r.isBlank = false := by
      obtain ⟨base, given, _⟩ := Option.map_eq_some_iff.1 leftGiven
      simp [isBlank, given]
    cases r.operator with
    | none => simp [filled]
    | some operator =>
      by_cases lacks : lacksColumn registry left = true
      · simp [filled, lacks]
      · cases literal : r.literal with
        | some text => simp [filled, lacks, sentRight?, literal]
        | none =>
          cases rightGiven : r.right? with
          | none => simp [filled, lacks, sentRight?, literal, rightGiven]
          | some right =>
            by_cases enumerated : isEnumerated left.base = true
            · simp [filled, lacks, sentRight?, literal, rightGiven, enumerated]
            · by_cases missing : lacksColumn registry right = true
              · simp [filled, lacks, sentRight?, literal, rightGiven, enumerated, missing]
              · simp [filled, lacks, sentRight?, literal, rightGiven, enumerated, missing]

theorem compile?_of_comparison? {r : Row} {c : Comparison}
    (found : r.comparison? registry = some c) : r.compile? registry = some c := by
  simp only [comparison?, Option.bind_eq_bind, Option.bind_eq_some_iff,
    Option.ite_none_left_eq_some, Option.map_eq_some_iff] at found
  obtain ⟨left, leftGiven, operator, operatorGiven, _, v, sent, rfl⟩ := found
  simp [compile?, leftGiven, operatorGiven, compileRight?_of_sentRight? sent]

def sent? (registry : Registry) (r : Row) : Option (Comparison × Relation) :=
  (r.comparison? registry).map (·, r.badge)

theorem isSome_sent? (r : Row) :
    (r.sent? registry).isSome = true ↔ r.progress registry = .complete := by
  rw [sent?, Option.isSome_map, isSome_comparison?]

theorem mapM_complete (rows : List Row) :
    ((rows.filter fun r => r.progress registry = .complete).mapM fun r =>
        (r.compile? registry).map fun c => (c, r.badge)) =
      some (rows.filterMap (sent? registry)) := by
  induction rows with
  | nil => rfl
  | cons r rest ih =>
    cases found : r.comparison? registry with
    | none =>
      have incomplete : ¬ r.progress registry = .complete := by
        simp [← isSome_comparison?, found]
      rw [List.filter_cons_of_neg (by simpa using incomplete), ih]
      simp [sent?, found]
    | some c =>
      have complete : r.progress registry = .complete := by
        simp [← isSome_comparison?, found]
      rw [List.filter_cons_of_pos (by simpa using complete), List.mapM_cons, ih]
      simp [sent?, found, compile?_of_comparison? found]

theorem filter_complete_eq_nil_iff (rows : List Row) :
    (rows.filter fun r => r.progress registry = .complete) = [] ↔
      rows.filterMap (sent? registry) = [] := by
  simp [List.filter_eq_nil_iff, List.filterMap_eq_nil_iff, ← isSome_sent?]

theorem compileAll?_eq_some_iff {rows : List Row} {ts : List BlockPart} :
    compileAll? registry rows = some ts ↔
      (∀ r ∈ rows, r.progress registry ≠ .started) ∧ rows.filterMap (sent? registry) ≠ [] ∧
        tokens (rows.filterMap (sent? registry)) = ts := by
  simp only [compileAll?, mapM_complete, Option.map_some, List.isEmpty_iff, Bool.or_eq_true,
    filter_complete_eq_nil_iff, Option.ite_none_left_eq_some, Option.some.injEq, not_or,
    List.any_eq_true, decide_eq_true_eq, not_exists, not_and, and_assoc]

theorem alternate_of_compileAll? {rows : List Row} {ts : List BlockPart}
    (compiled : compileAll? registry rows = some ts) : alternate ts = true := by
  obtain ⟨_, some, rfl⟩ := compileAll?_eq_some_iff.1 compiled
  exact alternate_tokens some

end Row

end TradingStrategy
