import TradingStrategy.Proofs.ReadBack

set_option autoImplicit false

namespace TradingStrategy

namespace ConditionPart

def alternate : List ConditionPart → Bool
  | [.block ts] => BlockPart.alternate ts
  | .block ts :: .join _ :: rest => BlockPart.alternate ts && alternate rest
  | _ => false

def blocks (parts : List ConditionPart) : List (List BlockPart) :=
  parts.filterMap fun
    | .block ts => some ts
    | .join _ => none

def joins (parts : List ConditionPart) : List Relation :=
  parts.filterMap fun
    | .block _ => none
    | .join r => some r

@[simp] theorem blocks_nil : blocks [] = [] := rfl

@[simp] theorem blocks_block (ts : List BlockPart) (rest : List ConditionPart) :
    blocks (.block ts :: rest) = ts :: blocks rest := rfl

@[simp] theorem blocks_join (r : Relation) (rest : List ConditionPart) :
    blocks (.join r :: rest) = blocks rest := rfl

@[simp] theorem joins_nil : joins [] = [] := rfl

@[simp] theorem joins_block (ts : List BlockPart) (rest : List ConditionPart) :
    joins (.block ts :: rest) = joins rest := rfl

@[simp] theorem joins_join (r : Relation) (rest : List ConditionPart) :
    joins (.join r :: rest) = r :: joins rest := rfl

theorem alternate_of_mem_blocks {parts : List ConditionPart} (alternates : alternate parts = true) :
    ∀ ts ∈ blocks parts, BlockPart.alternate ts = true := by
  fun_induction alternate parts with
  | case1 ts => simpa using alternates
  | case2 ts r rest ih =>
    rw [Bool.and_eq_true] at alternates
    simpa using ⟨alternates.1, ih alternates.2⟩
  | case3 => contradiction

theorem length_joins {parts : List ConditionPart} (alternates : alternate parts = true) :
    (blocks parts).length = (joins parts).length + 1 := by
  fun_induction alternate parts with
  | case1 ts => rfl
  | case2 ts r rest ih =>
    rw [Bool.and_eq_true] at alternates
    simp [ih alternates.2]
  | case3 => contradiction

/-- The blocks with a comparison and the relations between them. A block stands after the last
relation since the block before, or after `and` if there is none; `pending` and `started` are as in
drawing. -/
def layout : List ConditionPart → Option Relation → Bool → List (List BlockPart) × List Relation
  | [], _, _ => ([], [])
  | .join r :: rest, _, started => layout rest (some r) started
  | .block ts :: rest, pending, started =>
    if BlockPart.comparisons ts = [] then layout rest pending started
    else
      let later := layout rest none true
      (ts :: later.1, if started then pending.getD .and :: later.2 else later.2)

theorem fst_layout (parts : List ConditionPart) (pending : Option Relation) (started : Bool) :
    (layout parts pending started).1 =
      (blocks parts).filter fun ts => BlockPart.comparisons ts ≠ [] := by
  induction parts generalizing pending started with
  | nil => rfl
  | cons part rest ih =>
    cases part with
    | join r => exact ih (some r) started
    | block ts =>
      by_cases empty : BlockPart.comparisons ts = []
      · rw [layout, if_pos empty, ih, blocks_block, List.filter_cons_of_neg (by simpa using empty)]
      · rw [layout, if_neg empty, blocks_block, List.filter_cons_of_pos (by simpa using empty)]
        exact congrArg (ts :: ·) (ih none true)

theorem comparisons_ne_nil {ts : List BlockPart} (alternates : BlockPart.alternate ts = true) :
    BlockPart.comparisons ts ≠ [] := by
  obtain ⟨c, rest, rfl⟩ := BlockPart.starts_of_alternate alternates
  simp [BlockPart.comparisons]

theorem layout_pending {parts : List ConditionPart} (alternates : alternate parts = true)
    (r : Relation) : layout parts (some r) true = (blocks parts, r :: joins parts) := by
  fun_induction alternate parts generalizing r with
  | case1 ts => simp [layout, comparisons_ne_nil alternates]
  | case2 ts r' rest ih =>
    rw [Bool.and_eq_true] at alternates
    simp [layout, comparisons_ne_nil alternates.1, ih alternates.2]
  | case3 => contradiction

theorem layout_of_alternate {parts : List ConditionPart} (alternates : alternate parts = true) :
    layout parts none false = (blocks parts, joins parts) := by
  unfold alternate at alternates
  split at alternates
  next ts => simp [layout, comparisons_ne_nil alternates]
  next ts r rest =>
    rw [Bool.and_eq_true] at alternates
    simp [layout, comparisons_ne_nil alternates.1, layout_pending alternates.2]
  next => contradiction

open Condition (emitted joined)

theorem map_snd_emitted (registry : Registry) (bs : List Block) :
    (emitted registry bs).map Prod.snd =
      (bs.map Block.rows).filterMap (Row.compileAll? registry) := by
  conv => rhs; rw [← List.zipIdx_map_fst 0 bs]
  rw [emitted, List.map_filterMap, List.filterMap_map, List.filterMap_map]
  refine List.filterMap_congr fun p _ => ?_
  simp only [Function.comp_def]
  cases Row.compileAll? registry p.1.rows <;> rfl

theorem alternate_of_mem_emitted {registry : Registry} {bs : List Block} {p : Nat × List BlockPart}
    (member : p ∈ emitted registry bs) : BlockPart.alternate p.2 = true := by
  obtain ⟨_, _, made⟩ := List.mem_filterMap.1 member
  obtain ⟨ts, compiled, rfl⟩ := Option.map_eq_some_iff.1 made
  exact Row.alternate_of_compileAll? compiled

def following (relations : List Relation) : List (Nat × List BlockPart) → List ConditionPart
  | [] => []
  | (i, ts) :: rest =>
    .join (relations[i - 1]?.getD .and) :: .block ts :: following relations rest

theorem joined_cons (relations : List Relation) (p : Nat × List BlockPart)
    (rest : List (Nat × List BlockPart)) :
    joined relations (p :: rest) = .block p.2 :: following relations rest := by
  rw [joined]
  induction rest with
  | nil => rfl
  | cons q rest ih => exact congrArg _ (congrArg _ (List.cons.inj ih).2)

theorem blocks_following (relations : List Relation) (sent : List (Nat × List BlockPart)) :
    blocks (following relations sent) = sent.map Prod.snd := by
  induction sent with
  | nil => rfl
  | cons p rest ih => exact congrArg (p.2 :: ·) ih

theorem blocks_joined (relations : List Relation) (sent : List (Nat × List BlockPart)) :
    blocks (joined relations sent) = sent.map Prod.snd := by
  cases sent with
  | nil => rfl
  | cons p rest => rw [joined_cons, blocks_block, blocks_following, List.map_cons]

theorem alternate_following {relations : List Relation} {ts : List BlockPart}
    {sent : List (Nat × List BlockPart)} (first : BlockPart.alternate ts = true)
    (each : ∀ p ∈ sent, BlockPart.alternate p.2 = true) :
    alternate (.block ts :: following relations sent) = true := by
  induction sent generalizing ts with
  | nil => exact first
  | cons p rest ih =>
    rw [List.forall_mem_cons] at each
    rw [following, alternate, first, ih each.1 each.2, Bool.and_self]

theorem alternate_joined {relations : List Relation} {sent : List (Nat × List BlockPart)}
    (some : sent ≠ []) (each : ∀ p ∈ sent, BlockPart.alternate p.2 = true) :
    alternate (joined relations sent) = true := by
  cases sent with
  | nil => exact absurd rfl some
  | cons p rest =>
    rw [List.forall_mem_cons] at each
    rw [joined_cons]
    exact alternate_following each.1 each.2

theorem following_joins {parts : List ConditionPart} (alternates : alternate parts = true)
    (before : List Relation) (r : Relation) :
    following (before ++ r :: joins parts)
      (((blocks parts).zipIdx (before.length + 1)).map Prod.swap) = .join r :: parts := by
  -- A block finds its relation by its own place, so the relations before it are kept as `before`.
  fun_induction alternate parts generalizing before r with
  | case1 ts => simp [following]
  | case2 ts r' rest ih =>
    rw [Bool.and_eq_true] at alternates
    have later := ih alternates.2 (before ++ [r]) r'
    rw [List.append_assoc, List.singleton_append, List.length_append] at later
    rw [blocks_block, blocks_join, joins_block, joins_join, List.zipIdx_cons, List.map_cons,
      Prod.swap_prod_mk, following]
    simpa using later
  | case3 => contradiction

theorem joined_joins {parts : List ConditionPart} (alternates : alternate parts = true) :
    joined (joins parts) ((blocks parts).zipIdx.map Prod.swap) = parts := by
  unfold alternate at alternates
  split at alternates
  next ts => rfl
  next ts r rest =>
    rw [Bool.and_eq_true] at alternates
    rw [blocks_block, blocks_join, joins_block, joins_join, List.zipIdx_cons, List.map_cons,
      joined_cons]
    exact congrArg (_ :: ·) (following_joins alternates.2 [] r)
  next => contradiction

theorem joins_following (before : List Relation) {relations : List Relation}
    {tss : List (List BlockPart)} (count : relations.length = tss.length) :
    joins (following (before ++ relations) ((tss.zipIdx (before.length + 1)).map Prod.swap)) =
      relations := by
  induction tss generalizing before relations with
  | nil =>
    rw [List.eq_nil_of_length_eq_zero count]
    rfl
  | cons ts rest ih =>
    cases relations with
    | nil => simp at count
    | cons r others =>
      have later := ih (before ++ [r]) (Nat.succ.inj count)
      rw [List.append_assoc, List.singleton_append, List.length_append] at later
      rw [List.zipIdx_cons, List.map_cons, Prod.swap_prod_mk, following]
      simpa using later

theorem joins_joined {relations : List Relation} {tss : List (List BlockPart)}
    (count : tss.length = relations.length + 1) :
    joins (joined relations (tss.zipIdx.map Prod.swap)) = relations := by
  cases tss with
  | nil => simp at count
  | cons ts rest =>
    rw [List.zipIdx_cons, List.map_cons, joined_cons, joins_block]
    exact joins_following [] (Nat.succ.inj count).symm

theorem emitted_eq (registry : Registry) (bs : List Block) :
    emitted registry bs =
      (bs.map Block.rows).zipIdx.filterMap fun p =>
        (Row.compileAll? registry p.1).map fun ts => (p.2, ts) := by
  rw [List.zipIdx_map, List.filterMap_map]
  rfl

def comparisons (parts : List ConditionPart) : List Comparison :=
  (blocks parts).flatMap BlockPart.comparisons

/-- Blocks that are read from the parts are sent as the parts exactly if every comparison comes
back. -/
theorem joined_emitted_iff {registry : Registry} {parts : List ConditionPart}
    (alternates : alternate parts = true) {bs : List Block}
    (made : bs.map Block.rows = (blocks parts).map (Row.ofTokens registry)) :
    joined (joins parts) (emitted registry bs) = parts ↔
      ∀ c ∈ comparisons parts, c.ReadsBack registry := by
  have each : (∀ ts ∈ blocks parts,
        Row.compileAll? registry (Row.ofTokens registry ts) = some (id ts)) ↔
      ∀ c ∈ comparisons parts, c.ReadsBack registry := by
    simp only [comparisons, List.mem_flatMap, forall_exists_index, and_imp]
    constructor
    · intro all c ts member inside
      exact (Row.compileAll?_ofTokens_iff (alternate_of_mem_blocks alternates ts member)).1
        (all ts member) c inside
    · intro all ts member
      exact (Row.compileAll?_ofTokens_iff (alternate_of_mem_blocks alternates ts member)).2
        fun c inside => all c ts member inside
  rw [← each]
  constructor
  · intro same
    -- Parts that are the same have the same blocks, and a block that is not sent would be missing.
    have sent := congrArg blocks same
    rw [blocks_joined, map_snd_emitted, made, List.filterMap_map] at sent
    exact List.filterMap_eq_map_iff_forall_eq_some.1 (sent.trans (List.map_id _).symm)
  · intro all
    have sent : emitted registry bs = (blocks parts).zipIdx.map Prod.swap := by
      rw [emitted_eq, made, List.zipIdx_map, List.filterMap_map,
        List.filterMap_eq_map_iff_forall_eq_some]
      intro p member
      have back := all p.1 (List.fst_mem_of_mem_zipIdx member)
      rw [Function.comp_apply, Prod.map_fst, back]
      rfl
    rw [sent, joined_joins alternates]

end ConditionPart

end TradingStrategy
