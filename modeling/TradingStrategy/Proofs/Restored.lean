import TradingStrategy.Proofs.Blocks
import TradingStrategy.Proofs.Draws
import TradingStrategy.Proofs.Effects

set_option autoImplicit false

namespace TradingStrategy

namespace Row

theorem length_ofTokens (registry : Registry) (ts : List BlockPart) :
    (ofTokens registry ts).length = (BlockPart.comparisons ts).length := by
  rw [ofTokens_eq, ofBadged, List.length_map, ← BlockPart.map_fst_badged, List.length_map]

end Row

namespace Block

theorem map_mirror {α : Type} {f : Block → α}
    (same : ∀ (b : Block) (r : Relation), f { b with relation := r } = f b)
    (relations : List Relation) (bs : List Block) : (mirror relations bs).map f = bs.map f := by
  fun_induction mirror relations bs with
  | case1 => rfl
  | case2 b bs ih => rw [List.map_cons, List.map_cons, same, ih]
  | case3 r rs b bs ih => rw [List.map_cons, List.map_cons, same, ih]

theorem map_rows_mirror (relations : List Relation) (bs : List Block) :
    (mirror relations bs).map rows = bs.map rows := map_mirror (fun _ _ => rfl) relations bs

theorem length_mirror (relations : List Relation) (bs : List Block) :
    (mirror relations bs).length = bs.length := by
  fun_induction mirror relations bs with
  | case1 => rfl
  | case2 b bs ih => rw [List.length_cons, ih, List.length_cons]
  | case3 r rs b bs ih => rw [List.length_cons, ih, List.length_cons]

theorem map_relation_mirror {relations : List Relation} {bs : List Block}
    (count : bs.length = relations.length + 1) :
    (mirror relations bs).map relation = relations ++ [.and] := by
  induction relations generalizing bs with
  | nil =>
    obtain ⟨b, rfl⟩ := List.length_eq_one_iff.1 count
    rfl
  | cons r rest ih =>
    cases bs with
    | nil => simp at count
    | cons b others => exact congrArg (r :: ·) (ih (Nat.succ.inj count))

end Block

namespace SentCondition

open ConditionPart (blocks comparisons layout)

variable {registry : Registry} {source rest : IdSource}

theorem drawSubSections_ok {rows : List Row} {taken left : List String} {subs : List SubSection}
    (done : (drawSubSections rows taken).exec source = (.ok (subs, left), rest)) :
    subs.map SubSection.row = rows := by
  induction rows generalizing taken left source rest subs with
  | nil =>
    rw [drawSubSections, Drawing.pure_eq_ok_iff] at done
    rw [← (Prod.mk.inj done.1).1]
    rfl
  | cons row others ih =>
    simp only [drawSubSections, Drawing.bind_eq_ok_iff, Drawing.pure_eq_ok_iff] at done
    obtain ⟨⟨id, _⟩, _, _, ⟨later, _⟩, _, drawn, same, _⟩ := done
    rw [← (Prod.mk.inj same).1, List.map_cons, ih drawn]

theorem drawBlock_ok {rows : List Row} {taken left : List String} {block : Block}
    (done : (drawBlock rows taken).exec source = (.ok (block, left), rest)) :
    block.rows = rows := by
  simp only [drawBlock, Drawing.bind_eq_ok_iff, Drawing.pure_eq_ok_iff] at done
  obtain ⟨⟨subs, _⟩, _, drawn, ⟨id, _⟩, _, _, same, _⟩ := done
  rw [← (Prod.mk.inj same).1]
  exact drawSubSections_ok drawn

theorem drawBlocks_ok {parts : List ConditionPart} {pending : Option Relation} {started : Bool}
    {taken left : List String} {bs : List Block} {relations : List Relation}
    (done : (drawBlocks registry parts pending started taken).exec source =
      (.ok (bs, relations, left), rest)) :
    bs.map Block.rows = (layout parts pending started).1.map (Row.ofTokens registry) ∧
      relations = (layout parts pending started).2 := by
  induction parts generalizing pending started taken left source rest bs relations with
  | nil =>
    rw [drawBlocks, Drawing.pure_eq_ok_iff] at done
    obtain ⟨rfl, rfl, _⟩ := Prod.mk.inj done.1
    exact ⟨rfl, rfl⟩
  | cons part others ih =>
    cases part with
    | join r => exact ih done
    | block ts =>
      simp only [drawBlocks, Drawing.bind_eq_ok_iff] at done
      obtain ⟨⟨block, taken'⟩, middle, drawn, done⟩ := done
      have rows := drawBlock_ok drawn
      -- A block is passed over for want of rows, and it has a row for each comparison.
      have empty : block.subSections.isEmpty = true ↔ BlockPart.comparisons ts = [] := by
        rw [List.isEmpty_iff, ← List.length_eq_zero_iff, ← List.length_eq_zero_iff,
          ← Row.length_ofTokens registry, ← rows, Block.rows, List.length_map]
      split at done
      next nothing =>
        rw [layout, if_pos (empty.1 nothing)]
        exact ih done
      next something =>
        simp only [Drawing.bind_eq_ok_iff, Drawing.pure_eq_ok_iff] at done
        obtain ⟨⟨later, relations', _⟩, _, drawnLater, same, _⟩ := done
        obtain ⟨laterRows, rfl⟩ := ih drawnLater
        obtain ⟨rfl, rfl, _⟩ := Prod.mk.inj same
        rw [layout, if_neg (mt empty.2 something)]
        exact ⟨by simp [rows, laterRows], rfl⟩

theorem isEmpty_iff_of_drawBlocks {parts : List ConditionPart} {taken left : List String}
    {bs : List Block} {relations : List Relation}
    (done : (drawBlocks registry parts none false taken).exec source =
      (.ok (bs, relations, left), rest)) :
    bs.isEmpty = true ↔ (layout parts none false).1 = [] := by
  rw [List.isEmpty_iff, ← List.map_eq_nil_iff (f := Block.rows), (drawBlocks_ok done).1,
    List.map_eq_nil_iff]

theorem drawFirst_ok {taken : List String} {block : Block}
    (done : (drawFirst taken).exec source = (.ok block, rest)) : block.rows = [.blank] := by
  simp only [drawFirst, Drawing.bind_eq_ok_iff, Drawing.pure_eq_ok_iff] at done
  obtain ⟨_, _, _, _, _, _, rfl, _⟩ := done
  rfl

theorem restore_ok {c : SentCondition} {y : Condition}
    (done : (c.restore registry).exec source = (.ok y, rest)) :
    y.header = ⟨c.description, c.kind, c.maxEntries, c.checkTriggerOpen, c.checkPositionOpen⟩ ∧
      y.blockRelations = (layout c.parts none false).2 ∧
      (y.blocks.map Block.rows =
        if (layout c.parts none false).1 = [] then [[.blank]]
        else (layout c.parts none false).1.map (Row.ofTokens registry)) ∧
      ∃ bs, y.blocks = Block.mirror y.blockRelations bs := by
  rw [restore, Drawing.bind_eq_ok_iff] at done
  obtain ⟨⟨bs, relations, taken⟩, middle, drawn, done⟩ := done
  obtain ⟨rows, rfl⟩ := drawBlocks_ok drawn
  have empty := isEmpty_iff_of_drawBlocks drawn
  dsimp only at done
  split at done
  next nothing =>
    simp only [Drawing.bind_eq_ok_iff, Drawing.pure_eq_ok_iff] at done
    obtain ⟨_, _, ⟨first, _, firstDrawn, rfl, _⟩, rfl, _⟩ := done
    refine ⟨rfl, rfl, ?_, _, rfl⟩
    rw [if_pos (empty.1 nothing), Condition.mirrored, Block.map_rows_mirror, List.map_singleton,
      drawFirst_ok firstDrawn]
  next something =>
    simp only [Drawing.bind_eq_ok_iff, Drawing.pure_eq_ok_iff] at done
    obtain ⟨_, _, ⟨rfl, _⟩, rfl, _⟩ := done
    refine ⟨rfl, rfl, ?_, _, rfl⟩
    rw [if_neg (mt empty.2 something), Condition.mirrored, Block.map_rows_mirror, rows]

def blockIds (parts : List ConditionPart) : Nat :=
  ((blocks parts).map fun ts => (BlockPart.comparisons ts).length + 1).sum

-- A condition without comparisons gets a block with one row.
def idCount (c : SentCondition) : Nat :=
  blockIds c.parts + if (layout c.parts none false).1 = [] then 2 else 0

theorem drawSubSections_draws (rows : List Row) (taken : List String) :
    (drawSubSections rows taken).Draws taken rows.length Prod.snd := by
  induction rows generalizing taken with
  | nil => exact Drawing.draws_pure ([], taken) Prod.snd
  | cons row rest ih =>
    rw [drawSubSections, List.length_cons, Nat.add_comm]
    exact (Drawing.draws_uniqueAmong "sub" taken).bind fun p _ _ _ => (ih p.2).map fun _ => rfl

theorem drawBlock_draws (rows : List Row) (taken : List String) :
    (drawBlock rows taken).Draws taken (rows.length + 1) Prod.snd :=
  (drawSubSections_draws rows taken).bind fun p _ _ _ =>
    (Drawing.draws_uniqueAmong "block" p.2).map fun _ => rfl

theorem drawBlocks_draws (parts : List ConditionPart) (pending : Option Relation) (started : Bool)
    (taken : List String) :
    (drawBlocks registry parts pending started taken).Draws taken (blockIds parts)
      fun made => made.2.2 := by
  induction parts generalizing pending started taken with
  | nil =>
    exact Drawing.draws_pure ([], [], taken)
      fun made : List Block × List Relation × List String => made.2.2
  | cons part others ih =>
    cases part with
    | join r => exact ih (some r) started taken
    | block ts =>
      have count : blockIds (.block ts :: others) =
          (Row.ofTokens registry ts).length + 1 + blockIds others := by
        rw [Row.length_ofTokens]
        rfl
      rw [drawBlocks, count]
      refine (drawBlock_draws _ taken).bind fun p _ _ _ => ?_
      dsimp only
      split
      next => exact ih pending started p.2
      next => exact (ih none true p.2).map fun _ => rfl

theorem drawFirst_draws (taken : List String) :
    (drawFirst taken).Draws taken 2 fun _ => [] :=
  (Drawing.draws_uniqueAmong "block" taken).bind fun p _ _ _ =>
    (Drawing.draws_uniqueAmong "sub" p.2).forget.map fun _ => rfl

theorem restore_draws (c : SentCondition) :
    (c.restore registry).Draws [] c.idCount fun _ => [] := by
  rw [restore, idCount]
  refine (drawBlocks_draws c.parts none false []).bind fun made _ _ drawn => ?_
  have empty := isEmpty_iff_of_drawBlocks drawn
  dsimp only
  split
  next nothing =>
    rw [if_pos (empty.1 nothing)]
    exact ((drawFirst_draws made.2.2).map fun _ => rfl).map fun _ => rfl
  next something =>
    rw [if_neg (mt empty.2 something)]
    exact (Drawing.draws_pure made.1 fun _ => made.2.2).forget.map fun _ => rfl

end SentCondition

end TradingStrategy
