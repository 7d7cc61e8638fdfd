import TradingStrategy.Proofs.Density

set_option autoImplicit false

namespace TradingStrategy

theorem Edge.setSequence_setSequence (e : Edge) (n m : UInt32) :
    (e.setSequence n).setSequence m = e.setSequence m := rfl

theorem zipIdx_map_zipIdx {α β : Type} (f : α × Nat → β) (l : List α) :
    (l.zipIdx.map f).zipIdx = l.zipIdx.map fun e => (f e, e.2) := by
  apply List.ext_getElem <;> simp

namespace Graph

variable {g : Graph} {condition other : String}

/-- The order in which ranked edges, each with its place in the edge list, are numbered: from the
highest target on the canvas down, then by the numbers so far, then as listed. -/
def Precedes (g : Graph) (a b : Edge × Nat) : Prop :=
  g.height a.1.target < g.height b.1.target ∨
    g.height a.1.target = g.height b.1.target ∧
      (a.1.sequenceKey < b.1.sequenceKey ∨
        a.1.sequenceKey = b.1.sequenceKey ∧ a.2 < b.2)

theorem Precedes.asymm {a b : Edge × Nat} (before : g.Precedes a b) : ¬ g.Precedes b a := by
  unfold Precedes at before ⊢
  omega

theorem precedes_of_outranks {a b : Edge × Nat} (outranks : g.outranks a.1 b.1 = true)
    (tie : g.outranks b.1 a.1 = true → a.2 < b.2) : g.Precedes a b := by
  simp only [Graph.outranks, Ranked.le_iff, ranking] at outranks tie
  unfold Precedes
  omega

theorem placed_pairwise (g : Graph) (condition : String) :
    (g.placed condition).Pairwise g.Precedes := by
  have trans (a b c : Edge × Nat) (ab : g.outranks a.1 b.1 = true)
      (bc : g.outranks b.1 c.1 = true) : g.outranks a.1 c.1 = true := by
    simp only [outranks, Ranked.le_iff] at ab bc ⊢
    omega
  have total (a b : Edge × Nat) : (g.outranks a.1 b.1 || g.outranks b.1 a.1) = true := by
    simp only [outranks, Bool.or_eq_true, Ranked.le_iff]
    omega
  have listed := ((StableSort.zipIdx_increasing g.edges).filter
    (fun e => g.isRanked condition e.1)).imp fun {a b} less => show a.2 ≤ b.2 from Nat.le_of_lt less
  have sorted := StableSort.pairwise_mergeSort_of_pairwise trans total
    (fun a => Nat.le_refl a.2) listed
  have apart := List.pairwise_map.1 (g.places_nodup condition)
  refine (sorted.and apart).imp fun {a b} ordered => ?_
  obtain ⟨⟨outranks, tie⟩, distinct⟩ := ordered
  exact precedes_of_outranks outranks fun back => Nat.lt_of_le_of_ne (tie back) distinct

theorem length_placed (g : Graph) (condition : String) :
    (g.placed condition).length = (g.edges.filter (g.isRanked condition)).length := by
  have lengths := congrArg List.length (g.map_fst_placed condition)
  rwa [List.length_map, order, List.length_mergeSort] at lengths

theorem zipIdx_edges_numberFanOut (g : Graph) (condition : String) :
    (g.numberFanOut condition).edges.zipIdx =
      g.edges.zipIdx.map fun e => (g.renumber condition e, e.2) := by
  rw [numberFanOut_eq]
  exact zipIdx_map_zipIdx _ _

theorem isRanked_renumber (g : Graph) (condition other : String) (e : Edge × Nat) :
    g.isRanked other (g.renumber condition e) = g.isRanked other e.1 :=
  renumber_blind (fun _ _ => rfl) g condition e

theorem getElem?_numberFanOut (g : Graph) (condition : String) {e : Edge} {i : Nat}
    (present : g.edges[i]? = some e) :
    (g.numberFanOut condition).edges[i]? = some (g.renumber condition (e, i)) := by
  rw [numberFanOut_eq]
  simp [present]

theorem exists_placed {e : Edge} {i : Nat} (present : g.edges[i]? = some e)
    (ranked : g.isRanked condition e = true) :
    ∃ k, ∃ inside : k < (g.placed condition).length, (g.placed condition)[k] = (e, i) ∧
      (g.numberFanOut condition).edges[i]? = some (e.setSequence (UInt32.ofNat (k + 1))) := by
  have listed : (e, i) ∈ g.placed condition := mem_placed.2 ⟨present, ranked⟩
  obtain ⟨k, inside, atK⟩ := List.getElem_of_mem listed
  refine ⟨k, inside, atK, ?_⟩
  have numbered := g.renumber_placed condition inside e
  rw [atK] at numbered
  rw [getElem?_numberFanOut g condition present, numbered]

theorem placed_lt_iff {k l : Nat} (atK : k < (g.placed condition).length)
    (atL : l < (g.placed condition).length) :
    g.Precedes (g.placed condition)[k] (g.placed condition)[l] ↔ k < l := by
  have pairs := List.pairwise_iff_getElem.1 (g.placed_pairwise condition)
  constructor
  · intro before
    rcases Nat.lt_trichotomy k l with less | rfl | greater
    · exact less
    · exact absurd before before.asymm
    · exact absurd (pairs l k atL atK greater) before.asymm
  · exact pairs k l atK atL

section Again

variable (few : (g.edges.filter (g.isRanked condition)).length < UInt32.size)

include few

-- The new numbers order edges of one height as they were placed, so they are placed so again.
theorem placed_numberFanOut :
    (g.numberFanOut condition).placed condition =
      (g.placed condition).map fun e => (g.renumber condition e, e.2) := by
  have ranked : ((g.numberFanOut condition).edges.zipIdx.filter fun e =>
      (g.numberFanOut condition).isRanked condition e.1) =
      (g.edges.zipIdx.filter fun e => g.isRanked condition e.1).map
        fun e => (g.renumber condition e, e.2) := by
    rw [zipIdx_edges_numberFanOut, List.filter_map]
    exact congrArg _ (List.filter_congr fun e _ => g.isRanked_renumber condition condition e)
  -- Both sides arrange the same edges, so it is enough that both are in order.
  have perm : ((g.numberFanOut condition).placed condition).Perm
      ((g.placed condition).map fun e => (g.renumber condition e, e.2)) := by
    refine (List.mergeSort_perm _ _).trans ?_
    rw [ranked]
    exact (List.mergeSort_perm _ _).symm.map _
  have sorted : ((g.placed condition).map fun e => (g.renumber condition e, e.2)).Pairwise
      (g.numberFanOut condition).Precedes := by
    rw [List.pairwise_map, List.pairwise_iff_getElem]
    intro k l atK atL less
    have heights : g.height (g.placed condition)[k].1.target ≤
        g.height (g.placed condition)[l].1.target := by
      have before := (placed_lt_iff atK atL).2 less
      unfold Precedes at before
      omega
    have number {n : Nat} (inside : n < (g.placed condition).length) :
        (g.renumber condition (g.placed condition)[n]).sequenceKey = n + 1 := by
      have renumbered := g.renumber_placed condition inside (g.placed condition)[n].1
      have small : n + 1 < UInt32.size := by
        rw [length_placed] at inside
        omega
      rw [renumbered, Edge.sequenceKey_setSequence, UInt32.toNat_ofNat_of_lt' small]
    have kept (e : Edge × Nat) :
        (g.numberFanOut condition).height (g.renumber condition e).target =
          g.height e.1.target :=
      renumber_blind (f := fun e => g.height e.target) (fun _ _ => rfl) g condition e
    unfold Precedes
    dsimp only
    rw [kept, kept, number atK, number atL]
    omega
  refine perm.eq_of_pairwise ?_ (placed_pairwise _ _) sorted
  exact fun _ _ _ _ before after => absurd after before.asymm

theorem numberFanOut_twice :
    (g.numberFanOut condition).numberFanOut condition = g.numberFanOut condition := by
  have places : ((g.numberFanOut condition).placed condition).map Prod.snd =
      (g.placed condition).map Prod.snd := by
    rw [placed_numberFanOut few, List.map_map]
    rfl
  have again (e : Edge × Nat) :
      (g.numberFanOut condition).renumber condition (g.renumber condition e, e.2) =
        g.renumber condition e := by
    rw [renumber, places, renumber]
    cases ((g.placed condition).map Prod.snd).idxOf? e.2 with
    | some k => exact Edge.setSequence_setSequence _ _ _
    | none => rfl
  have twice : (g.edges.zipIdx.map fun e => (g.renumber condition e, e.2)).map
      ((g.numberFanOut condition).renumber condition) =
        g.edges.zipIdx.map (g.renumber condition) := by
    rw [List.map_map]
    exact List.map_congr_left fun e _ => again e
  rw [numberFanOut_eq (g.numberFanOut condition), zipIdx_edges_numberFanOut, twice, numberFanOut_eq]

end Again

theorem source_of_isRanked {e : Edge} (ranked : g.isRanked condition e = true) :
    e.source = condition :=
  (isFanOut_iff.1 (isRanked_iff.1 ranked).1).2

-- An edge has one source, so another fan-out is ranked as it was.
theorem renumber_numberFanOut (distinct : condition ≠ other) :
    (g.numberFanOut condition).renumber other = g.renumber other := by
  have listed : ((g.numberFanOut condition).edges.zipIdx.filter fun e =>
      (g.numberFanOut condition).isRanked other e.1) =
      g.edges.zipIdx.filter fun e => g.isRanked other e.1 := by
    rw [zipIdx_edges_numberFanOut, List.filter_map]
    refine (congrArg _ (List.filter_congr fun e _ =>
      g.isRanked_renumber condition other e)).trans ?_
    refine (List.map_congr_left fun e member => ?_).trans (List.map_id _)
    obtain ⟨inside, ranked⟩ := List.mem_filter.1 member
    have unranked : g.isRanked condition e.1 = false := by
      by_contra both
      have first := source_of_isRanked (by simpa using both)
      exact distinct (first.symm.trans (source_of_isRanked ranked))
    rw [renumber_of_not_ranked inside unranked]
    rfl
  have placed : (g.numberFanOut condition).placed other = g.placed other := by
    rw [Graph.placed, listed]
    rfl
  funext e
  rw [renumber, placed, renumber]

theorem numberFanOut_comm (g : Graph) (condition other : String) :
    (g.numberFanOut condition).numberFanOut other =
      (g.numberFanOut other).numberFanOut condition := by
  by_cases same : condition = other
  · rw [same]
  rw [numberFanOut_eq (g.numberFanOut condition), numberFanOut_eq (g.numberFanOut other),
    renumber_numberFanOut same, renumber_numberFanOut (Ne.symm same), zipIdx_edges_numberFanOut,
    zipIdx_edges_numberFanOut, List.map_map, List.map_map]
  refine congrArg (Graph.mk g.nodes) (List.map_congr_left fun e member => ?_)
  -- At most one of the two numbers the edge.
  by_cases ranked : g.isRanked condition e.1 = true
  · have unranked : g.isRanked other e.1 = false := by
      by_contra both
      have second : e.1.source = other := source_of_isRanked (by simpa using both)
      exact same ((source_of_isRanked ranked).symm.trans second)
    show g.renumber other (_, e.2) = g.renumber condition (g.renumber other e, e.2)
    rw [renumber_off member unranked, renumber_of_not_ranked member unranked]
  · have unranked : g.isRanked condition e.1 = false := by simpa using ranked
    show g.renumber other (g.renumber condition e, e.2) = g.renumber condition (_, e.2)
    rw [renumber_of_not_ranked member unranked, renumber_off member unranked]

structure Renumbered (g h : Graph) (condition : String) : Prop where
  nodes : h.nodes = g.nodes
  edges : List.Forall₂ (fun e f =>
    if g.isRanked condition e then ∃ n, f = e.setSequence n else f = e) g.edges h.edges
  once : (numbers (h.edges.filter (g.isRanked condition))).Perm
    ((List.range' 1 (g.edges.filter (g.isRanked condition)).length).map some)
  ordered : ∀ i j e f, g.edges[i]? = some e → g.edges[j]? = some f →
    g.isRanked condition e = true → g.isRanked condition f = true →
    ∃ n m, h.edges[i]? = some (e.setSequence n) ∧ h.edges[j]? = some (f.setSequence m) ∧
      (n < m ↔ g.Precedes (e, i) (f, j))

theorem forall₂_numberFanOut (g : Graph) (condition : String) :
    List.Forall₂ (fun e f =>
      if g.isRanked condition e then ∃ n, f = e.setSequence n else f = e)
      g.edges (g.numberFanOut condition).edges := by
  refine List.forall₂_iff_get.2 ⟨?_, fun i atLeft atRight => ?_⟩
  · rw [numberFanOut_eq]
    simp
  have present : g.edges[i]? = some g.edges[i] := List.getElem?_eq_getElem atLeft
  have result := getElem?_numberFanOut g condition present
  rw [List.getElem?_eq_getElem atRight, Option.some.injEq] at result
  rw [List.get_eq_getElem, List.get_eq_getElem, result]
  split
  next ranked =>
    obtain ⟨k, inside, atK, numbered⟩ := exists_placed present ranked
    rw [getElem?_numberFanOut g condition present] at numbered
    exact ⟨_, Option.some.inj numbered⟩
  next unranked =>
    have member : (g.edges[i], i) ∈ g.edges.zipIdx := List.mem_zipIdx_iff_getElem?.2 present
    exact renumber_of_not_ranked member (by simpa using unranked)

theorem renumbered_numberFanOut
    (few : (g.edges.filter (g.isRanked condition)).length < UInt32.size) :
    g.Renumbered (g.numberFanOut condition) condition := by
  refine ⟨rfl, g.forall₂_numberFanOut condition, ?_, ?_⟩
  · have perm := (g.ranked_numberFanOut_perm condition).map Edge.sequence
    rw [Edge.map_sequence_counted, order, List.length_mergeSort] at perm
    have numbers := perm.map (Option.map UInt32.toNat)
    rw [map_toNat_counting few, List.map_map] at numbers
    exact numbers
  · intro i j e f atI atJ rankedE rankedF
    obtain ⟨k, insideK, placedE, numberE⟩ := exists_placed atI rankedE
    obtain ⟨l, insideL, placedF, numberF⟩ := exists_placed atJ rankedF
    refine ⟨_, _, numberE, numberF, ?_⟩
    rw [length_placed] at insideK insideL
    have smallK : k + 1 < UInt32.size := by omega
    have smallL : l + 1 < UInt32.size := by omega
    rw [← placedE, ← placedF, placed_lt_iff, UInt32.lt_iff_toNat_lt,
      UInt32.toNat_ofNat_of_lt' smallK, UInt32.toNat_ofNat_of_lt' smallL, Nat.add_lt_add_iff_right]

/-- Numbering a fan-out gives its edges the numbers 1, 2, … in the order of their ranks and changes
nothing else. Doing it again changes nothing, and neither does the order in which the fan-outs of
two conditions are numbered. -/
theorem numberFanOut_laws (g : Graph) (condition : String)
    (few : (g.edges.filter (g.isRanked condition)).length < UInt32.size) :
    g.Renumbered (g.numberFanOut condition) condition ∧
      (g.numberFanOut condition).numberFanOut condition = g.numberFanOut condition ∧
      ∀ other, (g.numberFanOut condition).numberFanOut other =
        (g.numberFanOut other).numberFanOut condition :=
  ⟨renumbered_numberFanOut few, numberFanOut_twice few, g.numberFanOut_comm condition⟩

def ragged : Graph :=
  { nodes :=
      [⟨"entry", .condition, .origin⟩, ⟨"sell", .action, ⟨.zero, .ofInt 300⟩⟩,
        ⟨"buy", .action, ⟨.zero, .ofInt 150⟩⟩]
    edges :=
      [.action "entry" "sell", (Edge.action "entry" "gone").setSequence 7,
        (Edge.action "entry" "sell").setSequence 7, (Edge.action "entry" "buy").setSequence 7,
        .action "exit" "sell"] }

theorem ragged_laws :
    (ragged.edges.filter (ragged.isRanked "entry")).length < UInt32.size ∧
      ragged.Renumbered (ragged.numberFanOut "entry") "entry" ∧
      numbers (ragged.numberFanOut "entry").edges = [some 3, some 7, some 2, some 1, none] ∧
      (ragged.numberFanOut "entry").numberFanOut "entry" = ragged.numberFanOut "entry" ∧
      (ragged.numberFanOut "entry").numberFanOut "exit" =
        (ragged.numberFanOut "exit").numberFanOut "entry" := by
  have few : (ragged.edges.filter (ragged.isRanked "entry")).length < UInt32.size := by
    decide +kernel
  have places : (ragged.ranked "entry").map (·.place) = [3, 2, 0] := by
    have below : (Binary64.ofInt 150).rank < (Binary64.ofInt 300).rank := by decide +kernel
    have sorts : ragged.ranked "entry" =
        [⟨0, (Binary64.ofInt 300).rank, 0xFFFFFFFF⟩, ⟨2, (Binary64.ofInt 300).rank, 7⟩,
          ⟨3, (Binary64.ofInt 150).rank, 7⟩].mergeSort Ranked.le := rfl
    rw [sorts]
    simp [List.mergeSort, Ranked.le, Int.lt_asymm below, Int.ne_of_gt below]
  have given : numbers (ragged.numberFanOut "entry").edges =
      [some 3, some 7, some 2, some 1, none] := by
    rw [numberFanOut, places]
    decide +kernel
  obtain ⟨renumbered, again, apart⟩ := numberFanOut_laws ragged "entry" few
  exact ⟨few, renumbered, given, again, apart "exit"⟩

end Graph

end TradingStrategy
