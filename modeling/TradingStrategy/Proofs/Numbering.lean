import TradingStrategy.Graph.FanOut
import TradingStrategy.Proofs.StableSort

set_option autoImplicit false

namespace TradingStrategy

def Edge.unnumbered (e : Edge) : Edge :=
  if e.isAction then { e with data := some { e.data.getD {} with sequence := none } } else e

def Edge.counted (order : List Edge) : List Edge :=
  order.mapIdx fun k e => e.setSequence (UInt32.ofNat (k + 1))

namespace Edge

@[simp] theorem isAction_setSequence (e : Edge) (n : UInt32) :
    (e.setSequence n).isAction = e.isAction := rfl

@[simp] theorem isCondition_setSequence (e : Edge) (n : UInt32) :
    (e.setSequence n).isCondition = e.isCondition := rfl

@[simp] theorem source_setSequence (e : Edge) (n : UInt32) :
    (e.setSequence n).source = e.source := rfl

@[simp] theorem target_setSequence (e : Edge) (n : UInt32) :
    (e.setSequence n).target = e.target := rfl

@[simp] theorem sequence_setSequence (e : Edge) (n : UInt32) :
    (e.setSequence n).sequence = some n := rfl

@[simp] theorem sequenceKey_setSequence (e : Edge) (n : UInt32) :
    (e.setSequence n).sequenceKey = n.toNat := rfl

theorem unnumbered_setSequence (e : Edge) (n : UInt32) (action : e.isAction = true) :
    (e.setSequence n).unnumbered = e.unnumbered := by
  simp [unnumbered, action]
  simp [setSequence]

def notAfter (a b : Edge) : Bool := a.sequenceKey ≤ b.sequenceKey

theorem notAfter_trans (a b c : Edge) (ab : a.notAfter b = true) (bc : b.notAfter c = true) :
    a.notAfter c = true := by
  simp only [notAfter, decide_eq_true_eq] at ab bc ⊢
  omega

theorem notAfter_total (a b : Edge) : (a.notAfter b || b.notAfter a) = true := by
  simp only [notAfter, Bool.or_eq_true, decide_eq_true_eq]
  omega

theorem sequenceKey_le (e : Edge) : e.sequenceKey ≤ 0xFFFFFFFF := by
  unfold sequenceKey
  cases e.sequence with
  | none => exact Nat.le_refl _
  | some n =>
    have bound := n.toNat_lt
    simp only [Option.map_some, Option.getD_some]
    omega

@[simp] theorem length_counted (order : List Edge) : (counted order).length = order.length :=
  List.length_mapIdx

theorem map_target_counted (order : List Edge) :
    (counted order).map target = order.map target := by
  apply List.ext_getElem <;> simp [counted]

theorem map_sequence_counted (order : List Edge) :
    (counted order).map sequence =
      (List.range order.length).map fun k => some (UInt32.ofNat (k + 1)) := by
  apply List.ext_getElem <;> simp [counted]

theorem counted_increasing (order : List Edge) (bound : order.length < UInt32.size) :
    (counted order).Pairwise (fun a b => a.sequenceKey < b.sequenceKey) := by
  rw [List.pairwise_iff_getElem]
  intro i j atI atJ less
  rw [length_counted] at atI atJ
  have small : i + 1 < UInt32.size := by omega
  have large : j + 1 < UInt32.size := by omega
  simp only [counted, List.getElem_mapIdx, sequenceKey_setSequence,
    UInt32.toNat_ofNat_of_lt' small, UInt32.toNat_ofNat_of_lt' large]
  omega

end Edge

namespace Graph

def height (g : Graph) (id : String) : Int := ((g.node? id).map (·.position.y.rank)).getD 0

def lower (g : Graph) (a b : String) : Bool := g.height a ≤ g.height b

theorem Ranked.le_iff (a b : Ranked) :
    a.le b = true ↔ a.height < b.height ∨ (a.height = b.height ∧ a.key ≤ b.key) := by
  simp [Ranked.le]

theorem isFanOut_iff {condition : String} {e : Edge} :
    isFanOut condition e = true ↔ e.isAction = true ∧ e.source = condition := by
  simp [isFanOut]

def isRanked (g : Graph) (condition : String) (e : Edge) : Bool :=
  isFanOut condition e && g.contains e.target

theorem isRanked_iff {g : Graph} {condition : String} {e : Edge} :
    g.isRanked condition e = true ↔ isFanOut condition e = true ∧ g.contains e.target = true := by
  simp [isRanked]

def ranking (g : Graph) (e : Edge × Nat) : Ranked :=
  ⟨e.2, g.height e.1.target, e.1.sequenceKey⟩

def outranks (g : Graph) (a b : Edge) : Bool := (g.ranking (a, 0)).le (g.ranking (b, 0))

def placed (g : Graph) (condition : String) : List (Edge × Nat) :=
  (g.edges.zipIdx.filter fun e => g.isRanked condition e.1).mergeSort fun a b => g.outranks a.1 b.1

def order (g : Graph) (condition : String) : List Edge :=
  (g.edges.filter (g.isRanked condition)).mergeSort g.outranks

def renumber (g : Graph) (condition : String) (e : Edge × Nat) : Edge :=
  match ((g.placed condition).map Prod.snd).idxOf? e.2 with
  | some k => e.1.setSequence (UInt32.ofNat (k + 1))
  | none => e.1

theorem lower_congr {g h : Graph} (nodes : h.nodes = g.nodes) : h.lower = g.lower := by
  funext a b
  rw [lower, lower, height, height, height, height, node?, node?, node?, node?, nodes]

theorem lower_trans (g : Graph) (a b c : String) (ab : g.lower a b = true)
    (bc : g.lower b c = true) : g.lower a c = true := by
  simp only [lower, decide_eq_true_eq] at ab bc ⊢
  omega

theorem lower_total (g : Graph) (a b : String) : (g.lower a b || g.lower b a) = true := by
  simp only [lower, Bool.or_eq_true, decide_eq_true_eq]
  omega

theorem outranks_iff (g : Graph) (a b : Edge) :
    g.outranks a b = true ↔ g.lower a.target b.target = true ∧
      (g.lower b.target a.target = true → a.sequenceKey ≤ b.sequenceKey) := by
  simp only [outranks, Ranked.le_iff, ranking, lower, decide_eq_true_eq]
  constructor
  · rintro (less | ⟨tie, key⟩)
    · exact ⟨by omega, by omega⟩
    · exact ⟨by omega, fun _ => key⟩
  · intro holds
    obtain ⟨low, key⟩ := holds
    rcases Int.lt_or_eq_of_le low with less | tie
    · exact .inl less
    · exact .inr ⟨tie, key (by omega)⟩

theorem mem_placed {g : Graph} {condition : String} {e : Edge × Nat} :
    e ∈ g.placed condition ↔ g.edges[e.2]? = some e.1 ∧ g.isRanked condition e.1 = true := by
  rw [placed, List.mem_mergeSort, List.mem_filter, List.mem_zipIdx_iff_getElem?]

theorem places_nodup (g : Graph) (condition : String) :
    ((g.placed condition).map Prod.snd).Nodup := by
  have increasing := (StableSort.zipIdx_increasing g.edges).filter
    (fun e => g.isRanked condition e.1)
  have nodup := List.pairwise_map.2 (increasing.imp fun less => Nat.ne_of_lt less)
  exact ((List.mergeSort_perm _ _).map Prod.snd).nodup_iff.2 nodup

theorem map_fst_placed (g : Graph) (condition : String) :
    (g.placed condition).map Prod.fst = g.order condition := by
  have ranked := List.filter_map (p := g.isRanked condition) (f := Prod.fst) (l := g.edges.zipIdx)
  rw [List.zipIdx_map_fst] at ranked
  rw [placed, order, ranked]
  exact List.map_mergeSort fun _ _ _ _ => rfl

theorem ranked_eq (g : Graph) (condition : String) :
    g.ranked condition = (g.placed condition).map g.ranking := by
  have found : (g.edges.zipIdx.filterMap fun e =>
      if isFanOut condition e.1 then
        (g.node? e.1.target).map fun n => ⟨e.2, n.position.y.rank, e.1.sequenceKey⟩
      else none) =
      (g.edges.zipIdx.filter fun e => g.isRanked condition e.1).map g.ranking := by
    rw [← List.filterMap_eq_map, List.filterMap_filter]
    apply List.filterMap_congr
    intro e _
    by_cases fans : isFanOut condition e.1 = true
    · cases node : g.node? e.1.target <;> simp [isRanked, ranking, height, contains, fans, node]
    · simp [isRanked, fans]
  have sorted : (g.placed condition).map g.ranking =
      ((g.edges.zipIdx.filter fun e => g.isRanked condition e.1).map g.ranking).mergeSort
        Ranked.le := List.map_mergeSort fun _ _ _ _ => rfl
  rw [sorted, ← found]
  rfl

theorem numberFanOut_eq (g : Graph) (condition : String) :
    g.numberFanOut condition = { g with edges := g.edges.zipIdx.map (g.renumber condition) } := by
  have places : (g.ranked condition).map (·.place) = (g.placed condition).map Prod.snd := by
    rw [ranked_eq, List.map_map]
    rfl
  rw [numberFanOut, places]
  rfl

@[simp] theorem nodes_numberFanOut (g : Graph) (condition : String) :
    (g.numberFanOut condition).nodes = g.nodes := rfl

theorem renumber_cases (g : Graph) (condition : String) (e : Edge × Nat) :
    g.renumber condition e = e.1 ∨ ∃ n, g.renumber condition e = e.1.setSequence n := by
  unfold renumber
  split
  · exact .inr ⟨_, rfl⟩
  · exact .inl rfl

theorem renumber_blind {α : Type} {f : Edge → α} (blind : ∀ e n, f (e.setSequence n) = f e)
    (g : Graph) (condition : String) (e : Edge × Nat) : f (g.renumber condition e) = f e.1 := by
  rcases g.renumber_cases condition e with same | ⟨n, changed⟩
  · rw [same]
  · rw [changed, blind]

theorem renumber_off {g : Graph} {condition : String} {e : Edge × Nat}
    (member : e ∈ g.edges.zipIdx) (unranked : g.isRanked condition e.1 = false) (f : Edge) :
    g.renumber condition (f, e.2) = f := by
  have missing : ((g.placed condition).map Prod.snd).idxOf? e.2 = none := by
    rw [List.idxOf?_eq_none_iff, List.mem_map]
    intro holds
    obtain ⟨other, placed, same⟩ := holds
    have found := (mem_placed.1 placed).1
    rw [same, List.mem_zipIdx_iff_getElem?.1 member] at found
    have ranked := (mem_placed.1 placed).2
    rw [← Option.some.inj found, unranked] at ranked
    contradiction
  rw [renumber, missing]

theorem renumber_of_not_ranked {g : Graph} {condition : String} {e : Edge × Nat}
    (member : e ∈ g.edges.zipIdx) (unranked : g.isRanked condition e.1 = false) :
    g.renumber condition e = e.1 :=
  renumber_off member unranked e.1

-- No place occurs twice, so the k-th ranked edge finds itself at k.
theorem renumber_placed (g : Graph) (condition : String) {k : Nat}
    (inside : k < (g.placed condition).length) (f : Edge) :
    g.renumber condition (f, (g.placed condition)[k].2) = f.setSequence (UInt32.ofNat (k + 1)) := by
  have place : ((g.placed condition).map Prod.snd).idxOf? (g.placed condition)[k].2 = some k := by
    rw [List.idxOf?_eq_some_iff]
    refine ⟨by simpa using inside, by simp, fun j less same => ?_⟩
    have atJ : j < ((g.placed condition).map Prod.snd).length := by
      simpa using Nat.lt_trans less inside
    have atK : k < ((g.placed condition).map Prod.snd).length := by simpa using inside
    have places : ((g.placed condition).map Prod.snd)[j] =
        ((g.placed condition).map Prod.snd)[k] := by
      simpa using same
    have equal := (List.Nodup.getElem_inj_iff (g.places_nodup condition)).1 places
    omega
  rw [renumber, place]

theorem map_renumber_placed (g : Graph) (condition : String) :
    (g.placed condition).map (g.renumber condition) = Edge.counted (g.order condition) := by
  rw [← map_fst_placed]
  apply List.ext_getElem
  · simp [Edge.counted]
  · intro k atLeft atRight
    rw [List.length_map] at atLeft
    simpa [Edge.counted] using g.renumber_placed condition atLeft (g.placed condition)[k].1

theorem map_unnumbered_numberFanOut (g : Graph) (condition : String) :
    (g.numberFanOut condition).edges.map Edge.unnumbered = g.edges.map Edge.unnumbered := by
  have pointwise : (g.edges.zipIdx.map (g.renumber condition)).map Edge.unnumbered =
      g.edges.zipIdx.map (Edge.unnumbered ∘ Prod.fst) := by
    rw [List.map_map]
    apply List.map_congr_left
    intro e member
    change (g.renumber condition e).unnumbered = e.1.unnumbered
    -- Only ranked edges get a number, and those are action edges.
    by_cases ranked : g.isRanked condition e.1 = true
    · have action : e.1.isAction = true := by
        exact (isFanOut_iff.1 (isRanked_iff.1 ranked).1).1
      rcases g.renumber_cases condition e with same | ⟨n, changed⟩
      · rw [same]
      · rw [changed, Edge.unnumbered_setSequence _ _ action]
    · rw [renumber_of_not_ranked member (by simpa using ranked)]
  rw [numberFanOut_eq]
  change (g.edges.zipIdx.map (g.renumber condition)).map Edge.unnumbered = _
  rw [pointwise, ← List.map_map, List.zipIdx_map_fst]

theorem filter_numberFanOut (g : Graph) {condition : String} {keep : Edge → Bool}
    (apart : ∀ e, g.isRanked condition e = true → keep e = false)
    (blind : ∀ e n, keep (e.setSequence n) = keep e) :
    (g.numberFanOut condition).edges.filter keep = g.edges.filter keep := by
  rw [numberFanOut_eq]
  calc (g.edges.zipIdx.map (g.renumber condition)).filter keep
      = (g.edges.zipIdx.filter (keep ∘ Prod.fst)).map (g.renumber condition) := by
        rw [List.filter_map]
        exact congrArg _ (List.filter_congr fun e _ => renumber_blind blind g condition e)
    _ = (g.edges.zipIdx.filter (keep ∘ Prod.fst)).map Prod.fst := by
        apply List.map_congr_left
        intro e member
        rw [List.mem_filter] at member
        refine renumber_of_not_ranked member.1 ?_
        by_contra ranked
        have dropped := apart e.1 (by simpa using ranked)
        simp_all
    _ = g.edges.filter keep := by
        rw [← List.filter_map, List.zipIdx_map_fst]

theorem ranked_numberFanOut_perm (g : Graph) (condition : String) :
    ((g.numberFanOut condition).edges.filter (g.isRanked condition)).Perm
      (Edge.counted (g.order condition)) := by
  have same := renumber_blind (f := g.isRanked condition) (fun _ _ => rfl) g condition
  have parts : (g.numberFanOut condition).edges.filter (g.isRanked condition) =
      (g.edges.zipIdx.filter fun e => g.isRanked condition e.1).map (g.renumber condition) := by
    rw [numberFanOut_eq]
    simp only [List.filter_map]
    exact congrArg _ (List.filter_congr fun e _ => same e)
  rw [parts, ← map_renumber_placed]
  exact ((List.mergeSort_perm _ _).symm.map _)

theorem filter_isFanOut_numberFanOut (g : Graph) {condition other : String}
    (distinct : condition ≠ other) :
    (g.numberFanOut other).edges.filter (isFanOut condition) =
      g.edges.filter (isFanOut condition) := by
  apply filter_numberFanOut
  · intro e ranked
    have source := (isFanOut_iff.1 (isRanked_iff.1 ranked).1).2
    simp [isFanOut, source, distinct.symm]
  · intro e n
    rfl

def FansWithin (g : Graph) (condition : String) : Prop :=
  ∀ e ∈ g.edges, isFanOut condition e = true → g.contains e.target = true

theorem filter_isRanked {g : Graph} {condition : String} (within : g.FansWithin condition) :
    g.edges.filter (g.isRanked condition) = g.edges.filter (isFanOut condition) := by
  apply List.filter_congr
  intro e member
  by_cases fans : isFanOut condition e = true
  · simp [isRanked, fans, within e member fans]
  · simp [isRanked, fans]

-- By number first and then, stably, by height: ties in height keep the order of the numbers.
theorem order_eq {g : Graph} {condition : String} (within : g.FansWithin condition) :
    g.order condition =
      (g.fanOut condition).mergeSort fun a b => g.lower a.target b.target := by
  rw [order, filter_isRanked within, fanOut]
  symm
  apply StableSort.mergeSort_mergeSort
  · intro a b c
    exact g.lower_trans a.target b.target c.target
  · intro a b
    exact g.lower_total a.target b.target
  · exact Edge.notAfter_trans
  · exact Edge.notAfter_total
  · intro a b
    simpa [Edge.notAfter] using g.outranks_iff a b

theorem order_ascending (g : Graph) (condition : String) :
    (g.order condition).Pairwise fun a b => g.lower a.target b.target = true := by
  have trans (a b c : Edge) (ab : g.outranks a b = true) (bc : g.outranks b c = true) :
      g.outranks a c = true := by
    simp only [outranks, Ranked.le_iff] at ab bc ⊢
    omega
  have total (a b : Edge) : (g.outranks a b || g.outranks b a) = true := by
    simp only [outranks, Bool.or_eq_true, Ranked.le_iff]
    omega
  refine (List.pairwise_mergeSort trans total _).imp fun {a b} sorted => ?_
  exact ((g.outranks_iff a b).1 sorted).1

theorem fansWithin_numberFanOut {g : Graph} {condition : String} (within : g.FansWithin condition)
    (other : String) : (g.numberFanOut other).FansWithin condition := by
  intro e member fans
  rw [numberFanOut_eq, List.mem_map] at member
  obtain ⟨old, oldMember, rfl⟩ := member
  have oldEdge := List.fst_mem_of_mem_zipIdx oldMember
  have goal := within old.1 oldEdge
  rcases g.renumber_cases other old with same | ⟨n, changed⟩
  · rw [same] at fans ⊢
    exact goal fans
  · rw [changed] at fans ⊢
    exact goal fans

theorem length_fanOut (g : Graph) (condition : String) :
    (g.fanOut condition).length = (g.edges.filter (isFanOut condition)).length := by
  rw [fanOut, List.length_mergeSort]

theorem fanOut_congr {g h : Graph} {condition : String}
    (fans : h.edges.filter (isFanOut condition) = g.edges.filter (isFanOut condition)) :
    h.fanOut condition = g.fanOut condition := by
  rw [fanOut, fanOut, fans]

theorem fanOutTargets_congr {g h : Graph} {condition : String}
    (fans : h.edges.filter (isFanOut condition) = g.edges.filter (isFanOut condition)) :
    h.fanOutTargets condition = g.fanOutTargets condition := by
  rw [fanOutTargets, fanOutTargets, fanOut_congr fans]

theorem fanOut_eq_counted {g : Graph} {condition : String} {order : List Edge}
    (perm : (g.edges.filter (isFanOut condition)).Perm (Edge.counted order))
    (bound : order.length < UInt32.size) : g.fanOut condition = Edge.counted order := by
  have increasing := Edge.counted_increasing order bound
  have keys : ((Edge.counted order).map Edge.sequenceKey).Nodup :=
    List.pairwise_map.2 (increasing.imp fun less => Nat.ne_of_lt less)
  have sorted : (g.fanOut condition).Pairwise fun a b => a.sequenceKey ≤ b.sequenceKey :=
    (List.pairwise_mergeSort Edge.notAfter_trans Edge.notAfter_total _).imp of_decide_eq_true
  -- The numbers differ, so there is one sorted arrangement.
  have arranged : (g.fanOut condition).Perm (Edge.counted order) :=
    (List.mergeSort_perm _ _).trans perm
  refine List.Perm.eq_of_pairwise ?_ sorted (increasing.imp Nat.le_of_lt) arranged
  intro a b memberA memberB forward backward
  exact List.inj_on_of_nodup_map keys (arranged.mem_iff.1 memberA) memberB
    (Nat.le_antisymm forward backward)

def Numbered (g : Graph) (condition : String) : Prop :=
  ∃ order : List Edge, (order.Pairwise fun a b => g.lower a.target b.target = true) ∧
    (g.edges.filter (isFanOut condition)).Perm (Edge.counted order)

theorem numberFanOut_perm {g : Graph} {condition : String} (within : g.FansWithin condition) :
    ((g.numberFanOut condition).edges.filter (isFanOut condition)).Perm
      (Edge.counted (g.order condition)) := by
  rw [← filter_isRanked (fansWithin_numberFanOut within condition)]
  exact g.ranked_numberFanOut_perm condition

theorem numbered_numberFanOut {g : Graph} {condition : String} (within : g.FansWithin condition) :
    (g.numberFanOut condition).Numbered condition :=
  ⟨g.order condition, g.order_ascending condition, numberFanOut_perm within⟩

theorem Numbered.congr {g h : Graph} {condition : String} (numbered : g.Numbered condition)
    (fans : h.edges.filter (isFanOut condition) = g.edges.filter (isFanOut condition))
    (heights : ∀ e ∈ g.edges, isFanOut condition e = true → h.height e.target = g.height e.target) :
    h.Numbered condition := by
  obtain ⟨order, ascending, perm⟩ := numbered
  have targets : ∀ a ∈ order, h.height a.target = g.height a.target := by
    intro a member
    have image : a.target ∈ (Edge.counted order).map Edge.target := by
      rw [Edge.map_target_counted]
      exact List.mem_map_of_mem member
    obtain ⟨e, inside, same⟩ := List.mem_map.1 ((perm.map Edge.target).mem_iff.2 image)
    rw [List.mem_filter] at inside
    rw [← same]
    exact heights e inside.1 inside.2
  refine ⟨order, ascending.imp_of_mem ?_, fans ▸ perm⟩
  intro a b memberA memberB sorted
  rwa [lower, targets a memberA, targets b memberB]

theorem Numbered.fanOut_eq {g : Graph} {condition : String} (numbered : g.Numbered condition)
    (bound : (g.fanOut condition).length < UInt32.size) :
    (g.fanOut condition).map Edge.sequence =
        (List.range (g.fanOut condition).length).map (fun k => some (UInt32.ofNat (k + 1))) ∧
      (g.fanOutTargets condition).Pairwise fun a b => g.lower a b = true := by
  obtain ⟨order, ascending, perm⟩ := numbered
  have size : (g.fanOut condition).length = order.length := by
    rw [length_fanOut, perm.length_eq, Edge.length_counted]
  rw [size] at bound ⊢
  have listed := fanOut_eq_counted perm bound
  rw [fanOutTargets, listed, Edge.map_target_counted, Edge.map_sequence_counted]
  exact ⟨rfl, List.pairwise_map.2 ascending⟩

theorem Numbered.exists_sequence {g : Graph} {condition : String} (numbered : g.Numbered condition)
    {e : Edge} (member : e ∈ g.edges) (fans : isFanOut condition e = true) :
    ∃ n, e.sequence = some n := by
  obtain ⟨order, _, perm⟩ := numbered
  have counted := perm.mem_iff.1 (List.mem_filter.2 ⟨member, fans⟩)
  obtain ⟨k, _, rfl⟩ := List.mem_mapIdx.1 counted
  exact ⟨_, rfl⟩

theorem fanOutTargets_numberFanOut {g : Graph} {condition : String}
    (within : g.FansWithin condition) (bound : (g.fanOut condition).length < UInt32.size) :
    (g.numberFanOut condition).fanOutTargets condition =
      (g.fanOutTargets condition).mergeSort g.lower := by
  have size : (g.order condition).length < UInt32.size := by
    rwa [order_eq within, List.length_mergeSort]
  rw [fanOutTargets, fanOut_eq_counted (numberFanOut_perm within) size, Edge.map_target_counted,
    order_eq within]
  exact List.map_mergeSort fun _ _ _ _ => rfl

section Many

variable {g : Graph} {condition : String}

@[simp] theorem nodes_numberFanOuts (conditions : List String) :
    (g.numberFanOuts conditions).nodes = g.nodes := by
  induction conditions generalizing g with
  | nil => rfl
  | cons first rest ih => exact ih

theorem map_unnumbered_numberFanOuts (conditions : List String) :
    (g.numberFanOuts conditions).edges.map Edge.unnumbered = g.edges.map Edge.unnumbered := by
  induction conditions generalizing g with
  | nil => rfl
  | cons first rest ih => exact ih.trans (g.map_unnumbered_numberFanOut first)

theorem filter_isFanOut_numberFanOuts {conditions : List String} (others : condition ∉ conditions) :
    (g.numberFanOuts conditions).edges.filter (isFanOut condition) =
      g.edges.filter (isFanOut condition) := by
  induction conditions generalizing g with
  | nil => rfl
  | cons first rest ih =>
    rw [List.mem_cons, not_or] at others
    exact (ih others.2).trans (g.filter_isFanOut_numberFanOut others.1)

theorem numbered_numberFanOuts (within : g.FansWithin condition) (conditions : List String)
    (chosen : condition ∈ conditions ∨ g.Numbered condition) :
    (g.numberFanOuts conditions).Numbered condition := by
  induction conditions generalizing g with
  | nil => simpa [numberFanOuts] using chosen
  | cons first rest ih =>
    apply ih (g := g.numberFanOut first) (fansWithin_numberFanOut within first)
    -- Numbering the fan-out of another condition does not undo this one.
    by_cases same : condition = first
    · subst same
      exact .inr (numbered_numberFanOut within)
    · rcases chosen with member | numbered
      · exact .inl (List.mem_of_ne_of_mem same member)
      · exact .inr (numbered.congr (g.filter_isFanOut_numberFanOut same) fun _ _ _ => rfl)

theorem fanOutTargets_numberFanOuts (within : g.FansWithin condition)
    (bound : (g.fanOut condition).length < UInt32.size) (conditions : List String)
    (chosen : condition ∈ conditions ∨
      (g.fanOutTargets condition).Pairwise fun a b => g.lower a b = true) :
    (g.numberFanOuts conditions).fanOutTargets condition =
      (g.fanOutTargets condition).mergeSort g.lower := by
  induction conditions generalizing g with
  | nil =>
    rcases chosen with member | sorted
    · simp at member
    · exact (List.mergeSort_of_pairwise sorted).symm
  | cons first rest ih =>
    have later := fansWithin_numberFanOut within first
    by_cases same : condition = first
    · subst same
      have sorted := List.pairwise_mergeSort g.lower_trans g.lower_total
        (g.fanOutTargets condition)
      have once := fanOutTargets_numberFanOut within bound
      have size : ((g.numberFanOut condition).fanOut condition).length < UInt32.size := by
        have lengths := congrArg List.length once
        simp only [fanOutTargets, List.length_map, List.length_mergeSort] at lengths
        omega
      -- It is sorted by now, and stays so if it is numbered again.
      have twice := ih (g := g.numberFanOut condition) later size (.inr (once ▸ sorted))
      rw [once] at twice
      exact twice.trans (List.mergeSort_of_pairwise sorted)
    · have kept := g.filter_isFanOut_numberFanOut same
      have targets := fanOutTargets_congr kept
      have next := ih (g := g.numberFanOut first) later (fanOut_congr kept ▸ bound) (by
        rw [targets]
        exact chosen.imp_left (List.mem_of_ne_of_mem same))
      rw [targets] at next
      exact next

end Many

end Graph

end TradingStrategy
