import Mathlib.Data.List.Sort

set_option autoImplicit false

namespace TradingStrategy.StableSort

open List

variable {α : Type} {le : α → α → Bool}

theorem zipIdxLE_iff (a b : α × Nat) :
    zipIdxLE le a b = true ↔ le a.1 b.1 = true ∧ (le b.1 a.1 = true → a.2 ≤ b.2) := by
  by_cases forward : le a.1 b.1 = true <;> by_cases backward : le b.1 a.1 = true <;>
    simp [zipIdxLE, forward, backward]

theorem zipIdx_increasing (l : List α) : l.zipIdx.Pairwise (fun a b => a.2 < b.2) := by
  have places : (l.zipIdx.map Prod.snd).Pairwise (· < ·) := by
    rw [zipIdx_map_snd]
    exact pairwise_lt_range'
  exact pairwise_map.1 places

theorem eq_of_place_eq {placed : List (α × Nat)}
    (increasing : placed.Pairwise (fun a b => a.2 < b.2)) {a b : α × Nat} (memberA : a ∈ placed)
    (memberB : b ∈ placed) (same : a.2 = b.2) : a = b := by
  have places : (placed.map Prod.snd).Nodup :=
    pairwise_map.2 (increasing.imp fun less => Nat.ne_of_lt less)
  exact inj_on_of_nodup_map places memberA memberB same

section Preorder

variable (trans : ∀ a b c : α, le a b = true → le b c = true → le a c = true)
  (total : ∀ a b : α, (le a b || le b a) = true)

include trans total

theorem pairwise_mergeSort_of_pairwise {before : α → α → Prop} (refl : ∀ a, before a a)
    {l : List α} (ordered : l.Pairwise before) :
    (l.mergeSort le).Pairwise fun a b => le a b = true ∧ (le b a = true → before a b) := by
  rw [← mergeSort_zipIdx, pairwise_map]
  refine (pairwise_mergeSort (zipIdxLE_trans trans) (zipIdxLE_total total) l.zipIdx).imp_of_mem ?_
  intro a b memberA memberB sorted
  rw [mem_mergeSort, mem_zipIdx_iff_getElem?, getElem?_eq_some_iff] at memberA memberB
  obtain ⟨boundA, atA⟩ := memberA
  obtain ⟨boundB, atB⟩ := memberB
  have placed := (zipIdxLE_iff a b).1 sorted
  refine ⟨placed.1, fun tie => ?_⟩
  rcases Nat.eq_or_lt_of_le (placed.2 tie) with same | less
  · have equal : a.1 = b.1 := by
      rw [← atA, ← atB]
      simp only [same]
    exact equal ▸ refl a.1
  · have earlier := pairwise_iff_getElem.1 ordered a.2 b.2 boundA boundB less
    rwa [atA, atB] at earlier

-- The places make the order strict, so two sorted arrangements of the same pairs agree.
theorem map_fst_eq_mergeSort {placed sorted : List (α × Nat)}
    (increasing : placed.Pairwise (fun a b => a.2 < b.2)) (perm : sorted.Perm placed)
    (ordered : sorted.Pairwise (fun a b => zipIdxLE le a b = true)) :
    sorted.map Prod.fst = (placed.map Prod.fst).mergeSort le := by
  have stable : (placed.mergeSort fun a b => le a.1 b.1).Pairwise
      (fun a b => le a.1 b.1 = true ∧ (le b.1 a.1 = true → a.2 ≤ b.2)) :=
    pairwise_mergeSort_of_pairwise (fun a b c => trans a.1 b.1 c.1) (fun a b => total a.1 b.1)
      (fun a => Nat.le_refl a.2) (increasing.imp Nat.le_of_lt)
  have equal : sorted = placed.mergeSort (fun a b => le a.1 b.1) := by
    refine Perm.eq_of_pairwise ?_ (ordered.imp fun h => (zipIdxLE_iff _ _).1 h) stable
      (perm.trans (mergeSort_perm _ _).symm)
    intro a b memberA memberB forward backward
    refine eq_of_place_eq increasing (perm.mem_iff.1 memberA) (mem_mergeSort.1 memberB) ?_
    exact Nat.le_antisymm (forward.2 backward.1) (backward.2 forward.1)
  rw [equal]
  exact map_mergeSort fun a _ b _ => rfl

theorem filter_mergeSort (keep : α → Bool) (l : List α) :
    (l.mergeSort le).filter keep = (l.filter keep).mergeSort le := by
  have parts (placed : List (α × Nat)) :
      (placed.filter (keep ∘ Prod.fst)).map Prod.fst = (placed.map Prod.fst).filter keep :=
    (filter_map ..).symm
  have sorted : (l.zipIdx.mergeSort (zipIdxLE le)).Pairwise (fun a b => zipIdxLE le a b = true) :=
    pairwise_mergeSort (zipIdxLE_trans trans) (zipIdxLE_total total) l.zipIdx
  have part := map_fst_eq_mergeSort trans total
    ((zipIdx_increasing l).filter (keep ∘ Prod.fst))
    ((mergeSort_perm l.zipIdx (zipIdxLE le)).filter (keep ∘ Prod.fst)) (sorted.filter _)
  rwa [parts, parts, mergeSort_zipIdx, zipIdx_map_fst] at part

theorem mergeSort_concat (l : List α) (last : α) (greatest : ∀ a ∈ l, le a last = true) :
    (l ++ [last]).mergeSort le = l.mergeSort le ++ [last] := by
  have sorted : (l.zipIdx.mergeSort (zipIdxLE le)).Pairwise (fun a b => zipIdxLE le a b = true) :=
    pairwise_mergeSort (zipIdxLE_trans trans) (zipIdxLE_total total) l.zipIdx
  have ordered : (l.zipIdx.mergeSort (zipIdxLE le) ++ [(last, l.length)]).Pairwise
      (fun a b => zipIdxLE le a b = true) := by
    rw [pairwise_append]
    refine ⟨sorted, pairwise_singleton _ _, ?_⟩
    intro a member b atEnd
    rw [mem_singleton.1 atEnd, zipIdxLE_iff]
    rw [mem_mergeSort] at member
    refine ⟨greatest a.1 (fst_mem_of_mem_zipIdx member), fun _ => ?_⟩
    exact Nat.le_of_lt (snd_lt_of_mem_zipIdx member)
  have perm : (l.zipIdx.mergeSort (zipIdxLE le) ++ [(last, l.length)]).Perm
      (l ++ [last]).zipIdx := by
    rw [zipIdx_append, Nat.zero_add, zipIdx_singleton]
    exact (mergeSort_perm ..).append_right _
  have whole := map_fst_eq_mergeSort trans total (zipIdx_increasing (l ++ [last])) perm ordered
  rw [zipIdx_map_fst, map_append, mergeSort_zipIdx] at whole
  exact whole.symm

end Preorder

theorem mergeSort_mergeSort {first both : α → α → Bool}
    (trans : ∀ a b c : α, le a b = true → le b c = true → le a c = true)
    (total : ∀ a b : α, (le a b || le b a) = true)
    (firstTrans : ∀ a b c : α, first a b = true → first b c = true → first a c = true)
    (firstTotal : ∀ a b : α, (first a b || first b a) = true)
    (bothIff : ∀ a b, both a b = true ↔ le a b = true ∧ (le b a = true → first a b = true))
    (l : List α) :
    (l.mergeSort first).mergeSort le = l.mergeSort both := by
  have bothTrans (a b c : α) (ab : both a b = true) (bc : both b c = true) : both a c = true := by
    rw [bothIff] at ab bc ⊢
    refine ⟨trans a b c ab.1 bc.1, fun ca => ?_⟩
    exact firstTrans a b c (ab.2 (trans b c a bc.1 ca)) (bc.2 (trans c a b ca ab.1))
  have bothTotal (a b : α) : (both a b || both b a) = true := by
    have forward := total a b
    have tie := firstTotal a b
    simp only [Bool.or_eq_true, bothIff] at forward tie ⊢
    grind
  -- With its place each element is unique, and both sides are the sorted arrangement of these.
  let placed := l.zipIdx.mergeSort (zipIdxLE first)
  have ordered : placed.Pairwise (fun a b => zipIdxLE first a b = true) :=
    pairwise_mergeSort (zipIdxLE_trans firstTrans) (zipIdxLE_total firstTotal) l.zipIdx
  have refl (a : α × Nat) : zipIdxLE first a a = true := by
    have := firstTotal a.1 a.1
    simp_all [zipIdxLE_iff]
  have twice : (placed.mergeSort fun a b => le a.1 b.1).Pairwise
      (fun a b => le a.1 b.1 = true ∧ (le b.1 a.1 = true → zipIdxLE first a b = true)) :=
    pairwise_mergeSort_of_pairwise (fun a b c => trans a.1 b.1 c.1) (fun a b => total a.1 b.1)
      refl ordered
  have once : (placed.mergeSort (fun a b => le a.1 b.1)).Pairwise
      (fun a b => zipIdxLE both a b = true) := by
    refine twice.imp fun {a b} h => ?_
    simp only [zipIdxLE_iff, bothIff] at h ⊢
    exact ⟨⟨h.1, fun back => (h.2 back).1⟩, fun back => (h.2 back.1).2 (back.2 h.1)⟩
  have result := map_fst_eq_mergeSort bothTrans bothTotal (zipIdx_increasing l)
    ((mergeSort_perm _ _).trans (mergeSort_perm _ _)) once
  rw [zipIdx_map_fst, map_mergeSort (s := le) (fun _ _ _ _ => rfl)] at result
  rwa [mergeSort_zipIdx] at result

end TradingStrategy.StableSort
