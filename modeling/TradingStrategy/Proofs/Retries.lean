import Mathlib.Data.Finset.Card
import TradingStrategy.Proofs.Draws

set_option autoImplicit false

namespace TradingStrategy

namespace IdSource

def upcoming (source : IdSource) (stem : String) (k : Nat) : String :=
  idOf stem (source.draw (source.next + k))

structure FirstFree (source : IdSource) (stem : String) (taken : String → Bool) (k : Nat) :
    Prop where
  earlier : ∀ j < k, taken (source.upcoming stem j) = true
  free : taken (source.upcoming stem k) = false

variable {source rest : IdSource} {stem : String} {taken : String → Bool} {attempts k : Nat}

theorem upcoming_skip (source : IdSource) (n : Nat) (stem : String) (k : Nat) :
    (source.skip n).upcoming stem k = source.upcoming stem (n + k) := by
  simp [upcoming, skip, Nat.add_assoc]

theorem FirstFree.skip (first : source.FirstFree stem taken (k + 1)) :
    (source.skip 1).FirstFree stem taken k where
  earlier j below := by
    rw [upcoming_skip, Nat.add_comm]
    exact first.earlier (j + 1) (by omega)
  free := by
    rw [upcoming_skip, Nat.add_comm]
    exact first.free

theorem unique?_of_taken (attempts : Nat) (used : taken (source.upcoming stem 0) = true) :
    unique? stem taken (attempts + 1) source = unique? stem taken attempts (source.skip 1) := by
  have first : taken (source.fresh stem).1 = true := used
  rw [unique?]
  simp only [first, if_true]
  rfl

theorem unique?_of_firstFree (within : k < attempts) (first : source.FirstFree stem taken k) :
    unique? stem taken attempts source =
      (some (source.upcoming stem k), source.skip (k + 1)) := by
  obtain ⟨more, rfl⟩ : ∃ more, attempts = more + 1 := ⟨attempts - 1, by omega⟩
  induction k generalizing source more with
  | zero => exact unique?_of_free more first.free
  | succ k ih =>
    obtain ⟨fewer, rfl⟩ : ∃ fewer, more = fewer + 1 := ⟨more - 1, by omega⟩
    rw [unique?_of_taken _ (first.earlier 0 (by omega)), ih first.skip fewer (by omega),
      upcoming_skip, skip_skip, Nat.add_comm 1 k, Nat.add_comm 1 (k + 1)]

theorem unique?_of_all_taken (all : ∀ j < attempts, taken (source.upcoming stem j) = true) :
    unique? stem taken attempts source = (none, source.skip attempts) := by
  induction attempts generalizing source with
  | zero => rfl
  | succ attempts ih =>
    have later : ∀ j < attempts, taken ((source.skip 1).upcoming stem j) = true := by
      intro j below
      rw [upcoming_skip, Nat.add_comm]
      exact all (j + 1) (by omega)
    rw [unique?_of_taken _ (all 0 (by omega)), ih later, skip_skip, Nat.add_comm]

theorem all_taken_or_firstFree (source : IdSource) (stem : String) (taken : String → Bool)
    (attempts : Nat) :
    (∀ j < attempts, taken (source.upcoming stem j) = true) ∨
      ∃ k < attempts, source.FirstFree stem taken k := by
  induction attempts with
  | zero => exact .inl (by simp)
  | succ attempts ih =>
    rcases ih with all | ⟨k, below, first⟩
    · cases last : taken (source.upcoming stem attempts) with
      | true => exact .inl (Nat.forall_lt_succ_right.2 ⟨all, last⟩)
      | false => exact .inr ⟨attempts, Nat.lt_succ_self _, all, last⟩
    · exact .inr ⟨k, Nat.lt_succ_of_lt below, first⟩

-- Draws that differ make ids that differ, so those that were tried are as many as the attempts.
theorem taken_of_distinct (distinct : source.Distinct attempts)
    (all : ∀ j < attempts, taken (source.upcoming stem j) = true) :
    ∃ ids : List String, ids.length = attempts ∧ ids.Nodup ∧
      ∀ id ∈ ids, taken id = true ∧ Drawn stem id := by
  refine ⟨(List.range attempts).map (source.upcoming stem), by simp, ?_, fun id member => ?_⟩
  · refine List.Nodup.map_on (fun i inside j inside' same => ?_) List.nodup_range
    rw [List.mem_range] at inside inside'
    exact distinct i inside j inside' (idOf_inj same).2
  · obtain ⟨j, inside, rfl⟩ := List.mem_map.1 member
    exact ⟨all j (List.mem_range.1 inside), _, rfl⟩

end IdSource

namespace Drawing

open IdSource (FirstFree Drawn counter)

variable {source rest : IdSource} {stem : String} {taken : String → Bool} {attempts : Nat}

theorem exec_unique_of_firstFree {k : Nat} (within : k < attempts)
    (first : source.FirstFree stem taken k) :
    (unique stem attempts taken).exec source =
      (.ok (source.upcoming stem k), source.skip (k + 1)) := by
  simp only [exec, unique, ExceptT.run, ExceptT.mk, IdSource.unique?_of_firstFree within first]

theorem exec_unique_of_all_taken
    (all : ∀ j < attempts, taken (source.upcoming stem j) = true) :
    (unique stem attempts taken).exec source =
      (.error (.idCollision stem attempts), source.skip attempts) := by
  simp only [exec, unique, ExceptT.run, ExceptT.mk, IdSource.unique?_of_all_taken all]

theorem unique_eq_ok_iff {id : String} :
    (unique stem attempts taken).exec source = (.ok id, rest) ↔
      ∃ k < attempts, source.FirstFree stem taken k ∧ id = source.upcoming stem k ∧
        rest = source.skip (k + 1) := by
  constructor
  · intro done
    rcases source.all_taken_or_firstFree stem taken attempts with all | ⟨k, within, first⟩
    · rw [exec_unique_of_all_taken all] at done
      cases (Prod.mk.inj done).1
    · rw [exec_unique_of_firstFree within first] at done
      obtain ⟨same, left⟩ := Prod.mk.inj done
      exact ⟨k, within, first, (Except.ok.inj same).symm, left.symm⟩
  · rintro ⟨k, within, first, rfl, rfl⟩
    exact exec_unique_of_firstFree within first

theorem unique_eq_error_iff {reason : Refusal} :
    (unique stem attempts taken).exec source = (.error reason, rest) ↔
      (∀ j < attempts, taken (source.upcoming stem j) = true) ∧
        reason = .idCollision stem attempts ∧ rest = source.skip attempts := by
  constructor
  · intro failed
    rcases source.all_taken_or_firstFree stem taken attempts with all | ⟨k, within, first⟩
    · rw [exec_unique_of_all_taken all] at failed
      obtain ⟨same, left⟩ := Prod.mk.inj failed
      exact ⟨all, (Except.error.inj same).symm, left.symm⟩
    · rw [exec_unique_of_firstFree within first] at failed
      cases (Prod.mk.inj failed).1
  · rintro ⟨all, rfl, rfl⟩
    exact exec_unique_of_all_taken all

/-- Requests for ids of these stems in turn, against one container: what each was answered, and the
container and the source in the end. A request that fails leaves the container as it is. -/
def uniqueEach : List String → List String → IdSource →
    List (Option String) × List String × IdSource
  | [], taken, source => ([], taken, source)
  | stem :: stems, taken, source =>
    match (uniqueAmong stem taken).exec source with
    | (.ok (id, grown), rest) =>
      let (answers, left) := uniqueEach stems grown rest
      (some id :: answers, left)
    | (.error _, rest) =>
      let (answers, left) := uniqueEach stems taken rest
      (none :: answers, left)

def given (answers : List (Option String)) : List String := answers.filterMap id

/-- Each answer is an id of its stem or none; no id is given twice or was there before, and the
container has grown by those that were given. -/
structure Served (stems taken : List String) (answers : List (Option String))
    (left : List String) : Prop where
  stems : List.Forall₂ (fun stem answer => ∀ id, answer = some id → Drawn stem id) stems answers
  nodup : (given answers).Nodup
  fresh : ∀ id ∈ given answers, id ∉ taken
  contents : left = (given answers).reverse ++ taken

namespace Served

variable {stems grown left : List String} {answers : List (Option String)} {id : String}

theorem nil (taken : List String) : Served [] taken [] taken :=
  ⟨.nil, List.nodup_nil, by simp [given], rfl⟩

theorem granted {taken : List String} (drawn : Drawn stem id) (new : id ∉ taken)
    (later : Served stems (id :: taken) answers left) :
    Served (stem :: stems) taken (some id :: answers) left where
  stems := .cons (fun other same => Option.some.inj same ▸ drawn) later.stems
  nodup := List.nodup_cons.2
    ⟨fun again => later.fresh id again List.mem_cons_self, later.nodup⟩
  fresh := List.forall_mem_cons.2
    ⟨new, fun other member inside => later.fresh other member (List.mem_cons_of_mem _ inside)⟩
  contents := by
    rw [later.contents]
    simp [given]

theorem failed {taken : List String} (later : Served stems taken answers left) :
    Served (stem :: stems) taken (none :: answers) left where
  stems := .cons nofun later.stems
  nodup := later.nodup
  fresh := later.fresh
  contents := later.contents

theorem card_toFinset {taken : List String} (served : Served stems taken answers left) :
    left.toFinset.card = taken.toFinset.card + (given answers).length := by
  have apart : Disjoint (given answers).toFinset taken.toFinset := by
    rw [Finset.disjoint_left]
    intro id member
    simpa using served.fresh id (by simpa using member)
  rw [served.contents, List.toFinset_append, List.toFinset_reverse,
    Finset.card_union_of_disjoint apart, List.toFinset_card_of_nodup served.nodup, Nat.add_comm]

end Served

theorem served_uniqueEach (stems taken : List String) (source : IdSource) :
    Served stems taken (uniqueEach stems taken source).1 (uniqueEach stems taken source).2.1 := by
  induction stems generalizing taken source with
  | nil => exact .nil taken
  | cons stem stems ih =>
    rw [uniqueEach]
    split
    next id grown rest done =>
      obtain ⟨new, gives, rfl⟩ := uniqueAmong_gives done
      exact (ih _ rest).granted gives.drawn new
    next rest _ => exact (ih taken rest).failed

/-- A request takes the first of the next draws whose id is free and no draw after it; it is given
up exactly when all draws that it may try are taken, and has used them up then. From a counter that
means as many different ids of the stem. And whatever is asked for in turn against one container,
no id is given twice or was there before, and the container grows by one with each. -/
theorem unique_first_free :
    (∀ (stem : String) (attempts : Nat) (taken : String → Bool) (source : IdSource),
      (∀ id rest, (unique stem attempts taken).exec source = (.ok id, rest) ↔
        ∃ k < attempts, source.FirstFree stem taken k ∧ id = source.upcoming stem k ∧
          rest = source.skip (k + 1)) ∧
      ∀ reason rest, (unique stem attempts taken).exec source = (.error reason, rest) ↔
        (∀ j < attempts, taken (source.upcoming stem j) = true) ∧
          reason = .idCollision stem attempts ∧ rest = source.skip attempts) ∧
    (∀ (stem : String) (attempts : Nat) (taken : String → Bool) (start : Nat) reason rest,
      (unique stem attempts taken).exec (counter.skip start) = (.error reason, rest) →
        ∃ ids : List String, ids.length = attempts ∧ ids.Nodup ∧
          ∀ id ∈ ids, taken id = true ∧ Drawn stem id) ∧
    ∀ (stems taken : List String) (source : IdSource),
      ∃ answers left rest, uniqueEach stems taken source = (answers, left, rest) ∧
        Served stems taken answers left ∧
        left.toFinset.card = taken.toFinset.card + (given answers).length := by
  refine ⟨fun stem attempts taken source => ⟨fun _ _ => unique_eq_ok_iff,
    fun _ _ => unique_eq_error_iff⟩, fun stem attempts taken start reason rest failed => ?_,
    fun stems taken source => ?_⟩
  · exact IdSource.taken_of_distinct (IdSource.distinct_counter_skip start attempts)
      (unique_eq_error_iff.1 failed).1
  · have served := served_uniqueEach stems taken source
    exact ⟨_, _, _, rfl, served, served.card_toFinset⟩

theorem two_subs_taken_first_free :
    (unique "sub" 3 ["sub_00000005", "sub_00000006"].contains).exec (counter.skip 5) =
        (.ok "sub_00000007", counter.skip 8) ∧
      (unique "sub" 2 ["sub_00000005", "sub_00000006"].contains).exec (counter.skip 5) =
        (.error (.idCollision "sub" 2), counter.skip 7) ∧
      (∃ ids : List String, ids.length = 2 ∧ ids.Nodup ∧
        ∀ id ∈ ids, ["sub_00000005", "sub_00000006"].contains id = true ∧ Drawn "sub" id) ∧
      ∃ left rest,
        uniqueEach ["data", "indicator", "data"] ["indicator_00000001"] counter =
          ([some "data_00000000", some "indicator_00000002", some "data_00000003"], left, rest) ∧
        left.toFinset.card = 4 := by
  obtain ⟨loop, pigeonhole, each⟩ := unique_first_free
  have found : (unique "sub" 3 ["sub_00000005", "sub_00000006"].contains).exec (counter.skip 5) =
      (.ok "sub_00000007", counter.skip 8) :=
    ((loop _ _ _ _).1 _ _).2 ⟨2, by decide, ⟨by decide +kernel, by decide +kernel⟩,
      by decide +kernel, rfl⟩
  have failed : (unique "sub" 2 ["sub_00000005", "sub_00000006"].contains).exec (counter.skip 5) =
      (.error (.idCollision "sub" 2), counter.skip 7) :=
    ((loop _ _ _ _).2 _ _).2 ⟨by decide +kernel, rfl, rfl⟩
  refine ⟨found, failed, pigeonhole _ _ _ _ _ _ failed, ?_⟩
  obtain ⟨answers, left, rest, done, _, size⟩ :=
    each ["data", "indicator", "data"] ["indicator_00000001"] counter
  have given : (uniqueEach ["data", "indicator", "data"] ["indicator_00000001"] counter).1 =
      [some "data_00000000", some "indicator_00000002", some "data_00000003"] := by
    decide +kernel
  rw [done] at given
  obtain rfl : answers = _ := given
  exact ⟨left, rest, done, size⟩

end Drawing

end TradingStrategy
