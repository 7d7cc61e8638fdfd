import Mathlib.Data.List.Forall2
import TradingStrategy.Json.Basic
import TradingStrategy.Proofs.Keys

set_option autoImplicit false

namespace TradingStrategy

section

variable {α β : Type} {R : α → β → Prop} {a : α} {b : β} {o : Option α} {p : Option β}

theorem exists_of_rel_some_left (related : Option.Rel R (some a) p) : ∃ b, p = some b ∧ R a b := by
  cases related with
  | some holds => exact ⟨_, rfl, holds⟩

theorem exists_of_rel_some_right (related : Option.Rel R o (some b)) :
    ∃ a, o = some a ∧ R a b := by
  cases related with
  | some holds => exact ⟨_, rfl, holds⟩

theorem eq_none_of_rel_left (related : Option.Rel R none p) : p = none := by
  cases related
  rfl

theorem eq_none_of_rel_right (related : Option.Rel R o none) : o = none := by
  cases related
  rfl

end

namespace Json

mutual

def regular : Json → Bool
  | .array items => regularItems items
  | .object entries => decide (entries.map Prod.fst).Nodup && regularEntries entries
  | _ => true

def regularItems : List Json → Bool
  | [] => true
  | j :: rest => regular j && regularItems rest

def regularEntries : List (String × Json) → Bool
  | [] => true
  | (_, j) :: rest => regular j && regularEntries rest

end

def settled : Json → Bool
  | .bool _ | .string _ => true
  | .integer n => fits n
  | .float x => x.isFinite
  | _ => false

structure Stands (j c : Json) : Prop where
  regular : j.regular = true
  normal : j.normalize = some c

def Plain (j : Json) : Prop := ∃ c, j.Stands c

/-- The same JSON up to the order of entries. -/
def Alike (a b : Json) : Prop := ∃ c, a.Stands c ∧ b.Stands c

variable {a b c j : Json} {items cs : List Json} {es fs ns seen : List (String × Json)}

theorem regularEntries_iff : regularEntries es = true ↔ ∀ e ∈ es, e.2.regular = true := by
  induction es with
  | nil => simp [regularEntries]
  | cons e rest ih => simp [regularEntries, ih]

theorem forall₂_stands_iff :
    List.Forall₂ Stands items cs ↔
      regularItems items = true ∧ normalizeItems items = some cs := by
  induction items generalizing cs with
  | nil => simp [regularItems, normalizeItems, eq_comm]
  | cons j rest ih =>
    simp only [List.forall₂_cons_left_iff, ih, regularItems, normalizeItems, Bool.and_eq_true,
      Option.bind_eq_bind, Option.bind_eq_some_iff, Option.some.injEq]
    constructor
    · rintro ⟨c, others, first, ⟨regular, normal⟩, rfl⟩
      exact ⟨⟨first.regular, regular⟩, c, first.normal, others, normal, rfl⟩
    · rintro ⟨⟨first, regular⟩, c, normal, others, found, rfl⟩
      exact ⟨c, others, ⟨first, normal⟩, ⟨regular, found⟩, rfl⟩

theorem exists_normalizeEntries (seen : List (String × Json))
    (each : ∀ e ∈ es, ∃ c, e.2.normalize = some c) : ∃ ns, normalizeEntries es seen = some ns := by
  induction es generalizing seen with
  | nil => exact ⟨seen, rfl⟩
  | cons e rest ih =>
    rw [List.forall_mem_cons] at each
    obtain ⟨c, normal⟩ := each.1
    obtain ⟨ns, found⟩ := ih (Entries.insert e.1 c seen) each.2
    exact ⟨ns, by simp [normalizeEntries, normal, found]⟩

-- With no key twice, nothing that was put in is replaced later.
theorem lookup_normalizeEntries (nodup : (es.map Prod.fst).Nodup)
    (made : normalizeEntries es seen = some ns) (key : String) :
    (∀ j, es.lookup key = some j → ∃ c, j.normalize = some c ∧ ns.lookup key = some c) ∧
      (es.lookup key = none → ns.lookup key = seen.lookup key) := by
  induction es generalizing seen with
  | nil => simp_all [normalizeEntries]
  | cons e rest ih =>
    rw [List.map_cons, List.nodup_cons] at nodup
    simp only [normalizeEntries, Option.bind_eq_bind, Option.bind_eq_some_iff] at made
    obtain ⟨c, normal, later⟩ := made
    obtain ⟨present, absent⟩ := ih nodup.2 later
    rw [Entries.lookup_cons]
    by_cases here : key = e.1
    · have none := Entries.lookup_eq_none nodup.1
      rw [here] at absent ⊢
      rw [absent none, Entries.lookup_insert]
      simp [normal]
    · rw [if_neg here]
      refine ⟨present, fun missing => ?_⟩
      rw [absent missing, Entries.lookup_insert, if_neg here]

theorem stands_object (stands : (Json.object es).Stands c) :
    ∃ ns, c = .object ns ∧ (es.map Prod.fst).Nodup ∧
      ∀ key, Option.Rel Stands (es.lookup key) (ns.lookup key) := by
  obtain ⟨regular, normal⟩ := stands
  rw [Json.regular, Bool.and_eq_true, decide_eq_true_eq, regularEntries_iff] at regular
  rw [normalize, Option.map_eq_some_iff] at normal
  obtain ⟨ns, made, rfl⟩ := normal
  refine ⟨ns, rfl, regular.1, fun key => ?_⟩
  obtain ⟨present, absent⟩ := lookup_normalizeEntries regular.1 made key
  cases found : es.lookup key with
  | none =>
    rw [absent found]
    exact .none
  | some j =>
    obtain ⟨c, normal, held⟩ := present j found
    rw [held]
    exact .some ⟨regular.2 _ (Entries.mem_of_lookup found), normal⟩

theorem plain_object (nodup : (es.map Prod.fst).Nodup) (each : ∀ e ∈ es, e.2.Plain) :
    (Json.object es).Plain := by
  obtain ⟨ns, made⟩ := exists_normalizeEntries [] fun e member => by
    obtain ⟨c, stands⟩ := each e member
    exact ⟨c, stands.normal⟩
  refine ⟨.object ns, ?_, by rw [normalize, made]; rfl⟩
  rw [regular, Bool.and_eq_true, decide_eq_true_eq, regularEntries_iff]
  refine ⟨nodup, fun e member => ?_⟩
  obtain ⟨_, stands⟩ := each e member
  exact stands.regular

theorem stands_array_iff :
    (Json.array items).Stands c ↔ ∃ cs, c = .array cs ∧ List.Forall₂ Stands items cs := by
  constructor
  · rintro ⟨regular, normal⟩
    rw [normalize, Option.map_eq_some_iff] at normal
    obtain ⟨cs, found, rfl⟩ := normal
    exact ⟨cs, rfl, forall₂_stands_iff.2 ⟨regular, found⟩⟩
  · rintro ⟨cs, rfl, each⟩
    obtain ⟨regular, normal⟩ := forall₂_stands_iff.1 each
    exact ⟨regular, by rw [normalize, normal]; rfl⟩

theorem plain_array (each : ∀ j ∈ items, j.Plain) : (Json.array items).Plain := by
  have all : ∃ cs, List.Forall₂ Stands items cs := by
    induction items with
    | nil => exact ⟨[], .nil⟩
    | cons j rest ih =>
      rw [List.forall_mem_cons] at each
      obtain ⟨c, stands⟩ := each.1
      obtain ⟨cs, others⟩ := ih each.2
      exact ⟨c :: cs, .cons stands others⟩
  obtain ⟨cs, stands⟩ := all
  exact ⟨.array cs, stands_array_iff.2 ⟨cs, rfl, stands⟩⟩

theorem normalize_of_settled (settled : j.settled = true) : j.normalize = some j := by
  cases j <;> simp_all [Json.settled, normalize]

theorem plain_of_settled (settled : j.settled = true) : j.Plain := by
  have regular : j.regular = true := by
    cases j with
    | array | object => contradiction
    | _ => rfl
  exact ⟨j, regular, normalize_of_settled settled⟩

-- The canonical form shows what kind of JSON it is the form of.
theorem eq_of_stands_settled (settled : c.settled = true) (stands : j.Stands c) : j = c := by
  have normal := stands.normal
  cases j <;> simp only [normalize, Option.ite_none_right_eq_some, Option.map_eq_some_iff,
    Option.some.injEq, reduceCtorEq] at normal
  case array => obtain ⟨_, _, rfl⟩ := normal; contradiction
  case object => obtain ⟨_, _, rfl⟩ := normal; contradiction
  case integer => exact normal.2
  case float => exact normal.2
  all_goals exact normal

theorem eq_array_of_stands (stands : j.Stands (.array cs)) : ∃ items, j = .array items := by
  have normal := stands.normal
  cases j <;> simp [normalize] at normal
  exact ⟨_, rfl⟩

theorem eq_object_of_stands (stands : j.Stands (.object ns)) : ∃ es, j = .object es := by
  have normal := stands.normal
  cases j <;> simp [normalize] at normal
  exact ⟨_, rfl⟩

theorem forall₂_alike {others : List Json} (first : List.Forall₂ Stands items cs)
    (second : List.Forall₂ Stands others cs) : List.Forall₂ Alike items others := by
  induction first generalizing others with
  | nil =>
    cases second
    exact .nil
  | cons head _ ih =>
    cases second with
    | cons next rest => exact .cons ⟨_, head, next⟩ (ih rest)

theorem Alike.array (alike : (Json.array items).Alike j) :
    ∃ others, j = .array others ∧ List.Forall₂ Alike items others := by
  obtain ⟨c, first, second⟩ := alike
  obtain ⟨cs, rfl, each⟩ := stands_array_iff.1 first
  obtain ⟨others, rfl⟩ := eq_array_of_stands second
  obtain ⟨_, same, eachToo⟩ := stands_array_iff.1 second
  obtain rfl := Json.array.inj same
  exact ⟨others, rfl, forall₂_alike each eachToo⟩

theorem Alike.object (alike : (Json.object es).Alike j) :
    ∃ fs, j = .object fs ∧ (fs.map Prod.fst).Nodup ∧
      ∀ key, Option.Rel Alike (es.lookup key) (fs.lookup key) := by
  obtain ⟨c, first, second⟩ := alike
  obtain ⟨ns, rfl, _, each⟩ := stands_object first
  obtain ⟨fs, rfl⟩ := eq_object_of_stands second
  obtain ⟨_, same, nodup, eachToo⟩ := stands_object second
  obtain rfl := Json.object.inj same
  refine ⟨fs, rfl, nodup, fun key => ?_⟩
  have left := each key
  have right := eachToo key
  cases found : ns.lookup key with
  | none =>
    rw [found] at left right
    rw [eq_none_of_rel_right left, eq_none_of_rel_right right]
    exact .none
  | some c =>
    rw [found] at left right
    obtain ⟨j, held, stands⟩ := exists_of_rel_some_right left
    obtain ⟨k, heldToo, standsToo⟩ := exists_of_rel_some_right right
    rw [held, heldToo]
    exact .some ⟨c, stands, standsToo⟩

theorem Alike.settled (alike : a.Alike b) (settled : a.settled = true) : b = a := by
  obtain ⟨c, first, second⟩ := alike
  obtain rfl : a = c :=
    Option.some.inj ((normalize_of_settled settled).symm.trans first.normal)
  exact eq_of_stands_settled settled second

theorem Alike.refl (plain : j.Plain) : j.Alike j := by
  obtain ⟨c, stands⟩ := plain
  exact ⟨c, stands, stands⟩

theorem normalizeEntries_of_sorted (sorted : Entries.Sorted (seen ++ es))
    (each : ∀ e ∈ es, e.2.normalize = some e.2) : normalizeEntries es seen = some (seen ++ es) := by
  induction es generalizing seen with
  | nil => simp [normalizeEntries]
  | cons e rest ih =>
    rw [List.forall_mem_cons] at each
    have last : ∀ e' ∈ seen, e'.1 < e.1 := fun e' member =>
      (List.pairwise_append.1 sorted).2.2 e' member e List.mem_cons_self
    have grown : Entries.insert e.1 e.2 seen = seen ++ [e] := Entries.insert_last last
    have step : seen ++ [e] ++ rest = seen ++ e :: rest := by simp
    rw [normalizeEntries, each.1]
    simp only [Option.bind_eq_bind, Option.bind_some, grown]
    rw [ih (step ▸ sorted) each.2, step]

mutual

theorem stands_of_canonical : ∀ {c : Json}, c.canonical = true → c.Stands c
  | .null, _ | .bool _, _ | .string _, _ => ⟨rfl, rfl⟩
  | .integer n, canonical => by
    have inRange : fits n = true := canonical
    exact ⟨rfl, by rw [normalize, if_pos inRange]⟩
  | .float x, canonical => by
    have finite : x.isFinite = true := canonical
    exact ⟨rfl, by rw [normalize, if_pos finite]⟩
  | .array items, canonical => stands_array_iff.2 ⟨items, rfl, stands_of_canonicalItems canonical⟩
  | .object entries, canonical => by
    rw [Json.canonical, Bool.and_eq_true, decide_eq_true_eq] at canonical
    obtain ⟨sorted, each⟩ := canonical
    have stands := stands_of_canonicalEntries each
    refine ⟨?_, ?_⟩
    · rw [regular, Bool.and_eq_true, decide_eq_true_eq, regularEntries_iff]
      exact ⟨Entries.nodup_of_sorted sorted, fun e member => (stands e member).regular⟩
    · have whole : Entries.Sorted ([] ++ entries) := sorted
      rw [normalize, normalizeEntries_of_sorted whole fun e member => (stands e member).normal]
      rfl

theorem stands_of_canonicalItems :
    ∀ {cs : List Json}, canonicalItems cs = true → List.Forall₂ Stands cs cs
  | [], _ => .nil
  | c :: rest, canonical => by
    rw [canonicalItems, Bool.and_eq_true] at canonical
    exact .cons (stands_of_canonical canonical.1) (stands_of_canonicalItems canonical.2)

theorem stands_of_canonicalEntries :
    ∀ {ns : List (String × Json)}, canonicalEntries ns = true → ∀ e ∈ ns, e.2.Stands e.2
  | [], _ => by simp
  | (key, c) :: rest, canonical => by
    rw [canonicalEntries, Bool.and_eq_true] at canonical
    rw [List.forall_mem_cons]
    exact ⟨stands_of_canonical canonical.1, stands_of_canonicalEntries canonical.2⟩

end

end Json

end TradingStrategy
