import Mathlib.Data.List.Nodup
import TradingStrategy.Json.Record
import TradingStrategy.Proofs.Alike
import TradingStrategy.Proofs.NumberText

set_option autoImplicit false

namespace TradingStrategy

open TradingStrategy.Json (Alike)

namespace Wire

variable {α : Type} [Wire α]

def ReadAs (x y : α) : Prop := ∀ j, (toJson x).Alike j → ofJson? j = some y

structure Lossless (x : α) : Prop where
  plain : (toJson x).Plain
  reads : ∀ j, (toJson x).Alike j → ofJson? j = some x

/-- The form reads back as written, sorted by key as JSON values are kept, and in any other order
of entries. -/
structure ReadsBack (x : α) : Prop where
  written : ofJson? (toJson x) = some x
  sorted : ∃ c, (toJson x).normalize = some c ∧ ofJson? c = some x
  reordered : ∀ j, (toJson x).Alike j → ofJson? j = some x

theorem Lossless.readsBack {x : α} (lossless : Lossless x) : ReadsBack x := by
  refine ⟨lossless.reads _ (.refl lossless.plain), ?_, lossless.reads⟩
  obtain ⟨c, stands⟩ := lossless.plain
  have sorted := Json.stands_of_canonical (Json.canonical_of_normalize stands.normal)
  exact ⟨c, stands.normal, lossless.reads c ⟨c, stands, sorted⟩⟩

structure Scalar (x : α) : Prop where
  settled : (toJson x).settled = true
  reads : ofJson? (toJson x) = some x

@[simp] theorem Scalar.lossless {x : α} (scalar : Scalar x) : Lossless x := by
  refine ⟨Json.plain_of_settled scalar.settled, fun j alike => ?_⟩
  rw [alike.settled scalar.settled, scalar.reads]

-- A union tries its types in turn, and the form does not name the type.
theorem Lossless.of_first {β : Type} [Wire β] {inj : α → β} {others : Json → Option β} {x : α}
    (lossless : Lossless x) (written : toJson (inj x) = toJson x)
    (opened : ∀ j, ofJson? j = ((ofJson? j).map inj).or (others j)) : Lossless (inj x) := by
  refine ⟨written ▸ lossless.plain, fun j alike => ?_⟩
  rw [written] at alike
  rw [opened, lossless.reads j alike]
  rfl

theorem Scalar.of_second {β : Type} [Wire β] {inj : α → β} {x : α} (scalar : Scalar x)
    (written : toJson (inj x) = toJson x)
    (opened : ofJson? (toJson x) = (ofJson? (toJson x)).map inj) : Scalar (inj x) := by
  refine ⟨written ▸ scalar.settled, ?_⟩
  rw [written, opened, scalar.reads]
  rfl

@[simp] theorem scalar_string (s : String) : Scalar s := ⟨rfl, rfl⟩

@[simp] theorem scalar_bool (b : Bool) : Scalar b := ⟨rfl, rfl⟩

@[simp] theorem scalar_uint32 (n : UInt32) : Scalar n := by
  have below := n.toNat_lt
  constructor
  · simp only [toJson, Json.settled, Json.fits, Bool.and_eq_true, decide_eq_true_eq]
    omega
  · have range : (0 : Int) ≤ n.toNat ∧ (n.toNat : Int) < 0x100000000 := by omega
    simp only [toJson, ofJson?, if_pos range, Int.toNat_natCast, UInt32.ofNat_toNat]

@[simp] theorem scalar_int32 (n : Int32) : Scalar n := by
  have below := n.toInt_lt
  have above := n.le_toInt
  constructor
  · simp only [toJson, Json.settled, Json.fits, Bool.and_eq_true, decide_eq_true_eq]
    omega
  · have range : -0x80000000 ≤ n.toInt ∧ n.toInt < 0x80000000 := by omega
    simp only [toJson, ofJson?, if_pos range, Int32.ofInt_toInt]

theorem scalar_binary64 {x : Binary64} (finite : x.isFinite = true) : Scalar x :=
  ⟨finite, rfl⟩

theorem lossless_of_finite {o : Option Binary64} (finite : ∀ x ∈ o, x.isFinite = true) :
    ∀ x ∈ o, Lossless x := fun x held => (scalar_binary64 (finite x held)).lossless

@[simp] theorem lossless_value (v : Value) : Lossless v := by
  have stands := Json.stands_of_canonical v.canonical
  refine ⟨⟨v.json, stands⟩, fun j alike => ?_⟩
  obtain ⟨c, first, second⟩ := alike
  rw [show c = v.json from Option.some.inj (first.normal.symm.trans stands.normal)] at second
  exact Value.ofJson?_eq_some_iff.2 second.normal

theorem readAs_list {xs : List α} {g : α → α} (each : ∀ x ∈ xs, ReadAs x (g x)) :
    ReadAs xs (xs.map g) := by
  intro j alike
  obtain ⟨items, rfl, pairs⟩ := alike.array
  clear alike
  show items.mapM ofJson? = some (xs.map g)
  induction xs generalizing items with
  | nil =>
    cases pairs
    rfl
  | cons x rest ih =>
    rw [List.map_cons, List.forall₂_cons_left_iff] at pairs
    obtain ⟨j, others, first, later, rfl⟩ := pairs
    rw [List.forall_mem_cons] at each
    simp [List.mapM_cons, each.1 j first, ih each.2 others later]

theorem lossless_list {xs : List α} (each : ∀ x ∈ xs, Lossless x) : Lossless xs := by
  constructor
  · apply Json.plain_array
    rw [List.forall_mem_map]
    exact fun x member => (each x member).plain
  · have reads := readAs_list (g := id) fun x member => (each x member).reads
    rwa [List.map_id] at reads

theorem exists_readEntries (d : Dict α) {fs : List (String × Json)}
    (each : ∀ e ∈ fs, ∃ x, ofJson? e.2 = some x ∧ d.get? e.1 = some x) :
    ∃ es, (fs.mapM fun e => (ofJson? e.2).map fun x => (e.1, x)) = some es ∧
      es.map Prod.fst = fs.map Prod.fst ∧ ∀ e ∈ es, d.get? e.1 = some e.2 := by
  induction fs with
  | nil => exact ⟨[], rfl, rfl, by simp⟩
  | cons f rest ih =>
    rw [List.forall_mem_cons] at each
    obtain ⟨x, read, held⟩ := each.1
    obtain ⟨es, made, keys, holds⟩ := ih each.2
    refine ⟨(f.1, x) :: es, by simp [List.mapM_cons, read, made], by simp [keys], ?_⟩
    rw [List.forall_mem_cons]
    exact ⟨held, holds⟩

theorem lossless_dict {d : Dict α} (each : ∀ x ∈ d.values, Lossless x) : Lossless d := by
  refine ⟨Json.plain_object ?_ ?_, fun j alike => ?_⟩
  · rw [List.map_map]
    exact d.keys_nodup
  · rw [List.forall_mem_map]
    exact fun e member => (each e.2 (List.mem_map_of_mem member)).plain
  · obtain ⟨fs, rfl, nodup, lookups⟩ := alike.object
    have written (key : String) : (d.entries.map fun e => (e.1, toJson e.2)).lookup key =
        (d.get? key).map toJson := Entries.lookup_map (f := fun _ => toJson)
    simp only [written] at lookups
    obtain ⟨es, made, keys, holds⟩ := exists_readEntries d fun e (member : e ∈ fs) => by
      have held := lookups e.1
      rw [Entries.lookup_of_mem nodup member] at held
      obtain ⟨_, written, alike⟩ := exists_of_rel_some_right held
      obtain ⟨x, found, rfl⟩ := Option.map_eq_some_iff.1 written
      exact ⟨x, (each x (Dict.mem_values_iff.2 ⟨e.1, found⟩)).reads e.2 alike, found⟩
    show ((fs.mapM fun e => (ofJson? e.2).map fun x => (e.1, x)).bind fun es =>
      some (Dict.ofList es)) = some d
    rw [made, Option.bind_some, Option.some.injEq]
    refine Dict.ofList_eq (keys ▸ nodup) holds fun key missing => ?_
    have held := lookups key
    rw [Entries.lookup_eq_none (keys ▸ missing)] at held
    exact Option.map_eq_none_iff.1 (eq_none_of_rel_right held)

end Wire

namespace Fields

open Wire (Lossless)

def Holds (f : Fields) : List (String × Option Json) → Prop
  | [] => True
  | (name, o) :: rest => Option.Rel Alike o (f.get? name) ∧ f.Holds rest

variable {α : Type} [Wire α] {f : Fields} {name : String}

theorem ofJson?_object {names : List String} {es : List (String × Json)}
    (nodup : (es.map Prod.fst).Nodup) : ofJson? names (.object es) = some ⟨es, true⟩ := by
  have once : (names.all fun n => (es.filter (·.1 == n)).length ≤ 1) = true := by
    rw [List.all_eq_true]
    intro n _
    have count := List.nodup_iff_count_le_one.1 nodup n
    rw [List.count, List.countP_map, List.countP_eq_length_filter] at count
    exact decide_eq_true count
  rw [ofJson?, if_pos once]

theorem holds_append {first second : List (String × Option Json)} :
    f.Holds (first ++ second) ↔ f.Holds first ∧ f.Holds second := by
  induction first with
  | nil => simp [Holds]
  | cons p rest ih => simp [Holds, ih, and_assoc]

theorem holds_of_mem {fields : List (String × Option Json)}
    (each : ∀ p ∈ fields, Option.Rel Alike p.2 (f.get? p.1)) : f.Holds fields := by
  induction fields with
  | nil => trivial
  | cons p rest ih =>
    rw [List.forall_mem_cons] at each
    exact ⟨each.1, ih each.2⟩

theorem required_eq {x : α} (held : Option.Rel Alike (some (Wire.toJson x)) (f.get? name))
    (lossless : Lossless x) : f.required name = some x := by
  obtain ⟨j, found, alike⟩ := exists_of_rel_some_left held
  rw [required, found, Option.bind_some, lossless.reads j alike]

theorem withDefault_eq {x : α} (held : Option.Rel Alike (some (Wire.toJson x)) (f.get? name))
    (lossless : Lossless x) (value : α) : f.withDefault name value = some x := by
  obtain ⟨j, found, alike⟩ := exists_of_rel_some_left held
  simp only [withDefault, found, lossless.reads j alike]

-- A field that is there is not null, as null is no form of what it may hold.
theorem optional_readAs {o : Option α} {g : α → α}
    (held : Option.Rel Alike (o.map Wire.toJson) (f.get? name))
    (reads : ∀ x ∈ o, Wire.ReadAs x (g x)) (nonnull : (Wire.ofJson? .null : Option α) = none) :
    f.optional name = some (o.map g) := by
  unfold optional
  cases o with
  | none => rw [eq_none_of_rel_left held]; rfl
  | some x =>
    obtain ⟨j, found, alike⟩ := exists_of_rel_some_left held
    have read := reads x rfl j alike
    rw [found]
    cases j with
    | null => rw [nonnull] at read; contradiction
    | _ => exact congrArg (Option.map some) read

theorem optional_eq {o : Option α} (held : Option.Rel Alike (o.map Wire.toJson) (f.get? name))
    (lossless : ∀ x ∈ o, Lossless x) (nonnull : (Wire.ofJson? .null : Option α) = none) :
    f.optional name = some o := by
  have reads := optional_readAs (g := id) held (fun x there => (lossless x there).reads) nonnull
  rwa [Option.map_id, id] at reads

end Fields

namespace Wire

variable {α : Type} [Wire α]

def present (fields : List (String × Option Json)) : List (String × Json) :=
  fields.filterMap fun f => f.2.map fun j => (f.1, j)

variable {fields : List (String × Option Json)}

theorem keys_present_sublist (fields : List (String × Option Json)) :
    ((present fields).map Prod.fst).Sublist (fields.map Prod.fst) := by
  induction fields with
  | nil => exact .slnil
  | cons p rest ih =>
    obtain ⟨name, o⟩ := p
    cases o with
    | none => exact ih.cons name
    | some j => exact ih.cons_cons name

theorem lookup_present (nodup : (fields.map Prod.fst).Nodup) {p : String × Option Json}
    (member : p ∈ fields) : (present fields).lookup p.1 = p.2 := by
  cases held : p.2 with
  | some j =>
    apply Entries.lookup_of_mem (nodup.sublist (keys_present_sublist fields))
    exact List.mem_filterMap.2 ⟨p, member, by simp [held]⟩
  | none =>
    apply Entries.lookup_eq_none
    intro listed
    obtain ⟨e, inside, name⟩ := List.mem_map.1 listed
    obtain ⟨q, other, made⟩ := List.mem_filterMap.1 inside
    obtain ⟨j, value, rfl⟩ := Option.map_eq_some_iff.1 made
    have same : q = p := List.inj_on_of_nodup_map nodup other member name
    rw [same, held] at value
    contradiction

theorem plain_record (distinct : (fields.map Prod.fst).Nodup)
    (plain : ∀ p ∈ fields, ∀ w ∈ p.2, w.Plain) : (Json.record fields).Plain := by
  refine Json.plain_object (distinct.sublist (keys_present_sublist fields)) fun e member => ?_
  obtain ⟨p, listed, made⟩ := List.mem_filterMap.1 member
  obtain ⟨w, value, rfl⟩ := Option.map_eq_some_iff.1 made
  exact plain p listed w value

-- Fields are looked up by name, so their order does not matter.
theorem ReadAs.of_record {x y : α} {names : List String} {read : Fields → Option α}
    (written : toJson x = .record fields)
    (opened : ∀ j, (ofJson? j : Option α) = (Fields.ofJson? names j).bind read)
    (named : fields.map Prod.fst = names) (distinct : names.Nodup)
    (reads : ∀ f : Fields, f.Holds fields → read f = some y) : ReadAs x y := by
  have nodup : (fields.map Prod.fst).Nodup := named ▸ distinct
  have form : toJson x = .object (present fields) := written
  intro j alike
  rw [form] at alike
  obtain ⟨es, rfl, unique, lookups⟩ := alike.object
  rw [opened, Fields.ofJson?_object unique, Option.bind_some]
  apply reads
  apply Fields.holds_of_mem
  intro p member
  have held := lookups p.1
  rwa [lookup_present nodup member] at held

theorem Lossless.of_record {x : α} {names : List String} {read : Fields → Option α}
    (written : toJson x = .record fields)
    (opened : ∀ j, (ofJson? j : Option α) = (Fields.ofJson? names j).bind read)
    (named : fields.map Prod.fst = names) (distinct : names.Nodup)
    (plain : ∀ p ∈ fields, ∀ w ∈ p.2, w.Plain)
    (reads : ∀ f : Fields, f.Holds fields → read f = some x) : Lossless x :=
  ⟨written ▸ plain_record (named ▸ distinct) plain,
    ReadAs.of_record written opened named distinct reads⟩

structure Flat (x : α) : Prop where
  lossless : Lossless x
  form : ∃ es, toJson x = .object es ∧ ∀ e ∈ es, e.2.settled = true

theorem Flat.of_record {x : α} {names : List String}
    {read : Fields → Option α} (written : toJson x = .record fields)
    (opened : ∀ j, (ofJson? j : Option α) = (Fields.ofJson? names j).bind read)
    (named : fields.map Prod.fst = names) (distinct : names.Nodup)
    (settled : ∀ p ∈ fields, ∀ w ∈ p.2, w.settled = true)
    (reads : ∀ f : Fields, f.Holds fields → read f = some x) : Flat x := by
  refine ⟨.of_record written opened named distinct (fun p member w value =>
    Json.plain_of_settled (settled p member w value)) reads, _, written, fun e member => ?_⟩
  obtain ⟨p, listed, made⟩ := List.mem_filterMap.1 member
  obtain ⟨w, value, rfl⟩ := Option.map_eq_some_iff.1 made
  exact settled p listed w value

end Wire

end TradingStrategy
