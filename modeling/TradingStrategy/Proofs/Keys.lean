import TradingStrategy.Dict

set_option autoImplicit false

namespace TradingStrategy

namespace Entries

variable {α : Type}

theorem insert_last {key : String} {value : α} {es : List (String × α)}
    (last : ∀ e ∈ es, e.1 < key) : insert key value es = es ++ [(key, value)] := by
  induction es with
  | nil => rfl
  | cons e rest ih =>
    rw [List.forall_mem_cons] at last
    have after : ¬ key < e.1 := String.lt_asymm last.1
    have other : key ≠ e.1 := (String.ne_of_lt last.1).symm
    rw [insert, if_neg after, if_neg other, ih last.2, List.cons_append]

variable {es : List (String × α)} {key : String} {value : α}

theorem mem_of_lookup (found : es.lookup key = some value) : (key, value) ∈ es := by
  obtain ⟨before, after, split, _⟩ := List.lookup_eq_some_iff.1 found
  simp [split]

theorem lookup_of_mem (nodup : (es.map Prod.fst).Nodup) (member : (key, value) ∈ es) :
    es.lookup key = some value := by
  induction es with
  | nil => contradiction
  | cons e rest ih =>
    rw [List.map_cons, List.nodup_cons] at nodup
    rw [lookup_cons]
    rcases List.mem_cons.1 member with rfl | later
    · rw [if_pos rfl]
    · have other : key ≠ e.1 := by
        intro same
        exact nodup.1 (List.mem_map.2 ⟨_, later, same⟩)
      rw [if_neg other, ih nodup.2 later]

theorem lookup_eq_none (absent : key ∉ es.map Prod.fst) : es.lookup key = none := by
  cases found : es.lookup key with
  | none => rfl
  | some value => exact absurd (List.mem_map_of_mem (mem_of_lookup found)) absent

theorem lookup_filter (keep : String → Bool) (key : String) (es : List (String × α)) :
    (es.filter fun e => keep e.1).lookup key = if keep key = true then es.lookup key else none := by
  induction es with
  | nil => simp
  | cons e rest ih =>
    rw [List.filter_cons, lookup_cons]
    split
    next kept =>
      rw [lookup_cons, ih]
      by_cases same : key = e.1 <;> simp [same, kept]
    next dropped =>
      rw [ih]
      by_cases same : key = e.1 <;> simp [same, dropped]

theorem sorted_of_keys {β : Type} {fs : List (String × β)}
    (keys : fs.map Prod.fst = es.map Prod.fst) (sorted : Sorted es) : Sorted fs := by
  have ascending : (es.map Prod.fst).Pairwise (· < ·) := List.pairwise_map.2 sorted
  rw [← keys] at ascending
  exact List.pairwise_map.1 ascending

theorem nodup_of_sorted (sorted : Sorted es) : (es.map Prod.fst).Nodup :=
  List.pairwise_map.2 (sorted.imp fun less => String.ne_of_lt less)

end Entries

namespace Dict

variable {α β : Type}

theorem contains_iff {d : Dict α} {id : String} : d.contains id = true ↔ id ∈ d.keys := by
  rw [contains, get?, List.lookup_isSome_iff, keys, List.mem_map]
  constructor
  · intro holds
    obtain ⟨entry, member, same⟩ := holds
    exact ⟨entry, member, (beq_iff_eq.1 same).symm⟩
  · intro holds
    obtain ⟨entry, member, same⟩ := holds
    exact ⟨entry, member, beq_iff_eq.2 same.symm⟩

theorem contains_insert (d : Dict α) (key id : String) (value : α) :
    (d.insert key value).contains id = (decide (id = key) || d.contains id) := by
  by_cases same : id = key <;> simp [contains, get?_insert, same]

theorem contains_insert_of_get? {d : Dict α} {key : String} {old : α}
    (present : d.get? key = some old) (value : α) (id : String) :
    (d.insert key value).contains id = d.contains id := by
  rw [contains_insert]
  by_cases same : id = key
  · simp [same, contains, present]
  · simp [same]

theorem contains_erase (d : Dict α) (key id : String) :
    (d.erase key).contains id = (decide (id ≠ key) && d.contains id) := by
  by_cases same : id = key <;> simp [contains, get?_erase, same]

theorem keys_map (d : Dict α) (f : String → α → β) : (d.map f).keys = d.keys := by
  simp [keys, map]

theorem mem_keys_filter (d : Dict α) (keep : String → Bool) (id : String) :
    id ∈ (d.filter fun key _ => keep key).keys ↔ keep id = true ∧ id ∈ d.keys := by
  simp only [keys, filter, List.mem_map, List.mem_filter]
  constructor
  · intro holds
    obtain ⟨entry, ⟨member, kept⟩, rfl⟩ := holds
    exact ⟨kept, entry, member, rfl⟩
  · intro holds
    obtain ⟨kept, entry, member, rfl⟩ := holds
    exact ⟨entry, ⟨member, kept⟩, rfl⟩

theorem get?_filter (d : Dict α) (keep : String → Bool) (key : String) :
    (d.filter fun key _ => keep key).get? key = if keep key = true then d.get? key else none :=
  Entries.lookup_filter keep key d.entries

theorem mem_keys_foldl_insert (d : Dict α) (es : List (String × α)) (id : String) :
    id ∈ (es.foldl (fun d e => d.insert e.1 e.2) d).keys ↔ id ∈ d.keys ∨ id ∈ es.map Prod.fst := by
  induction es generalizing d with
  | nil => simp
  | cons e rest ih =>
    rw [List.foldl_cons, ih, ← contains_iff, contains_insert, Bool.or_eq_true, decide_eq_true_eq,
      contains_iff, List.map_cons, List.mem_cons]
    grind

theorem mem_keys_ofList (es : List (String × α)) (id : String) :
    id ∈ (ofList es).keys ↔ id ∈ es.map Prod.fst := by
  rw [ofList, mem_keys_foldl_insert]
  simp [keys, empty]

theorem eq_of_entries {d e : Dict α} (same : d.entries = e.entries) : d = e := by
  obtain ⟨es, sorted⟩ := d
  obtain ⟨fs, sorted'⟩ := e
  obtain rfl : es = fs := same
  rfl

theorem entries_foldl_insert {d : Dict α} {es : List (String × α)}
    (sorted : Entries.Sorted (d.entries ++ es)) :
    (es.foldl (fun d e => d.insert e.1 e.2) d).entries = d.entries ++ es := by
  induction es generalizing d with
  | nil => simp
  | cons e rest ih =>
    have last : ∀ e' ∈ d.entries, e'.1 < e.1 := fun e' member =>
      (List.pairwise_append.1 sorted).2.2 e' member e List.mem_cons_self
    have grown : (d.insert e.1 e.2).entries = d.entries ++ [e] := Entries.insert_last last
    rw [List.foldl_cons, ih, grown, List.append_assoc, List.singleton_append]
    rwa [grown, List.append_assoc, List.singleton_append]

theorem entries_ofList {es : List (String × α)} (sorted : Entries.Sorted es) :
    (ofList es).entries = es :=
  entries_foldl_insert (d := empty) sorted

theorem keys_ofList {d : Dict α} {made : List (String × β)}
    (keys : made.map Prod.fst = d.entries.map Prod.fst) : (ofList made).keys = d.keys := by
  rw [Dict.keys, entries_ofList (Entries.sorted_of_keys keys d.sorted), keys, Dict.keys]

theorem map_ofList {γ : Type} {d : Dict α} {made : List (String × β)} {f : String → β → γ}
    {g : String → α → γ}
    (same : (made.map fun e => (e.1, f e.1 e.2)) = d.entries.map fun e => (e.1, g e.1 e.2)) :
    (ofList made).map f = d.map g := by
  have keys := congrArg (List.map Prod.fst) same
  rw [List.map_map, List.map_map] at keys
  refine eq_of_entries ?_
  show ((ofList made).entries.map fun e => (e.1, f e.1 e.2)) = _
  rw [entries_ofList (Entries.sorted_of_keys keys d.sorted), same]
  rfl

theorem map_filter_map {γ : Type} (d : Dict α) (f : String → α → β) (keep : String → Bool)
    (g : String → β → γ) :
    ((d.map f).filter fun key _ => keep key).map g =
      (d.filter fun key _ => keep key).map fun key a => g key (f key a) := by
  refine eq_of_entries ?_
  simp only [map, filter, List.filter_map, List.map_map]
  rfl

theorem keys_nodup (d : Dict α) : d.keys.Nodup := Entries.nodup_of_sorted d.sorted

theorem entries_nodup (d : Dict α) : d.entries.Nodup :=
  d.sorted.imp fun less same => String.ne_of_lt less (congrArg Prod.fst same)

theorem mem_entries_iff {d : Dict α} {key : String} {value : α} :
    (key, value) ∈ d.entries ↔ d.get? key = some value := by
  rw [get?, List.lookup_eq_some_iff]
  constructor
  · intro member
    obtain ⟨before, after, split⟩ := List.append_of_mem member
    refine ⟨before, after, split, fun e earlier => ?_⟩
    have sorted := d.sorted
    rw [split] at sorted
    have less := (List.pairwise_append.1 sorted).2.2 e earlier _ List.mem_cons_self
    simpa using (String.ne_of_lt less).symm
  · intro holds
    obtain ⟨before, after, split, _⟩ := holds
    simp [split]

theorem ext_get? {d e : Dict α} (same : ∀ key, d.get? key = e.get? key) : d = e := by
  have members (p : String × α) : p ∈ d.entries ↔ p ∈ e.entries := by
    rw [mem_entries_iff, mem_entries_iff, same]
  have perm := (List.perm_ext_iff_of_nodup d.entries_nodup e.entries_nodup).2 members
  refine eq_of_entries (perm.eq_of_pairwise ?_ d.sorted e.sorted)
  intro a b _ _ forward backward
  exact absurd backward (String.lt_asymm forward)

theorem get?_foldl_insert (d : Dict α) {es : List (String × α)} (nodup : (es.map Prod.fst).Nodup)
    (key : String) :
    (es.foldl (fun d e => d.insert e.1 e.2) d).get? key = (es.lookup key).or (d.get? key) := by
  induction es generalizing d with
  | nil => rfl
  | cons e rest ih =>
    rw [List.map_cons, List.nodup_cons] at nodup
    rw [List.foldl_cons, ih _ nodup.2, get?_insert, Entries.lookup_cons]
    split
    next same =>
      rw [same, Entries.lookup_eq_none nodup.1]
      rfl
    next => rfl

theorem get?_ofList {es : List (String × α)} (nodup : (es.map Prod.fst).Nodup) (key : String) :
    (ofList es).get? key = es.lookup key := by
  rw [ofList, get?_foldl_insert empty nodup, get?_empty, Option.or_none]

-- The dictionary puts its entries back in order, in whatever order they come.
theorem ofList_eq {d : Dict α} {es : List (String × α)} (nodup : (es.map Prod.fst).Nodup)
    (held : ∀ e ∈ es, d.get? e.1 = some e.2)
    (absent : ∀ key, key ∉ es.map Prod.fst → d.get? key = none) : ofList es = d := by
  apply ext_get?
  intro key
  rw [get?_ofList nodup]
  cases found : es.lookup key with
  | some value => exact (held _ (Entries.mem_of_lookup found)).symm
  | none =>
    refine (absent key fun listed => ?_).symm
    obtain ⟨e, member, rfl⟩ := List.mem_map.1 listed
    rw [Entries.lookup_of_mem nodup member] at found
    contradiction

theorem insert_insert (d : Dict α) (key : String) (first second : α) :
    (d.insert key first).insert key second = d.insert key second := by
  apply ext_get?
  intro other
  simp only [get?_insert]
  split <;> rfl

theorem insert_of_get? {d : Dict α} {key : String} {value : α}
    (present : d.get? key = some value) : d.insert key value = d := by
  apply ext_get?
  intro other
  rw [get?_insert]
  split
  next same => rw [same, present]
  next => rfl

theorem erase_of_not_contains {d : Dict α} {key : String} (absent : d.contains key = false) :
    d.erase key = d := by
  apply ext_get?
  intro other
  rw [get?_erase]
  split
  next same =>
    rw [contains, Option.isSome_eq_false_iff, Option.isNone_iff_eq_none] at absent
    rw [same, absent]
  next => rfl

theorem erase_insert {d : Dict α} {key : String} (absent : d.contains key = false) (value : α) :
    (d.insert key value).erase key = d := by
  conv => rhs; rw [← erase_of_not_contains absent]
  apply ext_get?
  intro other
  simp only [get?_erase, get?_insert]
  split <;> rfl

theorem mem_values_iff {d : Dict α} {value : α} :
    value ∈ d.values ↔ ∃ key, d.get? key = some value := by
  simp [values, ← mem_entries_iff]

theorem mem_values_insert {d : Dict α} {key : String} {value other : α}
    (member : other ∈ (d.insert key value).values) : other = value ∨ other ∈ d.values := by
  obtain ⟨place, found⟩ := mem_values_iff.1 member
  rw [get?_insert] at found
  split at found
  next => exact .inl (Option.some.inj found).symm
  next => exact .inr (mem_values_iff.2 ⟨place, found⟩)

theorem mem_values_foldl_insert {d : Dict α} {es : List (String × α)} {value : α}
    (member : value ∈ (es.foldl (fun d e => d.insert e.1 e.2) d).values) :
    value ∈ d.values ∨ value ∈ es.map Prod.snd := by
  induction es generalizing d with
  | nil => exact .inl member
  | cons e rest ih =>
    rcases ih member with held | later
    · rcases mem_values_insert held with same | held
      · exact .inr (same ▸ List.mem_cons_self)
      · exact .inl held
    · exact .inr (List.mem_cons_of_mem _ later)

theorem mem_values_ofList {es : List (String × α)} {value : α}
    (member : value ∈ (ofList es).values) : value ∈ es.map Prod.snd := by
  rcases mem_values_foldl_insert member with held | listed
  · exact absurd held List.not_mem_nil
  · exact listed

theorem values_insert_perm (d : Dict α) (key : String) (value : α) :
    (d.insert key value).values.Perm (value :: (d.erase key).values) := by
  have fresh : (key, value) ∉ (d.erase key).entries := by simp [mem_entries_iff, get?_erase]
  have perm : (d.insert key value).entries.Perm ((key, value) :: (d.erase key).entries) := by
    rw [List.perm_ext_iff_of_nodup (entries_nodup _)
      (List.nodup_cons.2 ⟨fresh, entries_nodup _⟩)]
    intro (other, held)
    rw [List.mem_cons, mem_entries_iff, mem_entries_iff, get?_insert, get?_erase]
    by_cases same : other = key
    · simp [same, eq_comm]
    · simp [same]
  exact perm.map Prod.snd

theorem values_perm {d : Dict α} {key : String} {value : α}
    (present : d.get? key = some value) : d.values.Perm (value :: (d.erase key).values) := by
  have perm := d.values_insert_perm key value
  rwa [insert_of_get? present] at perm

end Dict

end TradingStrategy
