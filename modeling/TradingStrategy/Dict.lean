set_option autoImplicit false

namespace TradingStrategy

namespace Entries

variable {α : Type}

def Sorted (es : List (String × α)) : Prop := es.Pairwise (fun a b => a.1 < b.1)

instance (es : List (String × α)) : Decidable (Sorted es) :=
  inferInstanceAs (Decidable (es.Pairwise _))

def insert (key : String) (value : α) : List (String × α) → List (String × α)
  | [] => [(key, value)]
  | (k, v) :: rest =>
    if key < k then (key, value) :: (k, v) :: rest
    else if key = k then (key, value) :: rest
    else (k, v) :: insert key value rest

theorem fst_of_mem_insert {key : String} {value : α} {es : List (String × α)} {e : String × α}
    (h : e ∈ insert key value es) : e.1 = key ∨ e ∈ es := by
  induction es with
  | nil => simp_all [insert]
  | cons head rest ih =>
    simp only [insert] at h
    split at h
    · simp_all; rcases h with rfl | h <;> simp_all
    · split at h
      · simp_all; rcases h with rfl | h <;> simp_all
      · simp only [List.mem_cons] at h ⊢
        rcases h with h | h
        · exact .inr (.inl h)
        · rcases ih h with h | h
          · exact .inl h
          · exact .inr (.inr h)

theorem insert_sorted {key : String} {value : α} {es : List (String × α)} (h : Sorted es) :
    Sorted (insert key value es) := by
  induction es with
  | nil => simp [insert, Sorted]
  | cons head rest ih =>
    simp only [Sorted, List.pairwise_cons] at h ih ⊢
    simp only [insert]
    split
    · next lt =>
      simp only [List.pairwise_cons, List.mem_cons]
      refine ⟨?_, h.1, h.2⟩
      rintro e (rfl | he)
      · exact lt
      · exact String.lt_trans lt (h.1 e he)
    · next nlt =>
      split
      · next eq => exact List.pairwise_cons.2 ⟨fun e he => eq ▸ h.1 e he, h.2⟩
      · next ne =>
        refine List.pairwise_cons.2 ⟨fun e he => ?_, ih h.2⟩
        rcases fst_of_mem_insert he with he | he
        · rw [he]
          exact Decidable.byContradiction fun hn =>
            ne (String.le_antisymm (String.not_lt.1 hn) (String.not_lt.1 nlt))
        · exact h.1 e he

theorem lookup_cons {key k : String} {v : α} {es : List (String × α)} :
    List.lookup key ((k, v) :: es) = if key = k then some v else es.lookup key := by
  by_cases h : key = k
  · simp [h]
  · simp [List.lookup_cons, h, beq_false_of_ne h]

theorem lookup_insert {key other : String} {value : α} {es : List (String × α)} :
    (insert key value es).lookup other = if other = key then some value else es.lookup other := by
  induction es with
  | nil => simp [insert, lookup_cons]
  | cons head rest ih =>
    obtain ⟨k, v⟩ := head
    simp only [insert]
    split
    · simp only [lookup_cons]
    · split <;> simp only [lookup_cons, ih] <;> grind

theorem lookup_erase {key other : String} {es : List (String × α)} :
    (es.filter (·.1 ≠ key)).lookup other = if other = key then none else es.lookup other := by
  induction es with
  | nil => simp
  | cons head rest ih =>
    by_cases h : head.1 = key <;> grind [lookup_cons]

theorem lookup_map {β : Type} {f : String → α → β} {key : String} {es : List (String × α)} :
    (es.map fun e => (e.1, f e.1 e.2)).lookup key = (es.lookup key).map (f key) := by
  induction es with
  | nil => rfl
  | cons head rest ih =>
    obtain ⟨k, v⟩ := head
    by_cases h : key = k
    · simp [h]
    · simp [lookup_cons, h, ih]

end Entries

-- Keys increase strictly, so dictionaries with the same entries are equal.
structure Dict (α : Type) where
  entries : List (String × α)
  sorted : Entries.Sorted entries
deriving DecidableEq

namespace Dict

variable {α β : Type}

def empty : Dict α := ⟨[], List.Pairwise.nil⟩

instance : Inhabited (Dict α) := ⟨empty⟩

def get? (d : Dict α) (key : String) : Option α := d.entries.lookup key

def contains (d : Dict α) (key : String) : Bool := (d.get? key).isSome

def keys (d : Dict α) : List String := d.entries.map (·.1)

def values (d : Dict α) : List α := d.entries.map (·.2)

def size (d : Dict α) : Nat := d.entries.length

def insert (d : Dict α) (key : String) (value : α) : Dict α :=
  ⟨Entries.insert key value d.entries, Entries.insert_sorted d.sorted⟩

def erase (d : Dict α) (key : String) : Dict α :=
  ⟨d.entries.filter (·.1 ≠ key), d.sorted.filter _⟩

def filter (keep : String → α → Bool) (d : Dict α) : Dict α :=
  ⟨d.entries.filter (fun e => keep e.1 e.2), d.sorted.filter _⟩

def map (f : String → α → β) (d : Dict α) : Dict β :=
  ⟨d.entries.map (fun e => (e.1, f e.1 e.2)),
    List.pairwise_map.2 (d.sorted.imp (fun h => h))⟩

def ofList (es : List (String × α)) : Dict α :=
  es.foldl (fun d e => d.insert e.1 e.2) empty

@[simp] theorem get?_empty {key : String} : (empty : Dict α).get? key = none := rfl

theorem get?_insert {d : Dict α} {key other : String} {value : α} :
    (d.insert key value).get? other = if other = key then some value else d.get? other :=
  Entries.lookup_insert

theorem get?_erase {d : Dict α} {key other : String} :
    (d.erase key).get? other = if other = key then none else d.get? other :=
  Entries.lookup_erase

theorem get?_map {d : Dict α} {f : String → α → β} {key : String} :
    (d.map f).get? key = (d.get? key).map (f key) :=
  Entries.lookup_map

end Dict

end TradingStrategy
