import TradingStrategy.Dict
import TradingStrategy.Number.Binary64

set_option autoImplicit false

namespace TradingStrategy

inductive Json where
  | null
  | bool (b : Bool)
  | integer (n : Int)
  | float (x : Binary64)
  | string (s : String)
  | array (items : List Json)
  | object (entries : List (String × Json))
  /-- Well-formed text that stands for no value: a number out of range, a string that is no
  Unicode text, or nesting too deep. -/
  | unreadable

namespace Json

instance : Inhabited Json := ⟨.null⟩

mutual

def beq : Json → Json → Bool
  | .null, .null => true
  | .bool a, .bool b => a == b
  | .integer a, .integer b => a == b
  | .float a, .float b => a == b
  | .string a, .string b => a == b
  | .array a, .array b => beqItems a b
  | .object a, .object b => beqEntries a b
  | .unreadable, .unreadable => true
  | _, _ => false

def beqItems : List Json → List Json → Bool
  | [], [] => true
  | a :: as, b :: bs => beq a b && beqItems as bs
  | _, _ => false

def beqEntries : List (String × Json) → List (String × Json) → Bool
  | [], [] => true
  | (k, a) :: as, (l, b) :: bs => k == l && beq a b && beqEntries as bs
  | _, _ => false

end

mutual

theorem eq_of_beq : ∀ {a b : Json}, beq a b = true → a = b
  | .null, b, h => by cases b <;> simp_all [beq]
  | .bool _, b, h => by cases b <;> simp_all [beq]
  | .integer _, b, h => by cases b <;> simp_all [beq]
  | .float _, b, h => by cases b <;> simp_all [beq]
  | .string _, b, h => by cases b <;> simp_all [beq]
  | .array as, b, h => by
    cases b <;> simp [beq] at h
    next bs => rw [eq_of_beqItems h]
  | .object as, b, h => by
    cases b <;> simp [beq] at h
    next bs => rw [eq_of_beqEntries h]
  | .unreadable, b, h => by cases b <;> simp_all [beq]

theorem eq_of_beqItems : ∀ {as bs : List Json}, beqItems as bs = true → as = bs
  | [], bs, h => by cases bs <;> simp_all [beqItems]
  | a :: as, bs, h => by
    cases bs <;> simp [beqItems] at h
    next b bs => rw [eq_of_beq h.1, eq_of_beqItems h.2]

theorem eq_of_beqEntries : ∀ {as bs : List (String × Json)}, beqEntries as bs = true → as = bs
  | [], bs, h => by cases bs <;> simp_all [beqEntries]
  | (k, a) :: as, bs, h => by
    cases bs <;> simp [beqEntries] at h
    next b bs =>
      obtain ⟨l, b⟩ := b
      simp at h
      rw [h.1.1, eq_of_beq h.1.2, eq_of_beqEntries h.2]

end

mutual

theorem beq_self : ∀ (a : Json), beq a a = true
  | .null | .bool _ | .integer _ | .float _ | .string _ | .unreadable => by simp [beq]
  | .array as => by rw [beq]; exact beqItems_self as
  | .object as => by rw [beq]; exact beqEntries_self as

theorem beqItems_self : ∀ (as : List Json), beqItems as as = true
  | [] => rfl
  | a :: as => by rw [beqItems, beq_self a, beqItems_self as]; rfl

theorem beqEntries_self : ∀ (as : List (String × Json)), beqEntries as as = true
  | [] => rfl
  | (k, a) :: as => by rw [beqEntries, beq_self a, beqEntries_self as]; simp

end

instance : DecidableEq Json := fun a b =>
  if h : beq a b then .isTrue (eq_of_beq h) else .isFalse fun e => h (e ▸ beq_self a)

mutual

/-- Equality with floats compared as numbers; an integer is never equal to a float. -/
def same : Json → Json → Bool
  | .float a, .float b => a.same b
  | .array a, .array b => sameItems a b
  | .object a, .object b => sameEntries a b
  | a, b => beq a b

def sameItems : List Json → List Json → Bool
  | [], [] => true
  | a :: as, b :: bs => same a b && sameItems as bs
  | _, _ => false

def sameEntries : List (String × Json) → List (String × Json) → Bool
  | [], [] => true
  | (k, a) :: as, (l, b) :: bs => k == l && same a b && sameEntries as bs
  | _, _ => false

end

def fits (n : Int) : Bool := -0x8000000000000000 ≤ n && n < 0x10000000000000000

mutual

def canonical : Json → Bool
  | .integer n => fits n
  | .float x => x.isFinite
  | .array items => canonicalItems items
  | .object entries => decide (Entries.Sorted entries) && canonicalEntries entries
  | .unreadable => false
  | _ => true

def canonicalItems : List Json → Bool
  | [] => true
  | j :: rest => canonical j && canonicalItems rest

def canonicalEntries : List (String × Json) → Bool
  | [] => true
  | (_, j) :: rest => canonical j && canonicalEntries rest

end

mutual

-- Of entries with one key the last stays.
def normalize : Json → Option Json
  | .integer n => if fits n then some (.integer n) else none
  | .float x => if x.isFinite then some (.float x) else none
  | .array items => (normalizeItems items).map .array
  | .object entries => (normalizeEntries entries []).map .object
  | .unreadable => none
  | .null => some .null
  | .bool b => some (.bool b)
  | .string s => some (.string s)

def normalizeItems : List Json → Option (List Json)
  | [] => some []
  | j :: rest => do
    let j ← normalize j
    let rest ← normalizeItems rest
    some (j :: rest)

def normalizeEntries : List (String × Json) → List (String × Json) → Option (List (String × Json))
  | [], seen => some seen
  | (key, j) :: rest, seen => do
    let j ← normalize j
    normalizeEntries rest (Entries.insert key j seen)

end

theorem canonicalEntries_insert {key : String} {j : Json} {es : List (String × Json)}
    (hj : canonical j = true) (h : canonicalEntries es = true) :
    canonicalEntries (Entries.insert key j es) = true := by
  induction es with
  | nil => simp [Entries.insert, canonicalEntries, hj]
  | cons e es ih =>
    obtain ⟨k, v⟩ := e
    simp only [canonicalEntries, Bool.and_eq_true] at h
    simp only [Entries.insert]
    split
    · simp [canonicalEntries, hj, h.1, h.2]
    · split
      · simp [canonicalEntries, hj, h.2]
      · simp [canonicalEntries, h.1, ih h.2]

mutual

theorem canonical_of_normalize : ∀ {a b : Json}, normalize a = some b → canonical b = true
  | .null, b, h | .bool _, b, h | .string _, b, h => by
    simp only [normalize, Option.some.injEq] at h; subst h; rfl
  | .integer n, b, h => by
    simp only [normalize] at h
    split at h <;> simp at h
    next hn => subst h; simpa [canonical] using hn
  | .float x, b, h => by
    simp only [normalize] at h
    split at h <;> simp at h
    next hx => subst h; simpa [canonical] using hx
  | .array items, b, h => by
    simp only [normalize, Option.map_eq_some_iff] at h
    obtain ⟨bs, hb, rfl⟩ := h
    exact canonicalItems_of_normalizeItems hb
  | .object entries, b, h => by
    simp only [normalize, Option.map_eq_some_iff] at h
    obtain ⟨bs, hb, rfl⟩ := h
    have := canonicalEntries_of_normalizeEntries hb List.Pairwise.nil rfl
    simp [canonical, this.1, this.2]
  | .unreadable, b, h => by simp [normalize] at h

theorem canonicalItems_of_normalizeItems :
    ∀ {as bs : List Json}, normalizeItems as = some bs → canonicalItems bs = true
  | [], bs, h => by simp only [normalizeItems, Option.some.injEq] at h; subst h; rfl
  | a :: as, bs, h => by
    simp only [normalizeItems, Option.bind_eq_bind, Option.bind_eq_some_iff,
      Option.some.injEq] at h
    obtain ⟨b, hb, rest, hr, rfl⟩ := h
    simp [canonicalItems, canonical_of_normalize hb, canonicalItems_of_normalizeItems hr]

theorem canonicalEntries_of_normalizeEntries :
    ∀ {as seen bs : List (String × Json)}, normalizeEntries as seen = some bs →
      Entries.Sorted seen → canonicalEntries seen = true →
      Entries.Sorted bs ∧ canonicalEntries bs = true
  | [], seen, bs, h, hs, hc => by
    simp only [normalizeEntries, Option.some.injEq] at h; subst h; exact ⟨hs, hc⟩
  | (k, a) :: as, seen, bs, h, hs, hc => by
    simp only [normalizeEntries, Option.bind_eq_bind, Option.bind_eq_some_iff] at h
    obtain ⟨b, hb, hr⟩ := h
    exact canonicalEntries_of_normalizeEntries hr (Entries.insert_sorted hs)
      (canonicalEntries_insert (canonical_of_normalize hb) hc)

end

end Json

structure Value where
  json : Json
  canonical : json.canonical = true
deriving DecidableEq

namespace Value

def ofJson? (j : Json) : Option Value :=
  match h : j.normalize with
  | some c => some ⟨c, Json.canonical_of_normalize h⟩
  | none => none

def string (s : String) : Value := ⟨.string s, rfl⟩

end Value

end TradingStrategy
