import TradingStrategy.Proofs.Blocks

set_option autoImplicit false

namespace TradingStrategy

/-- The second list is the first, each element in its form, with the joint of two neighbours between
them and nothing else. -/
structure Strung {α β : Type} (form : α → β → Prop) (joint : α → α → β) (xs : List α)
    (out : List β) : Prop where
  length : out.length = 2 * xs.length - 1
  forms : ∀ (i : Nat) (x : α), xs[i]? = some x → ∃ y, out[2 * i]? = some y ∧ form x y
  joints : ∀ (i : Nat) (x x' : α), xs[i]? = some x → xs[i + 1]? = some x' →
    out[2 * i + 1]? = some (joint x x')

namespace Strung

variable {α β : Type} {form : α → β → Prop} {joint : α → α → β}

theorem nil : Strung form joint [] [] := ⟨rfl, nofun, nofun⟩

theorem singleton {x : α} {y : β} (first : form x y) : Strung form joint [x] [y] := by
  refine ⟨rfl, fun i x' place => ?_, fun i x' x'' _ next => by simp at next⟩
  obtain ⟨inside, rfl⟩ := List.getElem?_eq_some_iff.1 place
  obtain rfl : i = 0 := by simpa using inside
  exact ⟨y, rfl, first⟩

theorem cons {x z : α} {zs : List α} {y : β} {out : List β} (first : form x y)
    (rest : Strung form joint (z :: zs) out) :
    Strung form joint (x :: z :: zs) (y :: joint x z :: out) := by
  constructor
  · have length := rest.length
    simp only [List.length_cons] at length ⊢
    omega
  · intro i x' place
    cases i with
    | zero =>
      obtain rfl := Option.some.inj place
      exact ⟨y, rfl, first⟩
    | succ i => exact rest.forms i x' place
  · intro i x' x'' place next
    cases i with
    | zero =>
      obtain rfl := Option.some.inj place
      obtain rfl := Option.some.inj next
      rfl
    | succ i => exact rest.joints i x' x'' place next

end Strung

namespace Row

variable {registry : Registry}

def SentAs (registry : Registry) (r : Row) (t : BlockPart) : Prop :=
  ∃ k, r.compile? registry = some k ∧ t = .comparison k

theorem exists_sent {r : Row} (complete : r.progress registry = .complete) :
    ∃ k, r.compile? registry = some k ∧ r.sent? registry = some (k, r.badge) := by
  obtain ⟨k, found⟩ := Option.isSome_iff_exists.1 ((isSome_comparison? r).2 complete)
  exact ⟨k, compile?_of_comparison? found, by simp [sent?, found]⟩

theorem strung_tokens {rows : List Row} (complete : ∀ r ∈ rows, r.progress registry = .complete) :
    Strung (SentAs registry) (fun r _ => .join r.badge) rows
      (tokens (rows.filterMap (sent? registry))) := by
  induction rows with
  | nil => exact .nil
  | cons r rest ih =>
    rw [List.forall_mem_cons] at complete
    obtain ⟨k, compiled, sent⟩ := exists_sent complete.1
    have later := ih complete.2
    rw [List.filterMap_cons_some sent]
    cases rest with
    | nil => exact .singleton ⟨k, compiled, rfl⟩
    | cons r' others =>
      obtain ⟨k', _, sent'⟩ := exists_sent (complete.2 r' List.mem_cons_self)
      rw [List.filterMap_cons_some sent'] at later ⊢
      exact .cons ⟨k, compiled, rfl⟩ later

theorem filterMap_sent?_complete (rows : List Row) :
    (rows.filter fun r => r.progress registry = .complete).filterMap (sent? registry) =
      rows.filterMap (sent? registry) := by
  rw [List.filterMap_filter]
  refine List.filterMap_congr fun r _ => ?_
  by_cases complete : r.progress registry = .complete
  · simp [complete]
  · have unsent : r.sent? registry = none := by simpa [← isSome_sent?] using complete
    simp [complete, unsent]

end Row

namespace Block

variable {registry : Registry}

def Emitted (registry : Registry) (b : Block) : Prop :=
  (∃ r ∈ b.rows, r.progress registry = .complete) ∧ ∀ r ∈ b.rows, r.progress registry ≠ .started

instance (b : Block) : Decidable (b.Emitted registry) := by
  unfold Emitted
  infer_instance

/-- The complete rows of a block, and nothing of the others, with the badge of each before the
next. -/
def SentAs (registry : Registry) (b : Block) (part : ConditionPart) : Prop :=
  ∃ ts, part = .block ts ∧
    Strung (Row.SentAs registry) (fun r _ => .join r.badge)
      (b.rows.filter fun r => r.progress registry = .complete) ts

theorem isSome_compileAll? (b : Block) :
    (Row.compileAll? registry b.rows).isSome = true ↔ b.Emitted registry := by
  have sent : b.rows.filterMap (Row.sent? registry) ≠ [] ↔
      ∃ r ∈ b.rows, r.progress registry = .complete := by
    rw [← Row.filterMap_sent?_complete, Ne, ← Row.filter_complete_eq_nil_iff]
    simp
  rw [Option.isSome_iff_exists]
  simp only [Row.compileAll?_eq_some_iff, exists_and_left, exists_eq', and_true, sent]
  exact and_comm

theorem sentAs_of_compileAll? {b : Block} {ts : List BlockPart}
    (compiled : Row.compileAll? registry b.rows = some ts) : b.SentAs registry (.block ts) := by
  obtain ⟨_, _, rfl⟩ := Row.compileAll?_eq_some_iff.1 compiled
  refine ⟨_, rfl, ?_⟩
  rw [← Row.filterMap_sent?_complete]
  exact Row.strung_tokens fun r member => by simpa using (List.mem_filter.1 member).2

end Block

namespace Condition

open ConditionPart (following joined_cons)

variable {registry : Registry}

theorem joined_cons_cons (relations : List Relation) (p q : Nat × List BlockPart)
    (rest : List (Nat × List BlockPart)) :
    joined relations (p :: q :: rest) =
      .block p.2 :: .join (relations[q.1 - 1]?.getD .and) :: joined relations (q :: rest) := by
  rw [joined_cons, joined_cons, following]

def emit? (registry : Registry) (p : Block × Nat) : Option (Nat × List BlockPart) :=
  (Row.compileAll? registry p.1.rows).map (p.2, ·)

theorem strung_joined (relations : List Relation) {ps : List (Block × Nat)}
    (each : ∀ p ∈ ps, p.1.Emitted registry) :
    Strung (fun p part => p.1.SentAs registry part)
      (fun _ p => .join (relations[p.2 - 1]?.getD .and)) ps
      (joined relations (ps.filterMap (emit? registry))) := by
  induction ps with
  | nil => exact .nil
  | cons p rest ih =>
    rw [List.forall_mem_cons] at each
    have emits (q : Block × Nat) (emitted : q.1.Emitted registry) :
        ∃ ts, emit? registry q = some (q.2, ts) ∧ q.1.SentAs registry (.block ts) := by
      obtain ⟨ts, compiled⟩ := Option.isSome_iff_exists.1 (q.1.isSome_compileAll?.2 emitted)
      exact ⟨ts, by rw [emit?, compiled]; rfl, Block.sentAs_of_compileAll? compiled⟩
    obtain ⟨ts, made, sent⟩ := emits p each.1
    have later := ih each.2
    rw [List.filterMap_cons_some made]
    cases rest with
    | nil => exact .singleton sent
    | cons q others =>
      obtain ⟨us, made', _⟩ := emits q (each.2 q List.mem_cons_self)
      rw [List.filterMap_cons_some made'] at later ⊢
      rw [joined_cons_cons]
      exact .cons sent later

theorem filterMap_emit?_emitted (registry : Registry) (bs : List Block) :
    (bs.zipIdx.filter fun p => p.1.Emitted registry).filterMap (emit? registry) =
      emitted registry bs := by
  rw [List.filterMap_filter]
  refine List.filterMap_congr fun p _ => ?_
  by_cases sent : p.1.Emitted registry
  · simp only [sent, decide_true, if_true]
    rfl
  · have omitted : Row.compileAll? registry p.1.rows = none := by
      simpa [← Block.isSome_compileAll?] using sent
    simp [sent, omitted]

/-- A condition is sent as its emitted blocks in order, each after the relation of its own place
but for the first, whatever was left out in between. A row that counts as complete always has a
comparison, so nothing else keeps a block from being sent. -/
theorem compile_strung (registry : Registry) (node : String) (actions : List String)
    (c : Condition) :
    (∀ r : Row, r.progress registry = .complete → (r.compile? registry).isSome = true) ∧
      Strung (fun p part => p.1.SentAs registry part)
        (fun _ p => .join (c.blockRelations[p.2 - 1]?.getD .and))
        (c.blocks.zipIdx.filter fun p => p.1.Emitted registry)
        (c.compile registry node actions).parts := by
  constructor
  · intro r complete
    obtain ⟨k, compiled, _⟩ := Row.exists_sent complete
    rw [compiled]
    rfl
  · show Strung _ _ _ (joined c.blockRelations (emitted registry c.blocks))
    rw [← filterMap_emit?_emitted]
    exact strung_joined c.blockRelations fun p member => by simpa using (List.mem_filter.1 member).2

def weekday (token : String) : Row :=
  { badge := .or, lhs := ⟨some "day_of_week", none, none⟩, operator := some "==",
    rhs := ⟨some token, none, none⟩ }

def patchy : Condition :=
  { header := ⟨"Weekdays", .entry, 1, false, false⟩
    blocks :=
      [⟨"b1", [⟨"s1", weekday "MONDAY"⟩, ⟨"s2", { operator := some "==" }⟩], .and⟩,
        ⟨"b2", [⟨"s3", weekday "TUESDAY"⟩, ⟨"s4", { badge := .and }⟩, ⟨"s5", weekday "FRIDAY"⟩],
          .and⟩,
        ⟨"b3", [⟨"s6", .blank⟩], .or⟩, ⟨"b4", [⟨"s7", weekday "MONDAY"⟩], .and⟩]
    blockRelations := [.and, .and, .or] }

theorem patchy_strung :
    (weekday "MONDAY").progress Catalog.builtin.registry = .complete ∧
      ((weekday "MONDAY").compile? Catalog.builtin.registry).isSome = true ∧
      Strung (fun p part => p.1.SentAs Catalog.builtin.registry part)
        (fun _ p => .join (patchy.blockRelations[p.2 - 1]?.getD .and))
        (patchy.blocks.zipIdx.filter fun p => p.1.Emitted Catalog.builtin.registry)
        (patchy.compile Catalog.builtin.registry "c1" []).parts ∧
      (patchy.compile Catalog.builtin.registry "c1" []).parts =
        [.block [.comparison ⟨"day_of_week", "==", .string "TUESDAY"⟩, .join .or,
            .comparison ⟨"day_of_week", "==", .string "FRIDAY"⟩],
          .join .or, .block [.comparison ⟨"day_of_week", "==", .string "MONDAY"⟩]] := by
  obtain ⟨compiled, strung⟩ := compile_strung Catalog.builtin.registry "c1" [] patchy
  have complete : (weekday "MONDAY").progress Catalog.builtin.registry = .complete := by
    decide +kernel
  exact ⟨complete, compiled _ complete, strung, by decide +kernel⟩

end Condition

end TradingStrategy
