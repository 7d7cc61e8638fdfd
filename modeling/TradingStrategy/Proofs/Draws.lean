import Mathlib.Data.List.Perm.Subperm
import TradingStrategy.Json.Token
import TradingStrategy.Proofs.Names

set_option autoImplicit false

namespace TradingStrategy

namespace IdSource

def ofHexadecimal (cs : List Char) : Nat :=
  cs.foldl (fun n c => 16 * n + (Json.hexDigit? c).getD 0) 0

theorem hexDigit?_digitChar (d : Nat) (small : d < 16) :
    (Json.hexDigit? d.digitChar).getD 0 = d := by
  have all : ∀ d : Fin 16, (Json.hexDigit? d.val.digitChar).getD 0 = d.val := by decide
  exact all ⟨d, small⟩

theorem ofHexadecimal_toDigits (n : Nat) : ofHexadecimal (Nat.toDigits 16 n) = n := by
  induction n using Nat.strongRecOn with
  | ind n ih =>
    rw [Nat.toDigits_eq_if (by decide)]
    split
    next small => simp [ofHexadecimal, hexDigit?_digitChar n small]
    next large =>
      have above := ih (n / 16) (by omega)
      rw [ofHexadecimal] at above
      rw [ofHexadecimal, List.foldl_append, above]
      simp only [List.foldl_cons, List.foldl_nil]
      rw [hexDigit?_digitChar _ (Nat.mod_lt n (by decide)), Nat.div_add_mod]

theorem ofHexadecimal_hexadecimal (n : Nat) : ofHexadecimal (hexadecimal n) = n := by
  have padding (k : Nat) :
      (List.replicate k '0').foldl (fun n c => 16 * n + (Json.hexDigit? c).getD 0) 0 = 0 := by
    induction k with
    | zero => rfl
    | succ k ih => exact ih
  have digits := ofHexadecimal_toDigits n
  rw [ofHexadecimal] at digits ⊢
  rw [hexadecimal, List.foldl_append, padding, digits]

theorem idOf_inj {stem stem' : String} {n n' : Nat} (same : idOf stem n = idOf stem' n') :
    stem = stem' ∧ n = n' := by
  have letters := congrArg List.reverse (congrArg String.toList same)
  simp only [toList_idOf, List.reverse_append, List.reverse_cons, List.append_assoc,
    List.singleton_append] at letters
  -- The underscore is the last one: digits have none.
  have parts := Edge.separated_inj (by simpa using underscore_not_mem_hexadecimal n)
    (by simpa using underscore_not_mem_hexadecimal n') letters
  refine ⟨String.toList_inj.1 (List.reverse_inj.1 parts.2), ?_⟩
  rw [← ofHexadecimal_hexadecimal n, ← ofHexadecimal_hexadecimal n', List.reverse_inj.1 parts.1]

def skip (source : IdSource) (n : Nat) : IdSource := { source with next := source.next + n }

theorem skip_skip (source : IdSource) (n m : Nat) :
    (source.skip n).skip m = source.skip (n + m) := by
  simp [skip, Nat.add_assoc]

def Narrow (source : IdSource) : Prop := ∀ k, source.draw k < UInt32.size

def Distinct (source : IdSource) (n : Nat) : Prop :=
  ∀ i < n, ∀ j < n, source.draw (source.next + i) = source.draw (source.next + j) → i = j

theorem distinct_counter_skip (start n : Nat) : (counter.skip start).Distinct n := by
  intro i _ j _ same
  simpa [counter, skip] using same

theorem distinct_counter (n : Nat) : counter.Distinct n := distinct_counter_skip 0 n

def wrapping : IdSource := ⟨fun k => k % UInt32.size, 0⟩

theorem narrow_wrapping : wrapping.Narrow := fun k => Nat.mod_lt k (by decide)

theorem distinct_wrapping {n : Nat} (few : n ≤ UInt32.size) : wrapping.Distinct n := by
  intro i below j below' same
  have draw (k : Nat) (small : k < n) : wrapping.draw (wrapping.next + k) = k := by
    show (0 + k) % UInt32.size = k
    rw [Nat.zero_add, Nat.mod_eq_of_lt (Nat.lt_of_lt_of_le small few)]
  rwa [draw i below, draw j below'] at same

structure Supplies (source : IdSource) (n : Nat) (taken : List String) : Prop where
  distinct : source.Distinct n
  free : ∀ i < n, ∀ stem, idOf stem (source.draw (source.next + i)) ∉ taken

variable {source : IdSource} {n : Nat} {taken : List String}

theorem Distinct.supplies (distinct : source.Distinct n) : source.Supplies n [] :=
  ⟨distinct, fun _ _ _ => List.not_mem_nil⟩

theorem Distinct.fewer {k : Nat} (distinct : source.Distinct n) (few : k ≤ n) :
    source.Distinct k :=
  fun i below j below' =>
    distinct i (Nat.lt_of_lt_of_le below few) j (Nat.lt_of_lt_of_le below' few)

theorem Supplies.fewer {k : Nat} (supplies : source.Supplies n taken) (few : k ≤ n) :
    source.Supplies k taken :=
  ⟨supplies.distinct.fewer few, fun i below => supplies.free i (Nat.lt_of_lt_of_le below few)⟩

theorem Supplies.next (supplies : source.Supplies (n + 1) taken) (stem : String) :
    (source.skip 1).Supplies n (idOf stem (source.draw source.next) :: taken) := by
  have place (i : Nat) : (source.skip 1).next + i = source.next + (i + 1) := by
    show source.next + 1 + i = _
    omega
  refine ⟨fun i below j below' same => ?_, fun i below other member => ?_⟩
  · rw [place, place] at same
    have equal := supplies.distinct (i + 1) (by omega) (j + 1) (by omega) same
    omega
  · rw [place] at member
    rcases List.mem_cons.1 member with same | member
    · have equal := supplies.distinct (i + 1) (by omega) 0 (by omega) (idOf_inj same).2
      omega
    · exact supplies.free (i + 1) (by omega) other member

theorem unique?_of_free {stem : String} {taken : String → Bool} (attempts : Nat)
    (free : taken (idOf stem (source.draw source.next)) = false) :
    unique? stem taken (attempts + 1) source =
      (some (idOf stem (source.draw source.next)), source.skip 1) := by
  have first : taken (source.fresh stem).1 = false := free
  rw [unique?]
  simp only [first, Bool.false_eq_true, if_false]
  rfl

theorem Gives.narrow {stem id : String} (gives : source.Gives stem id) (narrow : source.Narrow) :
    ∃ k < UInt32.size, id = idOf stem k := by
  obtain ⟨k, same⟩ := gives
  exact ⟨source.draw k, narrow k, same⟩

theorem draw_unique? (stem : String) (taken : String → Bool) (attempts : Nat)
    (source : IdSource) : (unique? stem taken attempts source).2.draw = source.draw := by
  induction attempts generalizing source with
  | zero => rfl
  | succ attempts ih =>
    simp only [unique?]
    split
    next => exact ih _
    next => rfl

structure Given (stem : String) (ids : List String) : Prop where
  nodup : ids.Nodup
  drawn : ∀ id ∈ ids, ∃ k < UInt32.size, id = idOf stem k

theorem Given.length_le {stem : String} {ids : List String} (given : Given stem ids) :
    ids.length ≤ UInt32.size := by
  have within : ids ⊆ (List.range UInt32.size).map (idOf stem) := by
    intro id member
    obtain ⟨k, below, rfl⟩ := given.drawn id member
    exact List.mem_map_of_mem (List.mem_range.2 below)
  have shorter := (List.subperm_of_subset given.nodup within).length_le
  rwa [List.length_map, List.length_range] at shorter

end IdSource

namespace Drawing

open IdSource (Supplies idOf)

variable {ε δ α β : Type}

/-- With `n` draws supplied the run succeeds and uses up all of them; `left` tells what is taken
afterwards, and draws supplied beyond them still are. -/
def Draws (m : Drawing ε α) (taken : List String) (n : Nat) (left : α → List String) : Prop :=
  ∀ (source : IdSource) (k : Nat), source.Supplies (n + k) taken →
    ∃ a, m.exec source = (.ok a, source.skip n) ∧ (source.skip n).Supplies k (left a)

theorem draws_pure (a : α) (left : α → List String) :
    (pure a : Drawing ε α).Draws (left a) 0 left := by
  intro source k supplies
  rw [Nat.zero_add] at supplies
  exact ⟨a, rfl, supplies⟩

theorem Draws.bind {m : Drawing ε α} {f : α → Drawing ε β} {taken : List String} {n l : Nat}
    {between : α → List String} {left : β → List String} (first : m.Draws taken n between)
    (second : ∀ a source rest, m.exec source = (.ok a, rest) → (f a).Draws (between a) l left) :
    (m >>= f).Draws taken (n + l) left := by
  intro source k supplies
  rw [Nat.add_assoc] at supplies
  -- Of the draws that the first run leaves, the second takes its own and leaves the others.
  obtain ⟨a, done, rest⟩ := first source (l + k) supplies
  obtain ⟨b, last, after⟩ := second a _ _ done _ k rest
  rw [IdSource.skip_skip] at last after
  exact ⟨b, by rw [exec_bind, done]; exact last, after⟩

theorem Draws.map {m : Drawing ε α} {f : α → β} {taken : List String} {n : Nat}
    {between : α → List String} {left : β → List String} (first : m.Draws taken n between)
    (same : ∀ a, left (f a) = between a) : (m >>= fun a => pure (f a)).Draws taken n left := by
  refine first.bind (l := 0) fun a _ _ _ => ?_
  rw [← same a]
  exact draws_pure (f a) left

theorem exec_relabel (f : ε → δ) (m : Drawing ε α) (source : IdSource) :
    (Drawing.relabel f m).exec source =
      match m.exec source with
      | (.ok a, rest) => (.ok a, rest)
      | (.error e, rest) => (.error (f e), rest) := rfl

theorem Draws.relabel {m : Drawing ε α} {taken : List String} {n : Nat} {left : α → List String}
    (draws : m.Draws taken n left) (f : ε → δ) : (Drawing.relabel f m).Draws taken n left := by
  intro source k supplies
  obtain ⟨a, done, after⟩ := draws source k supplies
  exact ⟨a, by rw [exec_relabel, done], after⟩

theorem Draws.forget {m : Drawing ε α} {taken : List String} {n : Nat} {left : α → List String}
    (draws : m.Draws taken n left) : m.Draws taken n fun _ => [] := by
  -- Draws that are distinct stay so; what they must not meet is only the ids taken.
  intro source k supplies
  obtain ⟨a, done, after⟩ := draws source k supplies
  exact ⟨a, done, after.distinct.supplies⟩

/-- With `n` draws supplied the run ends in the fault if there is one, and draws them if not. -/
def Ends (m : Drawing ε α) (taken : List String) (n : Nat) (left : α → List String) :
    Option ε → Prop
  | none => m.Draws taken n left
  | some e => ∀ source : IdSource, source.Supplies n taken →
      ∃ rest, m.exec source = (.error e, rest)

theorem Draws.ends {m : Drawing ε α} {taken : List String} {n : Nat} {left : α → List String}
    (draws : m.Draws taken n left) : m.Ends taken n left none := draws

-- The first fault is the one that shows.
theorem Ends.bind {m : Drawing ε α} {f : α → Drawing ε β} {taken : List String} {n l : Nat}
    {between : α → List String} {left : β → List String} {fault later : Option ε}
    (first : m.Ends taken n between fault)
    (second : ∀ a source rest, m.exec source = (.ok a, rest) →
      (f a).Ends (between a) l left later) :
    (m >>= f).Ends taken (n + l) left (fault.or later) := by
  cases fault with
  | some e =>
    intro source supplies
    obtain ⟨rest, failed⟩ := first source (supplies.fewer (Nat.le_add_right n l))
    exact ⟨rest, by rw [exec_bind, failed]⟩
  | none =>
    cases later with
    | none => exact Draws.bind first second
    | some e =>
      intro source supplies
      obtain ⟨a, done, after⟩ := first source l supplies
      obtain ⟨rest, failed⟩ := second a _ _ done _ after
      exact ⟨rest, by rw [exec_bind, done]; exact failed⟩

theorem Ends.bind_draws {m : Drawing ε α} {f : α → Drawing ε β} {taken : List String} {n l : Nat}
    {between : α → List String} {left : β → List String} {fault : Option ε}
    (first : m.Ends taken n between fault)
    (second : ∀ a source rest, m.exec source = (.ok a, rest) → (f a).Draws (between a) l left) :
    (m >>= f).Ends taken (n + l) left fault := by
  rw [← Option.or_none (o := fault)]
  exact first.bind fun a source rest done => (second a source rest done).ends

theorem Ends.error_iff {m : Drawing ε α} {n : Nat} {left : α → List String} {fault : Option ε}
    (ends : m.Ends [] n left fault) {source : IdSource} (distinct : source.Distinct n) {e : ε} :
    (∃ rest, m.exec source = (.error e, rest)) ↔ fault = some e := by
  cases fault with
  | none =>
    obtain ⟨a, done, _⟩ := ends source 0 distinct.supplies
    simp [done]
  | some found =>
    obtain ⟨rest, failed⟩ := ends source distinct.supplies
    simp [failed]

theorem draws_uniqueAmong (stem : String) (taken : List String) :
    (uniqueAmong stem taken).Draws taken 1 Prod.snd := by
  intro source k supplies
  rw [Nat.add_comm] at supplies
  have free : taken.contains (idOf stem (source.draw source.next)) = false := by
    simpa using supplies.free 0 (by omega) stem
  have drawn : (unique stem IdSource.defaultAttempts taken.contains).exec source =
      (.ok (idOf stem (source.draw source.next)), source.skip 1) := by
    rw [exec, unique, ExceptT.run, ExceptT.mk, IdSource.defaultAttempts,
      IdSource.unique?_of_free 31 free]
  refine ⟨(idOf stem (source.draw source.next), _), ?_, supplies.next stem⟩
  rw [uniqueAmong, exec_bind, drawn]
  rfl

theorem Draws.succeeds {m : Drawing ε α} {n : Nat} {left : α → List String}
    (draws : m.Draws [] n left) {source : IdSource} (distinct : source.Distinct n) :
    ∃ a rest, m.exec source = (.ok a, rest) := by
  obtain ⟨a, done, _⟩ := draws source 0 distinct.supplies
  exact ⟨a, _, done⟩

theorem exists_ok {m : Drawing ε α} {f : α → β} {source : IdSource} {b : β}
    (seen : (m.exec source).1.toOption.map f = some b) :
    ∃ a rest, m.exec source = (.ok a, rest) ∧ f a = b := by
  cases outcome : m.exec source with
  | mk result rest =>
    rw [outcome] at seen
    cases result with
    | error e => contradiction
    | ok a => exact ⟨a, rest, rfl, Option.some.inj seen⟩

theorem uniqueAmong_gives {stem : String} {taken taken' : List String} {source rest : IdSource}
    {id : String} (done : (uniqueAmong stem taken).exec source = (.ok (id, taken'), rest)) :
    id ∉ taken ∧ source.Gives stem id ∧ taken' = id :: taken := by
  rw [uniqueAmong, exec_bind] at done
  split at done
  next drawn middle first =>
    obtain ⟨unused, gives⟩ := unique_ok first
    obtain ⟨made, _⟩ := Prod.mk.inj done
    obtain ⟨rfl, rfl⟩ := Prod.mk.inj (Except.ok.inj made)
    exact ⟨by simpa using unused, gives, rfl⟩
  next => cases (Prod.mk.inj done).1

theorem uniqueAmong_ok {stem : String} {taken taken' : List String} {source rest : IdSource}
    {id : String} (narrow : source.Narrow) (given : IdSource.Given stem taken)
    (done : (uniqueAmong stem taken).exec source = (.ok (id, taken'), rest)) :
    taken' = id :: taken ∧ IdSource.Given stem taken' := by
  obtain ⟨new, gives, rfl⟩ := uniqueAmong_gives done
  refine ⟨rfl, List.nodup_cons.2 ⟨new, given.nodup⟩, ?_⟩
  rw [List.forall_mem_cons]
  exact ⟨gives.narrow narrow, given.drawn⟩

def KeepsDraws (m : Drawing ε α) : Prop := ∀ source, (m.exec source).2.draw = source.draw

theorem keepsDraws_pure (a : α) : (pure a : Drawing ε α).KeepsDraws := fun _ => rfl

theorem KeepsDraws.bind {m : Drawing ε α} {f : α → Drawing ε β} (first : m.KeepsDraws)
    (second : ∀ a, (f a).KeepsDraws) : (m >>= f).KeepsDraws := by
  intro source
  have before := first source
  rw [exec_bind]
  split
  next a middle done =>
    rw [done] at before
    rw [second a middle, before]
  next done =>
    rw [done] at before
    exact before

theorem KeepsDraws.narrow {m : Drawing ε α} (keeps : m.KeepsDraws) {source rest : IdSource} {a : α}
    (done : m.exec source = (.ok a, rest)) (narrow : source.Narrow) : rest.Narrow := by
  have draws := keeps source
  rw [done] at draws
  intro k
  rw [draws]
  exact narrow k

theorem KeepsDraws.relabel {m : Drawing ε α} (keeps : m.KeepsDraws) (f : ε → δ) :
    (Drawing.relabel f m).KeepsDraws := by
  intro source
  rw [← keeps source, exec_relabel]
  split
  next found => rw [found]
  next found => rw [found]

theorem keepsDraws_unique (stem : String) (attempts : Nat) (taken : String → Bool) :
    (unique stem attempts taken).KeepsDraws := by
  intro source
  rw [← IdSource.draw_unique? stem taken attempts source]
  simp only [exec, unique, ExceptT.run, ExceptT.mk]
  split
  next found => rw [found]
  next found => rw [found]

theorem keepsDraws_uniqueAmong (stem : String) (taken : List String) :
    (uniqueAmong stem taken).KeepsDraws :=
  (keepsDraws_unique stem _ _).bind fun _ => keepsDraws_pure _

end Drawing

end TradingStrategy
