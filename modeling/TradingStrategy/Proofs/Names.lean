import TradingStrategy.Graph.Basic
import TradingStrategy.Ids

set_option autoImplicit false

namespace TradingStrategy

namespace IdSource

theorem underscore_not_mem_toDigits (n : Nat) : '_' ∉ Nat.toDigits 16 n := by
  induction n using Nat.strongRecOn with
  | ind n ih =>
    rw [Nat.toDigits_eq_if (by decide)]
    split
    next => simp
    next large =>
      have less : n / 16 < n := by omega
      simpa using ih _ less

theorem underscore_not_mem_hexadecimal (n : Nat) : '_' ∉ hexadecimal n := by
  simp only [hexadecimal, List.mem_append, List.mem_replicate, not_or]
  exact ⟨fun padding => absurd padding.2 (by decide), underscore_not_mem_toDigits n⟩

theorem toList_idOf (stem : String) (n : Nat) :
    (idOf stem n).toList = stem.toList ++ '_' :: hexadecimal n := by
  simp [idOf]

def Drawn (stem id : String) : Prop := ∃ n, id = idOf stem n

def Gives (source : IdSource) (stem id : String) : Prop := ∃ k, id = idOf stem (source.draw k)

theorem Gives.drawn {source : IdSource} {stem id : String} (gives : source.Gives stem id) :
    Drawn stem id := by
  obtain ⟨k, same⟩ := gives
  exact ⟨source.draw k, same⟩

theorem unique?_eq_some {stem : String} {taken : String → Bool} {attempts : Nat}
    {source rest : IdSource} {id : String}
    (found : unique? stem taken attempts source = (some id, rest)) :
    taken id = false ∧ source.Gives stem id := by
  induction attempts generalizing source with
  | zero => simp [unique?] at found
  | succ attempts ih =>
    simp only [unique?] at found
    by_cases used : taken (source.fresh stem).1 = true
    · rw [if_pos used] at found
      have later : taken id = false ∧ (source.fresh stem).2.Gives stem id := ih found
      exact later
    · rw [if_neg used] at found
      obtain ⟨same, _⟩ := Prod.mk.inj found
      rw [← Option.some.inj same]
      exact ⟨by simpa using used, source.next, rfl⟩

end IdSource

theorem Drawing.unique_ok {stem : String} {attempts : Nat} {taken : String → Bool}
    {source rest : IdSource} {id : String}
    (drawn : (unique stem attempts taken).exec source = (.ok id, rest)) :
    taken id = false ∧ source.Gives stem id := by
  simp only [exec, unique, ExceptT.run, ExceptT.mk] at drawn
  split at drawn
  next found =>
    obtain ⟨same, _⟩ := Prod.mk.inj drawn
    exact IdSource.unique?_eq_some (Except.ok.inj same ▸ found)
  next => simp at drawn

theorem Drawing.unique_cases (stem : String) (attempts : Nat) (taken : String → Bool)
    (source : IdSource) :
    (∃ id rest, (unique stem attempts taken).exec source = (.ok id, rest)) ∨
      ∃ rest, (unique stem attempts taken).exec source =
        (.error (.idCollision stem attempts), rest) := by
  simp only [exec, unique, ExceptT.run, ExceptT.mk]
  split
  next id rest _ => exact .inl ⟨id, rest, rfl⟩
  next rest _ => exact .inr ⟨rest, rfl⟩

namespace Edge

theorem separated_inj {before before' after after' : List Char} {mark : Char}
    (absent : mark ∉ before) (absent' : mark ∉ before')
    (same : before ++ mark :: after = before' ++ mark :: after') :
    before = before' ∧ after = after' := by
  induction before generalizing before' with
  | nil =>
    cases before' with
    | nil => simpa using same
    | cons c rest =>
      have first := (List.cons.inj same).1
      simp [first] at absent'
  | cons c rest ih =>
    cases before' with
    | nil =>
      have first := (List.cons.inj same).1
      simp [first] at absent
    | cons c' rest' =>
      obtain ⟨first, others⟩ := List.cons.inj same
      rw [List.mem_cons, not_or] at absent absent'
      obtain ⟨tails, afters⟩ := ih absent.2 absent'.2 others
      exact ⟨by rw [first, tails], afters⟩

def SourceName (id : String) : Prop := id = Graph.startId ∨ IdSource.Drawn "condition" id

-- START has no underscore in its name and a condition has one, after a word that is not "start".
theorem standardId_inj {u u' v v' : String} (name : SourceName u) (name' : SourceName u')
    (same : standardId u v = standardId u' v') : u = u' ∧ v = v' := by
  have letters : u.toList ++ '_' :: v.toList = u'.toList ++ '_' :: v'.toList := by
    have lists := congrArg String.toList same
    simpa [standardId] using lists
  have startPlain : '_' ∉ Graph.startId.toList := by decide
  have stemPlain : '_' ∉ "condition".toList := by decide
  have apart : Graph.startId.toList ≠ "condition".toList := by decide
  rcases name with rfl | ⟨n, rfl⟩ <;> rcases name' with rfl | ⟨n', rfl⟩
  · have parts := separated_inj startPlain startPlain letters
    exact ⟨rfl, String.toList_inj.1 parts.2⟩
  · rw [IdSource.toList_idOf, List.append_assoc, List.cons_append] at letters
    exact absurd (separated_inj startPlain stemPlain letters).1 apart
  · rw [IdSource.toList_idOf, List.append_assoc, List.cons_append] at letters
    exact absurd (separated_inj stemPlain startPlain letters).1.symm apart
  · simp only [IdSource.toList_idOf, List.append_assoc, List.cons_append] at letters
    have rest := (separated_inj stemPlain stemPlain letters).2
    have parts := separated_inj (IdSource.underscore_not_mem_hexadecimal n)
      (IdSource.underscore_not_mem_hexadecimal n') rest
    refine ⟨String.toList_inj.1 ?_, String.toList_inj.1 parts.2⟩
    rw [IdSource.toList_idOf, IdSource.toList_idOf, parts.1]

end Edge

end TradingStrategy
