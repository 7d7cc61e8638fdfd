import TradingStrategy.Refusal

set_option autoImplicit false

namespace TradingStrategy

-- A draw is used up whether or not its id is taken.
structure IdSource where
  draw : Nat → Nat
  next : Nat

namespace IdSource

def defaultAttempts : Nat := 32

def counter : IdSource := ⟨fun k => k, 0⟩

def hexadecimal (n : Nat) : List Char :=
  let digits := Nat.toDigits 16 n
  List.replicate (8 - digits.length) '0' ++ digits

def idOf (stem : String) (n : Nat) : String := stem ++ "_" ++ String.ofList (hexadecimal n)

def fresh (source : IdSource) (stem : String) : String × IdSource :=
  (idOf stem (source.draw source.next), { source with next := source.next + 1 })

/-- The id of the first of the next `attempts` draws that is not taken. -/
def unique? (stem : String) (taken : String → Bool) : Nat → IdSource → Option String × IdSource
  | 0, source => (none, source)
  | attempts + 1, source =>
    let (id, rest) := source.fresh stem
    if taken id then unique? stem taken attempts rest else (some id, rest)

end IdSource

/-- A computation that draws ids and may fail; what it drew before failing stays used up. -/
abbrev Drawing (ε : Type) := ExceptT ε (StateM IdSource)

namespace Drawing

def exec {ε α : Type} (m : Drawing ε α) (source : IdSource) : Except ε α × IdSource :=
  m.run source

@[simp] theorem exec_pure {ε α : Type} (a : α) (source : IdSource) :
    (pure a : Drawing ε α).exec source = (.ok a, source) := rfl

@[simp] theorem exec_throw {ε α : Type} (e : ε) (source : IdSource) :
    (throw e : Drawing ε α).exec source = (.error e, source) := rfl

theorem exec_bind {ε α β : Type} (m : Drawing ε α) (f : α → Drawing ε β) (source : IdSource) :
    (m >>= f).exec source =
      match m.exec source with
      | (.ok a, rest) => (f a).exec rest
      | (.error e, rest) => (.error e, rest) := by
  show (ExceptT.bindCont f (m source).1) (m source).2 = _
  rcases h : m source with ⟨_ | _, _⟩ <;> simp [exec, ExceptT.run, h] <;> rfl

def unique (stem : String) (attempts : Nat) (taken : String → Bool) : Drawing Refusal String :=
  ExceptT.mk fun source =>
    match IdSource.unique? stem taken attempts source with
    | (some id, rest) => (.ok id, rest)
    | (none, rest) => (.error (.idCollision stem attempts), rest)

def uniqueAmong (stem : String) (taken : List String) : Drawing Refusal (String × List String) := do
  let id ← unique stem IdSource.defaultAttempts taken.contains
  return (id, id :: taken)

def relabel {ε δ α : Type} (f : ε → δ) (m : Drawing ε α) : Drawing δ α :=
  ExceptT.mk fun source =>
    match m.exec source with
    | (.ok a, rest) => (.ok a, rest)
    | (.error e, rest) => (.error (f e), rest)

end Drawing

end TradingStrategy
