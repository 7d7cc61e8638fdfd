import TradingStrategy.Strategy.Payload

set_option autoImplicit false

namespace TradingStrategy

namespace Strategy

def reload (s : Strategy) : Drawing LoadError Strategy :=
  Payload.load (Wire.toJson (s.compile [])).compact

end Strategy

namespace CommandLine

inductive Task where
  | compile
  | reform (seed : Option Nat)
  | roundtrip
deriving DecidableEq, Repr

structure Request where
  action : Task
  path : String
  output : Option String
deriving DecidableEq, Repr

inductive Failure where
  | unreadable (path reason : String)
  | strategy
  | payload
  | restore (reason : RestoreError)
  | unwritable (path reason : String)
deriving DecidableEq, Repr

def Failure.message : Failure → String
  | .unreadable path reason => "Failed to read file '" ++ path ++ "': " ++ reason
  | .strategy => "Failed to parse strategy state: " ++ LoadError.json.message
  | .payload => "Failed to parse payload: " ++ LoadError.json.message
  | .restore reason => (LoadError.restore reason).message
  | .unwritable path reason => "Failed to write output file '" ++ path ++ "': " ++ reason

def Failure.announcement (f : Failure) : String := "Error: " ++ f.message

def padded (name : String) : String :=
  name ++ String.ofList (List.replicate (24 - name.length) ' ')

def status {α : Type} [Wire α] (before : α) : Option α → String
  | some after => if Wire.same after before then "unchanged" else "changed"
  | none => "dropped"

def comparedLines {α : Type} [Wire α] (label : String) (before after : Dict α) : List String :=
  before.entries.map fun (id, entry) =>
    label ++ padded id ++ " " ++ status entry (after.get? id)

def report (before after : Payload) : String :=
  "\n".intercalate <|
    comparedLines "condition " before.conditions after.conditions
      ++ comparedLines "action    " before.actions after.actions
      ++ ["chain     " ++ if after.sequence = before.sequence then "unchanged" else "changed"]

def restored (source : IdSource) (text : String) : Except Failure (Payload × Strategy) :=
  match (ofText? text : Option Payload) with
  | none => .error .payload
  | some p =>
    match ((p.restore []).exec source).1 with
    | .ok s => .ok (p, s)
    | .error reason => .error (.restore reason)

def run (source : IdSource) (text : String) : Task → Except Failure String
  | .compile =>
    match (ofText? text : Option Strategy) with
    | none => .error .strategy
    | some s => .ok (Wire.toJson (s.compile [])).pretty
  | .reform _ => (restored source text).map fun (_, s) => (Wire.toJson s).pretty
  | .roundtrip => (restored source text).map fun (p, s) => report p (s.compile [])

def seededDraw (seed k : Nat) : Nat :=
  let z : UInt64 := UInt64.ofNat seed + UInt64.ofNat (k + 1) * 0x9e3779b97f4a7c15
  let z := (z ^^^ (z >>> 30)) * 0xbf58476d1ce4e5b9
  let z := (z ^^^ (z >>> 27)) * 0x94d049bb133111eb
  ((z ^^^ (z >>> 31)) >>> 32).toNat

def seeded (seed : Nat) : IdSource := ⟨seededDraw seed, 0⟩

structure Arguments where
  words : List String := []
  output : Option String := none
  seed : Option Nat := none

-- A lone dash is a word like any other.
def isOption (word : String) : Bool :=
  match word.toList with
  | '-' :: _ :: _ => true
  | _ => false

/-- Reads options wherever they stand, up to a `--` behind the task; `none` for an option that is
unknown, repeated or lacks its value. -/
def scanArguments : List String → Arguments → Option Arguments
  | [], a => some { a with words := a.words.reverse }
  | "--" :: rest, a => if a.words = [] then none else some { a with words := a.words.reverse ++ rest }
  | "-o" :: path :: rest, a | "--output" :: path :: rest, a =>
    if isOption path || a.output.isSome then none
    else scanArguments rest { a with output := some path }
  | "--seed" :: n :: rest, a => do
    let seed ← if a.seed.isSome then none else Text.natural? 0x10000000000000000 n.toList
    scanArguments rest { a with seed := some seed }
  | word :: rest, a =>
    if isOption word then none else scanArguments rest { a with words := word :: a.words }

def request? (args : List String) : Option Request := do
  let a ← scanArguments args {}
  match a.words, a.seed with
  | ["compile", path], none => some ⟨.compile, path, a.output⟩
  | ["reform", path], seed => some ⟨.reform seed, path, a.output⟩
  | ["roundtrip", path], none => some ⟨.roundtrip, path, a.output⟩
  | _, _ => none

def usage : String :=
  "Usage: strategy [-o <output>] compile <state> | reform [--seed <n>] <payload> | roundtrip <payload>"

end CommandLine

end TradingStrategy
