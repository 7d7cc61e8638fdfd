import TradingStrategy.CommandLine

set_option autoImplicit false

namespace TradingStrategy

def systemReason : IO.Error → String
  | .noFileOrDirectory _ code details => details ++ " (os error " ++ code.toNat.repr ++ ")"
  | .permissionDenied _ code details => details ++ " (os error " ++ code.toNat.repr ++ ")"
  | .inappropriateType _ code details => details ++ " (os error " ++ code.toNat.repr ++ ")"
  | e => toString e

def attempted {α : Type} (act : IO α) : IO (Except String α) := do
  try return .ok (← act) catch e => return .error (systemReason e)

def deliver (output : Option String) (text : String) : IO (Except CommandLine.Failure Unit) := do
  match output with
  | none =>
    IO.println text
    return .ok ()
  | some path =>
    match ← attempted (IO.FS.writeFile path text) with
    | .ok () => return .ok ()
    | .error reason => return .error (.unwritable path reason)

def perform (r : CommandLine.Request) : IO (Except CommandLine.Failure Unit) := do
  let seed ← match r.action with
    | .reform (some seed) => pure seed
    | _ => IO.rand 0 0xFFFFFFFF
  match ← attempted (IO.FS.readFile r.path) with
  | .error reason => return .error (.unreadable r.path reason)
  | .ok text =>
    match CommandLine.run (CommandLine.seeded seed) text r.action with
    | .error f => return .error f
    | .ok result => deliver r.output result

end TradingStrategy

open TradingStrategy in
def main (args : List String) : IO UInt32 := do
  match CommandLine.request? args with
  | none =>
    IO.eprintln CommandLine.usage
    return 2
  | some r =>
    match ← perform r with
    | .ok () => return 0
    | .error f =>
      IO.eprintln ("\n" ++ f.announcement)
      return 1
