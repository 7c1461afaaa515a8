import Stencil.CommandLine.Run

/-! # The command line

Reads what the arguments name, and prints what the run leaves behind.
-/
namespace Stencil.CommandLine

def Unreadable.ofNumber (number : Nat) (reason : String) : Unreadable :=
  match number with
  | 2 => .missing
  | 13 => .denied
  | 20 => .notDirectory
  | 21 => .directory
  | 36 => .nameTooLong
  | _ => .failed reason

def Unreadable.ofError (error : IO.Error) : Unreadable :=
  match error with
  | .noFileOrDirectory _ number _ | .permissionDenied _ number _ | .inappropriateType _ number _
  | .invalidArgument _ number _ => .ofNumber number.toNat (toString error)
  | _ => .failed (toString error)

def textOf (bytes : Except IO.Error ByteArray) : Except Unreadable String :=
  match bytes with
  | .error error => .error (.ofError error)
  | .ok bytes =>
    match String.fromUTF8? bytes with
    | some text => .ok text
    | none => .error .notText

def readFileText (path : String) : IO (Except Unreadable String) := do
  return textOf (← (IO.FS.readBinFile path).toBaseIO)

def readInput : IO (Except Unreadable String) := do
  return textOf (← ((← IO.getStdin).readBinToEnd).toBaseIO)

/-- The texts that a run may ask for. -/
def sourcesOf (a : Arguments) : IO Sources := do
  let paths := a.file.toList ++ (a.value? .config).toList ++ (a.value? .data).toList
  let texts ← paths.mapM fun path => return (path, ← readFileText path)
  let input ←
    if a.file.isNone && !a.has .grammar then readInput else pure (.ok "")
  return ⟨input, fun path => (texts.lookup path).getD (.error .missing)⟩

def runOnFiles (arguments : List String) : IO (Option Outcome) := do
  match Arguments.parse arguments with
  | .ok (.run a) => return run arguments (← sourcesOf a)
  | _ => return run arguments ⟨.ok "", fun _ => .error .missing⟩

end Stencil.CommandLine

def main (arguments : List String) : IO UInt32 := do
  -- a run without an end is not cut short, so it does not come to the other branch
  let some outcome ← Stencil.CommandLine.runOnFiles arguments | return 1
  IO.print outcome.output
  IO.eprint outcome.complaints
  return outcome.exitCode.toUInt32
