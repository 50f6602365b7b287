import ChartScript.CommandLine.Host

/-!
# The program

The command on the machine that the program runs on. Failures are told on standard error, and the
exit code says whether there was one.
-/

namespace ChartScript

open CommandLine

/-- The number of an error of the operating system, which some calls give negated. -/
def errorNumber (code : UInt32) : Nat :=
  (if code < 0x80000000 then code else 0 - code).toNat

/-- What the machine says, as a fault. -/
def faultOf (error : IO.Error) : FileFault :=
  match error with
  | .noFileOrDirectory _ code _ | .permissionDenied _ code _ | .inappropriateType _ code _
  | .invalidArgument _ code _ | .noSuchThing _ code _ | .resourceExhausted _ code _ =>
    match errorNumber code with
    | 2 => .absent
    | 6 => .noDevice
    | 13 => .denied
    | 20 => .notDirectory
    | 21 => .isDirectory
    | 28 => .noSpace
    | 36 => .nameTooLong
    | _ => .other (toString error)
  | _ => .other (toString error)

/-- An action of the machine, with its error as a fault. -/
def attempt {α : Type} (action : IO α) : IO (Except FileFault α) := do
  match ← action.toBaseIO with
  | .ok value => return .ok value
  | .error error => return .error (faultOf error)

/-- Bytes as text. -/
def textOf (bytes : Except FileFault ByteArray) : Except FileFault String := do
  match String.fromUTF8? (← bytes) with
  | some text => return text
  | none => throw .notText

/-- The machine that the program runs on. -/
def machineHost : Host IO where
  readFile path := do return textOf (← attempt (IO.FS.readBinFile path))
  readInput := do return textOf (← attempt (do (← IO.getStdin).readBinToEnd))
  writeFile path text := attempt do
    let file ← IO.FS.Handle.mk path .write
    file.putStr text
    file.flush
  writeOutput text := attempt do
    let out ← IO.getStdout
    out.putStr text
    out.flush

end ChartScript

/-- Run the command with the arguments of the program. -/
def main (arguments : List String) : IO UInt32 := do
  let outcome ← ChartScript.CommandLine.run ChartScript.machineHost arguments
  if let .error failure := outcome then
    IO.eprintln failure.line
  return ChartScript.CommandLine.exitCode outcome
