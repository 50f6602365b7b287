import ChartScript.CommandLine.Arguments
import ChartScript.Document.Charts
import ChartScript.Document.Reader

/-!
# The command

The command reads a document, makes the script for it and writes that: to a file exactly as it is,
to standard output with a line end after it. Nothing is written unless the whole script could be
made, and nothing is read unless all arguments were taken.

What it reads and writes is up to a host, so that the command can be run on files in memory as well
as on those of a machine.
-/

namespace ChartScript.CommandLine

/-- Why a file or stream could not be read or written. -/
inductive FileFault where
  | absent
  | denied
  | notDirectory
  | isDirectory
  | nameTooLong
  | noSpace
  | noDevice
  /-- The bytes are not text. -/
  | notText
  /-- Something else, in the words of the machine. -/
  | other (words : String)
deriving DecidableEq, Repr

/-- The fault in words, with the number by which the operating system knows it. -/
def FileFault.message : FileFault → String
  | absent => "No such file or directory (os error 2)"
  | denied => "Permission denied (os error 13)"
  | notDirectory => "Not a directory (os error 20)"
  | isDirectory => "Is a directory (os error 21)"
  | nameTooLong => "File name too long (os error 36)"
  | noSpace => "No space left on device (os error 28)"
  | noDevice => "No such device or address (os error 6)"
  | notText => "stream did not contain valid UTF-8"
  | other words => words

/-- What the command needs of the machine that it runs on. -/
structure Host (m : Type → Type) where
  readFile : String → m (Except FileFault String)
  readInput : m (Except FileFault String)
  writeFile : String → String → m (Except FileFault Unit)
  writeOutput : String → m (Except FileFault Unit)

/-- A file, or the stream that takes its place. -/
inductive Place where
  | file (path : String)
  | stream (name : String)
deriving DecidableEq, Repr

/-- A place in words. -/
def Place.describe : Place → String
  | file path => "`" ++ path ++ "`"
  | stream name => name

/-- Why the command failed. -/
inductive Failure where
  | arguments (fault : ArgumentFault)
  | reading (place : Place) (fault : FileFault)
  | rendering (error : Error)
  | writing (place : Place) (fault : FileFault)
deriving DecidableEq

/-- The failure in words. -/
def Failure.message : Failure → String
  | arguments fault => fault.message
  | reading place fault => "failed to read " ++ place.describe ++ ": " ++ fault.message
  | rendering error => error.message
  | writing place fault => "failed to write " ++ place.describe ++ ": " ++ fault.message

/-- The script for a document that is given as text. -/
def scriptOfText (text : String) : Except Error String := do
  let document ← BatchDocument.ofText text
  document.script

variable {m : Type → Type} [Monad m]

/-- Read the document from where the arguments say. -/
def readDocument (host : Host m) (arguments : Arguments) : m (Except Failure String) :=
  match arguments.input with
  | some path => do
    let text ← host.readFile path
    return text.mapError (.reading (.file path))
  | none => do
    let text ← host.readInput
    return text.mapError (.reading (.stream "stdin"))

/-- Write the script to where the arguments say. -/
def writeScript (host : Host m) (arguments : Arguments) (script : String) :
    m (Except Failure Unit) :=
  match arguments.output with
  | some path => do
    let written ← host.writeFile path script
    return written.mapError (.writing (.file path))
  | none => do
    let written ← host.writeOutput (script ++ "\n")
    return written.mapError (.writing (.stream "stdout"))

/-- Run the command. -/
def run (host : Host m) (arguments : List String) : m (Except Failure Unit) :=
  match Arguments.ofList arguments with
  | .error fault => return .error (.arguments fault)
  | .ok arguments => do
    match ← readDocument host arguments with
    | .error failure => return .error failure
    | .ok text =>
      match scriptOfText text with
      | .error error => return .error (.rendering error)
      | .ok script => writeScript host arguments script

/-- The line that tells of a failure. -/
def Failure.line (failure : Failure) : String := "error: " ++ failure.message

/-- The code with which the program ends. -/
def exitCode : Except Failure Unit → UInt32
  | .ok () => 0
  | .error _ => 1

end ChartScript.CommandLine
