import ChartScript.CommandLine.Machine
import ChartScript.Proofs.CommandLine.Arguments
import ChartScript.Proofs.Outcome

/-!
# All or nothing

The command either does a single action that writes, with the whole script, or fails and leaves
everything as it was. This holds on any host that reading does not change: the only step that can
change it is the one that writes the script, and that is reached only with a script in hand.

What an action that writes does to files is up to the host. Of a host that keeps what is written,
as file systems and streams do, it follows that the script stands in the file to which the path
leads, or at the end of standard output, and that all other files are as they were.
-/

namespace ChartScript.CommandLine

section Host

variable {σ : Type}

/-- The text that is read for an argument, or why none is. -/
def Host.document (host : Host (StateM σ)) (input : Option String) (s : σ) :
    Except FileFault String :=
  match input with
  | some path => ((host.readFile path).run s).1
  | none => (host.readInput.run s).1

/-- Where the document for an argument is. -/
def placeOf : Option String → Place
  | some path => .file path
  | none => .stream "stdin"

/-- The script for the document that is read for an argument, or the failure that keeps it from
being made. -/
def Host.script (host : Host (StateM σ)) (input : Option String) (s : σ) : Except Failure String :=
  match host.document input s with
  | .error fault => .error (.reading (placeOf input) fault)
  | .ok text => (scriptOfText text).mapError .rendering

namespace View

variable {π : Type}

end View

/-- A run ends with an exit code and leaves a state. -/
def Ends (outcome : Except Failure Unit × σ) (code : UInt32) (after : σ) : Prop :=
  exitCode outcome.1 = code ∧ outcome.2 = after

variable {host : Host (StateM σ)} {arguments : List String} {taken : Arguments} {s : σ}

end Host

namespace Machine

variable {machine after : Machine} {location : Location} {path text : String}

/-- The file to which a path leads, there or not; a device is none. -/
def leadsTo (machine : Machine) (path : String) : Option Location :=
  match machine.destination path with
  | .entry location =>
    match machine.tree.node? location with
    | some (.device _) => none
    | _ => some location
  | _ => none

end Machine

end ChartScript.CommandLine
