/-!
# Arguments

The command takes an input and an output file, each after its flag; whatever stands after a flag is
taken as a file, and of several files for one flag the last counts. The arguments are read from left
to right, and the first that is not understood ends the reading.
-/

namespace ChartScript.CommandLine

/-- What the command is asked to do. -/
structure Arguments where
  /-- The file to read instead of standard input. -/
  input : Option String
  /-- The file to write instead of standard output. -/
  output : Option String
deriving DecidableEq, Repr

/-- Why arguments are not taken. -/
inductive ArgumentFault where
  /-- A flag with nothing after it. -/
  | missingValue (flag : String)
  /-- A call for help. -/
  | help
  | unknown (argument : String)
deriving DecidableEq, Repr

/-- The fault in words; help is given the same way. -/
def ArgumentFault.message : ArgumentFault → String
  | missingValue flag => "missing value for " ++ flag
  | help => "usage: render_chart_script [--input <batch.json>] [--output <script.js>]"
  | unknown argument => "unknown argument `" ++ argument ++ "`"

namespace Arguments

/-- Neither file is named. -/
def none : Arguments := ⟨.none, .none⟩

/-- Take further arguments on top of those already taken. -/
def extend (taken : Arguments) : List String → Except ArgumentFault Arguments
  | [] => .ok taken
  | "--input" :: rest =>
    match rest with
    | [] => .error (.missingValue "--input")
    | file :: rest => extend { taken with input := some file } rest
  | "--output" :: rest =>
    match rest with
    | [] => .error (.missingValue "--output")
    | file :: rest => extend { taken with output := some file } rest
  | argument :: _ =>
    if argument = "--help" ∨ argument = "-h" then .error .help else .error (.unknown argument)

/-- Take a list of arguments. -/
def ofList (arguments : List String) : Except ArgumentFault Arguments :=
  none.extend arguments

end Arguments

end ChartScript.CommandLine
