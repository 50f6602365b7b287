import ChartScript.CommandLine.FileTree
import ChartScript.CommandLine.Host

/-!
# The command on a machine in memory

A machine that has a file tree of texts, a folder of it in which the command runs, and the standard
streams. Files are read and written by paths, and so are the streams where a path leads to their
device. Everything may be read and written, and only names and paths are limited in length.
-/

namespace ChartScript.CommandLine

/-- A file tree and the standard streams. -/
structure Machine where
  tree : FileTree
  /-- The folder in which the command runs. -/
  folder : Location
  input : String
  output : String
  /-- What was written to standard error. -/
  messages : String
deriving DecidableEq, Repr

/-- A name has at most 255 bytes. -/
def isLongName (name : String) : Bool := 255 < name.utf8ByteSize

/-- What is wrong with a path whatever the files are: it must name something in fewer than 4096
bytes. -/
def pathFault? (path : String) : Option FileFault :=
  if path.isEmpty then some .absent
  else if 4096 ≤ path.utf8ByteSize then some .nameTooLong
  else none

/-- The names of the folders at the root, without that of the devices. -/
def systemFolders : List String :=
  ["bin", "boot", "etc", "home", "lib", "media", "mnt", "opt", "proc", "root", "run", "sbin", "srv",
    "sys", "tmp", "usr", "var"]

/-- The devices by their names. -/
def namedDevices : List (String × Device) :=
  [("stdin", .input), ("stdout", .output), ("stderr", .messages), ("null", .sink), ("full", .full),
    ("tty", .terminal)]

/-- The streams by their numbers. -/
def numberedDevices : List (String × Device) :=
  [("0", .input), ("1", .output), ("2", .messages)]

/-- The folders and devices of a system on which there is no file yet. -/
def systemNodes : List (Location × Node) :=
  systemFolders.map (fun name => ([name], .folder)) ++
    ([["dev"], ["fd", "dev"]].map fun location => (location, .folder)) ++
      namedDevices.map (fun (name, device) => ([name, "dev"], .device device)) ++
        numberedDevices.map fun (name, device) => ([name, "fd", "dev"], .device device)

namespace Machine

/-- A machine with files, by their names, in the folder in which the command runs. -/
def start (files : List (String × String)) (input : String) : Machine :=
  let folder := ["work", "tmp"]
  let nodes := files.map fun (name, text) => (name :: folder, Node.file text)
  ⟨⟨(folder, .folder) :: nodes ++ systemNodes⟩, folder, input, "", ""⟩

/-- Where a path leads. -/
def destination (machine : Machine) (path : String) : Destination :=
  machine.tree.destination machine.folder path

/-- Why nothing is found at a place. -/
def missing (location : Location) : FileFault :=
  if isLongName location.name then .nameTooLong else .absent

/-- Why an entry is no folder. -/
def noFolder (machine : Machine) (location : Location) : FileFault :=
  if (machine.tree.node? location).isSome then .notDirectory else missing location

/-- What a device gives. -/
def received (machine : Machine) : Device → Except FileFault String
  | .input => .ok machine.input
  | .output | .messages | .sink | .full => .ok ""
  | .terminal => .error .noDevice

/-- The machine after a text is sent to a device. -/
def send (machine : Machine) (text : String) : Device → Except FileFault Machine
  | .output => .ok { machine with output := machine.output ++ text }
  | .messages => .ok { machine with messages := machine.messages ++ text }
  | .input | .sink => .ok machine
  | .full => .error .noSpace
  | .terminal => .error .noDevice

/-- The text of an entry. -/
def entryText (machine : Machine) (location : Location) : Except FileFault String :=
  match machine.tree.node? location with
  | some (.file text) => .ok text
  | some (.device device) => machine.received device
  | some .folder => .error .isDirectory
  | none => .error (missing location)

/-- The machine after a text is written to an entry, which is made if it is not there. -/
def withEntryText (machine : Machine) (text : String) (location : Location) :
    Except FileFault Machine :=
  match machine.tree.node? location with
  | some (.device device) => machine.send text device
  | some .folder => .error .isDirectory
  | _ =>
    if isLongName location.name then .error .nameTooLong
    else .ok { machine with tree := machine.tree.withFile location text }

/-- The text that a path leads to. -/
def textAt (machine : Machine) (path : String) : Except FileFault String :=
  match pathFault? path with
  | some fault => .error fault
  | none =>
    match machine.destination path with
    | .folder => .error .isDirectory
    | .entry location => machine.entryText location
    | .asFolder location | .below location => .error (machine.noFolder location)

/-- The machine after a text is written to what a path leads to. What a path insists on as a folder
is refused as one, whether it is there or not. -/
def withTextAt (machine : Machine) (path text : String) : Except FileFault Machine :=
  match pathFault? path with
  | some fault => .error fault
  | none =>
    match machine.destination path with
    | .folder | .asFolder _ => .error .isDirectory
    | .entry location => machine.withEntryText text location
    | .below location => .error (machine.noFolder location)

/-- The machine as a host. -/
def host : Host (StateM Machine) where
  readFile path := do return (← get).textAt path
  readInput := do return .ok (← get).input
  writeFile path text := do
    match (← get).withTextAt path text with
    | .ok machine => set machine; return .ok ()
    | .error fault => return .error fault
  writeOutput text := do
    modify fun machine => { machine with output := machine.output ++ text }
    return .ok ()

/-- Run the command: how it ends, and the machine afterwards. -/
def run (machine : Machine) (arguments : List String) : Except Failure Unit × Machine :=
  (CommandLine.run host arguments).run machine

end Machine

end ChartScript.CommandLine
