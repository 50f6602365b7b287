import ChartScript.CommandLine.Arguments

/-!
# Which arguments are taken

The command takes exactly the arguments that go in pairs of a flag and a word, whatever the words
are, and of the words after one flag it takes the last.
-/

namespace ChartScript.CommandLine

/-- The flags of the command. -/
inductive Flag where
  | input
  | output
deriving DecidableEq, Repr

/-- A flag as it is written. -/
def Flag.word : Flag → String
  | input => "--input"
  | output => "--output"

namespace Arguments

end Arguments

end ChartScript.CommandLine
