/-!
# The command line

What a command line asks for, once it is understood, and the ways in which it can miss being a command. Help
and the version are among the latter, since no command runs; only they end a run well.
-/

namespace PageGraph

/-- What the program can do. -/
inductive Command where
  /-- Writes the records of the template files. -/
  | raw
  /-- Writes the pages with their direct references. -/
  | shallow (saved : Option String)
  /-- Writes the pages and their inclusion trees; the summary of the graph may be printed. -/
  | deep (saved : Option String) (summary : Bool)
  /-- Prints the inclusion tree of one page. -/
  | tree (page : String) (depth : Option Nat) (format : String) (saved : Option String)
  deriving DecidableEq, Repr

/-- A command with the options that every command has. -/
structure Invocation where
  command : Command
  /-- Whether the lines that report a result are left out. -/
  quiet : Bool := false
  /-- The configuration file. -/
  configuration : Option String := none
  /-- The directory to walk, in place of the one in the settings. -/
  storesDir : Option String := none
  /-- The directory for data files, in place of the one in the settings. -/
  outputDir : Option String := none
  deriving DecidableEq, Repr

/-- Why a command line runs no command. -/
inductive Usage where
  /-- It asks for help. -/
  | help
  /-- It asks for the version. -/
  | version
  /-- It is empty. -/
  | nothingGiven
  /-- It has options alone. -/
  | commandMissing
  /-- It names something that is no command. -/
  | commandUnknown
  /-- It holds an option that does not exist, or a word too many. -/
  | argumentUnknown
  /-- The page is missing. -/
  | argumentMissing
  /-- An option is given twice, or two options exclude each other. -/
  | conflict
  /-- The value of an option is missing, or empty where that is no path. -/
  | valueMissing
  /-- The value of an option is no number. -/
  | valueInvalid
  /-- An option without a value is given one. -/
  | valueUnexpected
  deriving DecidableEq, Repr

namespace Usage

/-- The exit code of a run without a command. -/
def exitCode : Usage → Nat
  | .help | .version => 0
  | _ => 2

/-- The name of the program. -/
def program : String := "jsp-insights"

/-- The line that tells the version. -/
def versionLine : String := program ++ " 0.3.0\n"

/-- The help text. -/
def helpText : String :=
  "\n".intercalate
    ["Usage: " ++ program ++ " [OPTIONS] <COMMAND>", "", "Commands:",
      "  raw      Walk the stores directory and write jsp.json",
      "  shallow  Extract direct references and write shallow.json [--records <FILE>]",
      "  deep     Resolve inclusion trees and write shallow.json and deep.json [--records <FILE>] [--summary]",
      "  tree     Print the inclusion tree of one page [-d <DEPTH>] [-f tree|json] [--records <FILE>] <PAGE>",
      "  help     Print this message", "", "Options:",
      "  -v, --verbose           Enable debug logging",
      "  -q, --quiet             Only log errors and suppress result lines",
      "  -c, --config <FILE>     Path to the configuration file",
      "      --stores-dir <DIR>  Directory to walk for template files",
      "  -o, --output-dir <DIR>  Directory receiving the output files",
      "  -h, --help              Print help",
      "  -V, --version           Print version", ""]

/-- What is told of a run without a command. -/
def message : Usage → String
  | .version => versionLine
  | .help | .nothingGiven => helpText
  | .commandMissing => "error: a command is missing\n"
  | .commandUnknown => "error: there is no such command\n"
  | .argumentUnknown => "error: unexpected argument\n"
  | .argumentMissing => "error: the page is missing\n"
  | .conflict => "error: the options cannot be used together\n"
  | .valueMissing => "error: an option needs a value\n"
  | .valueInvalid => "error: the value of an option is not a number\n"
  | .valueUnexpected => "error: an option takes no value\n"

end Usage

end PageGraph
