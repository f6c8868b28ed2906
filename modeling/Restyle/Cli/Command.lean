import Restyle.Cli.Flag
import Restyle.Css.Step
import Restyle.Job.Command

/-!
# Commands

The commands of the program with their flags.
-/

namespace Restyle.Cli

def helpFlag : Flag := ⟨["help", "h"], none, "show help"⟩

def versionFlag : Flag := ⟨["version", "v"], none, "print the version"⟩

/-- Flags of the program, which can also stand behind a command. -/
def globalFlags : List Flag := [
  ⟨["config", "c"], some "FILE", "load configuration from FILE (YAML)"⟩,
  ⟨["debug", "d"], none,
    "changes program behavior to help troubleshooting, produces report archive"⟩]

def formatFlags : List Flag := [
  ⟨["steps", "s"], some "LIST",
    "comma separated LIST of steps, overrides configuration (supported steps: "
      ++ String.intercalate ", " Css.Step.names ++ ")"⟩,
  ⟨["suffix"], some "SUFFIX",
    "SUFFIX added to output file names before extension, overrides configuration"⟩,
  ⟨["overwrite", "ow"], none, "continue even if destination exits, overwrite files"⟩,
  ⟨["input-cp"], some "ENCODING",
    "read input without BOM using ENCODING (see IANA.org for character set names), " ++
      "overrides configuration"⟩,
  ⟨["stdout"], none, "write results to STDOUT instead of files"⟩]

def dumpFlags : List Flag := [⟨["default"], none, "output default embedded configuration"⟩]

/-- The options of the format command. -/
def Arguments.options (a : Arguments) : Job.Options where
  steps := a.value? "steps"
  suffix := a.value? "suffix"
  overwrite := a.isOn "overwrite"
  codePage := a.value? "input-cp"
  stdout := a.isOn "stdout"
  args := a.args

inductive Command where
  | format
  | dumpconfig
  deriving Repr, DecidableEq

namespace Command

def all : List Command := [.format, .dumpconfig]

def name : Command → String
  | .format => "format"
  | .dumpconfig => "dumpconfig"

def usage : Command → String
  | .format => "Runs stylesheet(s) through configured rewriting steps"
  | .dumpconfig => "Dumps either default or actual configuration (YAML)"

def argsUsage : Command → String
  | .format => "SOURCE [DESTINATION]"
  | .dumpconfig => "DESTINATION"

def flags : Command → List Flag
  | .format => formatFlags
  | .dumpconfig => dumpFlags

def ofName? (s : Bytes) : Option Command :=
  all.find? fun c => (c.name : Bytes) == s

/-- What the help of a command says about its arguments. -/
def details : Command → List String
  | .format => [
    "SOURCE:",
    "    stylesheet(s) to process, following formats are supported:",
    "        \"-\" - read single stylesheet from STDIN",
    "        path to a file: \"[path_to_file]file.css\"",
    "        path to a directory: \"[path_to_directory]directory\" - recursively process all " ++
      "stylesheets and archives under directory (symbolic links are not followed)",
    "        path to archive with path inside archive: " ++
      "\"[path_to_archive]archive.zip[path_in_archive]\" - process all stylesheets under archive path",
    "",
    "  Stylesheets are recognized by file extension (see input.extensions in",
    "  configuration), processing of archives inside archives is not supported.",
    "",
    "DESTINATION:",
    "    always a directory, output file names are derived from source names and suffix",
    "    if absent - current working directory, when reading from STDIN - STDOUT"]
  | .dumpconfig => [
    "",
    "DESTINATION:",
    "    file name to write configuration to, if absent - STDOUT",
    "",
    "Produces file with actual \"active\" configuration values which is composition of",
    "default values and values specified in configuration file. To see default",
    "configuration embedded into the program use --default flag."]

end Command

/-- The names of the help that every command has. -/
def helpNames : List Bytes := ["help", "h"]

end Restyle.Cli
