import Restyle.Config.Basic
import Restyle.Css.Step
import Restyle.Machine
import Restyle.State.Settings

/-!
# Loading a configuration

A configuration is the default one with a file laid over it.  Paths in it are then cleaned and the
directories of the files they name are made; only after that is it checked, and all faults are reported
together.
-/

namespace Restyle.Config

variable {m : Type → Type} [Monad m] [Machine m]

/-! ### Paths -/

/-- A path cleaned, with the directory of its file made.  No path stays none. -/
def settlePath (path : Bytes) : m (Except Files.Failure Bytes) := do
  if path.isEmpty then return .ok path
  else
    let path := Path.clean path
    match ← Machine.mkdirAll (Path.parent path) with
    | .ok () => return .ok path
    | .error e => return .error e

/-- All paths of a configuration, settled. -/
def settle (c : Config) : m (Except Files.Failure Config) := do
  match ← settlePath c.logging.file.destination with
  | .error e => return .error e
  | .ok file =>
    match ← settlePath c.logging.console.destination with
    | .error e => return .error e
    | .ok console =>
      match ← settlePath c.reporting.destination with
      | .error e => return .error e
      | .ok report =>
        return .ok { c with
          logging := ⟨{ c.logging.file with destination := file },
            { c.logging.console with destination := console }⟩
          reporting := ⟨report⟩ }

/-- The path can be that of a file: it names no directory and is not blank. -/
def isFilePath (path : Bytes) : m Bool := do
  match ← Machine.stat path with
  | .ok .dir => return false
  | .ok _ => return true
  | .error e =>
    return !path.trim.isEmpty && path.getLast? != some Path.slash && e.errno != .invalid

/-! ### Faults -/

/-- A field that breaks a rule: where it is, how it is called, and the rule. -/
structure Fault where
  path : Bytes
  field : Bytes
  rule : String
  deriving Repr, DecidableEq

def Fault.message (f : Fault) : Bytes :=
  "Key: 'Config." ++ f.path ++ "' Error:Field validation for '" ++ f.field
    ++ "' failed on the '" ++ f.rule ++ "' tag"

/-- The fault, if there is one. -/
def faultIf (broken : Bool) (path field : Bytes) (rule : String) : List Fault :=
  if broken then [⟨path, field, rule⟩] else []

/-- Faults of the items of a list, which may not be empty. -/
def listFaults (path field : Bytes) (rule : String) (good : Bytes → Bool) (items : List Bytes) :
    List Fault :=
  if items.isEmpty then [⟨path, field, "min"⟩]
  else
    items.zipIdx.flatMap fun (item, i) =>
      let place : Bytes := "[" ++ decimal i ++ "]"
      faultIf (!good item) (path ++ place) (field ++ place) rule

def isOneOf (words : List String) (s : Bytes) : Bool :=
  words.any fun w => (w : Bytes) == s

/-- Faults of a logger, given whether its destination can be a file. -/
def Logger.faults (c : Logger) (isFile : Bool) (path : Bytes) : List Fault :=
  (if c.level.isEmpty then [⟨path ++ ".Level", "Level", "required"⟩]
    else faultIf (!isOneOf ["none", "debug", "normal"] c.level) (path ++ ".Level") "Level" "oneof")
  ++ faultIf (!c.destination.isEmpty && !isFile) (path ++ ".Destination") "Destination" "filepath"
  ++ faultIf (!c.mode.isEmpty && !isOneOf ["append", "overwrite"] c.mode)
      (path ++ ".Mode") "Mode" "oneof"

/-- Which destinations can be files. -/
structure Destinations where
  file : Bool
  console : Bool
  report : Bool
  deriving Repr, DecidableEq

/-- The steps that a configuration can name. -/
def stepWords : List String :=
  ["merge", "remove_undefined", "combine_media_queries", "minify", "fix_rgb", "remove_media_queries"]

/-- All faults of a configuration, in the order of its fields; that of the suffix is last. -/
def faults (c : Config) (isFile : Destinations) : List Fault :=
  faultIf (c.version != 1) "Version" "Version" "eq"
  ++ listFaults "Pipeline.Steps" "Steps" "oneof" (isOneOf stepWords) c.pipeline.steps
  ++ listFaults "Input.Extensions" "Extensions" "startswith" (·.head? == some Path.dot)
      c.input.extensions
  ++ c.logging.file.faults isFile.file "Logging.FileLogger"
  ++ c.logging.console.faults isFile.console "Logging.ConsoleLogger"
  ++ (if c.reporting.destination.isEmpty then
        [⟨"Reporting.Destination", "Destination", "required"⟩]
      else faultIf (!isFile.report) "Reporting.Destination" "Destination" "filepath")
  ++ faultIf (c.output.suffix.any Settings.isSeparator) "Output.Suffix" "Output.Suffix" "nopathsep"

/-! ### Loading -/

inductive LoadError where
  /-- The working directory is gone. -/
  | workDir (message : Bytes)
  | unreadable (f : Files.Failure)
  | undecodable (e : DecodeError)
  /-- Of the default configuration, if `builtIn`. -/
  | path (builtIn : Bool) (f : Files.Failure)
  | invalid (builtIn : Bool) (faults : List Fault)
  deriving Repr, DecidableEq

def origin (builtIn : Bool) : Bytes :=
  if builtIn then "failed to process configuration template: "
  else "failed to process configuration file: "

def LoadError.message : LoadError → Bytes
  | .workDir message =>
    origin true ++ "unable to get current working directory: " ++ message
  | .unreadable f => "failed to read config file: " ++ f.message
  | .undecodable e => origin false ++ "failed to decode configuration data: " ++ e.message
  | .path builtIn f => origin builtIn ++ f.message
  | .invalid builtIn faults =>
    origin builtIn ++ List.intercalate ("\n" : Bytes) (faults.map Fault.message)

/-- Settles the paths of a configuration and checks it. -/
def finish (c : Config) (builtIn : Bool) : m (Except LoadError Config) := do
  match ← c.settle with
  | .error f => return .error (.path builtIn f)
  | .ok c =>
    let isFile := ⟨← isFilePath c.logging.file.destination,
      ← isFilePath c.logging.console.destination, ← isFilePath c.reporting.destination⟩
    match c.faults isFile with
    | [] => return .ok c
    | faults => return .error (.invalid builtIn faults)

/-- The configuration that the file at a path makes of the default one, which it is for no path. -/
def load (path : Bytes) : m (Except LoadError Config) := do
  match ← Machine.workPath with
  | .error e => return .error (.workDir e)
  | .ok _ =>
    if path.isEmpty then default.finish true
    else
      match ← Machine.read path with
      | .error f => return .error (.unreadable f)
      | .ok data =>
        match default.decode data with
        | .error e => return .error (.undecodable e)
        | .ok c => c.finish false

/-- The text of the default configuration. -/
def prepare : m (Except Bytes Bytes) := do
  match ← Machine.workPath with
  | .error e => return .error ("unable to get current working directory: " ++ e)
  | .ok _ => return .ok defaultText

end Restyle.Config
