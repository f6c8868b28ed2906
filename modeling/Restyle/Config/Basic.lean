import Restyle.Yaml.Decode
import Restyle.Yaml.Printer

/-!
# Configuration

The settings of the program as they stand in a configuration file, with their defaults.  `decode` lays a
file over a configuration and `dump` writes one.
-/

namespace Restyle

namespace Config

structure Pipeline where
  steps : List Bytes
  deriving Repr, DecidableEq

structure Input where
  /-- Extensions of stylesheets in directories and archives. -/
  extensions : List Bytes
  codePage : Bytes
  deriving Repr, DecidableEq

structure Output where
  suffix : Bytes
  overwrite : Bool
  transliterate : Bool
  deriving Repr, DecidableEq

structure Logger where
  level : Bytes := []
  destination : Bytes := []
  mode : Bytes := []
  deriving Repr, DecidableEq

structure Logging where
  file : Logger
  console : Logger
  deriving Repr, DecidableEq

structure Reporting where
  destination : Bytes
  deriving Repr, DecidableEq

end Config

structure Config where
  version : Int
  pipeline : Config.Pipeline
  input : Config.Input
  output : Config.Output
  logging : Config.Logging
  reporting : Config.Reporting
  deriving Repr, DecidableEq

namespace Config

/-- The lines of the default configuration file. -/
def defaultLines : List String := [
  "# cssfmt configuration",
  "version: 1",
  "pipeline:",
  "    # Operations applied to every document, in the listed order. Known steps:",
  "    #   merge, remove_undefined, combine_media_queries, minify, fix_rgb,",
  "    #   remove_media_queries",
  "    steps:",
  "        - remove_undefined",
  "        - combine_media_queries",
  "        - fix_rgb",
  "        - minify",
  "input:",
  "    # only files with these extensions are picked up from directories and archives",
  "    extensions: [\".css\"]",
  "    # IANA name of the source code page, empty means UTF-8 (or UTF-16 with BOM)",
  "    code_page: \"\"",
  "output:",
  "    # added to the base name of every produced file",
  "    suffix: \".min\"",
  "    overwrite: false",
  "    # convert output file names to lower case ASCII",
  "    transliterate: false",
  "logging:",
  "    console:",
  "        level: normal",
  "    file:",
  "        level: none",
  "        destination: cssfmt.log",
  "        mode: overwrite",
  "reporting:",
  "    destination: cssfmt-report.zip"]

/-- The configuration file that the program carries with it. -/
def defaultText : Bytes :=
  defaultLines.flatMap fun (l : String) => (l : Bytes) ++ "\n"

/-- What `defaultText` says. -/
def default : Config where
  version := 1
  pipeline := ⟨["remove_undefined", "combine_media_queries", "fix_rgb", "minify"]⟩
  input := ⟨[".css"], []⟩
  output := ⟨".min", false, false⟩
  logging := ⟨⟨"none", "cssfmt.log", "overwrite"⟩, ⟨"normal", [], []⟩⟩
  reporting := ⟨"cssfmt-report.zip"⟩

/-! ### Fields in a file -/

open Yaml (Field Record)

def Pipeline.record : Record Pipeline where
  type := "config.PipelineConfig"
  fields := [.texts "steps" fun c v => { c with steps := v }]

def Input.record : Record Input where
  type := "config.InputConfig"
  fields := [
    .texts "extensions" fun c v => { c with extensions := v },
    .text "code_page" fun c v => { c with codePage := v }]

def Output.record : Record Output where
  type := "config.OutputConfig"
  fields := [
    .text "suffix" fun c v => { c with suffix := v },
    .flag "overwrite" fun c v => { c with overwrite := v },
    .flag "transliterate" fun c v => { c with transliterate := v }]

def Logger.record : Record Logger where
  type := "config.LoggerConfig"
  fields := [
    .text "level" fun c v => { c with level := v },
    .text "destination" fun c v => { c with destination := v },
    .text "mode" fun c v => { c with mode := v }]

def Logging.record (depth : Nat) : Record Logging where
  type := "config.LoggingConfig"
  fields := [
    .record "file" Logger.record depth (·.file) fun c v => { c with file := v },
    .record "console" Logger.record depth (·.console) fun c v => { c with console := v }]

def Reporting.record : Record Reporting where
  type := "config.ReporterConfig"
  fields := [.text "destination" fun c v => { c with destination := v }]

def record (depth : Nat) : Record Config where
  type := "config.Config"
  fields := [
    .integer "version" fun c v => { c with version := v },
    .record "pipeline" Pipeline.record depth (·.pipeline) fun c v => { c with pipeline := v },
    .record "input" Input.record depth (·.input) fun c v => { c with input := v },
    .record "output" Output.record depth (·.output) fun c v => { c with output := v },
    .record "logging" (Logging.record depth) depth (·.logging) fun c v => { c with logging := v },
    .record "reporting" Reporting.record depth (·.reporting) fun c v => { c with reporting := v }]

/-- Why a file says nothing about the configuration. -/
inductive DecodeError where
  | malformed
  | absent
  | unsuited (issues : List Yaml.Issue)
  deriving Repr, DecidableEq

def DecodeError.message : DecodeError → Bytes
  | .malformed => "yaml: malformed document"
  | .absent => "EOF"
  | .unsuited issues =>
    ("yaml: unmarshal errors:" : Bytes) ++ issues.flatMap fun i => ("\n  " : Bytes) ++ i.message

/-- Lays the file over a configuration. -/
def decode (c : Config) (data : Bytes) : Except DecodeError Config :=
  match Yaml.Document.parse data with
  | .malformed => .error .malformed
  | .absent => .error .absent
  | .tree root =>
    -- no mapping is merged deeper than the file is long
    let depth := data.length + 1
    match ((record depth).read depth c root).run [] with
    | none => .error .malformed
    | some (c, []) => .ok c
    | some (_, issues) => .error (.unsuited issues)

/-! ### Writing -/

open Yaml.Printer in
def Logger.lines (level : Nat) (name : String) (c : Logger) : List Char :=
  head level name ++ textField (level + 1) "level" c.level
    ++ optionalField (level + 1) "destination" c.destination
    ++ optionalField (level + 1) "mode" c.mode

open Yaml.Printer in
/-- The configuration as a file. -/
def dump (c : Config) : Bytes :=
  Utf8.encode <|
    field 0 "version" (if c.version < 0 then '-' :: Nat.toDigits 10 c.version.natAbs
      else Nat.toDigits 10 c.version.natAbs)
    ++ head 0 "pipeline" ++ listField 1 "steps" c.pipeline.steps
    ++ head 0 "input" ++ listField 1 "extensions" c.input.extensions
    ++ textField 1 "code_page" c.input.codePage
    ++ head 0 "output" ++ textField 1 "suffix" c.output.suffix
    ++ flagField 1 "overwrite" c.output.overwrite
    ++ flagField 1 "transliterate" c.output.transliterate
    ++ head 0 "logging" ++ c.logging.file.lines 1 "file" ++ c.logging.console.lines 1 "console"
    ++ head 0 "reporting" ++ textField 1 "destination" c.reporting.destination

end Config

end Restyle
