import Restyle.Job.Source

/-!
# The format command

Settles the job from configuration, flags and arguments, and runs it.  Flags win over the configuration.
-/

namespace Restyle.Job

variable {m : Type → Type} [Monad m] [Machine m]

/-- What the command line asks for. -/
structure Options where
  steps : Option Bytes := none
  suffix : Option Bytes := none
  overwrite : Bool := false
  codePage : Option Bytes := none
  stdout : Bool := false
  args : List Bytes := []
  deriving Repr, DecidableEq

/-- Settles the settings, in `s` so far.  A code page that is not known is left out. -/
def configure (c : Config) (o : Options) (log : Log.Logger) (s : Settings) :
    m (Except Causes Settings) := do
  let names := match o.steps with
    | some list => Bytes.split 0x2C list
    | none => c.pipeline.steps
  match s.setSteps names with
  | .error e => return .error ["unable to prepare pipeline: " ++ e.message]
  | .ok s =>
    match s.setSuffix (o.suffix.getD c.output.suffix) with
    | .error e => return .error [e.message]
    | .ok s =>
      let s := { s with overwrite := c.output.overwrite || o.overwrite }
      let page := o.codePage.getD c.input.codePage
      match s.setCodePage page with
      | (s, .error e) =>
        log.warn "Unknown character set name, ignoring"
          [("charset", .text page), ("error", .failure [e.message])]
        return .ok s
      | (s, .ok ()) =>
        if s.codePage.isSome then
          log.debug "Converting input without BOM" [("charset", .text s.codePageName)]
        return .ok s

/-- The absolute path of the source; the standard input has none. -/
def sourcePath (given : Bytes) : m (Except Bytes Bytes) :=
  if given == stdinName then return .ok given else Machine.absolute given

/-- The absolute path of the destination, by default the working directory. -/
def destinationPath (given : Bytes) : m (Except Bytes Bytes) := do
  if given.isEmpty then
    match ← Machine.workPath with
    | .ok w => Machine.absolute w
    | .error e => return .error ("unable to get working directory: " ++ e)
  else Machine.absolute given

/-- Runs a job on a source. -/
def start (j : Job) (source : Bytes) : Run m Causes := do
  j.log.info "Processing starting" [("source", .text source),
    ("destination", .text j.destination),
    ("steps", .texts (j.settings.steps.map fun s => (s.name : Bytes))),
    ("stdout", .flag j.settings.toStdout)]
  let causes ← process j source
  j.log.info "Processing completed" [("elapsed", .elapsed)]
  return causes

/-- Settles the job for a source, and runs it. -/
def settle (c : Config) (log : Log.Logger) (o : Options) (source : Bytes) : Run m Causes := do
  let toStdout := o.stdout || (source == stdinName && o.args.length < 2)
  let given := o.args.getD 1 []
  if toStdout && !given.isEmpty then
    log.warn "Writing to STDOUT, ignoring destination" [("destination", .text given)]
  match ← destinationPath given with
  | .error e => return [e]
  | .ok destination =>
    if 2 < o.args.length then
      log.warn "Malformed command line, too many destinations"
        [("ignoring", .texts (o.args.drop 2))]
    match ← configure c o log { toStdout := toStdout } with
    | .error causes => return causes
    | .ok settings =>
      let wide ← Machine.wide
      start ⟨settings, c.input.extensions, c.output.transliterate, log, destination, wide⟩ source

/-- The whole command. -/
def run (c : Config) (log : Log.Logger) (o : Options) : Run m Causes :=
  unlessCancelled do
    let log := log.sub "format"
    let given := o.args.headD []
    if given.isEmpty then return ["no input source has been specified"]
    else
      match ← sourcePath given with
      | .error e => return [e]
      | .ok source => settle c log o source

end Restyle.Job
