import Restyle.Cli.Help
import Restyle.Config.Output
import Restyle.Log.Setup

/-!
# The program

Reads the command line, prepares configuration, report and log, runs the command, and cleans up.  Errors
go to the log once there is one, and before that to the standard error stream.
-/

namespace Restyle.Cli

/-- What has been prepared.  The log is silent at first, and there is none after its preparation has
failed. -/
structure Session where
  config : Option Config := none
  report : Option Report := none
  log : Option Log.Logger := some ⟨.discarded, []⟩
  /-- An error has gone to the log. -/
  handled : Bool := false
  deriving Repr, DecidableEq

/-- How the program was started: the word that started it, its name by that word, and the other
words. -/
structure Invocation where
  started : Bytes
  app : Bytes
  words : List Bytes
  deriving Repr, DecidableEq

abbrev Running (m : Type → Type) := StateT Session m

variable {m : Type → Type} [Monad m] [Machine m]

/-- Logs on the log of the session, if there is one. -/
def logged (f : Log.Logger → Running m Unit) : Running m Unit := do
  match (← get).log with
  | some l => f l
  | none => return

/-- Logs the error that ends the program, if everything is there for that. -/
def handle (causes : Causes) : Running m Unit := do
  let s ← get
  match s.log, s.config with
  | some l, some _ =>
    l.error "Program ended with error" [("error", .failure causes)]
    set { s with handled := true }
  | _, _ => return

/-! ### Preparation -/

/-- Opens the report and puts the configuration into it, if it came from a file. -/
def prepareReport (i : Invocation) (c : Config) (file : Bytes) : Running m Causes := do
  match ← Report.create i.app c.reporting.destination with
  | .error e => return ["unable to prepare debug reporter: " ++ e]
  | .ok r =>
    let r := if file.isEmpty then r
      else ((r.addData ("config/" ++ Path.base file) c.dump).toOption).getD r
    modify fun s => { s with report := some r }
    return []

def prepareLog (i : Invocation) (c : Config) : Running m Causes := do
  let s ← get
  let (report, log) ← Log.prepare i.app c.logging s.report
  match log with
  | .error e =>
    set { s with report := report, log := none }
    return ["unable to prepare logs: " ++ e]
  | .ok l =>
    set { s with report := report, log := some l }
    return []

/-- Logs how the program was started. -/
def greet (i : Invocation) (file : Bytes) : Running m Unit :=
  logged fun l => do
    l.debug "Program started" [("args", .texts (i.started :: i.words)),
      ("ver", .text Program.version), ("runtime", .text (← Machine.hostText .runtime)),
      ("hash", .text Program.revision)]
    if let some r := (← get).report then
      l.info "Creating debug report" [("location", .text (← r.location))]
    if file.isEmpty then l.debug "Using defaults (no configuration file)"

/-- Prepares the session for a command line with arguments. -/
def prepare (i : Invocation) (a : Arguments) : Running m Causes := do
  let file := (a.value? "config").getD []
  match ← Config.load file with
  | .error e => return ["unable to prepare configuration: " ++ e.message]
  | .ok c =>
    modify fun s => { s with config := some c }
    let causes ← if a.isOn "debug" then prepareReport i c file else pure []
    match causes with
    | [] =>
      match ← prepareLog i c with
      | [] =>
        greet i file
        return []
      | causes => return causes
    | causes => return causes

/-- Closes the session: the log first, then the report, and last the file for crashes. -/
def cleanUp (i : Invocation) (args : List Bytes) : Running m Causes := do
  logged fun l => l.debug "Program ended" [("elapsed", .elapsed), ("parsed args", .texts args)]
  let s ← get
  let closed ← match s.report with
    | none => pure []
    | some r =>
      match (← r.close).2 with
      | none => pure []
      | some e => pure ["unable to close debug report: " ++ e]
  set { s with report := none }
  match s.config with
  | none => return closed
  | some c =>
    match ← Log.removeEmptyCrashFile i.app c.logging with
    | none => return closed
    | some e => return closed ++ [e]

/-! ### Actions -/

/-- Writes the configuration to the file that is named first, or to the standard output. -/
def dumpConfig (a : Arguments) (c : Config) (l : Log.Logger) : Running m Causes := do
  if 1 < a.args.length then
    l.warn "Malformed command line, too many destinations" [("ignoring", .texts (a.args.drop 1))]
  let name := a.args.headD []
  let write (out : Bytes → Running m (Option Bytes)) : Running m Causes := do
    return (← c.writeOut l (a.isOn "default") name out).toList
  if name.isEmpty then write Machine.print
  else
    match ← Machine.openFile false name with
    | .error e => return ["unable to create destination file '" ++ name ++ "': " ++ e.message]
    | .ok place =>
      write fun text => do
        match ← Machine.extend place text with
        | .ok () => return none
        | .error e => return some (Files.Failure.mk "write" name e).message

/-- Runs the format command within the session. -/
def formatAction (a : Arguments) (c : Config) (l : Log.Logger) : Running m Causes := do
  let s ← get
  let (causes, progress) ← (Job.run c l a.options).run { report := s.report }
  modify fun s => { s with report := progress.report }
  return causes

def printHelp (text : Bytes) : Running m Causes := do
  let _ ← Machine.print text
  return []

def noTopic (name : Bytes) : Bytes :=
  "No help topic for '" ++ name ++ "'"

/-- The help that a command shows for its arguments. -/
def topicHelp (i : Invocation) (c : Command) (args : List Bytes) : Running m Causes := do
  match args.headD [] with
  | [] => printHelp (commandHelp i.app c)
  | name =>
    if helpNames.contains name then printHelp (helpHelp i.app c) else return [noTopic name]

/-- What the program does when no command is named. -/
def mainHelp (i : Invocation) (args : List Bytes) : Running m Causes := do
  match args.headD [] with
  | [] => printHelp (programHelp i.app (versionText (← Machine.hostText .runtime)))
  | name =>
    match Command.ofName? name with
    | some c => printHelp (commandHelp i.app c)
    | none =>
      logged fun l => l.warn "Unknown command, nothing to do" [("command", .text name)]
      return []

/-- Prepares the session if there are arguments, and then acts.  Errors of either are handled. -/
def act (i : Invocation) (global : Arguments) (action : Running m Causes) : Running m Causes := do
  let causes ← if global.args.isEmpty then pure [] else prepare i global
  let causes ← if causes.isEmpty then action else pure causes
  if !causes.isEmpty then handle causes
  return causes

/-- Runs an action for the configuration and the log of the session. -/
def withSession (f : Config → Log.Logger → Running m Causes) : Running m Causes := do
  match ← get with
  | { config := some c, log := some l, .. } => f c l
  | _ => return []

/-- An error of the command line. -/
def usageError (e : Arguments.Error) : Running m Causes := do
  handle [e.message]
  return [e.message]

/-- Runs a command with the words behind its name.  Flags of the program may be among them. -/
def runCommand (i : Invocation) (global : Arguments) (c : Command) (words : List Bytes) :
    Running m Causes := do
  match Arguments.parse (c.flags ++ [helpFlag] ++ globalFlags) helpNames {} words with
  | .error e => usageError e
  | .ok a =>
    let global := { global with flags := global.flags ++ a.flags }
    if a.isOn "help" then topicHelp i c a.args
    else if helpNames.contains (a.args.headD []) then
      match Arguments.parse (c.flags ++ globalFlags) [] {} (a.args.drop 1) with
      | .error e => usageError e
      | .ok b =>
        act i { global with flags := global.flags ++ b.flags } (topicHelp i c b.args)
    else
      act i global <| withSession fun config log =>
        match c with
        | .format => formatAction a config log
        | .dumpconfig => dumpConfig a config log

/-- Runs what the command line asks for, and cleans up. -/
def dispatch (i : Invocation) (a : Arguments) : Running m (Causes × Causes) := do
  let causes ← match a.args.head?.bind Command.ofName? with
    | some c => runCommand i a c (a.args.drop 1)
    | none => act i a (mainHelp i a.args)
  let after ← cleanUp i a.args
  if !after.isEmpty then handle after
  return (causes, after)

/-- Runs the program, and tells the errors of the command and of cleaning up. -/
def runWords (i : Invocation) : Running m (Causes × Causes) := do
  let commands := Command.all.map fun c => (c.name : Bytes)
  match Arguments.parse (globalFlags ++ [helpFlag, versionFlag]) commands {} i.words with
  | .error e => return (← usageError e, [])
  | .ok a =>
    if a.isOn "help" then return (← mainHelp i a.args, [])
    else if a.isOn "version" then
      let version := versionText (← Machine.hostText .runtime)
      return (← printHelp (i.app ++ " version " ++ version ++ "\n"), [])
    else dispatch i a

/-- Runs the program and gives its exit code.  Errors that have not gone to the log are printed. -/
def run (i : Invocation) : m Nat := do
  let ((causes, after), s) ← (runWords i).run {}
  let messages := [causes, after].filterMap fun cs =>
    if cs.isEmpty then none else some (Log.joined cs)
  if messages.isEmpty then return 0
  else
    if !s.handled then
      Machine.printError ("Program ended with error: "
        ++ List.intercalate ("\n" : Bytes) messages ++ "\n")
    return 1

end Restyle.Cli
