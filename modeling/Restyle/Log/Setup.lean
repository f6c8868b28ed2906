import Restyle.Config.Basic
import Restyle.Log.Logger
import Restyle.Report

/-!
# Preparing the log

The configuration decides what is written where.  A report wants the log file in full.  Beside the log
file there is a file for crashes, which is removed at the end if nothing was written to it.  Files that
cannot be opened are replaced by temporary ones.
-/

namespace Restyle.Log

variable {m : Type → Type} [Monad m] [Machine m]

/-- The level by its name in the configuration. -/
def levelOf (name : Bytes) : Option Level :=
  if name == "debug" then some .debug
  else if name == "normal" then some .info
  else none

/-- The file for crashes, beside the log file. -/
def crashFile (app : Bytes) (c : Config.Logging) : Bytes :=
  Path.join [Path.parent c.file.destination, app ++ "-panic.log"]

/-- Stores a file in the report, if there is one. -/
def storeIn (report : Option Report) (name path : Bytes) : m (Option Report) := do
  match report with
  | none => return none
  | some r =>
    match ← r.store name path with
    | .ok r => return some r
    | .error _ => return some r

/-- Opens a file, or a temporary one in its place. -/
def openOrTemp (keep : Bool) (path stem : Bytes) :
    m (Except Files.Failure (Bytes × Files.Place × Bool)) := do
  match ← Machine.openFile keep path with
  | .ok place => return .ok (path, place, false)
  | .error _ =>
    match ← Machine.openTemp stem ".log" with
    | .ok (name, place) => return .ok (name, place, true)
    | .error e => return .error e

/-- A log file: its level, its place, and its path if it is a temporary one. -/
structure LogFile where
  level : Level
  place : Files.Place
  moved : Option Bytes
  deriving Repr, DecidableEq

/-- Opens the log file that the configuration wants, if it wants one. -/
def openFiles (app : Bytes) (c : Config.Logging) (report : Option Report) :
    m (Option Report × Except Bytes (Option LogFile)) := do
  let level := if report.isSome then some Level.debug else levelOf c.file.level
  let keep := report.isNone && c.file.mode == ("append" : Bytes)
  match level with
  | none => return (report, .ok none)
  | some level =>
    let report ← match ← openOrTemp keep (crashFile app c) (app ++ "-panic.") with
      | .ok (name, _, _) => storeIn report "panic.log" name
      | .error _ => pure report
    match ← openOrTemp keep c.file.destination (app ++ ".") with
    | .ok (name, place, moved) =>
      let report ← storeIn report "final.log" name
      return (report, .ok (some ⟨level, place, if moved then some name else none⟩))
    | .error e =>
      return (report, .error ("unable to access file log destination ("
        ++ c.file.destination ++ "): " ++ e.message))

/-- The logger of a program. -/
def prepare (app : Bytes) (c : Config.Logging) (report : Option Report) :
    m (Option Report × Except Bytes Logger) := do
  let (report, file) ← openFiles app c report
  match file with
  | .error e => return (report, .error e)
  | .ok file =>
    let sink := Sink.written (levelOf c.console.level) (file.map fun f => (f.level, f.place))
    if let some path := file.bind (·.moved) then
      Logger.warn ⟨sink, []⟩ "Log file was redirected to new location" [("location", .text path)]
    return (report, .ok ⟨sink, app⟩)

/-- Removes the file for crashes if it is empty. -/
def removeEmptyCrashFile (app : Bytes) (c : Config.Logging) : m (Option Bytes) := do
  if c.file.destination.isEmpty then return none
  else
    let name := crashFile app c
    match ← Machine.stat name with
    | .ok (.file 0) | .ok .device =>
      match ← Machine.remove name with
      | .ok () => return none
      | .error e =>
        return some ("unable to remove empty panic log file '" ++ name ++ "': " ++ e.message)
    | _ => return none

end Restyle.Log
