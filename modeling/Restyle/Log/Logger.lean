import Restyle.Log.Line
import Restyle.Machine

/-!
# Loggers

A logger has a name and a sink for its records.  Records can be dropped, kept, or written: errors to the
standard error stream, others to the standard output, and all of them to a file.
-/

namespace Restyle.Log

/-- What becomes of log records. -/
inductive Sink where
  | discarded
  | kept
  /-- Records from a level on are written to the console, and from a level on to a file. -/
  | written (console : Option Level) (file : Option (Level × Files.Place))
  deriving Repr, DecidableEq

variable {m : Type → Type} [Monad m] [Machine m]

/-- Says on the standard error stream that a record could not be written. -/
def lament (time message : Bytes) : m Unit :=
  Machine.printError (time ++ " write error: " ++ message ++ "\n")

def toConsole (level : Level) (context : Context) (r : Record) : m Unit := do
  if r.level == .error then Machine.printError (r.line context false)
  else if level.takes r.level then
    match ← Machine.print (r.line context true) with
    | none => return
    | some e => lament context.time e

def toFile (level : Level) (place : Files.Place) (context : Context) (r : Record) : m Unit := do
  if level.takes r.level then
    match ← Machine.extend place (r.line context true) with
    | .ok () => return
    | .error e => lament context.time e.message

def Sink.log (s : Sink) (r : Record) : m Unit := do
  match s with
  | .discarded => return
  | .kept => Machine.keep r
  | .written console file =>
    let time ← Machine.hostText .time
    let elapsed ← Machine.hostText .elapsed
    if let some level := console then toConsole level ⟨time, elapsed, none⟩ r
    if let some (level, place) := file then
      toFile level place ⟨time, elapsed, some (← Machine.hostText .caller)⟩ r

structure Logger where
  sink : Sink
  name : Bytes := []
  deriving Repr, DecidableEq

namespace Logger

/-- The logger of a part of what this one is for. -/
def sub (l : Logger) (name : Bytes) : Logger :=
  { l with name := child l.name name }

def log (l : Logger) (level : Level) (message : Bytes) (fields : List (String × Value)) : m Unit :=
  l.sink.log ⟨level, l.name, message, fields⟩

def debug (l : Logger) (message : Bytes) (fields : List (String × Value) := []) : m Unit :=
  l.log .debug message fields

def info (l : Logger) (message : Bytes) (fields : List (String × Value) := []) : m Unit :=
  l.log .info message fields

def warn (l : Logger) (message : Bytes) (fields : List (String × Value) := []) : m Unit :=
  l.log .warn message fields

def error (l : Logger) (message : Bytes) (fields : List (String × Value) := []) : m Unit :=
  l.log .error message fields

/-- Passes on records of others. -/
def logAll (l : Logger) : List Record → m Unit
  | [] => return
  | r :: rs => do
    l.sink.log r
    logAll l rs

end Logger

end Restyle.Log
