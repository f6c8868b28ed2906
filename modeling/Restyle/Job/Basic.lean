import Restyle.Config.Basic
import Restyle.Log.Logger
import Restyle.Report
import Restyle.State.Settings

/-!
# Jobs

A job takes stylesheets through a pipeline to a destination.  While it runs it counts the stylesheets and
collects traces in the report, if there is one.  Failures are lists of the messages of their causes; an
empty list is success, and failures of parts are put together by appending.
-/

namespace Restyle

/-- Why something failed, by the messages of its causes.  No cause is no failure. -/
abbrev Causes := List Bytes

/-- The causes as one, in the context in which they arose. -/
def Causes.within (context : Bytes) (cs : Causes) : Causes :=
  if cs.isEmpty then [] else [context ++ ": " ++ Log.joined cs]

namespace Job

/-- What stands for the standard input as a source. -/
def stdinName : Bytes := "-"

def cancelled : Bytes := "context canceled"

/-- What a job has done so far. -/
structure Progress where
  /-- The number of stylesheets. -/
  count : Nat := 0
  report : Option Report := none
  deriving Repr, DecidableEq

end Job

/-- How stylesheets are processed. -/
structure Job where
  settings : Settings
  extensions : List Bytes
  transliterate : Bool
  log : Log.Logger
  destination : Bytes
  /-- How code pages with several bytes a character are read. -/
  wide : CodePage.Wide := .ascii

namespace Job

/-- A part of a job on a machine. -/
abbrev Run (m : Type → Type) := StateT Progress m

variable {m : Type → Type} [Monad m] [Machine m]

/-- Runs on, unless the job has been cancelled. -/
def unlessCancelled (k : Run m Causes) : Run m Causes := do
  if ← Machine.isCancelled then return [cancelled] else k

end Job

end Restyle
