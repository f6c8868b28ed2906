import Restyle.Encoding.CodePage
import Restyle.Files.Disk
import Restyle.Log.Record

/-!
# Machines

What the program needs of the machine it runs on: files, standard streams, a way to be cancelled, and
the texts and tables that only the host knows.  The program is written for any machine; `World` is the one that can
be reasoned about.
-/

namespace Restyle

open Files

/-- Texts of the host in logs and help: the time, the time since the start, the language runtime and
the place in the program that logs. -/
inductive HostText where
  | time
  | elapsed
  | runtime
  | caller
  deriving Repr, DecidableEq

class Machine (m : Type → Type) where
  /-- The working directory. -/
  workPath : m (Except Bytes Bytes)
  /-- What is at a path, through symbolic links. -/
  stat : Bytes → m (Except Failure Kind)
  /-- What is at a path, a symbolic link itself if there is one. -/
  lstat : Bytes → m (Except Failure Kind)
  /-- The entries of a directory, in the order of the bytes of their names. -/
  entries : Bytes → m (Except Failure (List (Bytes × Kind)))
  read : Bytes → m (Except Failure Bytes)
  /-- Opens a file for writing, an empty one unless `keep`. -/
  openFile : (keep : Bool) → Bytes → m (Except Failure Place)
  /-- Opens a new temporary file, named by a beginning, some text of the host and an ending. -/
  openTemp : (stem ending : Bytes) → m (Except Failure (Bytes × Place))
  /-- Adds to the end of an open file. -/
  extend : Place → Bytes → m (Except Errno Unit)
  /-- Writes to an open file, from a byte on that need not be its last. -/
  writeAt : Place → (offset : Nat) → Bytes → m (Except Errno Unit)
  /-- Makes a directory and those above it that are missing. -/
  mkdirAll : Bytes → m (Except Failure Unit)
  remove : Bytes → m (Except Failure Unit)
  /-- All of the standard input. -/
  input : m Bytes
  /-- Writes to the standard output, and tells what went wrong. -/
  print : Bytes → m (Option Bytes)
  /-- Writes a document to the standard output, apart from others, and tells what went wrong. -/
  printDocument : Bytes → m (Option Bytes)
  printError : Bytes → m Unit
  /-- The run should stop. -/
  isCancelled : m Bool
  /-- Keeps a log record for later. -/
  keep : Log.Record → m Unit
  hostText : HostText → m Bytes
  wide : m CodePage.Wide

/-- A program with a state of its own runs on the same machine. -/
instance {σ : Type} {m : Type → Type} [Monad m] [Machine m] : Machine (StateT σ m) where
  workPath := StateT.lift Machine.workPath
  stat path := StateT.lift (Machine.stat path)
  lstat path := StateT.lift (Machine.lstat path)
  entries path := StateT.lift (Machine.entries path)
  read path := StateT.lift (Machine.read path)
  openFile keep path := StateT.lift (Machine.openFile keep path)
  openTemp stem ending := StateT.lift (Machine.openTemp stem ending)
  extend place data := StateT.lift (Machine.extend place data)
  writeAt place offset data := StateT.lift (Machine.writeAt place offset data)
  mkdirAll path := StateT.lift (Machine.mkdirAll path)
  remove path := StateT.lift (Machine.remove path)
  input := StateT.lift Machine.input
  print s := StateT.lift (Machine.print s)
  printDocument doc := StateT.lift (Machine.printDocument doc)
  printError s := StateT.lift (Machine.printError s)
  isCancelled := StateT.lift Machine.isCancelled
  keep r := StateT.lift (Machine.keep r)
  hostText t := StateT.lift (Machine.hostText t)
  wide := StateT.lift Machine.wide

namespace Machine

variable {m : Type → Type} [Monad m] [Machine m]

/-- The absolute path of a path, cleaned. -/
def absolute (path : Bytes) : m (Except Bytes Bytes) := do
  if Path.isAbsolute path then return .ok (Path.clean path)
  else
    match ← workPath with
    | .ok w => return .ok (Path.join [w, path])
    | .error e => return .error e

/-- Makes data the content of a file. -/
def write (path data : Bytes) : m (Except Failure Unit) := do
  match ← openFile false path with
  | .error e => return .error e
  | .ok place =>
    match ← extend place data with
    | .ok () => return .ok ()
    | .error e => return .error ⟨"write", path, e⟩

end Machine

end Restyle
