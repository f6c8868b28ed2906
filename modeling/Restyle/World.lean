import Restyle.Files.Access
import Restyle.Machine
import Restyle.Stream

/-!
# A machine as a value

The whole state of a machine: its disk, its streams, how often it may still be asked whether to stop, and
the log records kept.  Programs for a machine run in it as functions from state to state.
-/

namespace Restyle

open Files

structure World where
  disk : Disk
  /-- Where temporary files are made. -/
  tempDir : Bytes
  /-- The number of temporary files asked for, which makes their names. -/
  temps : Nat := 0
  input : Bytes := []
  output : Stream := {}
  errors : Bytes := []
  /-- The number of checks after which a run is cancelled, if it ever is. -/
  checks : Option Nat := none
  records : List Log.Record := []
  texts : HostText → Bytes := fun _ => []
  /-- The text in the name of a temporary file, by its number. -/
  mark : Nat → Bytes := decimal
  wide : CodePage.Wide := .ascii

namespace World

/-- An operation that may change the disk. -/
def onDisk (f : Disk → Except Failure (Disk × α)) : StateM World (Except Failure α) := do
  let w ← get
  match f w.disk with
  | .error e => return .error e
  | .ok (d, a) =>
    set { w with disk := d }
    return .ok a

/-- An operation on an open file. -/
def onOpen (f : Disk → Except Errno Disk) : StateM World (Except Errno Unit) := do
  let w ← get
  match f w.disk with
  | .error e => return .error e
  | .ok d =>
    set { w with disk := d }
    return .ok ()

/-- Makes a temporary file under the next name. -/
def tryTemp (stem ending : Bytes) : StateM World (Except Failure (Bytes × Place)) := do
  let w ← get
  let path := w.tempDir ++ "/" ++ stem ++ w.mark w.temps ++ ending
  let made ← onDisk fun d => d.openNew path
  modify fun w => { w with temps := w.temps + 1 }
  return made.map (path, ·)

/-- Makes a temporary file under the first free name. -/
def openTemp (stem ending : Bytes) : (fuel : Nat) → StateM World (Except Failure (Bytes × Place))
  | 0 => tryTemp stem ending
  | fuel + 1 => do
    match ← tryTemp stem ending with
    | .error ⟨_, _, .alreadyExists⟩ => openTemp stem ending fuel
    | r => return r

/-- One check for cancellation. -/
def check : StateM World Bool := do
  let w ← get
  match w.checks with
  | none => return false
  | some 0 => return true
  | some (n + 1) =>
    set { w with checks := some n }
    return false

instance : Machine (StateM World) where
  workPath := do return (← get).disk.workPath
  stat path := do return ((← get).disk.stat path).map Node.kind
  lstat path := do return ((← get).disk.lstat path).map Node.kind
  entries path := do return (← get).disk.entries path
  read path := do return (← get).disk.read path
  openFile keep path := onDisk fun d => d.openFile keep path
  openTemp stem ending := do openTemp stem ending (← get).disk.nodes.length
  extend place data := onOpen fun d => d.extend place data
  writeAt place offset data := onOpen fun d => d.writeAt place offset data
  mkdirAll path := do
    let w ← get
    let (d, made) := w.disk.ensureDirs path
    set { w with disk := d }
    return made
  remove path := onDisk fun d => (d.remove path).map (·, ())
  input := do return (← get).input
  print s := do
    let w ← get
    let (out, e) := w.output.write s
    set { w with output := out }
    return e
  printDocument doc := do
    let w ← get
    let (out, e) := w.output.writeDocument doc
    set { w with output := out }
    return e
  printError s := modify fun w => { w with errors := w.errors ++ s }
  isCancelled := check
  keep r := modify fun w => { w with records := w.records ++ [r] }
  hostText t := do return (← get).texts t
  wide := do return (← get).wide

end World

end Restyle
