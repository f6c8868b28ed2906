import Restyle.Archive.Zip
import Restyle.Machine
import Restyle.Text.Quoted

/-!
# Reports

A report collects what is needed to look into a run: data, and files as they are when the report is
closed.  Items keep the order in which they were stored.  Closing writes an archive with one entry an
item, and at its end a manifest that lists all items, those missing included.

The archive is written while the items are read, so that one which is the archive itself is found as far as
it has been written.  It is copied at one moment.
-/

namespace Restyle

/-- An item is data, or a file: the path by which it was stored and the absolute one.  An item without
path is data. -/
structure Report.Item where
  origin : Bytes := []
  path : Bytes := []
  data : Bytes := []
  deriving Repr, DecidableEq

structure Report where
  items : List (Bytes × Report.Item) := []
  /-- The archive, by the path with which it was opened. -/
  name : Bytes
  place : Files.Place
  isOpen : Bool := true
  deriving Repr, DecidableEq

namespace Report

/-! ### Items -/

/-- Why an item is refused. -/
inductive Refusal where
  | otherFile (name old new : Bytes)
  | taken (name : Bytes)
  deriving Repr, DecidableEq

def Refusal.message : Refusal → Bytes
  | .otherFile name old new =>
    "report already has [" ++ name ++ "] from " ++ quote old ++ ", refusing " ++ quote new
  | .taken name => "report already has data for [" ++ name ++ "]"

def get? (r : Report) (name : Bytes) : Option Item :=
  r.items.lookup name

def add (r : Report) (name : Bytes) (i : Item) : Report :=
  { r with items := r.items ++ [(name, i)] }

/-- Stores a file.  The same file can be stored again, another one under its name cannot. -/
def addFile (r : Report) (name origin path : Bytes) : Except Refusal Report :=
  match r.get? name with
  | some old => if old.origin == origin then .ok r else .error (.otherFile name old.origin origin)
  | none => .ok (r.add name { origin := origin, path := path })

/-- Stores data under a name that is not taken. -/
def addData (r : Report) (name data : Bytes) : Except Refusal Report :=
  match r.get? name with
  | some _ => .error (.taken name)
  | none => .ok (r.add name { data := data })

variable {m : Type → Type} [Monad m] [Machine m]

/-- Stores the file at a path. -/
def store (r : Report) (name path : Bytes) : m (Except Refusal Report) := do
  match ← Machine.absolute path with
  | .ok full => return r.addFile name path full
  | .error _ => return r.addFile name path path

/-! ### Archive -/

/-- Opens the archive of a report, or a temporary one where that is not possible. -/
def create (app destination : Bytes) : m (Except Bytes Report) := do
  match ← Machine.openFile false destination with
  | .ok place => return .ok { name := destination, place := place }
  | .error _ =>
    match ← Machine.openTemp (app ++ "-report.") ".zip" with
    | .ok (name, place) => return .ok { name := name, place := place }
    | .error e => return .error ("unable to create report: " ++ e.message)

/-- The absolute name of the archive. -/
def location (r : Report) : m Bytes := do
  match ← Machine.absolute r.name with
  | .ok full => return full
  | .error _ => return r.name

/-- What has become of an item when the report is closed.  The size of a file is told before it is copied. -/
inductive Outcome where
  | data (content : Bytes)
  | file (size : Nat) (content : Bytes)
  | missing
  deriving Repr, DecidableEq

/-- The line of an item in the manifest. -/
def manifestLine (name : Bytes) (i : Item) : Outcome → Bytes
  | .data content => "data\t" ++ decimal content.length ++ "\t" ++ name ++ "\n"
  | .file size _ => "file\t" ++ decimal size ++ "\t" ++ name ++ "\t" ++ i.origin ++ "\n"
  | .missing => "missing\t-\t" ++ name ++ "\t" ++ i.origin ++ "\n"

/-- How far an archive has been written: how much of it is in its file, what is held back, the entries that
are done, what is still to be written of the last of them, and the manifest. -/
structure Draft where
  offset : Nat := 0
  held : Bytes := []
  done : List Archive.Item := []
  rest : Bytes := []
  manifest : Bytes := []
  deriving Repr, DecidableEq

/-- Parts of the archive are held back until there is more than this. -/
def heldBack : Nat := 4096

/-- Writes to the file of the archive, behind what has been written to it before. -/
def extend (r : Report) (offset : Nat) (data : Bytes) : m (Option Bytes) := do
  let failed (e : Files.Errno) : Bytes := "write " ++ r.name ++ ": " ++ e.message
  if r.isOpen then
    match ← Machine.writeAt r.place offset data with
    | .ok () => return none
    | .error e => return some (failed e)
  else return some (failed .closed)

/-- What goes wrong may belong to the work on an entry, which is then named. -/
def adding (name : Option Bytes) (message : Bytes) : Bytes :=
  match name with
  | some name => "unable to add [" ++ name ++ "] to report: " ++ message
  | none => message

/-- Adds a part of the archive. -/
def append (r : Report) (name : Option Bytes) (data : Bytes) (d : Draft) : m (Except Bytes Draft) := do
  let held := d.held ++ data
  if held.length ≤ heldBack then return .ok { d with held := held }
  else
    match ← r.extend d.offset held with
    | none => return .ok { d with offset := d.offset + held.length, held := [] }
    | some e => return .error (adding name e)

/-- Begins an entry: writes what is left of the one before, and the header. -/
def begin (r : Report) (name : Bytes) (d : Draft) : m (Except Bytes Draft) := do
  match ← r.append (some name) d.rest d with
  | .error e => return .error e
  | .ok d =>
    if Archive.maxName < name.length then
      return .error (adding (some name) Archive.Error.nameTooLong.message)
    else r.append (some name) (Archive.fileHeader name) { d with rest := [] }

/-- Gives an entry that has been begun its content.  The end of it is left for later. -/
def fill (r : Report) (e : Archive.Entry) (d : Draft) : m (Except Bytes Draft) := do
  if e.isMisplaced then return .error (adding (some e.name) Archive.Error.dataInDirectory.message)
  else
    match ← r.append (some e.name) e.item.early d with
    | .error e => return .error e
    | .ok d => return .ok { d with done := d.done ++ [e.item], rest := e.item.late }

/-- Adds an entry.  Its content is read when it has been begun, and all at once. -/
def addEntry (r : Report) (name : Bytes) (content : m (Except Files.Failure Bytes)) (d : Draft) :
    m (Except Bytes (Bytes × Draft)) := do
  match ← r.begin name d with
  | .error e => return .error e
  | .ok d =>
    match ← content with
    | .error e => return .error (adding (some name) e.message)
    | .ok data =>
      match ← r.fill ⟨name, data⟩ d with
      | .error e => return .error e
      | .ok d => return .ok (data, d)

/-- Adds an item, as it is now, and tells what has become of it. -/
def addItem (r : Report) (name : Bytes) (i : Item) (d : Draft) : m (Except Bytes (Outcome × Draft)) := do
  if i.origin.isEmpty then
    return (← r.addEntry name (return .ok i.data) d).map fun (data, d) => (.data data, d)
  else
    match ← Machine.stat i.path with
    | .ok (.file size) =>
      -- the file has to be there when it is opened, and again when it is copied
      match ← Machine.read i.path with
      | .error e => return .error e.message
      | .ok _ =>
        return (← r.addEntry name (Machine.read i.path) d).map fun (data, d) => (.file size data, d)
    | _ => return .ok (.missing, d)

def addItems (r : Report) : List (Bytes × Item) → Draft → m (Except Bytes Draft)
  | [], d => return .ok d
  | (name, i) :: is, d => do
    match ← r.addItem name i d with
    | .error e => return .error e
    | .ok (o, d) => r.addItems is { d with manifest := d.manifest ++ manifestLine name i o }

/-- Writes the end of the archive. -/
def finish (r : Report) (d : Draft) : m (Option Bytes) := do
  match ← r.append none (d.rest ++ Archive.ending d.done) d with
  | .error e => return some e
  | .ok d => if d.held.isEmpty then return none else r.extend d.offset d.held

/-- Writes the archive: the items in their order, each as it is when its turn comes, and the manifest. -/
def write (r : Report) : m (Option Bytes) := do
  match ← r.addItems r.items {} with
  | .error e => return some e
  | .ok d =>
    match ← r.addEntry "MANIFEST" (return .ok d.manifest) d with
    | .error e => return some e
    | .ok (_, d) => r.finish d

/-- Writes the archive, which nothing can be added to afterwards. -/
def close (r : Report) : m (Report × Option Bytes) := do
  let e ← r.write
  return ({ r with isOpen := false }, e)

end Report

end Restyle
