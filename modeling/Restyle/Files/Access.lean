import Restyle.Files.Disk

/-!
# Reading and writing files

The operations of the program on a disk.  Each fails with what was tried, the path as it was given and
the reason, and then leaves the disk as it was; only `ensureDirs`, which makes several directories, may
have made some of them.
-/

namespace Restyle.Disk

open Files

/-- The node at a path, through symbolic links. -/
def stat (d : Disk) (path : Bytes) : Except Failure Node :=
  match d.locate true path with
  | .ok (.taken _ n) => .ok n
  | .ok (.free ..) => .error ⟨"stat", path, .noEntry⟩
  | .error e => .error ⟨"stat", path, e⟩

/-- The node at a path, a symbolic link itself if there is one. -/
def lstat (d : Disk) (path : Bytes) : Except Failure Node :=
  match d.locate false path with
  | .ok (.taken _ n) => .ok n
  | .ok (.free ..) => .error ⟨"lstat", path, .noEntry⟩
  | .error e => .error ⟨"lstat", path, e⟩

/-- The content of a file. -/
def read (d : Disk) (path : Bytes) : Except Failure Bytes :=
  match d.locate true path with
  | .ok (.taken _ (.file data)) => .ok data
  | .ok (.taken _ .dir) => .error ⟨"read", path, .isDirectory⟩
  | .ok (.taken _ _) => .ok []
  | .ok (.free ..) => .error ⟨"open", path, .noEntry⟩
  | .error e => .error ⟨"open", path, e⟩

/-- The entries of a directory, in the order of the bytes of their names. -/
def entries (d : Disk) (path : Bytes) : Except Failure (List (Bytes × Kind)) :=
  match d.locate true path with
  | .ok (.taken p .dir) =>
    .ok ((d.names p).filterMap fun name => (d.get? (p ++ [name])).map fun n => (name, n.kind))
  | .ok (.taken ..) => .error ⟨"fdopendir", path, .notDirectory⟩
  | .ok (.free ..) => .error ⟨"open", path, .noEntry⟩
  | .error e => .error ⟨"open", path, e⟩

/-- Opens a file for writing, an empty one unless `keep`, and tells its place.  A new file is made where
there is none. -/
def openFile (d : Disk) (keep : Bool) (path : Bytes) : Except Failure (Disk × Place) :=
  match d.locate true path with
  | .ok (.taken p (.file _)) => .ok (if keep then d else d.put p (.file []), p)
  | .ok (.taken _ .dir) => .error ⟨"open", path, .isDirectory⟩
  | .ok (.taken p _) => .ok (d, p)
  | .ok (.free dir name slash) =>
    if slash then .error ⟨"open", path, .isDirectory⟩
    else .ok (d.put (dir ++ [name]) (.file []), dir ++ [name])
  | .error e => .error ⟨"open", path, e⟩

/-- Opens a file that must not exist yet. -/
def openNew (d : Disk) (path : Bytes) : Except Failure (Disk × Place) :=
  match d.locate false path with
  | .ok (.free dir name false) => .ok (d.put (dir ++ [name]) (.file []), dir ++ [name])
  | .ok (.free _ _ true) => .error ⟨"open", path, .isDirectory⟩
  | .ok (.taken ..) => .error ⟨"open", path, .alreadyExists⟩
  | .error e => .error ⟨"open", path, e⟩

/-- Adds data to the end of an open file. -/
def extend (d : Disk) (p : Place) (data : Bytes) : Except Errno Disk :=
  match d.get? p with
  | some (.file old) => .ok (d.put p (.file (old ++ data)))
  | some .full => .error .noSpace
  | _ => .ok d

/-- Data in place of other, from a byte on.  Zeros stand where there was nothing before that. -/
def overlay (old : Bytes) (offset : Nat) (data : Bytes) : Bytes :=
  (old.rightpad offset 0).take offset ++ data ++ old.drop (offset + data.length)

/-- Writes to an open file from a byte on. -/
def writeAt (d : Disk) (p : Place) (offset : Nat) (data : Bytes) : Except Errno Disk :=
  match d.get? p with
  | some (.file old) => .ok (d.put p (.file (overlay old offset data)))
  | some .full => .error .noSpace
  | _ => .ok d

/-- Makes data the content of a file. -/
def write (d : Disk) (path data : Bytes) : Except Failure Disk :=
  match d.openFile false path with
  | .error e => .error e
  | .ok (d, p) =>
    match d.extend p data with
    | .ok d => .ok d
    | .error e => .error ⟨"write", path, e⟩

/-- Makes one directory. -/
def mkdir (d : Disk) (path : Bytes) : Except Failure Disk :=
  -- slashes at the end say no more than that it is a directory
  let bare := (path.reverse.dropWhile (· == Path.slash)).reverse
  match d.locate false (if bare.isEmpty then path else bare) with
  | .ok (.free dir name _) => .ok (d.put (dir ++ [name]) .dir)
  | .ok (.taken ..) => .error ⟨"mkdir", path, .alreadyExists⟩
  | .error e => .error ⟨"mkdir", path, e⟩

/-- A path up to its last name, without the slash before that. -/
def above (path : Bytes) : Bytes :=
  (((path.reverse.dropWhile (· == Path.slash)).dropWhile (· != Path.slash)).drop 1).reverse

theorem length_above_lt {path : Bytes} (h : path ≠ []) : (above path).length < path.length := by
  have hp : 0 < path.length := List.length_pos_iff.2 h
  have hd : (path.reverse.dropWhile (· == Path.slash)).length ≤ path.reverse.length :=
    (List.dropWhile_suffix _).length_le
  rw [above, List.length_reverse, List.length_drop]
  rw [List.length_reverse] at hd
  generalize path.reverse.dropWhile (· == Path.slash) = r at hd
  have hr : (r.dropWhile (· != Path.slash)).length ≤ r.length := (List.dropWhile_suffix _).length_le
  omega

/-- Makes one directory, unless it is there already. -/
def ensureDir (d : Disk) (path : Bytes) : Disk × Except Failure Unit :=
  match d.mkdir path with
  | .ok d => (d, .ok ())
  | .error e =>
    match d.lstat path with
    | .ok .dir => (d, .ok ())
    | _ => (d, .error e)

/-- Makes a directory and those above it that are missing, the highest first. -/
def ensureDirs (d : Disk) (path : Bytes) : Disk × Except Failure Unit :=
  match d.stat path with
  | .ok .dir => (d, .ok ())
  | .ok _ => (d, .error ⟨"mkdir", path, .notDirectory⟩)
  | .error _ =>
    if h : path = [] then d.ensureDir path
    else if (above path).isEmpty then d.ensureDir path
    else
      have := length_above_lt h
      match d.ensureDirs (above path) with
      | (d, .error e) => (d, .error e)
      | (d, .ok ()) => d.ensureDir path
termination_by path.length

/-- The disk with a directory and those above it, if they can be made. -/
def mkdirAll (d : Disk) (path : Bytes) : Except Failure Disk :=
  let (d, made) := d.ensureDirs path
  made.map fun () => d

/-- Removes a file, a symbolic link or an empty directory. -/
def remove (d : Disk) (path : Bytes) : Except Failure Disk :=
  match d.locate false path with
  | .ok (.taken p .dir) =>
    if (d.names p).isEmpty then .ok (d.erase p) else .error ⟨"remove", path, .notEmpty⟩
  | .ok (.taken p _) => .ok (d.erase p)
  | .ok (.free ..) => .error ⟨"remove", path, .noEntry⟩
  | .error e => .error ⟨"remove", path, e⟩

end Restyle.Disk
