import Restyle.Order.Natural
import Restyle.Path

/-!
# Files and directories

A disk holds files, directories, symbolic links and devices, each at a place: the names that lead there
from the root.  It knows the working directory, from which relative paths start and which may be gone.
`locate` follows a path component by component, through symbolic links, to the node at its end or to the
free place where one could be made.
-/

namespace Restyle

inductive Files.Node where
  | file (data : Bytes)
  | dir
  | link (target : Bytes)
  /-- A device that takes everything and keeps nothing, and one to which nothing can be written. -/
  | null
  | full
  deriving Repr, DecidableEq

/-- What a node is. -/
inductive Files.Kind where
  | file (size : Nat)
  | dir
  | link
  | device
  deriving Repr, DecidableEq

def Files.Node.kind : Files.Node → Files.Kind
  | .file data => .file data.length
  | .dir => .dir
  | .link _ => .link
  | .null | .full => .device

/-- The names that lead from the root to a node. -/
abbrev Files.Place := List Bytes

structure Disk where
  nodes : List (Files.Place × Files.Node)
  /-- The working directory, if it still exists. -/
  workDir : Option Files.Place
  deriving Repr, DecidableEq

namespace Files

inductive Errno where
  | noEntry
  | notDirectory
  | isDirectory
  | alreadyExists
  | tooManyLinks
  | nameTooLong
  | invalid
  | noSpace
  | notEmpty
  | closed
  /-- Any other reason, as the host words it. -/
  | other (message : Bytes)
  deriving Repr, DecidableEq

def Errno.message : Errno → Bytes
  | .noEntry => "no such file or directory"
  | .notDirectory => "not a directory"
  | .isDirectory => "is a directory"
  | .alreadyExists => "file exists"
  | .tooManyLinks => "too many levels of symbolic links"
  | .nameTooLong => "file name too long"
  | .invalid => "invalid argument"
  | .noSpace => "no space left on device"
  | .notEmpty => "directory not empty"
  | .closed => "file already closed"
  | .other message => message

/-- What was tried, on which path, and why it failed. -/
structure Failure where
  op : String
  path : Bytes
  errno : Errno
  deriving Repr, DecidableEq

def Failure.message (f : Failure) : Bytes :=
  f.op ++ " " ++ f.path ++ ": " ++ f.errno.message

/-- Where a path leads: to a node, or to a free name in a directory.  `slash` tells that the path ends
with a slash, which only a directory allows. -/
inductive Spot where
  | taken (place : Place) (node : Node)
  | free (dir : Place) (name : Bytes) (slash : Bool)
  deriving Repr, DecidableEq

end Files

namespace Disk

open Files

def get? (d : Disk) (p : Place) : Option Node :=
  if p.isEmpty then some .dir else d.nodes.lookup p

/-- Puts a node at a place, in front of all others or where the old one was. -/
def put (d : Disk) (p : Place) (n : Node) : Disk :=
  if (d.nodes.lookup p).isSome then
    { d with nodes := d.nodes.map fun (q, m) => if q == p then (q, n) else (q, m) }
  else { d with nodes := (p, n) :: d.nodes }

def erase (d : Disk) (p : Place) : Disk :=
  { d with nodes := d.nodes.filter fun (q, _) => q != p }

/-- The names in a directory, in the order of their bytes. -/
def names (d : Disk) (p : Place) : List Bytes :=
  let here := d.nodes.filterMap fun (q, _) =>
    if q.dropLast == p then q.getLast? else none
  here.mergeSort fun a b => Natural.compareBytes a b != .gt

/-- A path may go through this many symbolic links. -/
def maxLinks : Nat := 40

/-- The longest name, and the longest path. -/
def maxName : Nat := 255

def maxPath : Nat := 4095

/-- Follows components from a place.  A symbolic link at the end is followed if `follow`, and where one
leads is left to `jump`. -/
def walkNames (d : Disk) (follow : Bool) (jump : Place → List Bytes → Except Errno Spot) :
    (place : Place) → (rest : List Bytes) → Except Errno Spot
  | place, [] =>
    match d.get? place with
    | some n => .ok (.taken place n)
    | none => .error .noEntry
  | place, c :: rest =>
    match d.get? place with
    | none => .error .noEntry
    | some .dir =>
      if c.isEmpty || c == Path.here then walkNames d follow jump place rest
      else if c == Path.above then walkNames d follow jump place.dropLast rest
      else if maxName < c.length then .error .nameTooLong
      else
        match d.get? (place ++ [c]) with
        | none =>
          if rest.all (·.isEmpty) then .ok (.free place c !rest.isEmpty) else .error .noEntry
        | some (.link target) =>
          if rest.isEmpty && !follow then .ok (.taken (place ++ [c]) (.link target))
          else jump (if Path.isAbsolute target then [] else place) (Path.parts target ++ rest)
        | some _ => walkNames d follow jump (place ++ [c]) rest
    | some _ => .error .notDirectory

/-- Follows components from a place, through at most so many symbolic links. -/
def walk (d : Disk) (follow : Bool) : (links : Nat) → Place → List Bytes → Except Errno Spot
  | 0 => d.walkNames follow fun _ _ => .error .tooManyLinks
  | links + 1 => d.walkNames follow (d.walk follow links)

/-- Where a path leads. -/
def locate (d : Disk) (follow : Bool) (path : Bytes) : Except Errno Spot :=
  if path.contains 0 then .error .invalid
  else if path.isEmpty then .error .noEntry
  else if maxPath < path.length then .error .nameTooLong
  else if Path.isAbsolute path then d.walk follow maxLinks [] (Path.parts path)
  else
    match d.workDir with
    | some place => d.walk follow maxLinks place (Path.parts path)
    | none => .error .noEntry

/-! ### Paths against the working directory -/

/-- What is said when the working directory is gone. -/
def noWorkDir : Bytes := "getwd: no such file or directory"

/-- The path of the working directory. -/
def workPath (d : Disk) : Except Bytes Bytes :=
  match d.workDir with
  | some place => .ok (Path.ofComponents true place)
  | none => .error noWorkDir

end Disk

end Restyle
