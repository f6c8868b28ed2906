import Restyle.Archive.Walk
import Restyle.Job.Sheet

/-!
# Sources

A source is the standard input, a file, an archive, a path inside an archive, or a directory.  In a
directory all stylesheets and archives are processed, in natural order of their paths; one that fails
does not keep the others from being processed.

How the stylesheets of a source are found does not depend on what is done with them, so that is a parameter
(`Visitor`): `processWith` hands every stylesheet to a visitor, and `process` is the case in which it is
processed.
-/

namespace Restyle.Job

variable {m : Type → Type} [Monad m] [Machine m]

/-- A path without the directory it is in. -/
def relative (dir path : Bytes) : Bytes :=
  let rest := if dir.isPrefixOf path then path.drop dir.length else path
  if rest.head? == some Path.slash then rest.drop 1 else rest

/-- What is done with a stylesheet, given what reading it gave and the path by which the output is named. -/
abbrev Visitor (m : Type → Type) : Type :=
  Except Bytes Bytes → Bytes → Run m Causes

/-! ### Files and archives -/

/-- Visits a file. -/
def fileWith (j : Job) (visit : Visitor m) (path source : Bytes) : Run m Causes := do
  let failed (causes : Causes) : Run m Causes := do
    j.log.error "Unable to process file" [("file", .text path), ("error", .failure causes)]
    return causes
  match ← Machine.read path with
  | .error e => failed [e.message]
  | .ok data =>
    match ← visit (.ok data) source with
    | [] => return []
    | causes => failed causes

/-- Visits entries of an archive up to one that cannot be opened.  Each is read when its turn comes, for a
result may have been written over the archive.  Tells what stopped it, and the failures of entries. -/
def entriesWith (j : Job) (visit : Visitor m) (path below : Bytes) :
    List Archive.Header → Run m (Causes × Causes)
  | [] => return ([], [])
  | h :: hs => do
    match h.opened (← Machine.read path) with
    | .error e => return ([(Archive.WalkError.entry h.name e).message], [])
    | .ok data =>
      if ← Machine.isCancelled then return ([cancelled], [])
      else
        let causes ← visit (data.mapError (·.message)) (Path.join [below, h.name])
        if !causes.isEmpty then
          j.log.error "Unable to process file in archive"
            [("archive", .text path), ("file", .text h.name), ("error", .failure causes)]
        let (stopped, failed) ← entriesWith j visit path below hs
        return (stopped, Causes.within h.name causes ++ failed)

/-- Visits the stylesheets of an archive below a path in it.  Results go below `outside`. -/
def archiveWith (j : Job) (visit : Visitor m) (path inside outside : Bytes) : Run m Causes := do
  let start := (← get).count
  match ← Machine.read path with
  | .error e => return [e.message]
  | .ok data =>
    match Archive.parse data with
    | .error e => return [e.message]
    | .ok hs =>
      match Archive.visits inside j.extensions hs with
      | .error e => return [e.message]
      | .ok hs =>
        let (stopped, failed) ← entriesWith j visit path outside hs
        if stopped.isEmpty && failed.isEmpty && (← get).count == start then
          j.log.debug "Nothing to process" [("archive", .text path)]
        return stopped ++ failed

/-- The file is an archive, by its first bytes. -/
def isArchive (path : Bytes) : m (Except Files.Failure Bool) := do
  match ← Machine.read path with
  | .error e => return .error e
  | .ok data => return .ok (Archive.hasSignature data)

/-! ### Directories -/

/-- The paths that a function finds for each of a list, up to the first time it is stopped. -/
def collect {α : Type} (f : α → m (Except Causes (List Bytes))) :
    List α → m (Except Causes (List Bytes))
  | [] => return .ok []
  | a :: as => do
    match ← f a with
    | .error e => return .error e
    | .ok found =>
      match ← collect f as with
      | .error e => return .error e
      | .ok rest => return .ok (found ++ rest)

/-- What is at a path is passed over, because it cannot be looked at. -/
def skip (j : Job) (path : Bytes) (e : Files.Failure) : m (Except Causes (List Bytes)) := do
  if ← Machine.isCancelled then return .error [cancelled]
  else
    j.log.warn "Skipping path" [("path", .text path), ("error", .failure [e.message])]
    return .ok []

/-- The files at and below a path.  Links are not followed. -/
def filesBelow (j : Job) : (depth : Nat) → Bytes → Files.Kind → m (Except Causes (List Bytes))
  | 0, _, _ => return .ok []
  | depth + 1, path, kind => do
    if ← Machine.isCancelled then return .error [cancelled]
    else
      match kind with
      | .file _ => return .ok [path]
      | .dir =>
        match ← Machine.entries path with
        | .ok es => collect (fun (name, kind) => filesBelow j depth (Path.join [path, name]) kind) es
        | .error e => skip j path e
      | _ => return .ok []

/-- The files of a directory tree. -/
def filesOf (j : Job) (dir : Bytes) : m (Except Causes (List Bytes)) := do
  match ← Machine.lstat dir with
  -- a path has fewer components than bytes
  | .ok kind => filesBelow j (Disk.maxPath + 1) dir kind
  | .error e => skip j dir e

/-- Visits a file found in a directory, if it is an archive or a stylesheet. -/
def foundWith (j : Job) (visit : Visitor m) (path rel : Bytes) : Run m Causes := do
  match ← isArchive path with
  | .error e =>
    j.log.warn "Skipping file" [("file", .text path), ("error", .failure [e.message])]
    return []
  | .ok true =>
    let causes ← archiveWith j visit path [] (Path.parent rel)
    if !causes.isEmpty then
      j.log.error "Unable to process archive" [("file", .text path), ("error", .failure causes)]
    return Causes.within ("archive " ++ rel) causes
  | .ok false =>
    if Path.hasExtension j.extensions path then
      return Causes.within ("file " ++ rel) (← fileWith j visit path rel)
    else
      j.log.debug "Skipping file, not recognized as stylesheet or archive" [("file", .text path)]
      return []

def foundAllWith (j : Job) (visit : Visitor m) (dir : Bytes) : List Bytes → Run m Causes
  | [] => return []
  | path :: paths =>
    unlessCancelled do
      let causes ← foundWith j visit path (relative dir path)
      return causes ++ (← foundAllWith j visit dir paths)

/-- Visits all stylesheets and archives of a directory tree. -/
def directoryWith (j : Job) (visit : Visitor m) (dir : Bytes) : Run m Causes := do
  match ← filesOf j dir with
  | .error e => return e
  | .ok paths =>
    let start := (← get).count
    let causes ← foundAllWith j visit dir (sort Natural.isBefore paths)
    if causes.isEmpty && (← get).count == start then
      j.log.debug "Nothing to process" [("dir", .text dir)]
    return causes

/-! ### Resolution -/

/-- A path and the directories above it, the longest first.  The last one, the root, has no name. -/
def ancestors (path : Bytes) : List Bytes :=
  let names := Path.components path
  (List.range (names.length + 1)).reverse.map fun n =>
    (names.take n).flatMap (Path.slash :: ·)

/-- What is said of a source of which only `head` is there. -/
def notFound (source head : Bytes) : Bytes :=
  "(" ++ head ++ ") => (" ++ source.drop head.length ++ ")"

/-- Visits what the first of some paths that exists turns out to be; `whole` tells that it is the source
itself and not a path above it. -/
def resolveWith (j : Job) (visit : Visitor m) (source : Bytes) (whole : Bool) : List Bytes → Run m Causes
  | [] => return ["input source was not found (" ++ source ++ ")"]
  | head :: heads =>
    unlessCancelled do
      match ← Machine.stat head with
      | .error _ => resolveWith j visit source false heads
      | .ok .dir =>
        if whole then return Causes.within "unable to process directory" (← directoryWith j visit head)
        else return ["input source was not found " ++ notFound source head]
      | .ok (.file _) =>
        match ← isArchive head with
        | .error e => return ["unable to check archive type: " ++ e.message]
        | .ok true =>
          return Causes.within "unable to process archive"
            (← archiveWith j visit head (relative head source) [])
        | .ok false =>
          if whole then fileWith j visit head (Path.base head)
          else return ["input source was not found " ++ notFound source head]
      | .ok _ => return ["unexpected path mode for " ++ notFound source head]

/-- Visits the stylesheets of a source, which is absolute if it is a path. -/
def processWith (j : Job) (visit : Visitor m) (source : Bytes) : Run m Causes := do
  if source == stdinName then visit (.ok (← Machine.input)) "stdin.css"
  else resolveWith j visit source true (ancestors source)

/-! ### Processing

What a job does with a stylesheet is to process it. -/

abbrev file (j : Job) (path source : Bytes) : Run m Causes :=
  fileWith j (sheet j) path source

abbrev entries (j : Job) (path below : Bytes) (hs : List Archive.Header) : Run m (Causes × Causes) :=
  entriesWith j (sheet j) path below hs

abbrev archive (j : Job) (path inside outside : Bytes) : Run m Causes :=
  archiveWith j (sheet j) path inside outside

abbrev found (j : Job) (path rel : Bytes) : Run m Causes :=
  foundWith j (sheet j) path rel

abbrev foundAll (j : Job) (dir : Bytes) (paths : List Bytes) : Run m Causes :=
  foundAllWith j (sheet j) dir paths

abbrev directory (j : Job) (dir : Bytes) : Run m Causes :=
  directoryWith j (sheet j) dir

abbrev resolve (j : Job) (source : Bytes) (whole : Bool) (heads : List Bytes) : Run m Causes :=
  resolveWith j (sheet j) source whole heads

/-- Processes the stylesheets of a source. -/
def process (j : Job) (source : Bytes) : Run m Causes :=
  processWith j (sheet j) source

end Restyle.Job
