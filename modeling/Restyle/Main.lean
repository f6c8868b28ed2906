import Restyle.Cli.Program
import Restyle.Files.Access
import Restyle.Stream
import Restyle.Time
import Std.Time.DateTime.Timestamp

/-!
# The executable

The machine that the program really runs on, and its entry point.
-/

namespace Restyle.Real

open Files

/-- Programs on the real machine know when they were started, in nanoseconds. -/
abbrev Action := ReaderT Nat IO

def textOf (s : Bytes) : String :=
  String.ofList (Utf8.codePoints s)

def pathOf (s : Bytes) :=
  System.mkFilePath [textOf s]

/-- The number and the wording of an error of the system.  Some numbers come negated. -/
def codeOf : IO.Error → Nat × String
  | .alreadyExists _ c s | .invalidArgument _ c s | .permissionDenied _ c s
  | .resourceExhausted _ c s | .inappropriateType _ c s | .noSuchThing _ c s
  | .interrupted _ c s | .noFileOrDirectory _ c s | .otherError c s | .resourceBusy c s
  | .resourceVanished c s | .unsupportedOperation c s | .hardwareFault c s
  | .unsatisfiedConstraints c s | .illegalOperation c s | .protocolError c s
  | .timeExpired c s => (if c.toNat < UInt32.size / 2 then c.toNat else UInt32.size - c.toNat, s)
  | .unexpectedEof => (0, "unexpected EOF")
  | .userError s => (0, s)

def errnoOf (e : IO.Error) : Errno :=
  match codeOf e with
  | (2, _) => .noEntry
  | (17, _) => .alreadyExists
  | (20, _) => .notDirectory
  | (21, _) => .isDirectory
  | (22, _) => .invalid
  | (28, _) => .noSpace
  | (36, _) => .nameTooLong
  | (39, _) => .notEmpty
  | (40, _) => .tooManyLinks
  | (_, s) => .other s

def attempt {α : Type} (op : String) (path : Bytes) (action : IO α) : Action (Except Failure α) := do
  match ← action.toBaseIO with
  | .ok a => return .ok a
  | .error e => return .error ⟨op, path, errnoOf e⟩

def kindOf (m : IO.FS.Metadata) : Kind :=
  match m.type with
  | .dir => .dir
  | .file => .file m.byteSize.toNat
  | .symlink => .link
  | .other => .device

def dataOf (s : Bytes) : ByteArray :=
  ⟨s.toArray⟩

/-- The place of an open file. -/
def placeOf (path : Bytes) : IO Place := do
  return Path.components (Utf8.encode (toString (← IO.FS.realPath (pathOf path))).toList)

def openIn (mode : IO.FS.Mode) (path : Bytes) : Action (Except Failure Place) :=
  attempt "open" path do
    let _ ← IO.FS.Handle.mk (pathOf path) mode
    placeOf path

def mkdirs : List Bytes → Action (Except Failure Unit)
  | [] => return .ok ()
  | path :: paths => do
    match ← attempt "stat" path (pathOf path).metadata with
    | .ok m => if m.type matches .dir then mkdirs paths else return .error ⟨"mkdir", path, .notDirectory⟩
    | .error _ =>
      match ← attempt "mkdir" path (IO.FS.createDir (pathOf path)) with
      | .ok () => mkdirs paths
      | .error e => return .error e

/-- A path and all directories above it, the highest first. -/
def withAncestors (path : Bytes) : List Bytes :=
  let names := Path.components path
  (List.range names.length).map fun n =>
    Path.ofComponents (Path.isAbsolute path) (names.take (n + 1))

partial def readAll (s : IO.FS.Stream) (done : ByteArray) : IO ByteArray := do
  let more ← s.read 65536
  if more.isEmpty then return done else readAll s (done ++ more)

def printTo (s : IO.FS.Stream) (name text : Bytes) : Action (Option Bytes) := do
  match ← attempt "write" name (do s.write (dataOf text); s.flush) with
  | .ok () => return none
  | .error e => return some e.message

/-- Prints pieces of text up to the first that fails. -/
def printEach (s : IO.FS.Stream) (name : Bytes) : List Bytes → Action (Option Bytes)
  | [] => return none
  | text :: texts => do
    match ← printTo s name text with
    | none => printEach s name texts
    | some e => return some e

def hostText : HostText → Action Bytes
  | .time => do return Time.stamp (← Std.Time.Timestamp.now).toMillisecondsSinceUnixEpoch.toInt.toNat
  | .elapsed => do return decimal (((← IO.monoNanosNow) - (← read)) / 1000000) ++ "ms"
  | .runtime => return "lean4"
  | .caller => return "restyle"

instance : Machine Action where
  workPath := do
    match ← attempt "getwd" [] IO.currentDir with
    | .ok p => return .ok (Utf8.encode (toString p).toList)
    | .error e => return .error ("getwd: " ++ e.errno.message)
  stat path := do return (← attempt "stat" path (pathOf path).metadata).map kindOf
  lstat path := do return (← attempt "lstat" path (pathOf path).symlinkMetadata).map kindOf
  entries path :=
    attempt "open" path do
      let found ← (← (pathOf path).readDir).toList.mapM fun e => do
        return (Utf8.encode e.fileName.toList, kindOf (← e.path.symlinkMetadata))
      return found.mergeSort fun a b => Natural.compareBytes a.1 b.1 != .gt
  read path := do
    match ← attempt "open" path (IO.FS.readBinFile (pathOf path)) with
    | .ok data => return .ok data.toList
    | .error ⟨_, _, .isDirectory⟩ => return .error ⟨"read", path, .isDirectory⟩
    | .error e => return .error e
  openFile keep path := openIn (if keep then .append else .write) path
  openTemp stem ending := do
    let dir := Utf8.encode ((← IO.getEnv "TMPDIR").getD "/tmp").toList
    let path := dir ++ "/" ++ stem ++ decimal (← IO.rand 0 4294967295) ++ ending
    return (← openIn .writeNew path).map (path, ·)
  extend place data := do
    let path := Path.ofComponents true place
    let written ← attempt "write" path do
      let h ← IO.FS.Handle.mk (pathOf path) .append
      h.write (dataOf data)
      h.flush
    return written.mapError (·.errno)
  writeAt place offset data := do
    let path := Path.ofComponents true place
    let written ← attempt "write" path do
      let found ← (pathOf path).metadata
      if found.type matches .file && found.byteSize.toNat != offset then
        let old ← IO.FS.readBinFile (pathOf path)
        IO.FS.writeBinFile (pathOf path) (dataOf (Disk.overlay old.toList offset data))
      else
        let h ← IO.FS.Handle.mk (pathOf path) .append
        h.write (dataOf data)
        h.flush
    return written.mapError (·.errno)
  mkdirAll path := mkdirs (withAncestors path)
  remove path := attempt "remove" path (IO.FS.removeFile (pathOf path))
  input := do return (← readAll (← IO.getStdin) .empty).toList
  print text := do printTo (← IO.getStdout) "/dev/stdout" text
  printDocument doc := do printEach (← IO.getStdout) "/dev/stdout" (Stream.pieces doc)
  printError text := do
    let _ ← printTo (← IO.getStderr) "/dev/stderr" text
  isCancelled := return false
  keep _ := return
  hostText := hostText
  wide := return CodePage.Wide.ascii

end Restyle.Real

def main (words : List String) : IO UInt32 := do
  let started := Restyle.Utf8.encode (toString (← IO.appPath)).toList
  let invocation : Restyle.Cli.Invocation :=
    ⟨started, Restyle.Program.name (some started), words.map fun w => Restyle.Utf8.encode w.toList⟩
  let code ← (Restyle.Cli.run invocation : Restyle.Real.Action Nat).run (← IO.monoNanosNow)
  return UInt32.ofNat code
