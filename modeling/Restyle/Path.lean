import Restyle.Text.Fold
import Restyle.Text.Split

/-!
# Paths

A path is a byte string whose components stand between slashes.  `clean` gives the shortest path that
names the same place when no component is a symbolic link; all functions here are lexical and look at
no file system.
-/

namespace Restyle.Path

def slash : UInt8 := 0x2F

def dot : UInt8 := 0x2E

/-- The component that names the directory itself. -/
def here : Bytes := [dot]

/-- The component that names the directory above. -/
def above : Bytes := [dot, dot]

def isAbsolute (p : Bytes) : Bool :=
  p.head? == some slash

def parts (p : Bytes) : List Bytes :=
  p.split slash

/-- The components of a path, the last one first, with every `..` taken back where that can be done.
Above the root there is only the root. -/
def settle (rooted : Bool) (done : List Bytes) (part : Bytes) : List Bytes :=
  if part.isEmpty || part == here then done
  else if part == above then
    match done with
    | [] => if rooted then [] else [above]
    | last :: before => if last == above then above :: done else before
  else part :: done

def components (p : Bytes) : List Bytes :=
  ((parts p).foldl (settle (isAbsolute p)) []).reverse

/-- The path of components, from the root or from the working directory. -/
def ofComponents (rooted : Bool) (cs : List Bytes) : Bytes :=
  let body := List.intercalate [slash] cs
  if rooted then slash :: body else if cs.isEmpty then here else body

def clean (p : Bytes) : Bytes :=
  ofComponents (isAbsolute p) (components p)

/-- The cleaned path of several put after one another.  Empty ones are passed over. -/
def join (ps : List Bytes) : Bytes :=
  match ps.filter (!·.isEmpty) with
  | [] => []
  | ps => clean (List.intercalate [slash] ps)

/-- What follows the last slash. -/
def lastPart (p : Bytes) : Bytes :=
  (p.reverse.takeWhile (· != slash)).reverse

/-- The directory of a path: what precedes the last slash, cleaned. -/
def parent (p : Bytes) : Bytes :=
  clean (p.reverse.dropWhile (· != slash)).reverse

/-- The name of what a path leads to, slashes at the end left aside. -/
def base (p : Bytes) : Bytes :=
  let trimmed := (p.reverse.dropWhile (· == slash)).reverse
  if p.isEmpty then here else if trimmed.isEmpty then [slash] else lastPart trimmed

/-- The last part from its last dot on, or nothing if it has none. -/
def extension (p : Bytes) : Bytes :=
  let name := lastPart p
  if name.contains dot then dot :: (name.reverse.takeWhile (· != dot)).reverse else []

/-- The name without extension. -/
def stem (p : Bytes) : Bytes :=
  (base p).dropEnding (extension p)

/-- The extension is one of the list, whatever the case. -/
def hasExtension (exts : List Bytes) (p : Bytes) : Bool :=
  exts.any fun e => sameFolded e (extension p)

end Restyle.Path
