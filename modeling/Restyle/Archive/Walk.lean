import Restyle.Archive.Zip
import Restyle.Order.Natural
import Restyle.Text.Quoted

/-!
# Entries to visit

The entries of an archive below some path that have a wanted extension, in natural order of their names.
One unsafe name makes the whole archive unusable.  A walk hands the entries to a visitor, one after the
other, until one cannot be opened or the visitor refuses it.
-/

namespace Restyle.Archive

inductive WalkError where
  | unsafeName (name : Bytes)
  /-- The entry cannot be opened. -/
  | entry (name : Bytes) (e : Error)
  deriving Repr, DecidableEq

def WalkError.message : WalkError → Bytes
  | .unsafeName name =>
    "zip entry " ++ quote name ++ ": unsafe path (absolute or contains path traversal)"
  | .entry name e => "zip entry " ++ quote name ++ ": " ++ e.message

/-- The entry is one to visit. -/
def isVisited (below : Bytes) (exts : List Bytes) (h : Header) : Bool :=
  !h.isDirectory && below.isPrefixOf h.name && isWanted exts h.name

/-- Entries in natural order of their names, equal names in the order of the archive. -/
def sortByName (hs : List Header) : List Header :=
  sort (fun a b => Natural.isBefore a.name b.name) hs

/-- The entries to visit. -/
def visits (below : Bytes) (exts : List Bytes) (hs : List Header) :
    Except WalkError (List Header) :=
  match hs.find? fun h => !isSafe h.name with
  | some h => .error (.unsafeName h.name)
  | none => .ok (sortByName (hs.filter (isVisited below exts)))

/-! ### Visiting -/

/-- What is called for an entry, with its name and what reading it gives. -/
abbrev Visitor (m : Type → Type) (ε : Type) : Type :=
  Bytes → Except Error Bytes → m (Except ε Unit)

/-- Why a walk came to an early end. -/
inductive Stopped (ε : Type) where
  | walk (e : WalkError)
  | visitor (e : ε)
  deriving Repr, DecidableEq

section

variable {m : Type → Type} [Monad m] {ε : Type}

/-- Visits entries, each of which is opened when its turn comes. -/
def visitAllWith (opened : Header → m (Except Error (Except Error Bytes))) (visit : Visitor m ε) :
    List Header → m (Except (Stopped ε) Unit)
  | [] => return .ok ()
  | h :: hs => do
    match ← opened h with
    | .error e => return .error (.walk (.entry h.name e))
    | .ok data =>
      match ← visit h.name data with
      | .error e => return .error (.visitor e)
      | .ok () => visitAllWith opened visit hs

/-- Visits the entries to visit. -/
def walkWith (opened : Header → m (Except Error (Except Error Bytes))) (below : Bytes) (exts : List Bytes)
    (visit : Visitor m ε) (hs : List Header) : m (Except (Stopped ε) Unit) :=
  match visits below exts hs with
  | .error e => return .error (.walk e)
  | .ok hs => visitAllWith opened visit hs

/-- Visits entries of an archive that stays as it is. -/
def visitAll (archive : Array UInt8) (visit : Visitor m ε) (hs : List Header) :
    m (Except (Stopped ε) Unit) :=
  visitAllWith (fun h => return (h.content archive).opened) visit hs

/-- Visits the entries to visit of an archive that stays as it is. -/
def walk (archive : Array UInt8) (below : Bytes) (exts : List Bytes) (visit : Visitor m ε)
    (hs : List Header) : m (Except (Stopped ε) Unit) :=
  walkWith (fun h => return (h.content archive).opened) below exts visit hs

end

end Restyle.Archive
