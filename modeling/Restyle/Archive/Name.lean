import Restyle.Path

/-!
# Names of archive entries

An entry whose name leads out of the directory it is put in makes the whole archive unusable.
-/

namespace Restyle.Archive

/-- The name is relative and has no `..` component. -/
def isSafe (name : Bytes) : Bool :=
  name.head? != some Path.slash && name.head? != some 0x5C && !(Path.parts name).contains Path.above

/-- The extension is wanted.  An empty list wants every extension. -/
def isWanted (exts : List Bytes) (name : Bytes) : Bool :=
  exts.isEmpty || Path.hasExtension exts name

def signature : Bytes := [0x50, 0x4B]

/-- The first bytes are those of a zip archive. -/
def hasSignature (data : Bytes) : Bool :=
  match data with
  | a :: b :: c :: d :: _ =>
    [a, b] == signature && [3, 5, 7].contains c && [4, 6, 8].contains d
  | _ => false

end Restyle.Archive
