import Restyle.Path
import Restyle.Text.Slug

/-!
# File names

What the program calls the files it writes.  `clean` keeps what the platform allows in a name and drops
leading dots, so that no result is hidden; a name of which nothing is left gets a fixed one.
`outputPath` keeps the directories of a source under the destination.
-/

namespace Restyle.FileName

/-- The name of what has none. -/
def placeholder : Bytes := "_bad_file_name_"

def isControl (c : Char) : Bool :=
  c.toNat < 0x20 || (0x7F ≤ c.toNat && c.toNat < 0xA0)

/-- Separators of path components and of lists of paths. -/
def isSeparator (c : Char) : Bool :=
  c == '/' || c == ':'

def clean (name : Bytes) : Bytes :=
  let kept := (Utf8.codePoints name).filter fun c => !isControl c && !isSeparator c
  let shown := kept.dropWhile (· == '.')
  if shown.isEmpty then placeholder else Utf8.encode shown

/-- The place of a result: the directories of the source under `destination`, the cleaned name of the
source, respelled by `slugOf` if `slugged`, then `suffix` and the extension of stylesheets. -/
def outputPathWith (slugOf : Bytes → Bytes) (source destination suffix : Bytes) (slugged : Bool) :
    Bytes :=
  let stem := Path.stem source
  let stem := if slugged then slugOf stem else stem
  Path.join [destination, Path.parent source, clean stem ++ suffix ++ ".css"]

/-- The place of a result, its name spelled in ASCII if `slugged`. -/
def outputPath (source destination suffix : Bytes) (slugged : Bool) : Bytes :=
  outputPathWith (fun stem => Utf8.encode (slug (Utf8.codePoints stem))) source destination suffix
    slugged

/-- A source path as one name, for an entry of the report. -/
def flat (source : Bytes) : Bytes :=
  clean (source.map fun b => if b == Path.slash then 0x5F else b)

end Restyle.FileName
