import Restyle.Text.Utf8

/-!
# Parts of a byte string

`split` cuts at every separator; joining the parts with the separator gives the byte string back.
-/

namespace Restyle

/-- The parts between the separators.  There is always at least one. -/
def Bytes.split (sep : UInt8) : Bytes → List Bytes
  | [] => [[]]
  | b :: s =>
    match Bytes.split sep s with
    | part :: parts => if b == sep then [] :: part :: parts else (b :: part) :: parts
    | [] => [[b]]

/-- A byte string without the ending, if it has it. -/
def Bytes.dropEnding (s ending : Bytes) : Bytes :=
  if ending.isSuffixOf s then s.take (s.length - ending.length) else s

end Restyle
