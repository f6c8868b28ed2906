import Restyle.Text.Utf8

/-!
# Names without regard to case

Names that the program knows are ASCII.  `lower` gives the lower case of every character for which
it is ASCII, two of which are not ASCII themselves, and leaves all others alone.
-/

namespace Restyle

/-- The lower case of a character, if that is an ASCII letter. -/
def lower (c : Char) : Char :=
  match c.toNat with
  | 0x130 => 'i'
  | 0x212A => 'k'
  | _ => c.toLower

def lowerText (s : List Char) : List Char :=
  s.map lower

end Restyle
