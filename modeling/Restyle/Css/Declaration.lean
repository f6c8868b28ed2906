import Restyle.Css.Edit

/-!
# Declarations

A declaration is a name, a colon and a value that runs to the end of its line or to the next
semicolon.  `declarations` finds them in any text.  `distinct` keeps the last value of each
property at the place of its first, and `extract` writes such a list one declaration a line.
-/

namespace Restyle.Css

structure Declaration where
  property : List Char
  value : List Char
  deriving Repr, DecidableEq

/-- Names are ASCII letters, digits, underscores and hyphens. -/
def isNameChar (c : Char) : Bool :=
  c.isAlphanum || c == '_' || c == '-'

def endsValue (c : Char) : Bool :=
  c == ';' || c == '\r' || c == '\n'

/-- The value after a colon and the text after it.  White space before the value is no part of it,
except that a value which is white space altogether is its last character that is no line break. -/
def value? (s : List Char) : Option (List Char × List Char) :=
  let t := skipBlank s
  match t.takeWhile (! endsValue ·) with
  | [] =>
    let blanks := s.takeWhile isBlank
    match blanks.reverse.dropWhile endsValue with
    | [] => none
    | c :: before => some ([c], s.drop (before.length + 1))
  | v => some (v, t.dropWhile (! endsValue ·))

/-- A declaration at the start of a text. -/
def declaration? : Pattern Declaration := fun s =>
  match s.takeWhile isNameChar with
  | [] => none
  | name => do
    let t ← after? [':'] (skipBlank (s.dropWhile isNameChar))
    let (value, rest) ← value? t
    some (⟨name, value⟩, rest)

/-- The declarations of a text, from left to right. -/
def declarations (s : List Char) : List Declaration :=
  declaration?.findAll s

/-- Sets a property: an earlier value is replaced where it stands. -/
def setProperty (d : Declaration) : List Declaration → List Declaration
  | [] => [d]
  | e :: es => if e.property = d.property then d :: es else e :: setProperty d es

/-- One declaration a property: the place of its first and the value of its last. -/
def distinct (ds : List Declaration) : List Declaration :=
  ds.foldl (fun seen d => setProperty d seen) []

def Declaration.line (nested : Bool) (d : Declaration) : List Char :=
  (if nested then ['\t'] else []) ++ d.property ++ [':', ' '] ++ d.value ++ [';', '\n']

/-- The distinct declarations of a text, one a line, each behind a tab when `nested`. -/
def extract (nested : Bool) (s : List Char) : List Char :=
  (distinct (declarations s)).flatMap (Declaration.line nested)

end Restyle.Css
