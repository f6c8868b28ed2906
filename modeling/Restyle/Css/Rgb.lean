import Restyle.Css.Edit

/-!
# Colours

`fixRgb` writes the calls `rgb(R G B)` and `rgb(R G B / A)`, whose parts stand apart by white space,
with commas.  An opacity of `1` says nothing and is left out.
-/

namespace Restyle.Css

structure RgbCall where
  red : List Char
  green : List Char
  blue : List Char
  alpha : Option (List Char)
  deriving Repr, DecidableEq

namespace RgbCall

/-- A digit string that is not empty. -/
def channel? (s : List Char) : Option (List Char × List Char) :=
  match s.takeWhile Char.isDigit with
  | [] => none
  | ds => some (ds, s.dropWhile Char.isDigit)

/-- A digit string behind white space. -/
def nextChannel? (s : List Char) : Option (List Char × List Char) :=
  match s with
  | c :: t => if isBlank c then channel? (skipBlank t) else none
  | [] => none

def isAlphaChar (c : Char) : Bool :=
  c.isDigit || c == '%' || c == '.'

/-- The opacity behind a slash, with white space around the slash. -/
def alpha? (s : List Char) : Option (List Char × List Char) := do
  let t ← after? ['/'] (skipBlank s)
  match (skipBlank t).takeWhile isAlphaChar with
  | [] => none
  | a => some (a, (skipBlank t).dropWhile isAlphaChar)

def read? : Pattern RgbCall := fun s => do
  let s ← after? "rgb(".toList s
  let (red, s) ← channel? (skipBlank s)
  let (green, s) ← nextChannel? s
  let (blue, s) ← nextChannel? s
  let (alpha, s) := match alpha? s with
    | some (a, t) => (some a, t)
    | none => (none, s)
  let s ← after? [')'] (skipBlank s)
  some (⟨red, green, blue, alpha⟩, s)

def write (c : RgbCall) : List Char :=
  let alpha := match c.alpha with
    | none => []
    | some a => if a = ['1'] then [] else ',' :: a
  "rgb(".toList ++ c.red ++ ',' :: c.green ++ ',' :: c.blue ++ alpha ++ [')']

end RgbCall

def fixRgb : Edit :=
  RgbCall.read?.replace RgbCall.write

end Restyle.Css
