import Restyle.Deflate.Huffman
import Restyle.Deflate.Token

/-!
# Symbols of a block

A packed block is a sequence of symbols: bytes, the end of the block, and lengths of copies, each of
which is followed by its distance.  Lengths and distances come in classes; extra bits tell the value
within a class.
-/

namespace Restyle.Deflate

/-- A class of values: the first one, and the number of extra bits. -/
structure ValueClass where
  base : Nat
  extra : Nat
  deriving Repr, DecidableEq

/-- Classes that follow each other without gaps. -/
def classes (base : Nat) : List Nat → List ValueClass
  | [] => []
  | e :: es => ⟨base, e⟩ :: classes (base + 2 ^ e) es

/-- Lengths from 3 on.  The greatest has a class of its own. -/
def lengthClasses : List ValueClass :=
  classes 3 [0, 0, 0, 0, 0, 0, 0, 0, 1, 1, 1, 1, 2, 2, 2, 2, 3, 3, 3, 3, 4, 4, 4, 4, 5, 5, 5, 5]
    ++ [⟨258, 0⟩]

def distanceClasses : List ValueClass :=
  classes 1 [0, 0, 0, 0, 1, 1, 2, 2, 3, 3, 4, 4, 5, 5, 6, 6, 7, 7, 8, 8, 9, 9, 10, 10, 11, 11,
    12, 12, 13, 13]

/-- The last class whose first value is not greater. -/
def classOf (cs : List ValueClass) (value : Nat) : Nat :=
  (cs.filter fun c => c.base ≤ value).length - 1

def endOfBlock : Nat := 256

def firstLength : Nat := 257

def literalCount : Nat := 286

def distanceCount : Nat := 30

/-- The longest word of a code, and of the code for the lengths of words. -/
def maxWord : Nat := 15

def maxLengthWord : Nat := 7

/-- The lengths of the code that needs no description. -/
def fixedLengths : List Nat :=
  List.replicate 144 8 ++ List.replicate 112 9 ++ List.replicate 24 7 ++ List.replicate 8 8

def fixedDistances : List Nat := List.replicate 30 5

/-- The order in which the lengths of the code for lengths are given. -/
def lengthOrder : List Nat :=
  [16, 17, 18, 0, 8, 7, 9, 6, 10, 5, 11, 4, 12, 3, 13, 2, 14, 1, 15]

end Restyle.Deflate
