/-!
# Classes of characters

A large class of characters is given by the numbers at which membership changes, in rising order:
the class begins at the first, ends before the second, and so on.
-/

namespace Restyle

/-- The character lies in the class: the number of changes up to it is odd. -/
def inClass (changes : List Nat) (c : Char) : Bool :=
  (changes.takeWhile (· ≤ c.toNat)).length % 2 == 1

end Restyle
