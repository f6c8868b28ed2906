import Restyle.Deflate.Bits

/-!
# Codes of variable length

A code gives every symbol in use a word of bits, none of which starts another.  It is given by the
lengths of the words: shorter words come before longer ones, and words of equal length go up with their
symbols.  `Tree.ofLengths` reads such words, `words` writes them, and `lengths` finds the code that needs
the fewest bits for symbols of given frequencies.
-/

namespace Restyle.Deflate

/-! ### Words -/

/-- The first word of each length from 1 on, for so many words of each length. -/
def firstWords (counts : List Nat) : List Nat :=
  go 0 counts
where
  go (start : Nat) : List Nat → List Nat
    | [] => []
    | c :: cs => start :: go (2 * (start + c)) cs

/-- The number of words of each length from 1 to `max`. -/
def countLengths (max : Nat) (lengths : List Nat) : List Nat :=
  (List.range max).map fun l => lengths.count (l + 1)

/-- The word of every symbol, by its bits.  A symbol that is not in use has none. -/
def words (max : Nat) (lengths : List Nat) : List Bits :=
  go (firstWords (countLengths max lengths)).toArray lengths
where
  go (next : Array Nat) : List Nat → List Bits
    | [] => []
    | 0 :: ls => [] :: go next ls
    | (l + 1) :: ls =>
      let word := next.getD l 0
      Bits.ofCode (l + 1) word :: go (next.modify l (· + 1)) ls

/-- Words as paths in a tree. -/
inductive Tree where
  | none
  | leaf (symbol : Nat)
  | node (zero one : Tree)
  deriving Repr, DecidableEq

namespace Tree

/-- The tree with a symbol added at the end of a word. -/
def insert (symbol : Nat) : Bits → Tree → Tree
  | [], _ => .leaf symbol
  | false :: s, .node z o => .node (insert symbol s z) o
  | true :: s, .node z o => .node z (insert symbol s o)
  | false :: s, _ => .node (insert symbol s .none) .none
  | true :: s, _ => .node .none (insert symbol s .none)

def ofLengths (max : Nat) (lengths : List Nat) : Tree :=
  (words max lengths).zipIdx.foldl
    (fun t (word, symbol) => if word.isEmpty then t else t.insert symbol word) .none

/-- What can be read from the start of some bits. -/
inductive Read where
  | symbol (n : Nat) (rest : Bits)
  /-- The bits end within a word. -/
  | short
  /-- No word starts with these bits. -/
  | unknown (rest : Bits)
  deriving Repr, DecidableEq

def read : Tree → Bits → Read
  | .leaf n, s => .symbol n s
  | .none, s => .unknown s
  | .node .., [] => .short
  | .node z o, b :: s => if b then o.read s else z.read s

/-- No word is missing: every sequence of bits that is long enough starts with a word. -/
def isFull : Tree → Bool
  | .none => false
  | .leaf _ => true
  | .node z o => z.isFull && o.isFull

end Tree

/-- So many words of each length leave no two of them in each other's way. -/
def fits (counts : List Nat) : Bool :=
  (counts.foldl (fun (room : Option Nat) c => do
    let room ← room
    if c ≤ 2 * room then some (2 * room - c) else none) (some 1)).isSome

/-! ### Frequencies -/

/-- Symbols that are paid for together. -/
structure Package where
  weight : Nat
  symbols : List Nat
  deriving Repr, DecidableEq

namespace Package

/-- Neighbours put together; one that is left over is dropped. -/
def pair : List Package → List Package
  | a :: b :: ps => ⟨a.weight + b.weight, a.symbols ++ b.symbols⟩ :: pair ps
  | _ => []

def merge (ps qs : List Package) : List Package :=
  ps.merge qs fun p q => p.weight ≤ q.weight

/-- The packages for words of at most so many bits. -/
def rounds (coins : List Package) : Nat → List Package
  | 0 => []
  | n + 1 => merge coins (pair (rounds coins n))

end Package

/-- The lengths, `max` at most, of the code that needs the fewest bits for symbols of these
frequencies. -/
def lengths (max : Nat) (frequencies : List Nat) : List Nat :=
  let used := frequencies.zipIdx.filter fun (f, _) => f != 0
  if used.length ≤ 2 then frequencies.map fun f => if f == 0 then 0 else 1
  else
    let coins := (used.map fun (f, s) => Package.mk f [s]).mergeSort fun p q => p.weight ≤ q.weight
    let bought := (Package.rounds coins max).take (2 * used.length - 2)
    let counts := bought.foldl
      (fun (a : Array Nat) p => p.symbols.foldl (fun a s => a.modify s (· + 1)) a)
      (Array.replicate frequencies.length 0)
    counts.toList

end Restyle.Deflate
