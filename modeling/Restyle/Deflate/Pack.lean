import Restyle.Deflate.Unpack

/-!
# Packing

Data is cut into blocks, each of which is written in the shortest of three ways: as it is, with the
fixed code, or with a code of its own.  `pack` unpacks its result once to see that nothing is lost;
if something were, it would write the data as it is.
-/

namespace Restyle.Deflate

/-- So many tokens make a block. -/
def blockTokens : Nat := 16384

/-- Data that is not packed comes in pieces of at most this size. -/
def maxStored : Nat := 65535

def header (last : Bool) (kind : Nat) : Bits :=
  last :: Bits.ofNat 2 kind

/-- Zeros up to the end of the byte, `used` bits after the start of one. -/
def padding (used : Nat) : Bits :=
  List.replicate ((8 - used % 8) % 8) false

/-- A block that is not packed, `used` bits after the start of the data. -/
def storedBlock (used : Nat) (last : Bool) (data : Bytes) : Bits :=
  let head := header last 0
  head ++ padding (used + head.length) ++ Bits.ofNat 16 data.length
    ++ Bits.ofNat 16 (0xFFFF - data.length) ++ Bits.ofBytes data

/-! ### Symbols -/

/-- A symbol with its extra bits, and whether it is a distance. -/
structure Symbol where
  isDistance : Bool
  number : Nat
  extra : Bits
  deriving Repr, DecidableEq

def ofClass (cs : List ValueClass) (isDistance : Bool) (first value : Nat) : Symbol :=
  let k := classOf cs value
  match cs[k]? with
  | some c => ⟨isDistance, first + k, Bits.ofNat c.extra (value - c.base)⟩
  | none => ⟨isDistance, first + k, []⟩

def Token.symbols : Token → List Symbol
  | .literal b => [⟨false, b.toNat, []⟩]
  | .copy length distance =>
    [ofClass lengthClasses false firstLength length, ofClass distanceClasses true 0 distance]

def blockSymbols (ts : List Token) : List Symbol :=
  ts.flatMap Token.symbols ++ [⟨false, endOfBlock, []⟩]

def frequencies (count : Nat) (ns : List Nat) : List Nat :=
  (ns.foldl (fun (a : Array Nat) n => a.modify n (· + 1)) (Array.replicate count 0)).toList

/-- The symbols in words of two codes. -/
def writeSymbols (literals distances : List Bits) (ss : List Symbol) : Bits :=
  let literals := literals.toArray
  let distances := distances.toArray
  ss.flatMap fun s =>
    (if s.isDistance then distances.getD s.number [] else literals.getD s.number []) ++ s.extra

/-! ### Description of codes -/

/-- Lengths of words in runs. -/
def runs : List Nat → List (Nat × Nat)
  | [] => []
  | l :: ls =>
    match runs ls with
    | (k, n) :: rs => if k == l then (k, n + 1) :: rs else (l, 1) :: (k, n) :: rs
    | [] => [(l, 1)]

/-- A run of zeros in symbols. -/
def zeroRun (count : Nat) : List (Nat × Bits) :=
  if _h : 11 ≤ count then
    let n := min 138 count
    (18, Bits.ofNat 7 (n - 11)) :: zeroRun (count - n)
  else if 3 ≤ count then [(17, Bits.ofNat 3 (count - 3))]
  else List.replicate count (0, [])
termination_by count
decreasing_by omega

/-- Repetitions of the length before. -/
def againRun (length count : Nat) : List (Nat × Bits) :=
  if _h : 3 ≤ count then
    let n := min 6 count
    (16, Bits.ofNat 2 (n - 3)) :: againRun length (count - n)
  else List.replicate count (length, [])
termination_by count
decreasing_by omega

def runSymbols : Nat × Nat → List (Nat × Bits)
  | (0, count) => zeroRun count
  | (length, count) => (length, []) :: againRun length (count - 1)

/-- A list without the zeros at its end. -/
def dropZeros (ls : List Nat) : List Nat :=
  (ls.reverse.dropWhile (· == 0)).reverse

/-- The bits that describe two codes. -/
def describe (literals distances : List Nat) : Bits :=
  let ss := (runs (literals ++ distances)).flatMap runSymbols
  let ls := lengths maxLengthWord (frequencies 19 (ss.map (·.1)))
  let given := dropZeros (lengthOrder.map fun s => ls.getD s 0)
  let given := given ++ List.replicate (4 - given.length) 0
  let ws := (words maxLengthWord ls).toArray
  Bits.ofNat 5 (literals.length - 257) ++ Bits.ofNat 5 (distances.length - 1)
    ++ Bits.ofNat 4 (given.length - 4) ++ given.flatMap (Bits.ofNat 3)
    ++ ss.flatMap fun (s, extra) => ws.getD s [] ++ extra

/-! ### Blocks -/

def fixedBlock (ss : List Symbol) : Bits :=
  header false 1 ++ writeSymbols (words maxWord fixedLengths) (words maxWord fixedDistances) ss

/-- A block with a code of its own. -/
def ownBlock (ss : List Symbol) : Bits :=
  let numbers (d : Bool) := (ss.filter (·.isDistance == d)).map (·.number)
  let literals := dropZeros (lengths maxWord (frequencies literalCount (numbers false)))
  let distances := dropZeros (lengths maxWord (frequencies distanceCount (numbers true)))
  -- one distance at least has to be described
  let distances := if distances.isEmpty then [1] else distances
  header false 2 ++ describe literals distances
    ++ writeSymbols (words maxWord literals) (words maxWord distances) ss

/-- The shortest block for tokens and the data they stand for, `used` bits after the start. -/
def bestBlock (used : Nat) (ts : List Token) (data : Bytes) : Bits :=
  let ss := blockSymbols ts
  let fixed := fixedBlock ss
  let own := ownBlock ss
  let packed := if own.length < fixed.length then own else fixed
  if data.length ≤ maxStored && 8 * data.length + 40 < packed.length then
    storedBlock used false data
  else packed

/-- Blocks for tokens and the data they stand for, and the number of bits in those that are full. -/
def packBlocks (used : Nat) : (fuel : Nat) → List Token → Bytes → Bits × Nat
  | 0, _, _ => (storedBlock used true [], 0)
  | fuel + 1, ts, data =>
    if ts.isEmpty then (storedBlock used true [], 0)
    else
      let now := ts.take blockTokens
      let size := (now.map Token.size).sum
      let bits := bestBlock used now (data.take size)
      let (rest, full) :=
        packBlocks (used + bits.length) fuel (ts.drop blockTokens) (data.drop size)
      (bits ++ rest, if now.length == blockTokens then bits.length + full else 0)

/-- Data as it is, in pieces. -/
def storedBlocks : (fuel : Nat) → Bytes → Bits
  | 0, data => storedBlock 0 true (data.take maxStored)
  | fuel + 1, data =>
    if data.length ≤ maxStored then storedBlock 0 true data
    else storedBlock 0 false (data.take maxStored) ++ storedBlocks fuel (data.drop maxStored)

/-- Packed data, and how many bytes of it are there before the end of the data is known. -/
structure Packed where
  bytes : Bytes
  early : Nat
  deriving Repr, DecidableEq

/-- Packs data. -/
def pack (data : Bytes) : Packed :=
  let ts := Token.tokens data
  let (bits, full) := packBlocks 0 (ts.length + 1) ts data
  let packed := Bits.toBytes bits
  match unpack packed with
  | .ok out => if out == data then ⟨packed, full / 8⟩ else plain
  | .error _ => plain
where
  plain := ⟨Bits.toBytes (storedBlocks data.length data), 0⟩

end Restyle.Deflate
