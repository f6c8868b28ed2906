import Restyle.Deflate.Block

/-!
# Unpacking

Reads packed data block by block.  Data that ends too early is told apart from data that is wrong.
-/

namespace Restyle.Deflate

inductive UnpackError where
  | short
  /-- Wrong before this byte. -/
  | corrupt (offset : Nat)
  deriving Repr, DecidableEq

def UnpackError.message : UnpackError → Bytes
  | .short => "unexpected EOF"
  | .corrupt offset => "flate: corrupt input before offset " ++ decimal offset

/-- Reading from bits.  A fault of the data keeps the bits after it. -/
inductive Fault where
  | short
  | corrupt (rest : Bits)
  deriving Repr, DecidableEq

abbrev Reading := StateT Bits (Except Fault)

namespace Reading

def number (width : Nat) : Reading Nat := do
  match Bits.take? width (← get) with
  | some (n, rest) => set rest; return n
  | none => throw .short

def symbol (t : Tree) : Reading Nat := do
  match t.read (← get) with
  | .symbol n rest => set rest; return n
  | .short => throw .short
  | .unknown rest => throw (.corrupt rest)

def corrupt {α : Type} : Reading α := do
  throw (.corrupt (← get))

/-- A value of the class of a symbol. -/
def value (cs : List ValueClass) (n : Nat) : Reading Nat := do
  match cs[n]? with
  | some c => return c.base + (← number c.extra)
  | none => corrupt

/-- The symbols of a block, up to its end. -/
def symbols (literals distances : Tree) : (fuel : Nat) → Array UInt8 → Reading (Array UInt8)
  | 0, _ => throw .short
  | fuel + 1, out => do
    let s ← symbol literals
    if s < endOfBlock then symbols literals distances fuel (out.push (UInt8.ofNat s))
    else if s == endOfBlock then return out
    else
      let length ← value lengthClasses (s - firstLength)
      let distance ← value distanceClasses (← symbol distances)
      if out.size < distance then corrupt
      else symbols literals distances fuel (Token.append out (.copy length distance))

/-- Lengths of words, which may be given as repetitions. -/
def wordLengths (t : Tree) : (fuel count : Nat) → (done : List Nat) → Reading (List Nat)
  | 0, _, _ => throw .short
  | fuel + 1, count, done => do
    if count ≤ done.length then
      if done.length == count then return done.reverse else corrupt
    else
      let s ← symbol t
      if s < 16 then wordLengths t fuel count (s :: done)
      else if s == 16 then
        match done with
        | [] => corrupt
        | l :: _ =>
          let n ← number 2
          wordLengths t fuel count (List.replicate (n + 3) l ++ done)
      else if s == 17 then
        let n ← number 3
        wordLengths t fuel count (List.replicate (n + 3) 0 ++ done)
      else
        let n ← number 7
        wordLengths t fuel count (List.replicate (n + 11) 0 ++ done)

/-- The lengths make a code that can be described: one in which no word is missing, a single word of one
bit, or none at all. -/
def isCode (max : Nat) (lengths : List Nat) : Bool :=
  let used := lengths.filter (· != 0)
  used.isEmpty || used == [1] ||
    (fits (countLengths max lengths) && (Tree.ofLengths max lengths).isFull)

/-- The tree of a code that a block describes. -/
def tree (max : Nat) (lengths : List Nat) : Reading Tree := do
  if isCode max lengths then return Tree.ofLengths max lengths else corrupt

/-- The codes that a block describes. -/
def codes : Reading (Tree × Tree) := do
  let literals := (← number 5) + 257
  let distances := (← number 5) + 1
  let given := (← number 4) + 4
  if literalCount < literals || distanceCount < distances then corrupt
  else
    let ls ← (List.range given).mapM fun _ => number 3
    let table := lengthOrder.zip ls
    let lengths := (List.range 19).map fun s => (table.lookup s).getD 0
    let t ← tree maxLengthWord lengths
    let all ← wordLengths t (literals + distances + 1) (literals + distances) []
    return (← tree maxWord (all.take literals), ← tree maxWord (all.drop literals))

/-- Data that is not packed: its length, the same inverted, and the bytes. -/
def stored (out : Array UInt8) : Reading (Array UInt8) := do
  modify Bits.align
  let n ← number 16
  let m ← number 16
  if n + m != 0xFFFF then corrupt
  else
    let s ← get
    if s.length < 8 * n then throw .short
    else
      set (s.drop (8 * n))
      return out ++ (Bits.toBytes (s.take (8 * n))).toArray

def block (fuel : Nat) (out : Array UInt8) : Reading (Array UInt8) := do
  match ← number 2 with
  | 0 => stored out
  | 1 =>
    symbols (Tree.ofLengths maxWord fixedLengths) (Tree.ofLengths maxWord fixedDistances) fuel out
  | 2 =>
    let (literals, distances) ← codes
    symbols literals distances fuel out
  | _ => corrupt

/-- All blocks up to the last one. -/
def blocks : (fuel : Nat) → Array UInt8 → Reading (Array UInt8)
  | 0, _ => throw .short
  | fuel + 1, out => do
    let last ← number 1
    let out ← block (fuel + 1) out
    if last == 1 then return out else blocks fuel out

end Reading

/-- The data that has been packed. -/
def unpack (packed : Bytes) : Except UnpackError Bytes :=
  let bits := Bits.ofBytes packed
  -- every symbol and every block takes a bit at least
  match (Reading.blocks (bits.length + 1) #[]).run bits with
  | .ok (out, _) => .ok out.toList
  | .error .short => .error .short
  | .error (.corrupt rest) => .error (.corrupt ((bits.length - rest.length + 7) / 8))

end Restyle.Deflate
