import Restyle.Text.Utf8
import Std.Data.HashMap

/-!
# Repetitions

Data as a sequence of literal bytes and of copies of what came before.  `tokens` looks for the longest
copy among the last places with the same four bytes, and takes a copy only if the next place has no
longer one.
-/

namespace Restyle.Deflate

inductive Token where
  | literal (b : UInt8)
  /-- So many bytes, as they stand so far back. -/
  | copy (length distance : Nat)
  deriving Repr, DecidableEq

namespace Token

/-- The number of bytes that a token stands for. -/
def size : Token → Nat
  | .literal _ => 1
  | .copy length _ => length

/-- Copies one byte after another, so a copy may overlap what it makes. -/
def repeatBack (out : Array UInt8) (distance : Nat) : Nat → Array UInt8
  | 0 => out
  | n + 1 => repeatBack (out.push (out.getD (out.size - distance) 0)) distance n

/-- The data so far with that of a token. -/
def append (out : Array UInt8) : Token → Array UInt8
  | .literal b => out.push b
  | .copy length distance => repeatBack out distance length

/-! ### Search -/

def minLength : Nat := 4

def maxLength : Nat := 258

def maxDistance : Nat := 32768

/-- A copy of this length is taken without looking for a longer one. -/
def niceLength : Nat := 32

/-- After a copy of this length the next place is not tried. -/
def lazyLength : Nat := 16

/-- So many places are tried. -/
def tries : Nat := 32

/-- Places by their first four bytes: the last place for each, and for a place the one before it. -/
structure Index where
  last : Std.HashMap Nat Nat := {}
  before : Array (Option Nat) := #[]

/-- The first four bytes at a place. -/
def key (data : Array UInt8) (i : Nat) : Nat :=
  (List.range minLength).foldl (fun n k => n * 256 + (data.getD (i + k) 0).toNat) 0

/-- Adds a place, and tells the last one with the same bytes.  The last three places have no key. -/
def Index.add (x : Index) (data : Array UInt8) (i : Nat) : Index × Option Nat :=
  if i + minLength ≤ data.size then
    let k := key data i
    let old := x.last[k]?
    (⟨x.last.insert k i, x.before.push old⟩, old)
  else (x, none)

/-- How far two places agree, up to a limit. -/
def agreement (data : Array UInt8) (i j : Nat) : (limit : Nat) → Nat
  | 0 => 0
  | n + 1 =>
    if data.getD i 0 == data.getD j 0 then agreement data (i + 1) (j + 1) n + 1 else 0

/-- The longest copy at `i`, at most `limit` long, among the places from `j` back.  Of equally long ones
the nearest is taken, and a shortest one only if it is near. -/
def search (x : Index) (data : Array UInt8) (i limit : Nat) : (fuel j : Nat) → Nat × Nat → Nat × Nat
  | 0, _, best => best
  | fuel + 1, j, best =>
    let n := agreement data j i limit
    let better := best.1 < n && (minLength < n || i - j ≤ 4096)
    let best := if better then (n, i - j) else best
    if better && min niceLength limit ≤ n then best
    else
      match (x.before[j]?).join with
      | some k => if i - k ≤ maxDistance then search x data i limit fuel k best else best
      | none => best

/-- The state of the search: the place, the copy found at the place before, and whether the byte there
still has to be written. -/
structure State where
  index : Index := {}
  place : Nat := 0
  found : Nat × Nat := (minLength - 1, 0)
  pending : Bool := false
  tokens : Array Token := #[]

def addAll (x : Index) (data : Array UInt8) (i : Nat) : Nat → Index
  | 0 => x
  | n + 1 => addAll (x.add data i).1 data (i + 1) n

/-- No copy that would be worth it. -/
def noCopy : Nat × Nat := (minLength - 1, 0)

def step (data : Array UInt8) (s : State) : State :=
  let i := s.place
  let ahead := data.size - i
  let (index, last) := s.index.add data i
  let now := match last with
    | some j =>
      if i - j ≤ maxDistance && s.found.1 < ahead && s.found.1 < lazyLength then
        search index data i (min maxLength ahead) tries j noCopy
      else noCopy
    | none => noCopy
  if minLength ≤ s.found.1 && now.1 ≤ s.found.1 then
    let rest := s.found.1 - 2
    { index := addAll index data (i + 1) rest
      place := i + 1 + rest
      tokens := s.tokens.push (.copy s.found.1 s.found.2) }
  else
    { index := index
      place := i + 1
      found := now
      pending := true
      tokens := if s.pending then s.tokens.push (.literal (data.getD (i - 1) 0)) else s.tokens }

def run (data : Array UInt8) : (fuel : Nat) → State → Array Token
  | 0, s => s.tokens
  | fuel + 1, s =>
    if s.place < data.size then run data fuel (step data s)
    else if s.pending then s.tokens.push (.literal (data.getD (data.size - 1) 0))
    else s.tokens

/-- Data as tokens. -/
def tokens (data : Bytes) : List Token :=
  -- every step goes on by one byte at least
  (run data.toArray (data.length + 1) {}).toList

end Token

end Restyle.Deflate
