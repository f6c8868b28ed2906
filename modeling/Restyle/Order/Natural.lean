import Restyle.Text.Utf8

/-!
# Natural order of names

Names are compared byte by byte, but a run of digits against a run of digits is compared as numbers,
so that `b2` stands before `b10`.  Numbers of up to 64 bits are compared by the sign of their
difference in 64 bits, so numbers more than 2^63 apart stand the other way round.

`sort` is insertion from the right, which needs no law of the order; where the order is a strict weak
one this is the stable sort.
-/

namespace Restyle.Natural

def isDigit (b : UInt8) : Bool :=
  0x30 ≤ b && b ≤ 0x39

def value (digits : Bytes) : Nat :=
  digits.foldl (fun n b => n * 10 + (b.toNat - 0x30)) 0

/-- Byte by byte; a beginning stands before the whole. -/
def compareBytes : Bytes → Bytes → Ordering
  | [], [] => .eq
  | [], _ :: _ => .lt
  | _ :: _, [] => .gt
  | a :: s, b :: t => if a < b then .lt else if b < a then .gt else compareBytes s t

/-- The order of two words of 64 bits by the sign of their difference. -/
def compareWords (a b : Nat) : Ordering :=
  if a == b then .eq
  else if (a + UInt64.size - b) % UInt64.size < UInt64.size / 2 then .gt else .lt

def compareNumbers (a b : Bytes) : Ordering :=
  if value a < UInt64.size && value b < UInt64.size then compareWords (value a) (value b)
  else
    let a := a.dropWhile (· == 0x30)
    let b := b.dropWhile (· == 0x30)
    (compare a.length b.length).then (compareBytes a b)

def compareNames : Bytes → Bytes → Ordering
  | [], [] => .eq
  | [], _ :: _ => .lt
  | _ :: _, [] => .gt
  | a :: s, b :: t =>
    if isDigit a && isDigit b then
      match compareNumbers (a :: s.takeWhile isDigit) (b :: t.takeWhile isDigit) with
      | .eq =>
        -- numbers of one value, such as 1 and 01, are passed over only between other text
        if (s.dropWhile isDigit).isEmpty || (t.dropWhile isDigit).isEmpty then
          compareBytes (a :: s) (b :: t)
        else compareNames (s.dropWhile isDigit) (t.dropWhile isDigit)
      | o => o
    else if a < b then .lt
    else if b < a then .gt
    else compareNames s t
termination_by s => s.length
decreasing_by
  · exact Nat.lt_succ_of_le (List.dropWhile_suffix isDigit).length_le
  · exact Nat.lt_succ_self _

/-- One name stands before another. -/
def isBefore (a b : Bytes) : Bool :=
  compareNames a b == .lt

end Restyle.Natural

namespace Restyle

/-- Puts an item into a list kept last first: it moves past every item it stands before. -/
def insertLast {α : Type} (before : α → α → Bool) (x : α) : List α → List α
  | [] => [x]
  | y :: ys => if before x y then y :: insertLast before x ys else x :: y :: ys

def sort {α : Type} (before : α → α → Bool) (xs : List α) : List α :=
  (xs.foldl (fun done x => insertLast before x done) []).reverse

end Restyle
