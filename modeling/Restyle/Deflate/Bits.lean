import Restyle.Text.Utf8

/-!
# Bits

Packed data is a sequence of bits.  Bytes give theirs from the lowest to the highest, and so do numbers;
only code words are written from the highest bit on.
-/

namespace Restyle.Deflate

abbrev Bits := List Bool

namespace Bits

/-- The `width` lowest bits of a number, the lowest first. -/
def ofNat : (width : Nat) → Nat → Bits
  | 0, _ => []
  | w + 1, n => (n % 2 == 1) :: ofNat w (n / 2)

/-- The `width` lowest bits of a number, the highest first. -/
def ofCode (width n : Nat) : Bits :=
  (ofNat width n).reverse

def toNat : Bits → Nat
  | [] => 0
  | b :: s => b.toNat + 2 * toNat s

def ofBytes (s : Bytes) : Bits :=
  s.flatMap fun b => ofNat 8 b.toNat

/-- Eight bits a byte.  The last byte is filled up with zeros. -/
def toBytes : Bits → Bytes
  | b₀ :: b₁ :: b₂ :: b₃ :: b₄ :: b₅ :: b₆ :: b₇ :: s =>
    UInt8.ofNat (toNat [b₀, b₁, b₂, b₃, b₄, b₅, b₆, b₇]) :: toBytes s
  | [] => []
  | s => [UInt8.ofNat (toNat s)]

/-- The number in the first bits, and the rest. -/
def take? (width : Nat) (s : Bits) : Option (Nat × Bits) :=
  let head := s.take width
  if head.length == width then some (toNat head, s.drop width) else none

/-- The bits after the end of the byte that has been begun. -/
def align (s : Bits) : Bits :=
  s.drop (s.length % 8)

theorem toNat_ofNat (width n : Nat) : toNat (ofNat width n) = n % 1 <<< width := by
  induction width generalizing n with
  | zero => simp [ofNat, toNat, Nat.mod_one]
  | succ w ih =>
    have h : (n % 2 == 1).toNat = n % 2 := by
      rcases Nat.mod_two_eq_zero_or_one n with h | h <;> simp [h]
    rw [ofNat, toNat, ih, h, Nat.shiftLeft_succ, Nat.mod_mul]

theorem length_ofNat (width n : Nat) : (ofNat width n).length = width := by
  induction width generalizing n with
  | zero => rfl
  | succ w ih => simp [ofNat, ih]

theorem take?_ofNat_append (width n : Nat) (s : Bits) :
    take? width (ofNat width n ++ s) = some (n % 1 <<< width, s) := by
  simp [take?, length_ofNat, toNat_ofNat, List.take_left', List.drop_left']

end Bits

end Restyle.Deflate
