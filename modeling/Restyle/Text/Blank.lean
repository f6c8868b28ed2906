import Restyle.Text.Utf8

/-!
# White space

`isBlank` is the White_Space property: the one notion of white space of stylesheets, step names and
slugs.  `trim` cuts it from both ends of a text, `Bytes.trim` from both ends of a byte string.
-/

namespace Restyle

def isBlank (c : Char) : Bool :=
  let n := c.toNat
  (0x09 ≤ n && n ≤ 0x0D) || n == 0x20 || n == 0x85 || n == 0xA0 || n == 0x1680
    || (0x2000 ≤ n && n ≤ 0x200A) || n == 0x2028 || n == 0x2029 || n == 0x202F || n == 0x205F
    || n == 0x3000

def trimEnd (s : List Char) : List Char :=
  s.foldr (fun c t => if t.isEmpty && isBlank c then [] else c :: t) []

def trim (s : List Char) : List Char :=
  trimEnd (s.dropWhile isBlank)

namespace Utf8

def Symbol.isBlank : Symbol → Bool
  | .char c => Restyle.isBlank c
  | .stray _ => false

def Symbol.bytes : Symbol → Bytes
  | .char c => encodeChar c
  | .stray b => [b]

end Utf8

/-- A byte string without the white space at its ends.  A stray byte is no white space. -/
def Bytes.trim (s : Bytes) : Bytes :=
  let inner := (Utf8.symbols s).dropWhile Utf8.Symbol.isBlank
  let inner := (inner.reverse.dropWhile Utf8.Symbol.isBlank).reverse
  inner.flatMap Utf8.Symbol.bytes

end Restyle
