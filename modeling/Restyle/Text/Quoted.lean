import Restyle.Text.Printable
import Restyle.Text.Utf8

/-!
# Quoted text

A byte string between double quotes, on one line and printable: quotes and backslashes stand behind
a backslash, seven control characters have letters, whatever else is not printable is written by its
number, and so is a stray byte.
-/

namespace Restyle.Quoted

/-- The last `width` hexadecimal digits of a number, in lower case. -/
def hex (width n : Nat) : List Char :=
  let ds := Nat.toDigits 16 n
  List.replicate (width - ds.length) '0' ++ ds

def escape (c : Char) : List Char :=
  if c == '"' || c == '\\' then ['\\', c]
  else if isPrintable c then [c]
  else match c.toNat with
    | 7 => ['\\', 'a']
    | 8 => ['\\', 'b']
    | 9 => ['\\', 't']
    | 10 => ['\\', 'n']
    | 11 => ['\\', 'v']
    | 12 => ['\\', 'f']
    | 13 => ['\\', 'r']
    | n =>
      if n < 0x80 then '\\' :: 'x' :: hex 2 n
      else if n < 0x10000 then '\\' :: 'u' :: hex 4 n
      else '\\' :: 'U' :: hex 8 n

def symbol : Utf8.Symbol → List Char
  | .char c => escape c
  | .stray b => '\\' :: 'x' :: hex 2 b.toNat

end Restyle.Quoted

namespace Restyle

/-- A byte string in quotes. -/
def quote (s : Bytes) : Bytes :=
  Utf8.encode ('"' :: (Utf8.symbols s).flatMap Quoted.symbol ++ ['"'])

end Restyle
