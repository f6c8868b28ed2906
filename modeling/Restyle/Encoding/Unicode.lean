import Restyle.Text.Utf8

/-!
# Unicode encoding forms

UTF-8, UTF-16 and UTF-32 with their byte order marks.  `encode` writes a text without mark.  Reading
never fails on malformed bytes: each unit that is no character, or part of a character, becomes one
replacement character.
-/

namespace Restyle.Unicode

open Utf8 (replacement)

inductive ByteOrder where
  | big
  | little
  deriving Repr, DecidableEq

/-- A number of 16 bits from two bytes. -/
def ByteOrder.word (o : ByteOrder) (a b : UInt8) : Nat :=
  match o with
  | .big => a.toNat * 256 + b.toNat
  | .little => b.toNat * 256 + a.toNat

/-- A number of 32 bits from four bytes. -/
def ByteOrder.long (o : ByteOrder) (a b c d : UInt8) : Nat :=
  match o with
  | .big => o.word a b * 65536 + o.word c d
  | .little => o.word c d * 65536 + o.word a b

def ByteOrder.ofWord (o : ByteOrder) (n : Nat) : Bytes :=
  match o with
  | .big => [UInt8.ofNat (n / 256), UInt8.ofNat n]
  | .little => [UInt8.ofNat n, UInt8.ofNat (n / 256)]

def ByteOrder.ofLong (o : ByteOrder) (n : Nat) : Bytes :=
  match o with
  | .big => o.ofWord (n / 65536) ++ o.ofWord n
  | .little => o.ofWord n ++ o.ofWord (n / 65536)

/-- The character of a number, or the replacement character. -/
def character (n : Nat) : Char :=
  if n.isValidChar then Char.ofNat n else replacement

/-! ### UTF-8 -/

def isContinuation (b : UInt8) : Bool :=
  (Utf8.continuation? b).isSome

/-- The second byte of a character may follow its first. -/
def follows (first second : UInt8) : Bool :=
  let n := second.toNat
  match first.toNat with
  | 0xE0 => 0xA0 ≤ n && n < 0xC0
  | 0xED => 0x80 ≤ n && n < 0xA0
  | 0xF0 => 0x90 ≤ n && n < 0xC0
  | 0xF4 => 0x80 ≤ n && n < 0x90
  | _ => 0x80 ≤ n && n < 0xC0

/-- The number of bytes of the broken character that starts a byte string: as many as could still have
become a character, and at least one. -/
def brokenWidth : Bytes → Nat
  | a :: b :: c :: _ =>
    if a.toNat < 0xE0 || 0xF5 ≤ a.toNat || !follows a b then 1
    else if a.toNat < 0xF0 || !isContinuation c then 2
    else 3
  | [a, b] => if a.toNat < 0xE0 || 0xF5 ≤ a.toNat || !follows a b then 1 else 2
  | _ => 1

/-- Reads characters, passing over the first `skip` bytes. -/
def decode8From (skip : Nat) : Bytes → List Char
  | [] => []
  | b :: s =>
    match skip with
    | k + 1 => decode8From k s
    | 0 =>
      match Utf8.decodeChar? (b :: s) with
      | some (c, width) => c :: decode8From (width - 1) s
      | none => replacement :: decode8From (brokenWidth (b :: s) - 1) s

def decode8 (s : Bytes) : List Char :=
  decode8From 0 s

/-! ### UTF-16 -/

def isSurrogate (n : Nat) : Bool :=
  0xD800 ≤ n && n < 0xE000

def isTrailing (n : Nat) : Bool :=
  0xDC00 ≤ n && n < 0xE000

/-- The character of two surrogates, the first of which has to be a leading one. -/
def pair (lead trail : Nat) : Char :=
  if isTrailing lead then replacement
  else character (0x10000 + (lead - 0xD800) * 1024 + (trail - 0xDC00))

def decode16 (o : ByteOrder) : Bytes → List Char
  | a :: b :: c :: d :: s =>
    if isSurrogate (o.word a b) && isTrailing (o.word c d) then
      pair (o.word a b) (o.word c d) :: decode16 o s
    else character (o.word a b) :: decode16 o (c :: d :: s)
  | [a, b, _] => [character (o.word a b), replacement]
  | [a, b] => [character (o.word a b)]
  | [_] => [replacement]
  | [] => []

def encode16 (o : ByteOrder) (text : List Char) : Bytes :=
  text.flatMap fun c =>
    let n := c.toNat
    if n < 0x10000 then o.ofWord n
    else o.ofWord (0xD800 + (n - 0x10000) / 1024) ++ o.ofWord (0xDC00 + (n - 0x10000) % 1024)

/-! ### UTF-32 -/

def decode32 (o : ByteOrder) : Bytes → List Char
  | a :: b :: c :: d :: s => character (o.long a b c d) :: decode32 o s
  | [] => []
  | _ => [replacement]

def encode32 (o : ByteOrder) (text : List Char) : Bytes :=
  text.flatMap fun c => o.ofLong c.toNat

/-! ### Forms and their marks -/

inductive Form where
  | utf8
  | utf16 (order : ByteOrder)
  | utf32 (order : ByteOrder)
  deriving Repr, DecidableEq

def Form.mark : Form → Bytes
  | .utf8 => [0xEF, 0xBB, 0xBF]
  | .utf16 .big => [0xFE, 0xFF]
  | .utf16 .little => [0xFF, 0xFE]
  | .utf32 .big => [0x00, 0x00, 0xFE, 0xFF]
  | .utf32 .little => [0xFF, 0xFE, 0x00, 0x00]

/-- All forms, those first whose mark begins with the mark of another. -/
def Form.all : List Form :=
  [.utf8, .utf32 .big, .utf32 .little, .utf16 .big, .utf16 .little]

/-- The form whose mark starts a byte string. -/
def Form.detect? (data : Bytes) : Option Form :=
  Form.all.find? fun f => f.mark.isPrefixOf data

/-- The bytes of a text, without mark. -/
def Form.encode : Form → List Char → Bytes
  | .utf8 => Utf8.encode
  | .utf16 o => encode16 o
  | .utf32 o => encode32 o

inductive Error where
  | missingMark
  /-- The input ends within its mark. -/
  | shortInput
  deriving Repr, DecidableEq

def Error.message : Error → Bytes
  | .missingMark => "encoding: missing byte order mark"
  | .shortInput => "transform: short source buffer"

/-- Reads bytes that begin with a mark.  In UTF-16 and UTF-32 the mark itself decides the order; in
UTF-8 it may be absent. -/
def Form.decode : Form → Bytes → Except Error (List Char)
  | .utf8, data => .ok (decode8 (if (mark .utf8).isPrefixOf data then data.drop 3 else data))
  | .utf16 _, data =>
    if (mark (.utf16 .big)).isPrefixOf data then .ok (decode16 .big (data.drop 2))
    else if (mark (.utf16 .little)).isPrefixOf data then .ok (decode16 .little (data.drop 2))
    else .error .missingMark
  | .utf32 _, data =>
    if (mark (.utf32 .big)).isPrefixOf data then .ok (decode32 .big (data.drop 4))
    else if (mark (.utf32 .little)).isPrefixOf data then .ok (decode32 .little (data.drop 4))
    else if data.isEmpty || 4 ≤ data.length then .error .missingMark
    else .error .shortInput

end Restyle.Unicode
