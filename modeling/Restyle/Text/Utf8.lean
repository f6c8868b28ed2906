/-!
# Byte strings and their code points

Documents, file names and messages are byte strings, which need not be valid UTF-8.  A text is a
list of characters.  `encode` writes a text as bytes and `symbols` reads bytes as symbols, each a
character or a *stray* byte that begins no character; `codePoints` shows every stray byte as the
replacement character.
-/

namespace Restyle

abbrev Bytes := List UInt8

namespace Utf8

/-- The bytes of one character. -/
def encodeChar (c : Char) : Bytes :=
  let n := c.toNat
  if n < 0x80 then [UInt8.ofNat n]
  else if n < 0x800 then [UInt8.ofNat (0xC0 + n / 64), UInt8.ofNat (0x80 + n % 64)]
  else if n < 0x10000 then
    [UInt8.ofNat (0xE0 + n / 4096), UInt8.ofNat (0x80 + n / 64 % 64), UInt8.ofNat (0x80 + n % 64)]
  else
    [UInt8.ofNat (0xF0 + n / 262144), UInt8.ofNat (0x80 + n / 4096 % 64),
      UInt8.ofNat (0x80 + n / 64 % 64), UInt8.ofNat (0x80 + n % 64)]

def encode (text : List Char) : Bytes :=
  text.flatMap encodeChar

/-- The six bits that a continuation byte carries. -/
def continuation? (b : UInt8) : Option Nat :=
  if 0x80 ≤ b.toNat ∧ b.toNat < 0xC0 then some (b.toNat - 0x80) else none

/-- The character that starts a byte string, with the number of bytes it takes.  Overlong forms,
surrogates and numbers beyond U+10FFFF start no character. -/
def decodeChar? : Bytes → Option (Char × Nat)
  | [] => none
  | a :: s =>
    let n := a.toNat
    if n < 0x80 then some (Char.ofNat n, 1)
    else if n < 0xC2 then none
    else if n < 0xE0 then
      match s with
      | b :: _ => do
        let x ← continuation? b
        some (Char.ofNat ((n - 0xC0) * 64 + x), 2)
      | [] => none
    else if n < 0xF0 then
      match s with
      | b :: c :: _ => do
        let x ← continuation? b
        let y ← continuation? c
        let v := ((n - 0xE0) * 64 + x) * 64 + y
        if v < 0x800 ∨ (0xD800 ≤ v ∧ v < 0xE000) then none else some (Char.ofNat v, 3)
      | _ => none
    else if n < 0xF5 then
      match s with
      | b :: c :: d :: _ => do
        let x ← continuation? b
        let y ← continuation? c
        let z ← continuation? d
        let v := (((n - 0xF0) * 64 + x) * 64 + y) * 64 + z
        if v < 0x10000 ∨ 0x110000 ≤ v then none else some (Char.ofNat v, 4)
      | _ => none
    else none

/-- The character shown in place of what cannot be read. -/
def replacement : Char := '�'

inductive Symbol where
  | char (c : Char)
  | stray (b : UInt8)
  deriving Repr, DecidableEq

def Symbol.shown : Symbol → Char
  | .char c => c
  | .stray _ => replacement

/-- Reads symbols, passing over the first `skip` bytes: those that the last character took. -/
def symbolsFrom (skip : Nat) : Bytes → List Symbol
  | [] => []
  | b :: s =>
    match skip with
    | k + 1 => symbolsFrom k s
    | 0 =>
      match decodeChar? (b :: s) with
      | some (c, width) => .char c :: symbolsFrom (width - 1) s
      | none => .stray b :: symbolsFrom 0 s

/-- A byte string as the characters it holds and the stray bytes between them. -/
def symbols (s : Bytes) : List Symbol :=
  symbolsFrom 0 s

/-- The code points of a byte string, a stray byte counting as one replacement character. -/
def codePoints (s : Bytes) : List Char :=
  (symbols s).map Symbol.shown

/-- A byte string in which every stray byte is replaced. -/
def sanitize (s : Bytes) : Bytes :=
  encode (codePoints s)

def isValid (s : Bytes) : Bool :=
  (symbols s).all fun
    | .char _ => true
    | .stray _ => false

end Utf8

/-- A literal text stands for its bytes. -/
instance : Coe String Bytes := ⟨fun s => Utf8.encode s.toList⟩

/-- The decimal digits of a number, as they stand in messages. -/
def decimal (n : Nat) : Bytes :=
  (Nat.toDigits 10 n : List Char) |> Utf8.encode

end Restyle
