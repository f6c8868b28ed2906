import Restyle.Encoding.Unicode

/-!
# The characters of a YAML stream

A stream is UTF-8, or UTF-16 with a byte order mark.  Unlike a stylesheet it has to be well formed, and
most control characters are not allowed in it.  The three ways to end a line are read as one.
-/

namespace Restyle.Yaml

def isBreak (c : Char) : Bool :=
  c == '\n' || c == '\u2028' || c == '\u2029'

/-- A space or a tab. -/
def isGap (c : Char) : Bool :=
  c == ' ' || c == '\t'

def isAllowed (c : Char) : Bool :=
  let n := c.toNat
  n == 0x09 || n == 0x0A || n == 0x0D || (0x20 ≤ n && n ≤ 0x7E) || n == 0x85
    || (0xA0 ≤ n && n ≤ 0xD7FF) || (0xE000 ≤ n && n ≤ 0xFFFD) || 0x10000 ≤ n

/-- Line ends as line feeds. -/
def unifyBreaks : List Char → List Char
  | '\r' :: '\n' :: s => '\n' :: unifyBreaks s
  | c :: s => (if c == '\r' || c == '\u0085' then '\n' else c) :: unifyBreaks s
  | [] => []

/-- UTF-16 without unpaired surrogates. -/
def strict16? (o : Unicode.ByteOrder) : Bytes → Option (List Char)
  | a :: b :: c :: d :: s =>
    let x := o.word a b
    if !Unicode.isSurrogate x then
      (strict16? o (c :: d :: s)).map (Unicode.character x :: ·)
    else if Unicode.isTrailing x || !Unicode.isTrailing (o.word c d) then none
    else (strict16? o s).map (Unicode.pair x (o.word c d) :: ·)
  | [a, b] => if Unicode.isSurrogate (o.word a b) then none else some [Unicode.character (o.word a b)]
  | [] => some []
  | _ => none

def characters? (data : Bytes) : Option (List Char) :=
  match data with
  | 0xFF :: 0xFE :: s => strict16? .little s
  | 0xFE :: 0xFF :: s => strict16? .big s
  | 0xEF :: 0xBB :: 0xBF :: s => if Utf8.isValid s then some (Utf8.codePoints s) else none
  | s => if Utf8.isValid s then some (Utf8.codePoints s) else none

/-- The characters of a stream, if it is well formed. -/
def source? (data : Bytes) : Option (List Char) := do
  let text ← characters? data
  if text.all isAllowed then some (unifyBreaks text) else none

/-! ### Positions -/

structure Pos where
  index : Nat := 0
  line : Nat := 0
  column : Nat := 0
  deriving Repr, DecidableEq

def Pos.next (p : Pos) (c : Char) : Pos :=
  if isBreak c then ⟨p.index + 1, p.line + 1, 0⟩ else ⟨p.index + 1, p.line, p.column + 1⟩

/-- What is left of the stream, and where it begins. -/
structure Cursor where
  pos : Pos
  rest : List Char
  deriving Repr, DecidableEq

namespace Cursor

/-- Past so many characters. -/
def skip : Nat → Cursor → Cursor
  | n + 1, ⟨p, c :: s⟩ => skip n ⟨p.next c, s⟩
  | _, k => k

def skipWhileFrom (f : Char → Bool) (p : Pos) : List Char → Cursor
  | [] => ⟨p, []⟩
  | c :: s => if f c then skipWhileFrom f (p.next c) s else ⟨p, c :: s⟩

def skipWhile (f : Char → Bool) (k : Cursor) : Cursor :=
  skipWhileFrom f k.pos k.rest

/-- The characters up to the first that is not in the class, and the cursor there. -/
def takeWhile (f : Char → Bool) (k : Cursor) : List Char × Cursor :=
  (k.rest.takeWhile f, k.skipWhile f)

end Cursor

/-! ### What stands at the head of a text -/

/-- The text begins with a gap or a line end, or is over. -/
def startsBlank : List Char → Bool
  | [] => true
  | c :: _ => isGap c || isBreak c

/-- The text begins with a line end, or is over. -/
def startsBreak : List Char → Bool
  | [] => true
  | c :: _ => isBreak c

/-- The text begins with a line that ends or starts a document. -/
def startsDocumentMark (s : List Char) : Bool :=
  (['-', '-', '-'].isPrefixOf s || ['.', '.', '.'].isPrefixOf s) && startsBlank (s.drop 3)

/-- A letter, a digit, a hyphen or an underscore. -/
def isNameChar (c : Char) : Bool :=
  c.isAlphanum || c == '-' || c == '_'

end Restyle.Yaml
