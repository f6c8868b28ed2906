import Restyle.Yaml.Base64
import Restyle.Yaml.Resolve

/-!
# Writing values

Texts, lists and records in block style, four columns a level.  A text is written plain where it reads
back as the same text, in literal style if it has several lines, and otherwise in the first kind of quotes
that can hold it.
-/

namespace Restyle.Yaml.Printer

/-- Line ends, before they have been made one. -/
def endsLine (c : Char) : Bool :=
  isBreak c || c == '\r' || c == '\u0085'

/-- A character that is written as it is.  Characters beyond the first plane are not. -/
def isShown (c : Char) : Bool :=
  let n := c.toNat
  n == 0x0A || (0x20 ≤ n && n ≤ 0x7E) || (0xA0 ≤ n && n ≤ 0xD7FF)
    || (0xE000 ≤ n && n ≤ 0xFFFD && n != 0xFEFF)

/-- Two characters that satisfy the tests stand next to each other. -/
def hasPair (f g : Char → Bool) : List Char → Bool
  | a :: b :: s => (f a && g b) || hasPair f g (b :: s)
  | _ => false

def isSpace (c : Char) : Bool :=
  c == ' '

/-- The text is over, or goes on with a gap. -/
def gapFollows : List Char → Bool
  | [] => true
  | c :: _ => isGap c

/-- After its first character, the text has one that would not be read as part of a plain scalar. -/
def cutsLater : (afterBlank : Bool) → List Char → Bool
  | _, [] => false
  | afterBlank, c :: s =>
    (c == ':' && gapFollows s) || (c == '#' && afterBlank) || cutsLater (isGap c || endsLine c) s

/-- The text holds what would not be read as part of a plain scalar. -/
def cutsPlain (s : List Char) : Bool :=
  ['-', '-', '-'].isPrefixOf s || ['.', '.', '.'].isPrefixOf s ||
    match s with
    | [] => false
    | c :: t =>
      "#,[]\x7b\x7d&*!|>'\"%@\x60".toList.contains c
        || ((c == '?' || c == ':' || c == '-') && gapFollows t)
        || cutsLater (isGap c || endsLine c) t

def hasSpecial (s : List Char) : Bool :=
  s.any fun c => c != '\t' && !isShown c

/-- A space stands before a line end, or there are characters that cannot be written. -/
def needsEscapes (s : List Char) : Bool :=
  hasPair isSpace endsLine s || hasSpecial s

def edgeIs (f : Char → Bool) (s : List Char) : Bool :=
  s.head?.any f || s.getLast?.any f

def allowsPlain (s : List Char) : Bool :=
  !edgeIs isSpace s && !s.any endsLine && !s.contains '\t' && !hasSpecial s && !cutsPlain s

def allowsSingle (s : List Char) : Bool :=
  !hasPair endsLine isSpace s && !needsEscapes s && !s.contains '\t'

def allowsLiteral (s : List Char) : Bool :=
  !s.getLast?.any isSpace && !needsEscapes s

/-- A number in base sixty, which older readers take for a number. -/
def isSexagesimal (s : List Char) : Bool :=
  let s := (Number.signed s).2
  let isPlace (p : List Char) : Bool :=
    match p with
    | [a] => a.isDigit
    | [a, b] => '0' ≤ a && a ≤ '5' && b.isDigit
    | _ => false
  let (body, fraction) := (s.takeWhile (· != '.'), s.dropWhile (· != '.'))
  let digits (p : List Char) : Bool := p.all fun c => c.isDigit || c == '_'
  match (String.ofList body).splitOn ":" with
  | first :: place :: places =>
    first.toList.head?.any Char.isDigit && digits first.toList
      && (place :: places).all (fun p => isPlace p.toList) && digits (fraction.drop 1)
  | _ => false

/-- Words that older readers take for truth values. -/
def oldWords : List String :=
  ["y", "Y", "yes", "Yes", "YES", "on", "On", "ON", "n", "N", "no", "No", "NO", "off", "Off", "OFF"]

/-- The text, written plain, reads as this text. -/
def readsAsText (s : List Char) : Bool :=
  meaning true s == .text && !isSexagesimal s && !oldWords.any (·.toList == s)

def style (s : List Char) : ScalarStyle :=
  if s.contains '\n' then if allowsLiteral s then .literal else .doubleQuoted
  else if readsAsText s then
    if allowsPlain s then .plain else if allowsSingle s then .singleQuoted else .doubleQuoted
  else .doubleQuoted

/-! ### The styles -/

def upperHex (width n : Nat) : List Char :=
  let ds := (Nat.toDigits 16 n).map Char.toUpper
  List.replicate (width - ds.length) '0' ++ ds

def escape (c : Char) : List Char :=
  match c with
  | '\x00' => ['\\', '0']
  | '\x07' => ['\\', 'a']
  | '\x08' => ['\\', 'b']
  | '\t' => ['\\', 't']
  | '\n' => ['\\', 'n']
  | '\x0b' => ['\\', 'v']
  | '\x0c' => ['\\', 'f']
  | '\r' => ['\\', 'r']
  | '\x1b' => ['\\', 'e']
  | '"' => ['\\', '"']
  | '\\' => ['\\', '\\']
  | '\u0085' => ['\\', 'N']
  | '\u2028' => ['\\', 'L']
  | '\u2029' => ['\\', 'P']
  | c =>
    if isShown c then [c]
    else if c.toNat ≤ 0xFF then '\\' :: 'x' :: upperHex 2 c.toNat
    else if c.toNat ≤ 0xFFFF then '\\' :: 'u' :: upperHex 4 c.toNat
    else '\\' :: 'U' :: upperHex 8 c.toNat

def doubleQuoted (s : List Char) : List Char :=
  '"' :: s.flatMap escape ++ ['"']

/-- Text with the indentation put in at the start of every line that is not empty. -/
def indented (indent : Nat) : (lineStart : Bool) → List Char → List Char
  | _, [] => []
  | lineStart, c :: s =>
    if endsLine c then c :: indented indent true s
    else (if lineStart then List.replicate indent ' ' else []) ++ c :: indented indent false s

def singleQuoted (indent : Nat) (s : List Char) : List Char :=
  let doubled := s.flatMap fun c => if c == '\'' then [c, c] else [c]
  '\'' :: indented indent false doubled ++ ['\'']

/-- The header of a literal scalar: its indentation where that does not show, and how to chomp. -/
def literalHeader (s : List Char) : List Char :=
  let hint := if s.head?.any (fun c => isSpace c || endsLine c) then ['4'] else []
  let chomp := match s.reverse with
    | [] => ['-']
    | [c] => if endsLine c then ['+'] else ['-']
    | c :: d :: _ => if !endsLine c then ['-'] else if endsLine d then ['+'] else []
  '|' :: hint ++ chomp

def literal (indent : Nat) (s : List Char) : List Char :=
  let start := if s.head?.any endsLine then [] else ['\n']
  literalHeader s ++ start ++ indented indent true s

/-- A text in its style.  The lines of a literal scalar are indented by `indent`. -/
def text (indent : Nat) (s : List Char) : List Char :=
  match style s with
  | .plain => s
  | .singleQuoted => singleQuoted indent s
  | .literal => literal indent s
  | _ => doubleQuoted s

/-- Letters of base 64 in lines, if they do not fit on one. -/
def inLines : Nat → List Char → List Char
  | 0, s => s
  | fuel + 1, s => if s.isEmpty then [] else s.take 70 ++ '\n' :: inLines fuel (s.drop 70)

/-- A byte string: as text, or in base 64 under its tag if it is no text. -/
def bytes (indent : Nat) (s : Bytes) : List Char :=
  if Utf8.isValid s then text indent (Utf8.codePoints s)
  else
    let letters := Base64.encode s
    let letters := if letters.length < 70 then letters else inLines letters.length letters
    "!!binary ".toList ++ (if letters.contains '\n' then literal indent letters else letters)

/-! ### Lines of a record -/

/-- Spaces of a level. -/
def margin (level : Nat) : List Char :=
  List.replicate (4 * level) ' '

/-- A line end, unless there is one. -/
def ended (s : List Char) : List Char :=
  if s.getLast?.any endsLine then s else s ++ ['\n']

/-- A field with its value on the same line. -/
def field (level : Nat) (name : String) (value : List Char) : List Char :=
  ended (margin level ++ name.toList ++ [':', ' '] ++ value)

def textField (level : Nat) (name : String) (value : Bytes) : List Char :=
  field level name (bytes (4 * (level + 1)) value)

/-- A field that is left out if it is empty. -/
def optionalField (level : Nat) (name : String) (value : Bytes) : List Char :=
  if value.isEmpty then [] else textField level name value

def flagField (level : Nat) (name : String) (value : Bool) : List Char :=
  field level name (if value then "true" else "false").toList

/-- The line above the fields of a record or the items of a list. -/
def head (level : Nat) (name : String) : List Char :=
  margin level ++ name.toList ++ [':', '\n']

def listField (level : Nat) (name : String) (values : List Bytes) : List Char :=
  if values.isEmpty then field level name ['[', ']']
  else
    head level name ++ values.flatMap fun v =>
      ended (margin (level + 1) ++ ['-', ' '] ++ bytes (4 * (level + 1) + 2) v)

end Restyle.Yaml.Printer
