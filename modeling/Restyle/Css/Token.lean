import Restyle.Css.Edit

/-!
# Tokens of a stylesheet

The lexer of the CSS grammar.  It reads bytes, each shown as the character of the same number, and
every byte from 0x80 on may stand in a name.  `tokens` cuts a whole text; a token keeps of its text
only what the grammar asks for.
-/

namespace Restyle.Css

inductive Token where
  | blank
  | comment
  | colon
  | semicolon
  /-- A parenthesis, bracket or the name of a function: it has to be closed. -/
  | opening
  | closing
  | leftBrace
  | rightBrace
  | ident
  | atKeyword (name : List Char)
  /-- A name that starts with two hyphens. -/
  | customName
  /-- `<!--` and `-->`. -/
  | markupComment
  | delim (c : Char)
  /-- Strings, numbers, urls and the rest of what only fills values. -/
  | other
  deriving Repr, DecidableEq

namespace Token

def isSpace (c : Char) : Bool :=
  c == ' ' || c == '\t' || c == '\n' || c == '\r' || c == '\x0c'

def isNewline (c : Char) : Bool :=
  c == '\n' || c == '\r' || c == '\x0c'

def isHex (c : Char) : Bool :=
  c.isDigit || ('a' ≤ c && c ≤ 'f') || ('A' ≤ c && c ≤ 'F')

def isNameStart (c : Char) : Bool :=
  c.isAlpha || c == '_' || 0x80 ≤ c.toNat

def isNamePart (c : Char) : Bool :=
  isNameStart c || c.isDigit || c == '-'

/-- The number of bytes of the code point after a backslash, judged by its first byte; a zero byte
and the end cut it short. -/
def codePointWidth (c : Char) (s : List Char) : Nat :=
  let present (i : Nat) := match s[i]? with
    | some d => d.toNat != 0
    | none => false
  if c.toNat < 0xC0 || !present 0 then 1
  else if c.toNat < 0xE0 || !present 1 then 2
  else if c.toNat < 0xF0 || !present 2 then 3
  else 4

/-- How many of the first `n` characters, from the start on, are of a class. -/
def leading (p : Char → Bool) (n : Nat) (s : List Char) : Nat :=
  ((s.take n).takeWhile p).length

/-- The text after an escape: a backslash, then up to six hexadecimal digits and one white space, or
any one code point that is no line break. -/
def escape? : List Char → Option (List Char)
  | '\\' :: c :: s =>
    if isNewline c then none
    else if isHex c then
      match s.drop (leading isHex 5 s) with
      | d :: t => some (if isSpace d then t else d :: t)
      | [] => some []
    else some (s.drop (codePointWidth c s - 1))
  | _ => none

/-- The text after the rest of a name, passing over the first `skip` characters: those of the last
escape. -/
def nameRest (skip : Nat) : List Char → List Char
  | [] => []
  | c :: s =>
    match skip with
    | k + 1 => nameRest k s
    | 0 =>
      if isNamePart c then nameRest 0 s
      else match escape? (c :: s) with
        | some t => nameRest (s.length - t.length) s
        | none => c :: s

/-- The text after one character of a name. -/
def namePart? (first : Char → Bool) (s : List Char) : Option (List Char) :=
  match s with
  | c :: t => if first c then some t else escape? s
  | [] => none

/-- The text after an identifier. -/
def ident? (s : List Char) : Option (List Char) :=
  let t := match s with
    | '-' :: t => t
    | _ => s
  (namePart? isNameStart t).map (nameRest 0)

/-- The text after `#` and a name. -/
def hash? : List Char → Option (List Char)
  | '#' :: s => (namePart? isNamePart s).map (nameRest 0)
  | _ => none

/-- The text after a name that starts with two hyphens; it may be the hyphens alone. -/
def customName? : List Char → Option (List Char)
  | '-' :: '-' :: s => some (nameRest 0 s)
  | _ => none

def digits? (s : List Char) : Option (List Char) :=
  match s with
  | c :: t => if c.isDigit then some (t.dropWhile Char.isDigit) else none
  | [] => none

/-- The text after a sign that may be there. -/
def sign (s : List Char) : List Char :=
  match s with
  | c :: t => if c == '+' || c == '-' then t else s
  | [] => s

/-- The text after a point and digits. -/
def fraction? : List Char → Option (List Char)
  | '.' :: t => digits? t
  | _ => none

/-- The text after digits with a point among them or before them. -/
def mantissa? (s : List Char) : Option (List Char) :=
  match digits? s with
  | some t => some ((fraction? t).getD t)
  | none => fraction? s

/-- The text after an exponent that may be there. -/
def exponent (s : List Char) : List Char :=
  match s with
  | c :: t => if c == 'e' || c == 'E' then (digits? (sign t)).getD s else s
  | [] => s

/-- The text after a number without its unit. -/
def number? (s : List Char) : Option (List Char) :=
  (mantissa? (sign s)).map exponent

/-- The text after a number with its unit or percent sign. -/
def numeric? (s : List Char) : Option (List Char) :=
  (number? s).map fun t =>
    match t with
    | '%' :: u => u
    | _ => (ident? t).getD t

/-- The text after a string whose opening quote has been read.  A line break ends it, and it is then
bad.  `skip` characters, those of the last escape, are passed over. -/
def stringRest (quote : Char) (skip : Nat) : List Char → Bool × List Char
  | [] => (true, [])
  | c :: s =>
    match skip with
    | k + 1 => stringRest quote k s
    | 0 =>
      if isNewline c then (false, s)
      else if c == quote then (true, s)
      else if c == '\\' then
        match escape? (c :: s) with
        | some t => stringRest quote (s.length - t.length) s
        | none =>
          match s with
          | '\r' :: '\n' :: _ => stringRest quote 2 s
          | _ => stringRest quote 1 s
      else stringRest quote 0 s

/-- The text after what is left of a bad url. -/
def badUrlRest (skip : Nat) : List Char → List Char
  | [] => []
  | c :: s =>
    match skip with
    | k + 1 => badUrlRest k s
    | 0 =>
      if c == ')' then s
      else match escape? (c :: s) with
        | some t => badUrlRest (s.length - t.length) s
        | none => badUrlRest 0 s

/-- The text from which an unquoted url does not go on, and whether it may end there. -/
def unquotedUrl (skip : Nat) : List Char → Bool × List Char
  | [] => (true, [])
  | c :: s =>
    match skip with
    | k + 1 => unquotedUrl k s
    | 0 =>
      if c == ')' then (true, c :: s)
      else if c == '\\' then
        match escape? (c :: s) with
        | some t => unquotedUrl (s.length - t.length) s
        | none => (false, c :: s)
      else if c == '"' || c == '\'' || c == '(' || c == ' ' || c.toNat ≤ 0x1F || c.toNat == 0x7F then
        (false, c :: s)
      else unquotedUrl 0 s

/-- The text after the white space and the parenthesis that close a url. -/
def urlEnd (s : List Char) : List Char :=
  match s.dropWhile isSpace with
  | [] => []
  | ')' :: t => t
  | t => badUrlRest 0 t

/-- The text after a url whose opening parenthesis has been read. -/
def urlRest (s : List Char) : List Char :=
  match s.dropWhile isSpace with
  | c :: t =>
    if c == '"' || c == '\'' then
      match stringRest c 0 t with
      | (true, u) => urlEnd u
      | (false, u) => badUrlRest 0 u
    else
      match unquotedUrl 0 (c :: t) with
      | (true, u) => urlEnd u
      | (false, d :: u) => if isSpace d then urlEnd u else badUrlRest 0 (d :: u)
      | (false, []) => []
  | [] => []

/-- `url`, in any case and with any backslashes. -/
def isUrlName (name : List Char) : Bool :=
  (name.filter (· != '\\')).map Char.toLower == ['u', 'r', 'l']

/-- The function or url of a name whose opening parenthesis has been read. -/
def call (name s : List Char) : Token × List Char :=
  if isUrlName name then (.other, urlRest s) else (.opening, s)

/-- An identifier, or the function or url whose name it is. -/
def identLike? (s : List Char) : Option (Token × List Char) :=
  (ident? s).map fun t =>
    match after? ['('] t with
    | some u => call (s.take (s.length - t.length)) u
    | none => (.ident, t)

/-- The text after what follows `U+` in a range of code points: two numbers, or a number whose last
digits may be question marks. -/
def codePointRange? (s : List Char) : Option (List Char) :=
  let first := leading isHex 6 s
  let t := s.drop first
  match after? ['-'] t with
  | some u =>
    let last := leading isHex 6 u
    if first == 0 || last == 0 then none else some (u.drop last)
  | none =>
    let marks := leading (· == '?') (6 - min first 5) t
    if first + marks == 0 then none else some (t.drop marks)

/-- The text after `U+` and a range of code points. -/
def unicodeRange? : List Char → Option (List Char)
  | u :: '+' :: s => if u == 'u' || u == 'U' then codePointRange? s else none
  | _ => none

/-- The text after a comment whose start has been read. -/
def commentRest : List Char → List Char
  | [] => []
  | '*' :: '/' :: s => s
  | _ :: s => commentRest s

/-- The token `t` for a text that a reader accepts. -/
def taking (t : Token) (read? : List Char → Option (List Char)) : Pattern Token := fun s =>
  (read? s).map fun u => (t, u)

/-- The token `t` for a text that starts with `p`. -/
def exactly (p : List Char) (t : Token) : Pattern Token :=
  taking t (after? p)

def blank? : Pattern Token := fun s =>
  some (.blank, s.dropWhile isSpace)

def string? : Pattern Token
  | quote :: s => some (.other, (stringRest quote 0 s).2)
  | [] => none

def atKeyword? : Pattern Token
  | '@' :: s =>
    ((ident? s).or (customName? s)).map fun t => (.atKeyword (s.take (s.length - t.length)), t)
  | _ => none

def comment? : Pattern Token
  | '/' :: '*' :: s => some (.comment, commentRest s)
  | _ => none

/-- The tokens that a text whose first character is `c` may start with, in the order of trial. -/
def recognisers (c : Char) : List (Pattern Token) :=
  if isSpace c then [blank?]
  else match c with
    | ':' => [exactly [c] .colon]
    | ';' => [exactly [c] .semicolon]
    | ',' => [exactly [c] .other]
    | '(' | '[' => [exactly [c] .opening]
    | ')' | ']' => [exactly [c] .closing]
    | '{' => [exactly [c] .leftBrace]
    | '}' => [exactly [c] .rightBrace]
    | '#' => [taking .other hash?]
    | '"' | '\'' => [string?]
    | '.' | '+' => [taking .other numeric?]
    | '-' =>
      [taking .other numeric?, identLike?, exactly ['-', '-', '>'] .markupComment,
        taking .customName customName?]
    | '@' => [atKeyword?]
    | '$' | '*' | '^' | '~' => [exactly [c, '='] .other]
    | '|' => [exactly ['|', '='] .other, exactly ['|', '|'] .other]
    | '/' => [comment?]
    | '<' => [exactly ['<', '!', '-', '-'] .markupComment]
    | '\\' => [identLike?]
    | 'u' | 'U' => [taking .other unicodeRange?, identLike?]
    | _ => [taking .other numeric?, identLike?]

/-- The first token of a text that is not empty, and the text after it. -/
def next (c : Char) (s : List Char) : Token × List Char :=
  ((recognisers c).findSome? (· (c :: s))).getD (.delim c, s)

/-- The first `count` tokens of a text. -/
def first : Nat → List Char → List Token
  | 0, _ => []
  | _, [] => []
  | count + 1, c :: s =>
    let (t, rest) := next c s
    t :: first count rest

end Token

/-- The tokens of a text.  A token takes a byte or more, so there are no more tokens than bytes. -/
def tokens (doc : Bytes) : List Token :=
  Token.first doc.length (doc.map fun b => Char.ofNat b.toNat)

end Restyle.Css
