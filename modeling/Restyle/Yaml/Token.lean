import Restyle.Yaml.Scalar

/-!
# Tokens

A YAML stream as tokens.  The start of a block is not written: it shows in the column of its first entry,
and its end in a column further left.  A key need not be marked either: whether a scalar is one is known
only when a colon follows, so its mark is put in front of it then.  A key that is recognised this way, a
*simple* key, stays on one line and is not longer than 1024 characters.
-/

namespace Restyle.Yaml

inductive ScalarStyle where
  | plain
  | singleQuoted
  | doubleQuoted
  | literal
  | folded
  deriving Repr, DecidableEq

inductive Token.Kind where
  | streamStart
  | streamEnd
  | version (major minor : Nat)
  | tagDirective (handle uri : List Char)
  | documentStart
  | documentEnd
  | blockSequenceStart
  | blockMappingStart
  | blockEnd
  | flowSequenceStart
  | flowSequenceEnd
  | flowMappingStart
  | flowMappingEnd
  | blockEntry
  | flowEntry
  | key
  | value
  | reference (name : List Char)
  | anchor (name : List Char)
  | tag (handle rest : List Char)
  | scalar (text : List Char) (style : ScalarStyle)
  deriving Repr, DecidableEq

structure Token where
  kind : Token.Kind
  /-- The line it begins on, counted from zero. -/
  line : Nat
  deriving Repr, DecidableEq

/-- A token that may turn out to begin a key. -/
structure SimpleKey where
  /-- At this place of a block nothing but a key can stand. -/
  required : Bool
  /-- The number of tokens before it. -/
  number : Nat
  pos : Pos
  deriving Repr, DecidableEq

structure Scanner where
  cursor : Cursor
  /-- The tokens found, last first, and how many they are. -/
  tokens : List Token
  count : Nat
  /-- The column of the innermost block, and of those around it. -/
  indent : Int
  indents : List Int
  /-- The key that may have begun, for every flow collection that is open and for the block. -/
  keys : List (Option SimpleKey)
  /-- A simple key may begin here. -/
  keyAllowed : Bool
  deriving Repr, DecidableEq

namespace Scanner

def start (text : List Char) : Scanner where
  cursor := ⟨{}, text⟩
  tokens := [⟨.streamStart, 0⟩]
  count := 1
  indent := -1
  indents := []
  keys := [none]
  keyAllowed := true

def inFlow (s : Scanner) : Bool :=
  1 < s.keys.length

def column (s : Scanner) : Int :=
  s.cursor.pos.column

def emit (s : Scanner) (kind : Token.Kind) (line : Nat) : Scanner :=
  { s with tokens := ⟨kind, line⟩ :: s.tokens, count := s.count + 1 }

/-- Puts a token after the first `number` tokens. -/
def insert (s : Scanner) (number : Nat) (kind : Token.Kind) (line : Nat) : Scanner :=
  let later := s.count - number
  { s with
    tokens := s.tokens.take later ++ ⟨kind, line⟩ :: s.tokens.drop later
    count := s.count + 1 }

/-! ### Blocks -/

/-- Ends the blocks that stand to the right of a column. -/
def unrollFrom (column : Int) (line : Nat) : List Int → Scanner → Scanner
  | [], s => s
  | outer :: indents, s =>
    if column < s.indent then
      unrollFrom column line indents
        ({ s with indent := outer, indents := indents }.emit .blockEnd line)
    else s

def unroll (s : Scanner) (column : Int) : Scanner :=
  if s.inFlow then s else unrollFrom column s.cursor.pos.line s.indents s

/-- Begins a block at a column further right, its mark after the first `number` tokens. -/
def roll (s : Scanner) (column : Int) (number : Nat) (kind : Token.Kind) (line : Nat) : Scanner :=
  if !s.inFlow && s.indent < column then
    { s with indent := column, indents := s.indent :: s.indents }.insert number kind line
  else s

/-! ### Simple keys -/

/-- Gives up the key that may have begun.  There has to be none where a key is required. -/
def dropKey (s : Scanner) : Option Scanner :=
  match s.keys with
  | some k :: keys => if k.required then none else some { s with keys := none :: keys }
  | _ => some s

/-- Notes that a key may begin here. -/
def saveKey (s : Scanner) : Option Scanner :=
  if s.keyAllowed then do
    let s ← s.dropKey
    let key : SimpleKey := ⟨!s.inFlow && s.indent == s.column, s.count, s.cursor.pos⟩
    some { s with keys := some key :: s.keys.tail }
  else some s

def SimpleKey.isStale (k : SimpleKey) (p : Pos) : Bool :=
  k.pos.line < p.line || k.pos.index + 1024 < p.index

/-- The key before the colon at the cursor, if there is one. -/
def simpleKey? (s : Scanner) : Option (Option SimpleKey) :=
  match s.keys with
  | some k :: _ =>
    if SimpleKey.isStale k s.cursor.pos then if k.required then none else some none
    else some (some k)
  | _ => some none

/-! ### Tokens of one or a few characters -/

def mark (s : Scanner) (kind : Token.Kind) (width : Nat) : Scanner :=
  let line := s.cursor.pos.line
  { s with cursor := s.cursor.skip width }.emit kind line

def documentMark (s : Scanner) (kind : Token.Kind) : Option Scanner := do
  let s ← (s.unroll (-1)).dropKey
  some ({ s with keyAllowed := false }.mark kind 3)

def openFlow (s : Scanner) (kind : Token.Kind) : Option Scanner := do
  let s ← s.saveKey
  some ({ s with keys := none :: s.keys, keyAllowed := true }.mark kind 1)

def closeFlow (s : Scanner) (kind : Token.Kind) : Option Scanner := do
  let s ← s.dropKey
  let keys := if s.inFlow then s.keys.tail else s.keys
  some ({ s with keys := keys, keyAllowed := false }.mark kind 1)

def flowEntry (s : Scanner) : Option Scanner := do
  let s ← s.dropKey
  some ({ s with keyAllowed := true }.mark .flowEntry 1)

def blockEntry (s : Scanner) : Option Scanner :=
  if !s.inFlow && !s.keyAllowed then none
  else do
    let s := s.roll s.column s.count .blockSequenceStart s.cursor.pos.line
    let s ← s.dropKey
    some ({ s with keyAllowed := true }.mark .blockEntry 1)

def explicitKey (s : Scanner) : Option Scanner :=
  if !s.inFlow && !s.keyAllowed then none
  else do
    let s := s.roll s.column s.count .blockMappingStart s.cursor.pos.line
    let s ← s.dropKey
    some ({ s with keyAllowed := !s.inFlow }.mark .key 1)

def colon (s : Scanner) : Option Scanner := do
  match ← s.simpleKey? with
  | some k =>
    let s := s.insert k.number .key k.pos.line
    let s := s.roll k.pos.column k.number .blockMappingStart k.pos.line
    some ({ s with keys := none :: s.keys.tail, keyAllowed := false }.mark .value 1)
  | none =>
    if !s.inFlow && !s.keyAllowed then none
    else
      let s := s.roll s.column s.count .blockMappingStart s.cursor.pos.line
      some ({ s with keyAllowed := !s.inFlow }.mark .value 1)

/-! ### Anchors, tags and directives -/

def anchor (s : Scanner) (kind : List Char → Token.Kind) : Option Scanner := do
  let s ← s.saveKey
  let line := s.cursor.pos.line
  let (name, k) := (s.cursor.skip 1).takeWhile isNameChar
  let ended := startsBlank k.rest || match k.rest with
    | c :: _ => "?:,]\x7d%@\x60".toList.contains c
    | [] => true
  if name.isEmpty || !ended then none
  else some ({ s with cursor := k, keyAllowed := false }.emit (kind name) line)

def isUriChar (c : Char) : Bool :=
  isNameChar c || ";/?:@&=+$.,!~*'()[]".toList.contains c

/-- A percent-escaped character: its first byte tells how many bytes there are. -/
def uriEscape? (s : List Char) : Option (Char × Nat) := do
  let byte (s : List Char) : Option UInt8 := do
    if s.head? == some '%' then (hexNumber? 2 (s.drop 1)).map UInt8.ofNat else none
  let first ← byte s
  let width := if first < 0x80 then 1 else if first < 0xE0 then 2 else if first < 0xF0 then 3 else 4
  let bytes ← (List.range width).mapM fun i => byte (s.drop (3 * i))
  match Utf8.decodeChar? bytes with
  | some (c, n) => if n == width then some (c, 3 * width) else none
  | none => none

/-- The characters of a tag or of its prefix. -/
def uri : Nat → Cursor → Option (List Char × Cursor)
  | 0, _ => none
  | fuel + 1, k =>
    match k.rest with
    | '%' :: _ => do
      let (c, n) ← uriEscape? k.rest
      let (cs, k) ← uri fuel (k.skip n)
      some (c :: cs, k)
    | c :: _ =>
      if isUriChar c then do
        let (cs, k) ← uri fuel (k.skip 1)
        some (c :: cs, k)
      else some ([], k)
    | [] => some ([], k)

def uri? (k : Cursor) : Option (List Char × Cursor) :=
  uri (k.rest.length + 1) k

/-- A handle, or what begins like one: an exclamation mark, a name and perhaps another mark. -/
def handle? (k : Cursor) : Option (List Char × Cursor) :=
  match k.rest with
  | '!' :: _ =>
    let (name, k) := (k.skip 1).takeWhile isNameChar
    if k.rest.head? == some '!' then some ('!' :: name ++ ['!'], k.skip 1) else some ('!' :: name, k)
  | _ => none

/-- Handle and rest of a tag. -/
def tagParts? (k : Cursor) : Option (List Char × List Char × Cursor) :=
  match k.rest with
  | '!' :: '<' :: _ => do
    let (rest, k) ← uri? (k.skip 2)
    if rest.isEmpty || k.rest.head? != some '>' then none else some ([], rest, k.skip 1)
  | _ => do
    let (handle, k) ← handle? k
    let (rest, k) ← uri? k
    if 1 < handle.length && handle.getLast? == some '!' then
      if rest.isEmpty then none else some (handle, rest, k)
    else
      let rest := handle.tail ++ rest
      if rest.isEmpty then some ([], ['!'], k) else some (['!'], rest, k)

def tag (s : Scanner) : Option Scanner := do
  let s ← s.saveKey
  let line := s.cursor.pos.line
  let (handle, rest, k) ← tagParts? s.cursor
  if startsBlank k.rest then
    some ({ s with cursor := k, keyAllowed := false }.emit (.tag handle rest) line)
  else none

def digits? (k : Cursor) : Option (Nat × Cursor) :=
  let (ds, k) := k.takeWhile Char.isDigit
  if ds.isEmpty || 2 < ds.length then none
  else some (ds.foldl (fun n c => n * 10 + (c.toNat - 48)) 0, k)

def directiveValue? (name : List Char) (k : Cursor) : Option (Token.Kind × Cursor) :=
  if name == "YAML".toList then do
    let (major, k) ← digits? (k.skipWhile isGap)
    if k.rest.head? != some '.' then none
    let (minor, k) ← digits? (k.skip 1)
    some (.version major minor, k)
  else if name == "TAG".toList then do
    let (handle, k) ← handle? (k.skipWhile isGap)
    if handle.getLast? != some '!' then none
    match k.rest with
    | c :: _ => if !isGap c then none
    | [] => none
    let (rest, k) ← uri? (k.skipWhile isGap)
    if rest.isEmpty || !startsBlank k.rest then none
    some (.tagDirective handle rest, k)
  else none

def directive (s : Scanner) : Option Scanner := do
  let s ← (s.unroll (-1)).dropKey
  let line := s.cursor.pos.line
  let (name, k) := (s.cursor.skip 1).takeWhile isNameChar
  if name.isEmpty || !startsBlank k.rest then none
  let (kind, k) ← directiveValue? name k
  let k := k.skipWhile isGap
  let k := if k.rest.head? == some '#' then k.skipWhile (!isBreak ·) else k
  if !startsBreak k.rest then none
  some ({ s with cursor := k.skip 1, keyAllowed := false }.emit kind line)

/-! ### Scalars -/

def blockScalar (s : Scanner) (style : ScalarStyle) : Option Scanner := do
  let s ← s.dropKey
  let line := s.cursor.pos.line
  let (text, k) ← block? (style == .literal) s.indent s.cursor
  some ({ s with cursor := k, keyAllowed := true }.emit (.scalar text style) line)

def quotedScalar (s : Scanner) (style : ScalarStyle) : Option Scanner := do
  let s ← s.saveKey
  let line := s.cursor.pos.line
  let (text, k) ← quoted? (style == .doubleQuoted) s.cursor
  some ({ s with cursor := k, keyAllowed := false }.emit (.scalar text style) line)

def plainScalar (s : Scanner) : Option Scanner := do
  let s ← s.saveKey
  let line := s.cursor.pos.line
  let (text, k, broken) ← plain? s.inFlow (s.indent + 1) s.cursor
  some ({ s with cursor := k, keyAllowed := broken }.emit (.scalar text .plain) line)

/-! ### The stream -/

/-- Passes over gaps, comments and line ends.  A tab is a gap only where no key may begin. -/
def skipBlank : Nat → Scanner → Scanner
  | 0, s => s
  | fuel + 1, s =>
    let tabs := s.inFlow || !s.keyAllowed
    let k := s.cursor
    let k := if k.pos.column == 0 && k.rest.head? == some '\ufeff' then k.skip 1 else k
    let k := k.skipWhile fun c => c == ' ' || (tabs && c == '\t')
    let k := if k.rest.head? == some '#' then k.skipWhile (!isBreak ·) else k
    match k.rest with
    | c :: _ =>
      if isBreak c then
        skipBlank fuel { s with cursor := k.skip 1, keyAllowed := s.keyAllowed || !s.inFlow }
      else { s with cursor := k }
    | [] => { s with cursor := k }

/-- Characters that begin no plain scalar. -/
def isIndicator (c : Char) : Bool :=
  "-?:,[]\x7b\x7d#&*!|>'\"%@\x60".toList.contains c

def startsPlain (flow : Bool) : List Char → Bool
  | [] => false
  | c :: s =>
    (!isGap c && !isBreak c && !isIndicator c)
      || (c == '-' && !(match s with | d :: _ => isGap d | [] => false))
      || (!flow && (c == '?' || c == ':') && !startsBlank s)

/-- The next token, and those that come with it. -/
def next (s : Scanner) : Option Scanner :=
  match s.cursor.rest with
  | [] => do
    let s := { s with cursor := { s.cursor with pos := { s.cursor.pos with
      line := if s.cursor.pos.column == 0 then s.cursor.pos.line else s.cursor.pos.line + 1
      column := 0 } } }
    let s ← (s.unroll (-1)).dropKey
    some ({ s with keyAllowed := false }.emit .streamEnd s.cursor.pos.line)
  | c :: rest =>
    let first := s.cursor.pos.column == 0
    if first && c == '%' then s.directive
    else if first && startsDocumentMark (c :: rest) then
      s.documentMark (if c == '-' then .documentStart else .documentEnd)
    else if c == '[' then s.openFlow .flowSequenceStart
    else if c == '{' then s.openFlow .flowMappingStart
    else if c == ']' then s.closeFlow .flowSequenceEnd
    else if c == '}' then s.closeFlow .flowMappingEnd
    else if c == ',' then s.flowEntry
    else if c == '-' && startsBlank rest then s.blockEntry
    else if c == '?' && (s.inFlow || startsBlank rest) then s.explicitKey
    else if c == ':' && (s.inFlow || startsBlank rest) then s.colon
    else if c == '*' then s.anchor .reference
    else if c == '&' then s.anchor .anchor
    else if c == '!' then s.tag
    else if c == '|' && !s.inFlow then s.blockScalar .literal
    else if c == '>' && !s.inFlow then s.blockScalar .folded
    else if c == '\'' then s.quotedScalar .singleQuoted
    else if c == '"' then s.quotedScalar .doubleQuoted
    else if startsPlain s.inFlow (c :: rest) then s.plainScalar
    else none

/-- Tokens up to the end of the stream or to the first fault, last first. -/
def run : Nat → Scanner → List Token × Bool
  | 0, s => (s.tokens, false)
  | fuel + 1, s =>
    let ready := skipBlank (s.cursor.rest.length + 1) s
    let ready := ready.unroll ready.column
    match ready.next with
    | none => (s.tokens, true)
    | some t => if ready.cursor.rest.isEmpty then (t.tokens, false) else run fuel t

end Scanner

/-- The tokens of a stream, and whether a fault ends them. -/
def tokens (text : List Char) : List Token × Bool :=
  let (ts, faulty) := (Scanner.start text).run (text.length + 1)
  (ts.reverse, faulty)

end Restyle.Yaml
