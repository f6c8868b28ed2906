import Restyle.Yaml.Source

/-!
# Scalars as they are written

The four ways to write a scalar, each read from a cursor to the text it stands for.  Line ends inside a
plain or quoted scalar are folded: one of them is a space, and of more the first is dropped.
-/

namespace Restyle.Yaml

/-- Text read so far and the white space after it, all last character first. -/
structure Folding where
  text : List Char := []
  /-- Gaps since the text. -/
  gaps : List Char := []
  /-- The first line end since the text, if it counts, and the line ends after that one. -/
  breaks : Option (List Char × List Char) := none

namespace Folding

def addGap (f : Folding) (c : Char) : Folding :=
  match f.breaks with
  | none => { f with gaps := c :: f.gaps }
  | some _ => f

def addBreak (f : Folding) (c : Char) : Folding :=
  match f.breaks with
  | none => { f with gaps := [], breaks := some ([c], []) }
  | some (first, more) => { f with breaks := some (first, c :: more) }

/-- The text with the white space after it, folded. -/
def joined (f : Folding) : List Char :=
  match f.breaks with
  | none => f.gaps ++ f.text
  | some (['\n'], []) => ' ' :: f.text
  | some (['\n'], more) => more ++ f.text
  | some (first, more) => more ++ first ++ f.text

def addChars (f : Folding) (cs : List Char) : Folding :=
  { text := cs.reverse ++ f.joined }

def inGap (f : Folding) : Bool :=
  !f.gaps.isEmpty || f.breaks.isSome

end Folding

/-! ### Plain scalars -/

/-- The text begins with what ends a plain scalar. -/
def endsPlain (flow : Bool) : List Char → Bool
  | ':' :: s => startsBlank s
  | c :: _ => flow && [',', '?', '[', ']', '{', '}'].contains c
  | [] => true

/-- A plain scalar: its text, the cursor after it and after the white space that follows, and whether a
line ended there. -/
def plainFrom (flow : Bool) (indent : Int) (f : Folding) (p : Pos) :
    List Char → Option (List Char × Cursor × Bool)
  | [] => some (f.text.reverse, ⟨p, []⟩, f.breaks.isSome)
  | c :: s =>
    if isGap c then
      if c == '\t' && f.breaks.isSome && (p.column : Int) < indent then none
      else plainFrom flow indent (f.addGap c) (p.next c) s
    else if isBreak c then plainFrom flow indent (f.addBreak c) (p.next c) s
    else if f.inGap && ((!flow && (p.column : Int) < indent)
        || (p.column == 0 && startsDocumentMark (c :: s)) || c == '#')
        || endsPlain flow (c :: s) then
      some (f.text.reverse, ⟨p, c :: s⟩, f.breaks.isSome)
    else plainFrom flow indent (f.addChars [c]) (p.next c) s

def plain? (flow : Bool) (indent : Int) (k : Cursor) : Option (List Char × Cursor × Bool) :=
  plainFrom flow indent {} k.pos k.rest

/-! ### Quoted scalars -/

def hexDigit? (c : Char) : Option Nat :=
  if c.isDigit then some (c.toNat - 48)
  else if 'a' ≤ c && c ≤ 'f' then some (c.toNat - 87)
  else if 'A' ≤ c && c ≤ 'F' then some (c.toNat - 55)
  else none

/-- The number of the first `n` characters, all of which have to be hexadecimal digits. -/
def hexNumber? (n : Nat) (s : List Char) : Option Nat :=
  if s.length < n then none
  else (s.take n).foldlM (fun v c => (hexDigit? c).map (v * 16 + ·)) 0

/-- An escaped character by the text after the backslash, with the number of characters it takes. -/
def escaped? : List Char → Option (Char × Nat)
  | [] => none
  | c :: s =>
    let coded (n : Nat) : Option (Char × Nat) := do
      let v ← hexNumber? n s
      if v.isValidChar then some (Char.ofNat v, n + 1) else none
    match c with
    | '0' => some ('\x00', 1)
    | 'a' => some ('\x07', 1)
    | 'b' => some ('\x08', 1)
    | 't' | '\t' => some ('\t', 1)
    | 'n' => some ('\n', 1)
    | 'v' => some ('\x0b', 1)
    | 'f' => some ('\x0c', 1)
    | 'r' => some ('\r', 1)
    | 'e' => some ('\x1b', 1)
    | ' ' => some (' ', 1)
    | '"' => some ('"', 1)
    | '\'' => some ('\'', 1)
    | '\\' => some ('\\', 1)
    | 'N' => some ('\u0085', 1)
    | '_' => some ('\u00a0', 1)
    | 'L' => some ('\u2028', 1)
    | 'P' => some ('\u2029', 1)
    | 'x' => coded 2
    | 'u' => coded 4
    | 'U' => coded 8
    | _ => none

/-- A quoted scalar from behind its opening quote. -/
def quotedFrom (double : Bool) : Nat → Folding → Cursor → Option (List Char × Cursor)
  | 0, _, _ => none
  | fuel + 1, f, k =>
    match k.rest with
    | [] => none
    | c :: s =>
      if k.pos.column == 0 && startsDocumentMark (c :: s) then none
      else if isGap c then quotedFrom double fuel (f.addGap c) (k.skip 1)
      else if isBreak c then quotedFrom double fuel (f.addBreak c) (k.skip 1)
      else if double && c == '\\' then
        if startsBreak s && !s.isEmpty then
          quotedFrom double fuel { text := f.joined, breaks := some ([], []) } (k.skip 2)
        else
          match escaped? s with
          | some (x, n) => quotedFrom double fuel (f.addChars [x]) (k.skip (n + 1))
          | none => none
      else if double && c == '"' then some (f.joined.reverse, k.skip 1)
      else if !double && c == '\'' then
        if s.head? == some '\'' then quotedFrom double fuel (f.addChars [c]) (k.skip 2)
        else some (f.joined.reverse, k.skip 1)
      else quotedFrom double fuel (f.addChars [c]) (k.skip 1)

def quoted? (double : Bool) (k : Cursor) : Option (List Char × Cursor) :=
  quotedFrom double (k.rest.length + 1) {} (k.skip 1)

/-! ### Block scalars -/

/-- Which of the line ends after a block scalar belong to it. -/
inductive Chomping where
  | clip
  | strip
  | keep
  deriving Repr, DecidableEq

/-- The header of a block scalar: how to chomp, and how much further its text is indented, if that is
given. -/
def blockHeader? (k : Cursor) : Option (Chomping × Nat × Cursor) :=
  let chomping? (k : Cursor) : Option (Chomping × Cursor) :=
    match k.rest with
    | '+' :: _ => some (.keep, k.skip 1)
    | '-' :: _ => some (.strip, k.skip 1)
    | _ => none
  let digit (k : Cursor) : Nat × Cursor :=
    match k.rest with
    | c :: _ => if c.isDigit then (c.toNat - 48, k.skip 1) else (10, k)
    | [] => (10, k)
  let (chomping, increment, k) :=
    match chomping? k with
    | some (c, k) =>
      let (n, k) := digit k
      (c, n, k)
    | none =>
      let (n, k) := digit k
      if n == 10 then (Chomping.clip, n, k)
      else
        match chomping? k with
        | some (c, k) => (c, n, k)
        | none => (.clip, n, k)
  if increment == 0 then none
  else
    let k := k.skipWhile isGap
    let k := if k.rest.head? == some '#' then k.skipWhile (!isBreak ·) else k
    if startsBreak k.rest then some (chomping, if increment == 10 then 0 else increment, k.skip 1)
    else none

/-- Line ends, last first, and the spaces of the indentation before the next line with text.  While the
indentation is not known, which is when it is zero, all spaces are taken. -/
def blockBreaks (indent : Nat) : Nat → Nat → List Char → Cursor → Option (Nat × List Char × Cursor)
  | 0, _, _, _ => none
  | fuel + 1, deepest, breaks, k =>
    let missing := if indent == 0 then k.rest.length else indent - k.pos.column
    let k := k.skip ((k.rest.take missing).takeWhile (· == ' ')).length
    let deepest := max deepest k.pos.column
    let within := indent == 0 || k.pos.column < indent
    match k.rest with
    | c :: _ =>
      if within && c == '\t' then none
      else if isBreak c then blockBreaks indent fuel deepest (c :: breaks) (k.skip 1)
      else some (deepest, breaks, k)
    | [] => some (deepest, breaks, k)

/-- The lines of a block scalar.  `lead` is the line end of the line before, `more` are the line ends of
empty lines since, `spaced` tells that the line before began with white space. -/
def blockLines (literal : Bool) (indent : Nat) :
    Nat → List Char → List Char → List Char → Bool → Cursor →
      Option (List Char × List Char × List Char × Cursor)
  | 0, _, _, _, _, _ => none
  | fuel + 1, text, lead, more, spaced, k =>
    if k.pos.column == indent && !k.rest.isEmpty then
      let nowSpaced := startsBlank k.rest
      let text :=
        if !literal && !spaced && !nowSpaced && lead == ['\n'] then
          if more.isEmpty then ' ' :: text else more ++ text
        else more ++ lead ++ text
      let (line, k) := k.takeWhile (!isBreak ·)
      let text := line.reverse ++ text
      let lead := k.rest.take 1
      match blockBreaks indent (k.rest.length + 1) 0 [] (k.skip 1) with
      | none => none
      | some (_, more, k) => blockLines literal indent fuel text lead more nowSpaced k
    else some (text, lead, more, k)

/-- A block scalar from its indicator on.  `parent` is the indentation of the block it stands in. -/
def block? (literal : Bool) (parent : Int) (k : Cursor) : Option (List Char × Cursor) := do
  let (chomping, increment, k) ← blockHeader? (k.skip 1)
  let given := if increment == 0 then 0 else (max parent 0).toNat + increment
  let (deepest, more, k) ← blockBreaks given (k.rest.length + 1) 0 [] k
  let indent := if given == 0 then max (max deepest (parent + 1).toNat) 1 else given
  let (text, lead, more, k) ← blockLines literal indent (k.rest.length + 1) [] [] more false k
  let text := if chomping == .strip then text else lead ++ text
  let text := if chomping == .keep then more ++ text else text
  some (text.reverse, k)

end Restyle.Yaml
