import Restyle.Text.Blank

/-!
# Edits of a document

A step of the pipeline looks for something in the text of a document and writes the text anew when
it finds it.  An `Edit` says both: `none` when there is nothing to write.  `Edit.apply` carries an
edit to documents, which are byte strings: bytes in which nothing was found stay as they are, also
when they are not valid UTF-8.

A `Pattern` recognises something at the start of a text.  `Pattern.pieces` cuts a text, from left to
right, into the places where a pattern holds and the characters between them.
-/

namespace Restyle.Css

abbrev Edit := List Char → Option (List Char)

namespace Edit

/-- The text after an edit. -/
def run (e : Edit) (s : List Char) : List Char :=
  (e s).getD s

/-- One edit after another. -/
def andThen (e f : Edit) : Edit := fun s =>
  match e s with
  | none => f s
  | some t => some (f.run t)

/-- Edits in the order of a list. -/
def sequence : List Edit → Edit
  | [] => fun _ => none
  | e :: es => e.andThen (sequence es)

/-- The edit that writes `f s`, for the texts in which `found` holds. -/
def whenever (found : List Char → Bool) (f : List Char → List Char) : Edit := fun s =>
  if found s then some (f s) else none

/-- The edit that writes `f s`, for the texts that `f` changes. -/
def changing (f : List Char → List Char) : Edit :=
  whenever (fun s => f s != s) f

/-- A document after an edit of its code points. -/
def apply (e : Edit) (doc : Bytes) : Bytes :=
  match e (Utf8.codePoints doc) with
  | none => doc
  | some text => Utf8.encode text

end Edit

/-- What a text starts with, and the text after it. -/
abbrev Pattern (α : Type) := List Char → Option (α × List Char)

inductive Piece (α : Type) where
  | other (c : Char)
  | found (a : α)

namespace Piece

variable {α : Type}

def found? : Piece α → Option α
  | found a => some a
  | other _ => none

/-- The text of a piece when `write a` stands for what was found. -/
def text (write : α → List Char) : Piece α → List Char
  | found a => write a
  | other c => [c]

end Piece

namespace Pattern

variable {α : Type}

/-- Cuts a text into pieces, passing over the first `skip` characters: those that the last match
took. -/
def piecesFrom (p : Pattern α) (skip : Nat) : List Char → List (Piece α)
  | [] => []
  | c :: s =>
    match skip with
    | k + 1 => piecesFrom p k s
    | 0 =>
      match p (c :: s) with
      | some (a, rest) => .found a :: piecesFrom p (s.length - rest.length) s
      | none => .other c :: piecesFrom p 0 s

def pieces (p : Pattern α) (s : List Char) : List (Piece α) :=
  p.piecesFrom 0 s

/-- What a pattern finds in a text, from left to right and without overlap. -/
def findAll (p : Pattern α) (s : List Char) : List α :=
  (p.pieces s).filterMap Piece.found?

/-- Writes `write a` in place of everything found. -/
def replace (p : Pattern α) (write : α → List Char) : Edit := fun s =>
  if (p.findAll s).isEmpty then none else some ((p.pieces s).flatMap (Piece.text write))

/-- Cuts everything found. -/
def cut (p : Pattern α) : Edit :=
  p.replace fun _ => []

end Pattern

/-- The text after a given start. -/
def after? : List Char → List Char → Option (List Char)
  | [], s => some s
  | _ :: _, [] => none
  | p :: ps, c :: s => if p = c then after? ps s else none

/-- The text before the first `mark`, and the text after it. -/
def upTo? (mark : Char) : List Char → Option (List Char × List Char)
  | [] => none
  | c :: s => if c = mark then some ([], s) else (upTo? mark s).map fun (a, b) => (c :: a, b)

def skipBlank (s : List Char) : List Char :=
  s.dropWhile isBlank

end Restyle.Css
