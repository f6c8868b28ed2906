import Restyle.Css.Declaration
import Restyle.Text.Word

/-!
# Undefined rules

A rule is dropped whole when its selector names a class or an id and some declaration in its body
has the literal value `undefined`.  A rule is looked for at the start of every line: the selector is
what stands before the first brace, the body is what stands between the next opening brace and the
closing brace that follows it first.
-/

namespace Restyle.Css

def isBrace (c : Char) : Bool :=
  c == '{' || c == '}'

/-- Some class or id is named. -/
def namesClassOrId : List Char → Bool
  | c :: d :: s => ((c == '.' || c == '#') && isNameChar d) || namesClassOrId (d :: s)
  | _ => false

def isPropertyChar (c : Char) : Bool :=
  c.isLower || c == '-'

/-- A colon is followed, but for white space, by `undefined`. -/
def undefinedFollows (s : List Char) : Bool :=
  match s with
  | ':' :: s => (after? "undefined".toList (skipBlank s)).isSome
  | _ => false

/-- Some declaration has the value `undefined`.  Its name is made of lower case letters and hyphens
and starts at the edge of a word; `previous` is the character before the text, and `named` says
that such a name is being read. -/
def setsUndefined (previous : Char) (named : Bool) : List Char → Bool
  | [] => false
  | c :: s =>
    let named := isPropertyChar c && (named || isWord previous != isWord c)
    (named && undefinedFollows s) || setsUndefined c named s

/-- The text after an undefined rule at the start of a line. -/
def undefinedRule? (s : List Char) : Option (List Char) := do
  let selector := s.takeWhile (! isBrace ·)
  let (_, t) ← upTo? '{' s
  let (body, rest) ← upTo? '}' t
  if namesClassOrId selector && setsUndefined '{' false body then some rest else none

/-- Drops undefined rules, passing over the first `skip` characters: those of the last one. -/
def dropUndefinedFrom (skip : Nat) (lineStart : Bool) : List Char → List Char
  | [] => []
  | c :: s =>
    match skip with
    | k + 1 => dropUndefinedFrom k false s
    | 0 =>
      match if lineStart then undefinedRule? (c :: s) else none with
      | some rest => dropUndefinedFrom (s.length - rest.length) false s
      | none => c :: dropUndefinedFrom 0 (c == '\n') s

/-- Drops every class or id rule with an undefined declaration. -/
def removeUndefined : Edit :=
  .changing (dropUndefinedFrom 0 true)

end Restyle.Css
