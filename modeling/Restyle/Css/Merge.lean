import Restyle.Css.Declaration
import Restyle.Css.Query

/-!
# Merging rules

All class rules become one list of declarations, without selectors.  Query blocks of one level keep
their headers and follow the list, their declarations extracted in the same way.
-/

namespace Restyle.Css

/-- A query block whose body ends at the first closing brace. -/
structure FlatQuery where
  header : List Char
  body : List Char
  deriving Repr, DecidableEq

/-- A query with one condition in parentheses, and its body. -/
def flatQuery? : Pattern FlatQuery := fun s => do
  let (_, t) ← queryKind? s
  let (_, u) ← parens? t
  let v ← after? ['{'] (skipBlank u)
  let (body, rest) ← upTo? '}' v
  some (⟨s.take (s.length - u.length), body⟩, rest)

/-- The body of a rule whose selector has a dot: what stands between the first opening brace after
the dot and the closing brace that must follow it before any other brace. -/
def classBody? : Pattern (List Char)
  | '.' :: s =>
    match upTo? '{' s with
    | some (_ :: _, t) =>
      match upTo? '}' t with
      | some (body, rest) => if body.contains '{' then none else some (body, rest)
      | none => none
    | _ => none
  | _ => none

def FlatQuery.write (q : FlatQuery) : List Char :=
  '\n' :: q.header ++ [' ', '{', '\n'] ++ extract true q.body ++ ['}', '\n']

/-- The merged text and the number of query blocks it ends with. -/
def merged (s : List Char) : List Char × Nat :=
  let queries := flatQuery?.findAll s
  let rest := flatQuery?.cut.run s
  let bodies := (classBody?.findAll rest).flatten
  (extract false bodies ++ queries.flatMap FlatQuery.write, queries.length)

/-- Merges the class rules of a text.  The text is always written anew. -/
def mergeRules : Edit := fun s =>
  some (merged s).1

end Restyle.Css
