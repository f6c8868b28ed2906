import Restyle.Css.Combine
import Restyle.Css.Merge
import Restyle.Css.Minify
import Restyle.Css.Rgb
import Restyle.Css.Undefined
import Restyle.Text.Case
import Restyle.Text.Quoted

/-!
# Steps

The six operations on a document, each with the name that configurations use and the edit that does
it.
-/

namespace Restyle.Css

inductive Step where
  | merge
  | removeUndefined
  | combineQueries
  | minify
  | fixRgb
  | removeQueries
  deriving Repr, DecidableEq

namespace Step

/-- All steps, in the order in which they are listed to the user. -/
def all : List Step :=
  [merge, removeUndefined, combineQueries, minify, fixRgb, removeQueries]

def name : Step → String
  | merge => "merge"
  | removeUndefined => "remove_undefined"
  | combineQueries => "combine_media_queries"
  | minify => "minify"
  | fixRgb => "fix_rgb"
  | removeQueries => "remove_media_queries"

def names : List String :=
  all.map name

def edit : Step → Edit
  | merge => mergeRules
  | removeUndefined => Css.removeUndefined
  | combineQueries => Css.combineQueries
  | minify => Css.minify
  | fixRgb => Css.fixRgb
  | removeQueries => Css.removeQueries

/-- The document after a step. -/
def apply (s : Step) (doc : Bytes) : Bytes :=
  s.edit.apply doc

/-- The step of this very name. -/
def ofName? (name : Bytes) : Option Step :=
  all.find? fun s => (s.name : Bytes) == name

inductive Error where
  | unknown (name : Bytes)
  deriving Repr, DecidableEq

def Error.message : Error → Bytes
  | .unknown name =>
    "unknown step " ++ quote name ++ ", expected one of: " ++ (", ".intercalate names : String)

/-- The step of a name, whatever its case and the white space around it. -/
def parse (name : Bytes) : Except Error Step :=
  match ofName? (Utf8.encode (lowerText (trim (Utf8.codePoints name)))) with
  | some s => .ok s
  | none => .error (.unknown name)

/-- The steps of a list of names.  Blank names are passed over. -/
def parseAll (names : List Bytes) : Except Error (List Step) :=
  (names.filter fun n => !n.trim.isEmpty).mapM parse

end Step

/-! ### What a step has to tell -/

/-- What a step reports about its work. -/
inductive Note where
  | merged (queries bytes : Nat)
  | combined (groups bytes : Nat)
  | minified (before after : Nat)
  | removedQueries (count bytes : Nat)
  deriving Repr, DecidableEq

/-- The note of a step that made `after` out of `before`. -/
def Step.note? (s : Step) (before after : Bytes) : Option Note :=
  let text := Utf8.codePoints before
  match s with
  | .merge => some (.merged (merged text).2 after.length)
  | .combineQueries => some (.combined (combined text).2.length after.length)
  | .minify => some (.minified before.length after.length)
  | .removeQueries =>
    match (withoutQueries text).2 with
    | 0 => none
    | count + 1 => some (.removedQueries (count + 1) after.length)
  | .removeUndefined | .fixRgb => none

end Restyle.Css
