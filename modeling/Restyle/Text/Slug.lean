import Restyle.Text.Blank
import Restyle.Text.Case
import Restyle.Text.Romanise

/-!
# Slugs

A slug spells a name in lower case letters, digits, hyphens and underscores.  Three quotation marks
vanish, long dashes become hyphens, an ampersand reads `and` and an at sign `at`; everything else is
romanised, and what is still no letter, digit or underscore becomes a hyphen.
-/

namespace Restyle

namespace Slug

/-- Characters that a slug spells in its own way. -/
def spell (c : Char) : List Char :=
  match c with
  | '&' => ['a', 'n', 'd']
  | '@' => ['a', 't']
  | '"' | '\'' | '’' => []
  | '‒' | '–' | '—' | '―' => ['-']
  | c => [c]

def isPlain (c : Char) : Bool :=
  c.isAlphanum || c == '_' || c == '-'

/-- Runs of hyphens become single hyphens. -/
def squeeze : List Char → List Char
  | [] => []
  | c :: s => if c == '-' && s.head? == some '-' then squeeze s else c :: squeeze s

def isEdge (c : Char) : Bool :=
  c == '-' || c == '_'

def dropEdges (s : List Char) : List Char :=
  ((s.dropWhile isEdge).reverse.dropWhile isEdge).reverse

end Slug

/-- The slug of a text. -/
def slug (s : List Char) : List Char :=
  let spelled := lowerText (((trim s).flatMap Slug.spell).flatMap romanise)
  Slug.dropEdges (Slug.squeeze (spelled.map fun c => if Slug.isPlain c then c else '-'))

end Restyle
