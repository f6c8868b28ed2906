import Restyle.Css.Query

/-!
# Combining queries

The bodies of all blocks with the same kind and condition are gathered, at any depth, into one block
each.  A block's own text comes before that of the blocks inside it; the groups stand after the rest
of the document, in the order in which their keys are first met.
-/

namespace Restyle.Css

/-- The text gathered for one query, which is named by its kind and condition. -/
structure Group where
  key : List Char
  content : List Char
  deriving Repr, DecidableEq

def Query.key (q : Query) : List Char :=
  q.kind.name ++ q.condition

/-- Appends to the text of a group on a line of its own. -/
def joinLines (a b : List Char) : List Char :=
  if a.isEmpty || b.isEmpty then a ++ b else a ++ '\n' :: b

/-- Adds text to the group of a key, which is made when there is none. -/
def addToGroup (key content : List Char) : List Group → List Group
  | [] => [⟨key, content⟩]
  | g :: gs =>
    if g.key = key then ⟨key, joinLines g.content content⟩ :: gs
    else g :: addToGroup key content gs

/-- Takes the blocks out of a text: what is left, and the groups with the blocks' texts added.  The
white space behind a block goes with it. -/
def gather (s : List Char) (groups : List Group) : List Char × List Group :=
  match _h : nextBlock? query? s with
  | none => (s, groups)
  | some b =>
    let key := b.header.key
    let (inner, nested) := gather b.body []
    let groups := addToGroup key (trim inner) (addToGroup key [] groups)
    let groups := nested.foldl (fun gs g => addToGroup g.key g.content gs) groups
    let (rest, groups) := gather (skipBlank b.after) groups
    (b.before ++ rest, groups)
termination_by s.length
decreasing_by
  · have := length_nextBlock?_lt query?_shrinks _h
    omega
  · have := length_nextBlock?_lt query?_shrinks _h
    have := length_skipBlank_le b.after
    omega

def Group.write (g : Group) : List Char :=
  '@' :: g.key ++ ['{', '\n'] ++ g.content ++ ['\n', '}', '\n']

/-- The combined text and the groups it ends with. -/
def combined (s : List Char) : List Char × List Group :=
  let (rest, groups) := gather s []
  (rest ++ groups.flatMap Group.write, groups)

/-- Gathers the blocks of each query into one.  The text is always written anew. -/
def combineQueries : Edit := fun s =>
  some (combined s).1

end Restyle.Css
