import Restyle.Yaml.Node
import Restyle.Yaml.Number

/-!
# What plain scalars mean

A plain scalar without tag is text unless it reads as something else: a truth value, nothing, a number or
a time.  A tag of one of these kinds demands that it does; any other tag leaves it text.
-/

namespace Restyle.Yaml

inductive Meaning where
  | null
  | bool (b : Bool)
  | int (n : Int)
  /-- A floating point number by its whole part, if it is finite. -/
  | float (whole : Option Int)
  | time
  | text
  deriving Repr, DecidableEq

def Meaning.tag : Meaning → String
  | .null => "!!null"
  | .bool _ => "!!bool"
  | .int _ => "!!int"
  | .float _ => "!!float"
  | .time => "!!timestamp"
  | .text => "!!str"

/-- Texts with a meaning of their own. -/
def words : List (String × Meaning) :=
  [("true", .bool true), ("True", .bool true), ("TRUE", .bool true),
    ("false", .bool false), ("False", .bool false), ("FALSE", .bool false),
    ("", .null), ("~", .null), ("null", .null), ("Null", .null), ("NULL", .null),
    (".nan", .float none), (".NaN", .float none), (".NAN", .float none),
    (".inf", .float none), (".Inf", .float none), (".INF", .float none),
    ("+.inf", .float none), ("+.Inf", .float none), ("+.INF", .float none),
    ("-.inf", .float (some (-Number.signLimit))), ("-.Inf", .float (some (-Number.signLimit))),
    ("-.INF", .float (some (-Number.signLimit)))]

def word? (s : List Char) : Option Meaning :=
  (words.find? fun (w, _) => w.toList == s).map (·.2)

def float? (s : List Char) : Option Meaning := do
  let x ← Number.decimal? s
  let n ← x.wholePart?
  some (.float (some n))

/-- What a text that begins with a digit or a sign means.  `timely` tells that it may be a time. -/
def numeric? (timely : Bool) (s : List Char) : Option Meaning :=
  if timely && Number.isTime s then some .time
  else
    let plain := s.filter (· != '_')
    (Number.plainInteger? plain).map .int
      <|> float? plain
      <|> (Number.markedInteger? plain).map .int

/-- The meaning of a plain text. -/
def meaning (timely : Bool) (s : List Char) : Meaning :=
  match word? s with
  | some m => m
  | none =>
    match s with
    | [] => .null
    | c :: _ =>
      let m? :=
        if c == '.' then
          if Number.underscoresOk false s then float? (s.filter (· != '_')) else none
        else if c.isDigit || c == '+' || c == '-' then numeric? timely s
        else none
      m?.getD .text

/-! ### Scalars with tags -/

def isMergeKey (s : List Char) : Bool :=
  s == ['<', '<']

/-- Tags that a text has to read as. -/
def checkedTags : List String :=
  ["!!bool", "!!int", "!!float", "!!null", "!!timestamp"]

/-- The meaning of a scalar, or nothing if its tag demands another. -/
def scalarMeaning? (tag : Option (List Char)) (style : ScalarStyle) (text : List Char) :
    Option Meaning :=
  match tag with
  | none => some (if style == .plain && !isMergeKey text then meaning true text else .text)
  | some tag =>
    if checkedTags.any (·.toList == tag) then
      let m := meaning (tag == "!!timestamp".toList) text
      if m.tag.toList == tag then some m
      else
        match m with
        | .int n => if tag == "!!float".toList then some (.float (some n)) else none
        | _ => none
    else some .text

/-- The tag under which messages name a node. -/
def Node.tagName : Node → List Char
  | .scalar _ (some tag) .. => tag
  | .scalar _ none .plain text =>
    if isMergeKey text then "!!merge".toList else (meaning true text).tag.toList
  | .scalar _ none _ _ => "!!str".toList
  | .sequence _ tag _ => tag.getD "!!seq".toList
  | .mapping _ tag _ => tag.getD "!!map".toList
  | .reference .. => []

/-- The key of a mapping under which others are merged into it. -/
def Node.isMerge : Node → Bool
  | .scalar _ none .plain text => isMergeKey text
  | .scalar _ (some tag) _ text => tag == "!!merge".toList && isMergeKey text
  | _ => false

end Restyle.Yaml
