import Restyle.Css.Token

/-!
# The outline of a stylesheet

`outline` runs the CSS grammar over a text and counts what it meets: rulesets, at-rules,
declarations and comments of the top level.  A malformed text is counted up to the first error.

The grammar is a machine that takes one token at a time.  Its state holds the bodies that are open,
the place within the current item, and how many parentheses, brackets and braces are open inside
items; that last number is shared by all items and never reset.
-/

namespace Restyle.Css

structure Stats where
  bytes : Nat
  rulesets : Nat := 0
  atRules : Nat := 0
  declarations : Nat := 0
  comments : Nat := 0
  deriving Repr, DecidableEq

namespace Stats

def counts (s : Stats) : List (String × Nat) :=
  [("bytes", s.bytes), ("rulesets", s.rulesets), ("at-rules", s.atRules),
    ("declarations", s.declarations), ("comments", s.comments)]

def line (s : Stats) : Bytes :=
  " ".intercalate (s.counts.map fun (k, n) => k ++ "=" ++ toString n)

/-- Nothing that a browser would apply. -/
def isEmpty (s : Stats) : Bool :=
  s.rulesets == 0 && s.atRules == 0 && s.declarations == 0

end Stats

namespace Outline

/-- What the braces that are open hold. -/
inductive Body where
  | rules
  | declarations
  | unknown
  deriving Repr, DecidableEq

/-- The place within the current item. -/
inductive Place where
  | start
  /-- After the asterisk that may stand before a property. -/
  | starred
  | atRule (body : Body)
  | selector
  /-- After the first token of a declaration. -/
  | named
  /-- Further on; `colon` says that a colon was the second token. -/
  | valued (colon : Bool)
  | customNamed
  | customValued
  deriving Repr, DecidableEq

structure State where
  stats : Stats
  open_ : List Body := []
  level : Int := 0
  place : Place := .start

/-- A machine that has met an error keeps only its counts. -/
abbrev Result := Except Stats State

def State.at (s : State) (p : Place) : State := { s with place := p }

def State.ruleset (s : State) : State :=
  { s with stats.rulesets := s.stats.rulesets + 1, open_ := .declarations :: s.open_, place := .start }

def State.atRule (s : State) : State :=
  { s with stats.atRules := s.stats.atRules + 1, place := .start }

def State.declared (s : State) : State :=
  { s with stats.declarations := s.stats.declarations + 1, place := .start }

/-- What the body of an at-rule holds.  The name is taken in lower case and without a vendor. -/
def bodyOf (keyword : List Char) : Body :=
  let name := keyword.map Char.toLower
  let name := match name with
    | '-' :: t => match t.dropWhile (· != '-') with
      | _ :: u => u
      | [] => name
    | _ => name
  if ["font-face", "page"].any (·.toList == name) then .declarations
  else if ["document", "keyframes", "layer", "media", "supports"].any (·.toList == name) then .rules
  else .unknown

/-- A token inside an item that neither ends nor opens anything: it moves the level.  What closes
without having been opened is an error. -/
def State.inside (s : State) (t : Token) (p : Place) : Result :=
  match t with
  | .opening | .leftBrace => .ok { s with level := s.level + 1, place := p }
  | .closing | .rightBrace =>
    if s.level = 0 then .error s.stats else .ok { s with level := s.level - 1, place := p }
  | _ => .ok (s.at p)

/-- The first token of a qualified rule, or one further on. -/
def State.select (s : State) (t : Token) : Result :=
  if t = .leftBrace ∧ s.level = 0 then .ok s.ruleset
  else s.inside t .selector

/-- The first token of a declaration, behind the asterisk that may stand there.  An at-rule may begin
in its place. -/
def State.property (s : State) (t : Token) : Result :=
  match t with
  | .atKeyword name => .ok (s.at (.atRule (bodyOf name)))
  | .ident | .delim _ => .ok (s.at .named)
  | .customName => .ok (s.at .customNamed)
  | _ => .error s.stats

/-- The first token of an item. -/
def State.begin (s : State) (t : Token) : Result :=
  match s.open_ with
  | [] =>
    match t with
    | .markupComment => .ok s
    | .atKeyword name => .ok (s.at (.atRule (bodyOf name)))
    | .comment => .ok { s with stats.comments := s.stats.comments + 1 }
    | .customName => .ok (s.at .customNamed)
    | _ => s.select t
  | .rules :: rest =>
    match t with
    | .rightBrace => .ok { s with open_ := rest }
    | .atKeyword name => .ok (s.at (.atRule (bodyOf name)))
    | _ => s.select t
  | .declarations :: rest =>
    match t with
    | .semicolon => .ok s
    | .rightBrace => .ok { s with open_ := rest }
    | _ => if t = .delim '*' then .ok (s.at .starred) else s.property t
  | .unknown :: rest =>
    match t with
    | .opening | .leftBrace => .ok { s with level := s.level + 1 }
    | .closing => .ok { s with level := s.level - 1 }
    | .rightBrace =>
      if s.level = 0 then .ok { s with open_ := rest } else .ok { s with level := s.level - 1 }
    | _ => .ok s

/-- A token of a declaration after its name.  A brace opens a nested rule. -/
def State.declare (s : State) (t : Token) (colon : Bool) : Result :=
  if s.level = 0 then
    match t with
    | .leftBrace => .ok s.ruleset
    | .semicolon => if colon then .ok s.declared else .error s.stats
    | .rightBrace => if colon then s.declared.begin t else .error s.stats
    | _ => s.inside t (.valued colon)
  else s.inside t (.valued colon)

/-- One token. -/
def State.step (s : State) (t : Token) : Result :=
  if t = .blank then .ok s
  else if t = .comment ∧ ¬ (s.open_ = [] ∧ s.place = .start) then .ok s
  else
    match s.place with
    | .start => s.begin t
    | .starred => s.property t
    | .atRule body =>
      if s.level = 0 then
        match t with
        | .leftBrace => .ok { s.atRule with open_ := body :: s.open_ }
        | .semicolon => .ok s.atRule
        | .rightBrace => s.atRule.begin t
        | _ => s.inside t s.place
      else s.inside t s.place
    | .selector => s.select t
    | .named => s.declare t (t = .colon)
    | .valued colon => s.declare t colon
    | .customNamed => if t = .colon then .ok (s.at .customValued) else .error s.stats
    | .customValued =>
      if s.level = 0 then
        match t with
        | .semicolon => .ok s.declared
        | .rightBrace => s.declared.begin t
        | _ => s.inside t s.place
      else s.inside t s.place

/-- The counts when the text ends. -/
def State.finish (s : State) : Stats :=
  match s.place with
  | .atRule _ => s.atRule.stats
  | .valued true | .customValued => s.declared.stats
  | _ => s.stats

def runTokens : Result → List Token → Stats
  | .error stats, _ => stats
  | .ok s, [] => s.finish
  | .ok s, t :: ts => runTokens (s.step t) ts

end Outline

/-- The counts of a text. -/
def outline (doc : Bytes) : Stats :=
  Outline.runTokens (.ok { stats := { bytes := doc.length } }) (tokens doc)

end Restyle.Css
