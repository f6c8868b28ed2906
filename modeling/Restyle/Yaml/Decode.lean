import Restyle.Text.Quoted
import Restyle.Yaml.Base64
import Restyle.Yaml.Resolve

/-!
# Values from nodes

Reading settings out of a document.  A node that does not suit the setting is noted and the setting keeps
its value; all notes of a document are reported together.  A node that stands for nothing leaves a setting
as it is, except that it empties a list.  Some faults end the reading at once.

`Record.read` reads the fields of a record.  A mapping may merge others into itself; their fields count
where it has none of its own.
-/

namespace Restyle.Yaml

inductive Issue where
  | mismatch (line : Nat) (tag value : List Char) (type : String)
  | unknownField (line : Nat) (name : Bytes) (type : String)
  | repeatedKey (line : Nat) (key : List Char) (first : Nat)
  | repeatedField (line : Nat) (name : Bytes) (type : String)
  deriving Repr, DecidableEq

/-- A value as it stands in a message: in backquotes, and cut if it is long. -/
def shownValue (tag value : List Char) : Bytes :=
  let s := Utf8.encode value
  if tag == "!!seq".toList || tag == "!!map".toList then s
  else if 10 < s.length then " \x60" ++ s.take 7 ++ "...\x60"
  else " \x60" ++ s ++ "\x60"

def Issue.message : Issue → Bytes
  | .mismatch line tag value type =>
    "line " ++ decimal line ++ ": cannot unmarshal " ++ Utf8.encode tag ++ shownValue tag value
      ++ " into " ++ type
  | .unknownField line name type =>
    "line " ++ decimal line ++ ": field " ++ name ++ " not found in type " ++ type
  | .repeatedKey line key first =>
    "line " ++ decimal line ++ ": mapping key " ++ quote (Utf8.encode key)
      ++ " already defined at line " ++ decimal first
  | .repeatedField line name type =>
    "line " ++ decimal line ++ ": field " ++ name ++ " already set in type " ++ type

/-- Steps of reading values: they note issues, or fail. -/
abbrev Decoding := StateT (List Issue) Option

namespace Decoding

def report (i : Issue) : Decoding Unit :=
  modify (· ++ [i])

/-- The node itself, or the one it refers to. -/
def target : Node → Decoding Node
  | .reference _ _ (some n) => return n
  | .reference _ _ none => failure
  | n => return n

/-- The kind of a node and the text that tells it from others as a key. -/
def keyOf : Node → Nat × List Char
  | .scalar _ _ _ text => (0, text)
  | .sequence .. => (1, [])
  | .mapping .. => (2, [])
  | .reference _ name _ => (3, name)

/-- Every key of a mapping that stands there twice. -/
def repeatedKeys : List (Node × Node) → List Issue
  | [] => []
  | (k, _) :: pairs =>
    (pairs.filter fun (l, _) => keyOf l == keyOf k).map
        (fun (l, _) => .repeatedKey l.line (keyOf l).2 k.line)
      ++ repeatedKeys pairs

/-- Notes that a node does not suit.  Of a mapping with repeated keys only these are noted. -/
def mismatch (type : String) (n : Node) : Decoding Unit := do
  let plain := report (.mismatch n.line n.tagName (keyOf n).2 type)
  match n with
  | .mapping _ _ pairs =>
    match repeatedKeys pairs with
    | [] => plain
    | issues => modify (· ++ issues)
  | _ => plain

/-- The meaning of a scalar. -/
def scalar (tag : Option (List Char)) (style : ScalarStyle) (text : List Char) : Decoding Meaning :=
  match scalarMeaning? tag style text with
  | some m => return m
  | none => failure

/-- A text.  Every scalar is one, but nothing is none. -/
def text (n : Node) : Decoding (Option Bytes) := do
  match ← target n with
  | .scalar _ tag style s =>
    if tag == some "!!binary".toList then
      match Base64.decode? s with
      | some data => return some data
      | none => failure
    match ← scalar tag style s with
    | .null => return none
    | _ => return some (Utf8.encode s)
  | n =>
    mismatch "string" n
    return none

/-- A whole number.  Of a floating point number it is the whole part. -/
def integer (n : Node) : Decoding (Option Int) := do
  match ← target n with
  | .scalar line tag style s =>
    match ← scalar tag style s with
    | .null => return none
    | .int i =>
      if i < Number.signLimit then return some i
    | .float (some i) =>
      let limit : Int := Number.signLimit
      if i ≤ limit then return some (if i == limit || i < -limit then -limit else i)
    | _ => pure ()
    mismatch "int" (.scalar line tag style s)
    return none
  | n =>
    mismatch "int" n
    return none

def yes : List String := ["y", "Y", "yes", "Yes", "YES", "on", "On", "ON"]

def no : List String := ["n", "N", "no", "No", "NO", "off", "Off", "OFF"]

/-- A truth value.  Words of an older version of the format count too. -/
def flag (n : Node) : Decoding (Option Bool) := do
  match ← target n with
  | .scalar line tag style s =>
    match ← scalar tag style s with
    | .null => return none
    | .bool b => return some b
    | .text =>
      if yes.any (·.toList == s) then return some true
      if no.any (·.toList == s) then return some false
    | _ => pure ()
    mismatch "bool" (.scalar line tag style s)
    return none
  | n =>
    mismatch "bool" n
    return none

/-- A list of texts.  Items that are none are left out, and nothing is the empty list. -/
def texts (n : Node) : Decoding (Option (List Bytes)) := do
  match ← target n with
  | .sequence _ _ items => return some (← items.filterMapM text)
  | .scalar line tag style s =>
    match ← scalar tag style s with
    | .null => return some []
    | _ =>
      mismatch "[]string" (.scalar line tag style s)
      return none
  | n =>
    mismatch "[]string" n
    return none

end Decoding

/-! ### Records -/

/-- A field of a record: its name and how a node is read into it. -/
structure Field (α : Type) where
  name : String
  read : α → Node → Decoding α

structure Record (α : Type) where
  type : String
  fields : List (Field α)

namespace Record

open Decoding

variable {α : Type}

/-- The text of a key that is one. -/
def keyText? : Node → Option Bytes
  | .scalar _ tag style s =>
    match scalarMeaning? tag style s with
    | some .text => some (Utf8.encode s)
    | _ => none
  | .reference _ _ (some (.scalar _ tag style s)) =>
    match scalarMeaning? tag style s with
    | some .text => some (Utf8.encode s)
    | _ => none
  | _ => none

/-- What has been read of a mapping: the record, the fields it set, and, if it is merged into another, the
names that are taken there. -/
structure Progress (α : Type) where
  value : α
  done : List Bytes := []
  taken : Option (List Bytes)

/-- Reads one pair of a mapping. -/
def pair (r : Record α) (p : Progress α) (key value : Node) : Decoding (Progress α) := do
  if key.isMerge then return p
  match ← text key with
  | none => return p
  | some name =>
    if let some taken := p.taken then
      if taken.contains name then return p
    let p := { p with taken := p.taken.map (· ++ [name]) }
    match r.fields.find? fun f => (f.name : Bytes) == name with
    | none =>
      report (.unknownField key.line name r.type)
      return p
    | some f =>
      if p.done.contains name then
        report (.repeatedField key.line name r.type)
        return p
      return { p with value := ← f.read p.value value, done := p.done ++ [name] }

/-- The mappings that are merged under a key. -/
def merged : Node → Decoding (List Node)
  | .mapping line tag pairs => return [.mapping line tag pairs]
  | .reference _ _ (some (.mapping line tag pairs)) => return [.mapping line tag pairs]
  | .sequence _ _ items => items.mapM fun
    | .mapping line tag pairs => return .mapping line tag pairs
    | .reference _ _ (some (.mapping line tag pairs)) => return .mapping line tag pairs
    | _ => failure
  | _ => failure

/-- Reads a node into a record.  `taken` are the names that are taken where it is merged. -/
def readFrom (r : Record α) : Nat → Option (List Bytes) → α → Node →
    Decoding (α × Option (List Bytes))
  | 0, _, _, _ => failure
  | fuel + 1, taken, value, n => do
    match ← target n with
    | .mapping _ _ pairs =>
      match repeatedKeys pairs with
      | [] =>
        let p ← pairs.foldlM (fun p (k, v) => r.pair p k v) { value := value, taken := taken }
        match pairs.reverse.find? (·.1.isMerge) with
        | none => return (p.value, p.taken)
        | some (_, source) =>
          let names := p.taken.getD (pairs.filterMap fun (k, _) => keyText? k)
          let (value, names) ← (← merged source).foldlM
            (fun (value, names) m => readFrom r fuel names value m) (p.value, some names)
          return (value, if p.taken.isSome then names else none)
      | issues =>
        modify (· ++ issues)
        return (value, taken)
    | .scalar line tag style s =>
      match ← scalar tag style s with
      | .null => return (value, taken)
      | _ =>
        mismatch r.type (.scalar line tag style s)
        return (value, taken)
    | n =>
      mismatch r.type n
      return (value, taken)

/-- Reads a node into a record.  `depth` bounds how deep mappings are merged into one another. -/
def read (r : Record α) (depth : Nat) (value : α) (n : Node) : Decoding α := do
  return (← r.readFrom depth none value n).1

end Record

/-! ### Fields by kind -/

namespace Field

variable {α : Type}

def text (name : String) (set : α → Bytes → α) : Field α :=
  ⟨name, fun a n => do return (← Decoding.text n).elim a (set a)⟩

def integer (name : String) (set : α → Int → α) : Field α :=
  ⟨name, fun a n => do return (← Decoding.integer n).elim a (set a)⟩

def flag (name : String) (set : α → Bool → α) : Field α :=
  ⟨name, fun a n => do return (← Decoding.flag n).elim a (set a)⟩

def texts (name : String) (set : α → List Bytes → α) : Field α :=
  ⟨name, fun a n => do return (← Decoding.texts n).elim a (set a)⟩

/-- A record within the record. -/
def record {β : Type} (name : String) (r : Record β) (depth : Nat) (get : α → β) (set : α → β → α) :
    Field α :=
  ⟨name, fun a n => do return set a (← r.read depth (get a) n)⟩

end Field

end Restyle.Yaml
