import Restyle.Text.Blank
import Restyle.Text.Quoted

/-!
# Flags and arguments

A command line is a mixture of flags and arguments.  A flag starts with one dash or two and may have its
value behind an equals sign; two dashes alone end the flags.  The first argument that names a command
leaves all that follows to that command.
-/

namespace Restyle.Cli

structure Flag where
  names : List String
  /-- What stands for the value in help texts; a switch has none. -/
  value : Option String
  help : String
  deriving Repr, DecidableEq

namespace Flag

def isNamed (f : Flag) (name : Bytes) : Bool :=
  f.names.any fun n => (n : Bytes) == name

/-- The first name, by which the flag is known. -/
def name (f : Flag) : Bytes :=
  f.names.headD ""

end Flag

/-- A command line taken apart: flags by name with their values, and arguments. -/
structure Arguments where
  flags : List (Bytes × Bytes) := []
  args : List Bytes := []
  deriving Repr, DecidableEq

namespace Arguments

/-- The value that a flag was given last. -/
def value? (a : Arguments) (name : Bytes) : Option Bytes :=
  (a.flags.reverse.find? fun (n, _) => n == name).map (·.2)

/-- A switch is on. -/
def isOn (a : Arguments) (name : Bytes) : Bool :=
  a.value? name == some "true"

inductive Error where
  | unknown (name : Bytes)
  | noValue (given : Bytes)
  | invalid (value name : Bytes)
  deriving Repr, DecidableEq

def Error.message : Error → Bytes
  | .unknown name => "flag provided but not defined: -" ++ name
  | .noValue given => "flag needs an argument: " ++ given
  | .invalid value name =>
    "invalid value " ++ quote value ++ " for flag -" ++ name ++ ": parse error"

/-- A word for on or off. -/
def truth? (s : Bytes) : Option Bool :=
  if ["1", "t", "T", "true", "TRUE", "True"].any fun w => (w : Bytes) == s then some true
  else if ["0", "f", "F", "false", "FALSE", "False"].any fun w => (w : Bytes) == s then some false
  else none

/-- A byte that is a letter, taken for a code point. -/
def isLetter (b : UInt8) : Bool :=
  let n := b.toNat
  (0x41 ≤ n && n ≤ 0x5A) || (0x61 ≤ n && n ≤ 0x7A) || n == 0xAA || n == 0xB5 || n == 0xBA
    || (0xC0 ≤ n && n != 0xD7 && n != 0xF7)

/-- What a word of a command line is. -/
inductive Word where
  | blank
  | argument (text : Bytes)
  /-- One dash, and two. -/
  | dash
  | dashes
  /-- A dash before what cannot be a name. -/
  | other
  /-- A flag as it was given, its name, and its value if there is one behind an equals sign. -/
  | flag (given name : Bytes) (value : Option Bytes)
  deriving Repr, DecidableEq

/-- The name of a flag and its value. -/
def splitFlag (s : Bytes) : Bytes × Option Bytes :=
  match s.span (· != 0x3D) with
  | (name, _ :: value) => (name, some value)
  | (name, []) => (name, none)

def Word.ofBytes (word : Bytes) : Word :=
  let given := word.trim
  match given with
  | [] => .blank
  | [0x2D] => .dash
  | [0x2D, 0x2D] => .dashes
  | 0x2D :: 0x2D :: s => .flag given (splitFlag s).1 (splitFlag s).2
  | 0x2D :: b :: s =>
    if isLetter b then .flag given (splitFlag (b :: s)).1 (splitFlag (b :: s)).2 else .other
  | _ => .argument given

def addFlag (a : Arguments) (name value : Bytes) : Arguments :=
  { a with flags := a.flags ++ [(name, value)] }

def addArgs (a : Arguments) (args : List Bytes) : Arguments :=
  { a with args := a.args ++ args }

/-- Sets a switch, which is on unless it is told otherwise. -/
def addSwitch (a : Arguments) (f : Flag) (name : Bytes) (value : Option Bytes) :
    Except Error Arguments :=
  let value := value.getD []
  match truth? (if value.isEmpty then ("true" : Bytes) else value) with
  | some b => .ok (a.addFlag f.name (if b then "true" else "false"))
  | none => .error (.invalid value name)

/-- Reads words for the given flags and commands. -/
def parse (known : List Flag) (commands : List Bytes) (a : Arguments) :
    List Bytes → Except Error Arguments
  | [] => .ok a
  | word :: words =>
    match Word.ofBytes word with
    | .blank => .ok a
    | .dash => .ok (a.addArgs [word.trim])
    | .dashes => .ok (a.addArgs words)
    | .other => .ok (a.addArgs (word :: words))
    | .argument text =>
      if commands.contains text then .ok (a.addArgs (word :: words))
      else parse known commands (a.addArgs [text]) words
    | .flag given name value =>
      match known.find? (·.isNamed name) with
      | none => .error (.unknown name)
      | some f =>
        if f.value.isNone then
          match a.addSwitch f name value with
          | .ok a => parse known commands a words
          | .error e => .error e
        else
          match value with
          | some v => parse known commands (a.addFlag f.name v) words
          | none =>
            match words with
            | v :: words => parse known commands (a.addFlag f.name v) words
            | [] => .error (.noValue given)

end Arguments

end Restyle.Cli
