import Restyle.Log.Record

/-!
# Lines of a log

A record as a line of text: time, level, logger, message and fields, separated by tabs.  Fields are
written as an object of quoted names.  A failure with several causes also lists them where details are
wanted.
-/

namespace Restyle.Log

def Level.rank : Level → Nat
  | .debug => 0
  | .info => 1
  | .warn => 2
  | .error => 3

/-- A log of this level takes records of that level. -/
def Level.takes (l record : Level) : Bool :=
  l.rank ≤ record.rank

def Level.name : Level → Bytes
  | .debug => "DEBUG"
  | .info => "INFO"
  | .warn => "WARN"
  | .error => "ERROR"

/-! ### Fields -/

def hexDigit (n : Nat) : Char :=
  (Nat.toDigits 16 n).headD '0'

/-- A character within quotes. -/
def escape (c : Char) : List Char :=
  if c == '"' || c == '\\' then ['\\', c]
  else if c == '\n' then ['\\', 'n']
  else if c == '\r' then ['\\', 'r']
  else if c == '\t' then ['\\', 't']
  else if c.toNat < 0x20 then
    ['\\', 'u', '0', '0', hexDigit (c.toNat / 16), hexDigit (c.toNat % 16)]
  else [c]

/-- A text in quotes.  A byte that belongs to no character is written as the replacement character,
escaped. -/
def quoted (s : Bytes) : Bytes :=
  let inner := (Utf8.symbols s).flatMap fun
    | .char c => Utf8.encode (escape c)
    | .stray _ => ("\\ufffd" : Bytes)
  "\"" ++ inner ++ "\""

def listed (items : List Bytes) : Bytes :=
  List.intercalate (", " : Bytes) items

def bracketed (items : List Bytes) : Bytes :=
  "[" ++ listed items ++ "]"

/-- An object of named values. -/
def object (fields : List (Bytes × Bytes)) : Bytes :=
  "\x7b" ++ listed (fields.map fun (k, v) => quoted k ++ ": " ++ v) ++ "\x7d"

def integer (n : Int) : Bytes :=
  if n < 0 then "-" ++ decimal n.natAbs else decimal n.natAbs

/-- The messages of causes as one. -/
def joined (causes : List Bytes) : Bytes :=
  List.intercalate ("; " : Bytes) causes

/-- The named values of a field. -/
def fieldValues (elapsed : Bytes) (detailed : Bool) (name : Bytes) : Value → List (Bytes × Bytes)
  | .text t => [(name, quoted t)]
  | .number n => [(name, integer n)]
  | .flag b => [(name, if b then "true" else "false")]
  | .texts ts => [(name, bracketed (ts.map quoted))]
  | .counts cs => [(name, object (cs.map fun (k, n) => ((k : Bytes), decimal n)))]
  | .failure causes =>
    (name, quoted (joined causes)) ::
      if detailed && 1 < causes.length then
        [(name ++ "Causes", bracketed (causes.map fun c => object [("error", quoted c)]))]
      else []
  | .elapsed => [(name, quoted elapsed)]

/-! ### Lines -/

/-- What the host adds to a line: the time, the time since the start, and the place that logs, in logs
that tell it. -/
structure Context where
  time : Bytes
  elapsed : Bytes
  caller : Option Bytes
  deriving Repr, DecidableEq

/-- A record as a line. -/
def Record.line (r : Record) (c : Context) (detailed : Bool) : Bytes :=
  let name := if r.logger.isEmpty then [] else [r.logger]
  let fields := r.fields.flatMap fun (k, v) => fieldValues c.elapsed detailed k v
  let columns := [c.time, r.level.name] ++ name ++ c.caller.toList ++ [r.message]
    ++ (if fields.isEmpty then [] else [object fields])
  List.intercalate ("\t" : Bytes) columns ++ "\n"

end Restyle.Log
