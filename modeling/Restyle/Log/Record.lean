import Restyle.Text.Utf8

/-!
# Log records

What the program says while it works.  A record names its logger by a dotted path and carries fields
in order.
-/

namespace Restyle.Log

inductive Level where
  | debug
  | info
  | warn
  | error
  deriving Repr, DecidableEq

inductive Value where
  | text (t : Bytes)
  | number (n : Int)
  | flag (b : Bool)
  | texts (ts : List Bytes)
  | counts (cs : List (String × Nat))
  /-- A failure, by the messages of its causes. -/
  | failure (causes : List Bytes)
  /-- The time that passed, as the host writes it. -/
  | elapsed
  deriving Repr, DecidableEq

structure Record where
  level : Level
  logger : Bytes
  message : Bytes
  fields : List (String × Value)
  deriving Repr, DecidableEq

/-- The path of a logger below another. -/
def child (parent name : Bytes) : Bytes :=
  if parent.isEmpty then name else if name.isEmpty then parent else parent ++ "." ++ name

end Restyle.Log
