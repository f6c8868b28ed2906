import Restyle.Text.Quoted
import Restyle.Text.Split

/-!
# Traces

A trace records how a document changes: its source, its text, and name and result of every step.  Texts
are quoted, so each stays on one line.
-/

namespace Restyle

structure Trace where
  text : Bytes
  /-- The number of steps recorded. -/
  steps : Nat
  deriving Repr, DecidableEq

namespace Trace

def indent (depth : Nat) : Bytes :=
  (List.replicate depth ("  " : Bytes)).flatten

/-- One line of text at a depth. -/
def line (depth : Nat) (s : Bytes) : Bytes :=
  indent depth ++ s ++ "\n"

def shown (text : Bytes) : Bytes :=
  if text.isEmpty then [] else quote text

/-- A labelled text at a depth. -/
def block (depth : Nat) (label text : Bytes) : Bytes :=
  line depth (label ++ ": " ++ shown text)

def add (t : Trace) (s : Bytes) : Trace :=
  { t with text := t.text ++ s }

/-- The trace of a document before any step. -/
def start (source text : Bytes) : Trace :=
  ⟨line 0 ("source: " ++ source) ++ block 1 "input" text, 0⟩

/-- Records the result of a step. -/
def step (t : Trace) (name text : Bytes) : Trace :=
  let n := t.steps + 1
  let head := "step " ++ decimal n ++ ": " ++ name ++ " (" ++ decimal text.length ++ " bytes)"
  ⟨t.text ++ line 0 head ++ block 1 "result" text, n⟩

end Trace

/-! ### Lines from templates -/

namespace Trace

inductive Arg where
  | text (t : Bytes)
  | number (n : Int)
  deriving Repr, DecidableEq

def Arg.shown : Arg → Bytes
  | .text t => t
  | .number n => if n < 0 then "-" ++ decimal n.natAbs else decimal n.natAbs

/-- A template with its verbs, `%s` and `%d`, replaced by the arguments in order.  `%%` is a percent
sign. -/
def fill : Bytes → List Arg → Bytes
  | 0x25 :: 0x25 :: s, args => 0x25 :: fill s args
  | 0x25 :: verb :: s, arg :: args =>
    if verb == 0x73 || verb == 0x64 then arg.shown ++ fill s args
    else 0x25 :: fill (verb :: s) (arg :: args)
  | b :: s, args => b :: fill s args
  | [], _ => []

end Trace

end Restyle
