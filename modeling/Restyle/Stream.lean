import Restyle.Text.Utf8

/-!
# Streams

A stream holds what has been written to it.  It may have room for so many bytes only; a write that does
not fit leaves what fits and fails.
-/

namespace Restyle

/-- The end of a stream: how many bytes still fit, and what is said when no more do. -/
structure Stream.Bound where
  room : Nat
  message : Bytes
  deriving Repr, DecidableEq

structure Stream where
  text : Bytes := []
  bound : Option Stream.Bound := none
  deriving Repr, DecidableEq

namespace Stream

/-- Writes data, and tells what went wrong if not all of it fits. -/
def write (s : Stream) (data : Bytes) : Stream × Option Bytes :=
  match s.bound with
  | none => ({ s with text := s.text ++ data }, none)
  | some b =>
    if data.length ≤ b.room then
      (⟨s.text ++ data, some { b with room := b.room - data.length }⟩, none)
    else (⟨s.text ++ data.take b.room, some { b with room := 0 }⟩, some b.message)

/-- Writes pieces of data up to the first that fails. -/
def writeAll (s : Stream) : List Bytes → Stream × Option Bytes
  | [] => (s, none)
  | d :: ds =>
    match s.write d with
    | (t, none) => t.writeAll ds
    | (t, some e) => (t, some e)

/-- A stream to which nothing can be written. -/
def full (message : Bytes) : Stream :=
  ⟨[], some ⟨0, message⟩⟩

/-- What is written for a document: itself, and a line end if it has none, to keep documents apart. -/
def pieces (doc : Bytes) : List Bytes :=
  if doc.getLast? == some 0x0A then [doc] else [doc, [0x0A]]

def writeDocument (s : Stream) (doc : Bytes) : Stream × Option Bytes :=
  s.writeAll (pieces doc)

end Stream

end Restyle
