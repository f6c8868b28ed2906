import Restyle.Encoding.Table
import Restyle.Encoding.Unicode
import Restyle.Text.Blank
import Restyle.Text.Case
import Restyle.Text.Quoted

/-!
# Code pages

A code page reads bytes that carry no byte order mark.  Reading never fails: what has no character
becomes the replacement character.
-/

namespace Restyle.CodePage

open Unicode (ByteOrder)

/-- The characters of the bytes, where one byte is one character. -/
inductive Repertoire where
  /-- ASCII below, the characters of the string above. -/
  | upper (chars : String)
  | whole (chars : String)
  deriving Repr, DecidableEq

inductive Decoder where
  | utf8
  /-- A mark at the start, where `marked`, is dropped and decides the order. -/
  | utf16 (order : ByteOrder) (marked : Bool)
  | single (chars : Repertoire)
  /-- Several bytes a character. -/
  | wide
  deriving Repr, DecidableEq

end Restyle.CodePage

namespace Restyle

/-- A code page under its registered name. -/
structure CodePage where
  name : String
  decoder : CodePage.Decoder
  deriving Repr, DecidableEq

namespace CodePage

def decodeSingle (chars : List Char) (first : Nat) (data : Bytes) : List Char :=
  let table := chars.toArray
  data.map fun b =>
    if b.toNat < first then Char.ofNat b.toNat
    else table.getD (b.toNat - first) Utf8.replacement

/-- How the code pages with several bytes a character are read, by their names.  Their tables are not known
here, and what holds of a program holds for all of them. -/
abbrev Wide : Type :=
  String → Bytes → List Char

/-- The part that such code pages have in common with ASCII. -/
def Wide.ascii : Wide :=
  fun _ data => decodeSingle [] 0x80 data

def decode (p : CodePage) (wide : Wide) (data : Bytes) : List Char :=
  match p.decoder with
  | .utf8 => Unicode.decode8 data
  | .utf16 order marked =>
    if marked && (Unicode.Form.mark (.utf16 .big)).isPrefixOf data then
      Unicode.decode16 .big (data.drop 2)
    else if marked && (Unicode.Form.mark (.utf16 .little)).isPrefixOf data then
      Unicode.decode16 .little (data.drop 2)
    else Unicode.decode16 order data
  | .single (.upper chars) => decodeSingle chars.toList 0x80 data
  | .single (.whole chars) => decodeSingle chars.toList 0 data
  | .wide => wide p.name data

end CodePage

end Restyle
