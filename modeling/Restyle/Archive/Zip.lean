import Restyle.Archive.Checksum
import Restyle.Archive.Name
import Restyle.Deflate.Pack
import Restyle.Files.Disk

/-!
# Archives

An archive holds entries one after another, each behind a header, and at its end a directory of them.
`parse` reads the directory and `Header.content` an entry; `encode` writes an archive.
-/

namespace Restyle.Archive

/-- Why an archive or an entry cannot be read or written. -/
inductive Error where
  | invalid
  | method
  | checksum
  | short
  /-- The archive ends before the entry begins. -/
  | ended
  | packed (e : Deflate.UnpackError)
  | nameTooLong
  | dataInDirectory
  /-- The archive itself cannot be read any more. -/
  | lost (e : Files.Failure)
  deriving Repr, DecidableEq

def Error.message : Error → Bytes
  | .invalid => "zip: not a valid zip file"
  | .method => "zip: unsupported compression algorithm"
  | .checksum => "zip: checksum error"
  | .short => "unexpected EOF"
  | .ended => "EOF"
  | .packed e => e.message
  | .nameTooLong => "zip: FileHeader.Name too long"
  | .dataInDirectory => "zip: write to directory"
  | .lost e => e.message

/-! ### Numbers

Numbers are written from the lowest byte on. -/

def numberAt (data : Array UInt8) (i width : Nat) : Nat :=
  (List.range width).foldr (fun k n => (data.getD (i + k) 0).toNat + 256 * n) 0

def bytesAt (data : Array UInt8) (i n : Nat) : Bytes :=
  (data.extract i (i + n)).toList

def number : (width : Nat) → Nat → Bytes
  | 0, _ => []
  | w + 1, n => UInt8.ofNat (n % 256) :: number w (n / 256)

/-! ### Layout -/

def fileMark : Nat := 0x04034B50

def directoryMark : Nat := 0x02014B50

def endMark : Nat := 0x06054B50

def descriptorMark : Nat := 0x08074B50

def fileHeaderSize : Nat := 30

def directoryHeaderSize : Nat := 46

def endSize : Nat := 22

/-- The end of the archive is looked for in so many bytes. -/
def endReach : Nat := 65 * 1024

def methodStored : Nat := 0

def methodPacked : Nat := 8

/-- Sizes and checksum follow the content. -/
def flagDescriptor : Nat := 0x8

/-- The name is written in UTF-8. -/
def flagUtf8 : Nat := 0x800

def namesDirectory (name : Bytes) : Bool :=
  name.getLast? == some Path.slash

/-! ### Reading -/

/-- What the directory tells about an entry. -/
structure Header where
  name : Bytes
  method : Nat
  hasDescriptor : Bool
  checksum : Nat
  packedSize : Nat
  size : Nat
  offset : Nat
  /-- The system on which the entry was made, and its attributes there. -/
  system : Nat
  attributes : Nat
  deriving Repr, DecidableEq

/-- The entry is a directory, by its name or by its attributes. -/
def Header.isDirectory (h : Header) : Bool :=
  namesDirectory h.name ||
  (if h.system == 3 || h.system == 19 then h.attributes >>> 16 >>> 12 % 16 == 4
    else (h.system == 0 || h.system == 11 || h.system == 14) && h.attributes.testBit 4)

/-- A header of the directory, and the place after it. -/
def headerAt (data : Array UInt8) (base i : Nat) : Option (Header × Nat) :=
  if i + directoryHeaderSize ≤ data.size && numberAt data i 4 == directoryMark then
    let nameSize := numberAt data (i + 28) 2
    let stop := i + directoryHeaderSize + nameSize + numberAt data (i + 30) 2
      + numberAt data (i + 32) 2
    if stop ≤ data.size then
      some ({
        name := bytesAt data (i + directoryHeaderSize) nameSize
        method := numberAt data (i + 10) 2
        hasDescriptor := (numberAt data (i + 8) 2).testBit 3
        checksum := numberAt data (i + 16) 4
        packedSize := numberAt data (i + 20) 4
        size := numberAt data (i + 24) 4
        offset := base + numberAt data (i + 42) 4
        system := numberAt data (i + 4) 2 / 256
        attributes := numberAt data (i + 38) 4 }, stop)
    else none
  else none

/-- All headers from a place on. -/
def headersFrom (data : Array UInt8) (base : Nat) : (fuel i : Nat) → List Header
  | 0, _ => []
  | fuel + 1, i =>
    match headerAt data base i with
    | some (h, stop) => h :: headersFrom data base fuel stop
    | none => []

/-- The last place with the mark of the end, from `i` down. -/
def findEnd (data : Array UInt8) : (count i : Nat) → Option Nat
  | 0, _ => none
  | count + 1, i =>
    if numberAt data i 4 == endMark then
      if i + endSize + numberAt data (i + 20) 2 ≤ data.size then some i else none
    else findEnd data count (i - 1)

/-- The entries of an archive. -/
def parse (archive : Bytes) : Except Error (List Header) :=
  let data := archive.toArray
  if data.size < endSize then .error .invalid
  else
    let count := min data.size endReach - endSize + 1
    match findEnd data count (data.size - endSize) with
    | none => .error .invalid
    | some i =>
      let records := numberAt data (i + 10) 2
      let size := numberAt data (i + 12) 4
      let offset := numberAt data (i + 16) 4
      if i < size + offset then
        -- the directory would start before the archive
        if i < size then .error .invalid else entries data records 0 (i - size)
      else
        let base := i - size - offset
        let base := if 0 < base && (headerAt data 0 offset).isSome then 0 else base
        entries data records base (base + offset)
where
  entries (data : Array UInt8) (records base start : Nat) : Except Error (List Header) :=
    let hs := headersFrom data base (data.size / directoryHeaderSize + 1) start
    if hs.length % UInt16.size == records then .ok hs else .error .invalid

/-- What opening an entry gives: its content, or why it cannot be opened or, once open, read. -/
inductive Content where
  | data (content : Bytes)
  | unopened (e : Error)
  | unreadable (e : Error)
  deriving Repr, DecidableEq

/-- What opening gives, and then reading. -/
def Content.opened : Content → Except Error (Except Error Bytes)
  | .data content => .ok (.ok content)
  | .unopened e => .error e
  | .unreadable e => .ok (.error e)

/-- Content with its size and checksum as they should be. -/
def Header.checked (h : Header) (archive : Array UInt8) (stop : Nat) (content : Bytes) : Content :=
  if h.size < content.length then .unreadable .invalid
  else if content.length < h.size then .unreadable .short
  else
    let sum := (Archive.checksum content).toNat
    if h.hasDescriptor then
      let i := if numberAt archive stop 4 == descriptorMark then stop + 4 else stop
      if archive.size < i + 12 then .unreadable .short
      else if numberAt archive i 4 != h.checksum || sum != h.checksum then .unreadable .checksum
      else .data content
    else if h.checksum != 0 && sum != h.checksum then .unreadable .checksum
    else .data content

/-- The content of an entry. -/
def Header.content (h : Header) (archive : Array UInt8) : Content :=
  if archive.size < h.offset + fileHeaderSize then .unopened .ended
  else if numberAt archive h.offset 4 != fileMark then .unopened .invalid
  else
    let start := h.offset + fileHeaderSize + numberAt archive (h.offset + 26) 2
      + numberAt archive (h.offset + 28) 2
    let stop := start + h.packedSize
    let body := bytesAt archive start h.packedSize
    if h.method == methodStored then h.checked archive stop body
    else if h.method == methodPacked then
      match Deflate.unpack body with
      | .ok content => h.checked archive stop content
      | .error e => .unreadable (.packed e)
    else .unopened .method

/-- What opening an entry gives, and then reading, in an archive as it was read now. -/
def Header.opened (h : Header) : Except Files.Failure Bytes → Except Error (Except Error Bytes)
  | .ok archive => (h.content archive.toArray).opened
  | .error e => .error (.lost e)

/-! ### Writing -/

/-- An entry to be written. -/
structure Entry where
  name : Bytes
  data : Bytes
  deriving Repr, DecidableEq

/-- An entry in the form in which it is written. -/
structure Item where
  name : Bytes
  method : Nat
  checksum : Nat
  size : Nat
  body : Bytes
  /-- How much of the body is there before the end of the data is known. -/
  ready : Nat
  deriving Repr, DecidableEq

def Entry.item (e : Entry) : Item :=
  if namesDirectory e.name then ⟨e.name, methodStored, 0, 0, [], 0⟩
  else
    let p := Deflate.pack e.data
    ⟨e.name, methodPacked, (Archive.checksum e.data).toNat, e.data.length, p.bytes, p.early⟩

/-- Directories have nothing that could follow them. -/
def Item.isDirectory (i : Item) : Bool :=
  namesDirectory i.name

def Item.flags (i : Item) : Nat :=
  (if i.isDirectory then 0 else flagDescriptor)
    + (if i.name.any (0x80 ≤ ·) && Utf8.isValid i.name then flagUtf8 else 0)

/-- Versions, flags, method and time. -/
def Item.common (i : Item) : Bytes :=
  number 2 20 ++ number 2 i.flags ++ number 2 i.method ++ number 4 0

def Item.fileHeader (i : Item) : Bytes :=
  number 4 fileMark ++ i.common ++ number 4 0 ++ number 4 0 ++ number 4 0
    ++ number 2 i.name.length ++ number 2 0 ++ i.name

def Item.sums (i : Item) : Bytes :=
  number 4 i.checksum ++ number 4 i.body.length ++ number 4 i.size

def Item.descriptor (i : Item) : Bytes :=
  if i.isDirectory then [] else number 4 descriptorMark ++ i.sums

def Item.directoryHeader (i : Item) (offset : Nat) : Bytes :=
  number 4 directoryMark ++ number 2 20 ++ i.common ++ i.sums ++ number 2 i.name.length
    ++ number 2 0 ++ number 2 0 ++ number 2 0 ++ number 2 0 ++ number 4 0 ++ number 4 offset
    ++ i.name

/-- The part of an archive that belongs to an entry. -/
def Item.text (i : Item) : Bytes :=
  i.fileHeader ++ i.body ++ i.descriptor

/-- The directory of items, the first of which is at `offset`. -/
def directory (offset : Nat) : List Item → Bytes
  | [] => []
  | i :: is => i.directoryHeader offset ++ directory (offset + i.text.length) is

/-- The end of an archive: the directory and where it is. -/
def ending (is : List Item) : Bytes :=
  let offset := (is.flatMap Item.text).length
  let dir := directory 0 is
  dir ++ number 4 endMark ++ number 2 0 ++ number 2 0 ++ number 2 is.length ++ number 2 is.length
    ++ number 4 dir.length ++ number 4 offset ++ number 2 0

def encodeItems (is : List Item) : Bytes :=
  is.flatMap Item.text ++ ending is

/-- An archive of entries. -/
def encode (es : List Entry) : Bytes :=
  encodeItems (es.map Entry.item)

/-- The longest name. -/
def maxName : Nat := 65535

/-- Directories have no content. -/
def Entry.isMisplaced (e : Entry) : Bool :=
  namesDirectory e.name && !e.data.isEmpty

/-- Why an entry cannot be written. -/
def Entry.refusal? (e : Entry) : Option Error :=
  if maxName < e.name.length then some .nameTooLong
  else if e.isMisplaced then some .dataInDirectory
  else none

/-! ### Writing step by step -/

/-- The header of an entry does not depend on its content. -/
def fileHeader (name : Bytes) : Bytes :=
  (Entry.item ⟨name, []⟩).fileHeader

/-- What is written of the content while it is read, and what can be written at its end only. -/
def Item.early (i : Item) : Bytes :=
  i.body.take i.ready

def Item.late (i : Item) : Bytes :=
  i.body.drop i.ready ++ i.descriptor

end Restyle.Archive
