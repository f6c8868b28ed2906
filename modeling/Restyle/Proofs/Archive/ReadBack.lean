import Restyle.Archive.Zip
import Restyle.Proofs.Deflate

/-!
# An archive is read back

`Holds` says that bytes stand at a place of an archive.  It splits along the parts in which an archive is
written, so each field of a header is found where reading looks for it.

* `headerAt_directoryHeader`: a header of the directory is read as it was written.
* `headersFrom_directory`: so is the directory, header by header, up to the mark of the end.
* `content_text`: the content of an entry is found behind its header, unpacked and checked.
* `listing_encode`: reading an archive gives the entries it was written from, in their order, as long as
  its size and theirs can be written in the four bytes there are for them.
-/

namespace Restyle.Archive

/-! ### Bytes at a place -/

/-- The bytes from a place on start with these. -/
def Holds (data : Array UInt8) (i : Nat) (s : Bytes) : Prop :=
  s <+: data.toList.drop i

/-- What is written in two goes stands behind each other. -/
theorem holds_append {data : Array UInt8} {i : Nat} {s t : Bytes} :
    Holds data i (s ++ t) ↔ Holds data i s ∧ Holds data (i + s.length) t := by
  constructor
  · rintro ⟨r, hr⟩
    refine ⟨⟨t ++ r, by rw [← hr, List.append_assoc]⟩, ⟨r, ?_⟩⟩
    rw [← List.drop_drop, ← hr, List.append_assoc, List.drop_left]
  · rintro ⟨⟨r, hr⟩, ht⟩
    rw [Holds, ← List.drop_drop, ← hr, List.drop_left] at ht
    rw [Holds, ← hr]
    exact (List.prefix_append_right_inj s).2 ht

/-- A text as an array holds itself. -/
theorem holds_self (s : Bytes) : Holds s.toArray 0 s :=
  List.prefix_refl s

namespace Holds

variable {data : Array UInt8} {i : Nat} {s : Bytes}

/-- What is held lies within the data. -/
theorem le_size (h : Holds data i s) (hs : s ≠ []) : i + s.length ≤ data.size := by
  have hle : s.length ≤ data.size - i := by
    rw [← Array.length_toList, ← List.length_drop]
    exact List.IsPrefix.length_le h
  have hpos : 0 < s.length := List.length_pos_iff.2 hs
  omega

/-- Bytes are read as they are held. -/
theorem bytesAt_eq (h : Holds data i s) : bytesAt data i s.length = s := by
  rw [bytesAt, Array.toList_extract, List.extract_eq_take_drop, Nat.add_sub_cancel_left]
  exact (List.prefix_iff_eq_take.1 h).symm

theorem getD_eq {b : UInt8} (h : Holds data i (b :: s)) : data.getD i 0 = b := by
  obtain ⟨r, hr⟩ := h
  have hget : data.toList[i]? = some b := by
    rw [← Nat.add_zero i, ← List.getElem?_drop, ← hr]
    rfl
  rw [Array.getElem?_toList] at hget
  rw [Array.getD_eq_getD_getElem?, hget]
  rfl

theorem tail {b : UInt8} (h : Holds data i (b :: s)) : Holds data (i + 1) s :=
  (holds_append.1 (show Holds data i ([b] ++ s) from h)).2

end Holds

theorem numberAt_succ (data : Array UInt8) (i w : Nat) :
    numberAt data i (w + 1) = (data.getD i 0).toNat + 256 * numberAt data (i + 1) w := by
  rw [numberAt, List.range_succ_eq_map, List.foldr_cons, List.foldr_map, Nat.add_zero, numberAt]
  simp only [Nat.succ_eq_add_one, Nat.add_assoc, Nat.add_comm 1]

/-- A number takes as many bytes as it is given. -/
theorem length_number (w n : Nat) : (number w n).length = w := by
  induction w generalizing n with
  | zero => rfl
  | succ w ih => rw [number, List.length_cons, ih]

/-- A number is read from the bytes in which it was written, less what these cannot hold. -/
theorem Holds.numberAt_mod {data : Array UInt8} {i w n : Nat} (h : Holds data i (number w n)) :
    numberAt data i w = n % 1 <<< (8 * w) := by
  induction w generalizing i n with
  | zero => exact (Nat.mod_one n).symm
  | succ w ih =>
      have hwide : 1 <<< (8 * (w + 1)) = 256 * 1 <<< (8 * w) := by
        rw [Nat.mul_succ, Nat.shiftLeft_add, Nat.shiftLeft_eq, Nat.mul_comm]
      rw [number] at h
      rw [numberAt_succ, h.getD_eq, Utf8.toNat_byte (Nat.mod_lt _ (by decide)), ih h.tail, hwide, Nat.mod_mul]

/-- A number that has room in its bytes is read back from them. -/
theorem Holds.numberAt_eq {data : Array UInt8} {i w n : Nat} (h : Holds data i (number w n))
    (hn : n < 1 <<< (8 * w)) : numberAt data i w = n := by
  rw [h.numberAt_mod, Nat.mod_eq_of_lt hn]

/-! ### Headers -/

namespace Item

/-- An item whose numbers can be written in the bytes there are for them. -/
structure Fits (i : Item) : Prop where
  name : i.name.length < 65536
  method : i.method < 65536
  checksum : i.checksum < UInt32.size
  body : i.body.length < UInt32.size
  size : i.size < UInt32.size

theorem flags_lt (i : Item) : i.flags < 65536 := by
  rw [flags, flagDescriptor, flagUtf8]
  split <;> split <;> decide

/-- The third flag says that sizes follow the data, which is so for all but directories. -/
theorem testBit_flags (i : Item) : i.flags.testBit 3 = !i.isDirectory := by
  rw [flags, flagDescriptor, flagUtf8]
  generalize (i.name.any (0x80 ≤ ·) && Utf8.isValid i.name) = wide
  cases i.isDirectory <;> cases wide <;> rfl

/-- What the directory tells about an item. -/
def header (i : Item) (offset : Nat) : Header where
  name := i.name
  method := i.method
  hasDescriptor := !i.isDirectory
  checksum := i.checksum
  packedSize := i.body.length
  size := i.size
  offset := offset
  system := 0
  attributes := 0

theorem length_directoryHeader (i : Item) (offset : Nat) :
    (i.directoryHeader offset).length = directoryHeaderSize + i.name.length := by
  simp only [directoryHeader, common, sums, List.length_append, length_number, directoryHeaderSize]

end Item

/-- **One header of the directory** is read as what was written for its item. -/
theorem headerAt_directoryHeader {data : Array UInt8} {start offset : Nat} {i : Item} (hi : i.Fits)
    (hoffset : offset < UInt32.size) (h : Holds data start (i.directoryHeader offset)) :
    headerAt data 0 start = some (i.header offset, start + (i.directoryHeader offset).length) := by
  have hlength := i.length_directoryHeader offset
  have hstop : start + (i.directoryHeader offset).length ≤ data.size :=
    h.le_size (by rw [← List.length_pos_iff, hlength, directoryHeaderSize]; omega)
  simp only [Item.directoryHeader, Item.common, Item.sums, holds_append, length_number, List.length_append,
    Nat.add_assoc, Nat.reduceAdd] at h
  obtain ⟨⟨⟨⟨⟨⟨⟨⟨⟨⟨⟨hmark, hmade⟩, ⟨⟨-, hflags⟩, hmethod⟩, -⟩, ⟨hsum, hbody⟩, hsize⟩, hlen⟩, hextra⟩, hcomment⟩,
    -⟩, -⟩, hattributes⟩, hplace⟩, hbytes⟩ := h
  -- each field from its bytes; what the header leaves open was written as zero
  have hmark := hmark.numberAt_eq (by decide)
  have hmade := hmade.numberAt_eq (by decide)
  have hflags := hflags.numberAt_eq i.flags_lt
  have hmethod := hmethod.numberAt_eq hi.method
  have hsum := hsum.numberAt_eq hi.checksum
  have hbody := hbody.numberAt_eq hi.body
  have hsize := hsize.numberAt_eq hi.size
  have hlen := hlen.numberAt_eq hi.name
  have hextra := hextra.numberAt_eq (by decide)
  have hcomment := hcomment.numberAt_eq (by decide)
  have hattributes := hattributes.numberAt_eq (by decide)
  have hplace := hplace.numberAt_eq hoffset
  have hbytes : bytesAt data (start + directoryHeaderSize) i.name.length = i.name := hbytes.bytesAt_eq
  rw [hlength] at hstop ⊢
  have hinside : (start + directoryHeaderSize ≤ data.size && numberAt data start 4 == directoryMark) = true := by
    rw [hmark, beq_self_eq_true, Bool.and_true, decide_eq_true_eq]
    omega
  rw [headerAt, if_pos hinside]
  dsimp only
  rw [hlen, hextra, hcomment, if_pos (by omega), hmade, hflags, hmethod, hsum, hbody, hsize, hattributes, hplace,
    hbytes, Item.testBit_flags, Nat.zero_add, Nat.add_zero, Nat.add_assoc]
  rfl

/-! ### The directory -/

/-- What the directory tells about items, the first of which is at `offset`. -/
def headers (offset : Nat) : List Item → List Header
  | [] => []
  | i :: is => i.header offset :: headers (offset + i.text.length) is

theorem length_headers (offset : Nat) (is : List Item) : (headers offset is).length = is.length := by
  induction is generalizing offset with
  | nil => rfl
  | cons i is ih => rw [headers, List.length_cons, ih, List.length_cons]

/-- Each item takes at least a header in the directory. -/
theorem le_length_directory (offset : Nat) (is : List Item) :
    directoryHeaderSize * is.length ≤ (directory offset is).length := by
  induction is generalizing offset with
  | nil => exact Nat.zero_le _
  | cons i is ih =>
      have hrest := ih (offset + i.text.length)
      rw [directory, List.length_append, Item.length_directoryHeader, List.length_cons, Nat.mul_succ]
      omega

/-- The directory is read up to the mark of the end, which is none of a header. -/
theorem headersFrom_directory {data : Array UInt8} {is : List Item} (his : ∀ i ∈ is, i.Fits)
    {start offset fuel : Nat} (hoffset : offset + (is.flatMap Item.text).length < UInt32.size)
    (hfuel : is.length < fuel) (h : Holds data start (directory offset is ++ number 4 endMark)) :
    headersFrom data 0 fuel start = headers offset is := by
  induction is generalizing start offset fuel with
  | nil =>
      obtain ⟨fuel, rfl⟩ := Nat.exists_eq_succ_of_ne_zero (Nat.ne_zero_of_lt hfuel)
      have hmark : numberAt data start 4 = endMark := Holds.numberAt_eq h (by decide)
      have hnone : headerAt data 0 start = none := by
        rw [headerAt, hmark, if_neg]
        rw [Bool.and_eq_true]
        exact fun hand => absurd hand.2 (by decide)
      rw [headersFrom, hnone]
      rfl
  | cons i is ih =>
      obtain ⟨fuel, rfl⟩ := Nat.exists_eq_succ_of_ne_zero (Nat.ne_zero_of_lt hfuel)
      rw [List.flatMap_cons, List.length_append] at hoffset
      rw [directory, List.append_assoc, holds_append] at h
      rw [List.forall_mem_cons] at his
      rw [headersFrom, headerAt_directoryHeader his.1 (by omega) h.1, headers]
      dsimp only
      rw [ih his.2 (by omega) (Nat.lt_of_succ_lt_succ hfuel) h.2]

/-! ### The end -/

/-- The end of an archive: how many entries there are, and the size and the place of the directory. -/
def endRecord (count size offset : Nat) : Bytes :=
  number 4 endMark ++ (number 2 0 ++ (number 2 0 ++ (number 2 count ++ (number 2 count ++ (number 4 size ++
    (number 4 offset ++ number 2 0))))))

theorem length_endRecord (count size offset : Nat) : (endRecord count size offset).length = endSize := by
  simp only [endRecord, List.length_append, length_number, endSize]

/-- The end of an archive is its directory and one record. -/
theorem ending_eq (is : List Item) : ending is =
    directory 0 is ++ endRecord is.length (directory 0 is).length (is.flatMap Item.text).length := by
  simp only [ending, endRecord, List.append_assoc]

section End

variable {data : Array UInt8} {stop count size offset : Nat} (h : Holds data stop (endRecord count size offset))

include h

/-- The record is found at once where it ends the data. -/
theorem findEnd_endRecord (hstop : data.size = stop + endSize) (tries : Nat) :
    findEnd data (tries + 1) (data.size - endSize) = some stop := by
  simp only [endRecord, holds_append, length_number, Nat.add_assoc, Nat.reduceAdd] at h
  obtain ⟨hmark, -, -, -, -, -, -, hcomment⟩ := h
  have hmark := hmark.numberAt_eq (by decide)
  have hcomment := hcomment.numberAt_eq (by decide)
  have hstart : data.size - endSize = stop := by omega
  rw [hstart, findEnd, hmark, if_pos (beq_self_eq_true _), hcomment, if_pos (by omega)]

/-- The numbers of the record; the count is kept modulo the size of its field. -/
theorem numbers_endRecord (hsize : size < UInt32.size) (hoffset : offset < UInt32.size) :
    numberAt data (stop + 10) 2 = count % UInt16.size ∧ numberAt data (stop + 12) 4 = size ∧
      numberAt data (stop + 16) 4 = offset := by
  simp only [endRecord, holds_append, length_number, Nat.add_assoc, Nat.reduceAdd] at h
  obtain ⟨-, -, -, -, hcount, hbytes, hplace, -⟩ := h
  exact ⟨hcount.numberAt_mod, hbytes.numberAt_eq hsize, hplace.numberAt_eq hoffset⟩

end End

/-- **Items are parsed as they were written**, unless there is too much of them for the fields of a header. -/
theorem parse_encodeItems {is : List Item} (his : ∀ i ∈ is, i.Fits) (hsize : (encodeItems is).length < UInt32.size) :
    parse (encodeItems is) = .ok (headers 0 is) := by
  have hlength : (encodeItems is).toArray.size =
      (is.flatMap Item.text).length + (directory 0 is).length + endSize := by
    rw [List.size_toArray, encodeItems, ending_eq, List.length_append, List.length_append, length_endRecord,
      Nat.add_assoc]
  have hheld := holds_self (encodeItems is)
  have hdirectory := le_length_directory 0 is
  rw [← List.size_toArray] at hsize
  rw [parse]
  generalize (encodeItems is).toArray = data at hheld hlength hsize
  rw [encodeItems, ending_eq, holds_append, Nat.zero_add, holds_append] at hheld
  obtain ⟨-, hdir, hend⟩ := hheld
  have hheaders := holds_append.2 ⟨hdir, (holds_append.1 hend).1⟩
  generalize hstop : (is.flatMap Item.text).length + (directory 0 is).length = stop at hend hlength
  obtain ⟨hrecords, hbytes, hplace⟩ := numbers_endRecord hend (by omega) (by omega)
  have hread : headersFrom data 0 (data.size / directoryHeaderSize + 1) (is.flatMap Item.text).length =
      headers 0 is := by
    -- a header takes so many bytes at least, so the fuel lasts
    have hfuel : is.length ≤ data.size / directoryHeaderSize := by
      rw [Nat.le_div_iff_mul_le (by decide), Nat.mul_comm]
      omega
    exact headersFrom_directory his (by omega) (Nat.lt_succ_of_le hfuel) hheaders
  -- nothing stands before the archive, so places are counted from its start
  have hbase : stop - (directory 0 is).length - (is.flatMap Item.text).length = 0 := by omega
  rw [if_neg (by omega)]
  dsimp only
  rw [findEnd_endRecord hend hlength]
  dsimp only
  rw [hrecords, hbytes, hplace, if_neg (by omega), hbase, ite_self, parse.entries, Nat.zero_add, hread,
    length_headers, if_pos (beq_self_eq_true _)]

/-! ### Entries -/

/-- The content of an item is looked for behind its header. -/
theorem content_header {data : Array UInt8} {offset : Nat} {i : Item} (hi : i.Fits) (h : Holds data offset i.text) :
    (i.header offset).content data =
      if i.method == methodStored then
        (i.header offset).checked data (offset + i.fileHeader.length + i.body.length) i.body
      else if i.method == methodPacked then
        match Deflate.unpack i.body with
        | .ok content => (i.header offset).checked data (offset + i.fileHeader.length + i.body.length) content
        | .error e => .unreadable (.packed e)
      else .unopened .method := by
  have hlength : i.fileHeader.length = fileHeaderSize + i.name.length := by
    simp only [Item.fileHeader, Item.common, List.length_append, length_number, fileHeaderSize]
  rw [Item.text, holds_append, holds_append] at h
  obtain ⟨⟨hhead, hbody⟩, -⟩ := h
  have hinside := hhead.le_size (by rw [← List.length_pos_iff, hlength, fileHeaderSize]; omega)
  simp only [Item.fileHeader, Item.common, holds_append, length_number, List.length_append, Nat.add_assoc,
    Nat.reduceAdd] at hhead
  obtain ⟨⟨⟨⟨⟨⟨⟨hmark, -⟩, -⟩, -⟩, -⟩, hname⟩, hextra⟩, -⟩ := hhead
  have hmark : numberAt data (i.header offset).offset 4 = fileMark := hmark.numberAt_eq (by decide)
  have hname : numberAt data ((i.header offset).offset + 26) 2 = i.name.length := hname.numberAt_eq hi.name
  have hextra : numberAt data ((i.header offset).offset + 28) 2 = 0 := hextra.numberAt_eq (by decide)
  have hplace : (i.header offset).offset + fileHeaderSize + i.name.length = offset + i.fileHeader.length := by
    rw [hlength, ← Nat.add_assoc]
    rfl
  have hlong : ¬ data.size < (i.header offset).offset + fileHeaderSize := by omega
  have hbody : bytesAt data (offset + i.fileHeader.length) (i.header offset).packedSize = i.body :=
    hbody.bytesAt_eq
  rw [Header.content, if_neg hlong, hmark, if_neg (by decide)]
  dsimp only
  rw [hname, hextra, Nat.add_zero, hplace, hbody]
  rfl

namespace Entry

theorem name_item (e : Entry) : e.item.name = e.name := by
  rw [item]
  split <;> rfl

/-- An entry can be written if its name is not too long and no directory is given content. -/
theorem refusal?_eq_none_iff {e : Entry} :
    e.refusal? = none ↔ e.name.length ≤ maxName ∧ e.isMisplaced = false := by
  unfold refusal?
  split
  · next hlong => simp [Nat.not_le.2 hlong]
  · next hshort =>
      rw [Nat.not_lt] at hshort
      cases e.isMisplaced <;> simp [hshort]

/-- An entry that is not refused can be written, if it is not too large. -/
theorem fits_item {e : Entry} (he : e.refusal? = none) (hdata : e.data.length < UInt32.size)
    (hbody : e.item.body.length < UInt32.size) : e.item.Fits := by
  have hname : e.name.length < 65536 := Nat.lt_succ_of_le (refusal?_eq_none_iff.1 he).1
  refine ⟨by rwa [name_item], ?_, ?_, hbody, ?_⟩
  · rw [item]
    split
    · exact Nat.zero_lt_succ _
    · exact (by decide : methodPacked < 65536)
  · rw [item]
    split
    · exact Nat.zero_lt_succ _
    · exact UInt32.toNat_lt_size _
  · rw [item]
    split
    · exact Nat.zero_lt_succ _
    · exact hdata

/-- A directory that is not refused has no data. -/
theorem data_eq_nil {e : Entry} (he : e.refusal? = none) (hdir : namesDirectory e.name = true) : e.data = [] := by
  have hplaced := (refusal?_eq_none_iff.1 he).2
  rw [isMisplaced, hdir, Bool.true_and] at hplaced
  simpa using hplaced

/-- The header is the same for any content. -/
theorem fileHeader_item (e : Entry) : e.item.fileHeader = Archive.fileHeader e.name := by
  obtain ⟨name, data⟩ := e
  unfold Archive.fileHeader item
  dsimp only
  split <;> rfl

end Entry

/-- What of an item is written at once, and what is left for later. -/
theorem Item.text_eq (i : Item) : i.text = i.fileHeader ++ i.early ++ i.late := by
  rw [text, early, late, ← List.append_assoc, List.append_assoc i.fileHeader (i.body.take _),
    List.take_append_drop]

section Checked

variable {h : Header} {content : Bytes} (hsize : h.size = content.length)

include hsize

/-- Content with nothing behind it, and no checksum. -/
theorem checked_plain (hplain : h.hasDescriptor = false) (hsum : h.checksum = 0) (data : Array UInt8) (stop : Nat) :
    h.checked data stop content = .data content := by
  rw [Header.checked, hsize, if_neg (Nat.lt_irrefl _), if_neg (Nat.lt_irrefl _), hplain, hsum]
  rfl

/-- Content with its checksum and sizes behind it. -/
theorem checked_followed (hfollowed : h.hasDescriptor = true) (hsum : h.checksum = (checksum content).toNat)
    {data : Array UInt8} {stop m n : Nat}
    (hheld : Holds data stop (number 4 descriptorMark ++ (number 4 h.checksum ++ number 4 m ++ number 4 n))) :
    h.checked data stop content = .data content := by
  have hlt : h.checksum < UInt32.size := hsum ▸ UInt32.toNat_lt_size _
  have hinside := hheld.le_size (by rw [← List.length_pos_iff, List.length_append, length_number]; omega)
  simp only [List.length_append, length_number] at hinside
  simp only [holds_append, length_number] at hheld
  have hmark := hheld.1.numberAt_eq (by decide)
  have hfound := hheld.2.1.1.numberAt_eq hlt
  rw [Header.checked, hsize, if_neg (Nat.lt_irrefl _), if_neg (Nat.lt_irrefl _), if_pos hfollowed, hmark,
    if_pos (beq_self_eq_true _), if_neg (by omega), hfound, hsum, if_neg (by simp)]

end Checked

/-- The content of an entry is found behind its header, unpacked and checked. -/
theorem content_text {data : Array UInt8} {offset : Nat} {e : Entry} (he : e.refusal? = none) (hi : e.item.Fits)
    (h : Holds data offset e.item.text) : (e.item.header offset).content data = .data e.data := by
  have hbehind := (holds_append.1 h).2
  rw [content_header hi h]
  rw [List.length_append, ← Nat.add_assoc] at hbehind
  generalize offset + e.item.fileHeader.length + e.item.body.length = stop at hbehind
  cases hdir : namesDirectory e.name with
  | true =>
      have hitem : e.item = ⟨e.name, methodStored, 0, 0, [], 0⟩ := by rw [Entry.item, if_pos hdir]
      rw [hitem, Entry.data_eq_nil he hdir, if_pos (beq_self_eq_true _)]
      exact checked_plain rfl (by rw [Item.header, Item.isDirectory, hdir]; rfl) rfl data stop
  | false =>
      have hitem : e.item = ⟨e.name, methodPacked, (checksum e.data).toNat, e.data.length,
          (Deflate.pack e.data).bytes, (Deflate.pack e.data).early⟩ := by
        rw [Entry.item, hdir]
        rfl
      have hfollowed : e.item.isDirectory = false := by rw [Item.isDirectory, Entry.name_item, hdir]
      have hmethod : e.item.method = methodPacked := by rw [hitem]
      have hunpack : Deflate.unpack e.item.body = .ok e.data := by rw [hitem, Deflate.unpack_pack]
      rw [Item.descriptor, hfollowed, if_neg Bool.false_ne_true, Item.sums] at hbehind
      rw [hmethod, if_neg (by decide), if_pos (beq_self_eq_true _), hunpack]
      exact checked_followed (by rw [hitem]; rfl) (by rw [Item.header, hfollowed]; rfl) (by rw [hitem]; rfl) hbehind

/-! ### Archives -/

/-- The entries of an archive with their contents. -/
def listing (archive : Bytes) : Except Error (List (Bytes × Content)) :=
  (parse archive).map fun hs => hs.map fun h => (h.name, h.content archive.toArray)

/-- The contents found behind the headers are those that were written. -/
theorem contents_headers {data : Array UInt8} {es : List Entry} (hes : ∀ e ∈ es, e.refusal? = none)
    (hfits : ∀ e ∈ es, e.item.Fits) {offset : Nat} (h : Holds data offset ((es.map Entry.item).flatMap Item.text)) :
    (headers offset (es.map Entry.item)).map (fun h => (h.name, h.content data)) =
      es.map fun e => (e.name, .data e.data) := by
  induction es generalizing offset with
  | nil => rfl
  | cons e es ih =>
      rw [List.forall_mem_cons] at hes hfits
      rw [List.map_cons, List.flatMap_cons, holds_append] at h
      have hname : (e.item.header offset).name = e.name := e.name_item
      rw [List.map_cons, headers, List.map_cons, List.map_cons, hname, content_text hes.1 hfits.1 h.1,
        ih hes.2 hfits.2 h.2]

/-- An archive is read back as the entries it was written from. -/
theorem listing_encode {es : List Entry} (hes : ∀ e ∈ es, e.refusal? = none)
    (hdata : ∀ e ∈ es, e.data.length < UInt32.size) (hsize : (encode es).length < UInt32.size) :
    listing (encode es) = .ok (es.map fun e => (e.name, .data e.data)) := by
  have hfits : ∀ e ∈ es, e.item.Fits := by
    intro e he
    refine Entry.fits_item (hes e he) (hdata e he) ?_
    have htext : e.item.text.length ≤ ((es.map Entry.item).flatMap Item.text).length :=
      List.Sublist.length_le (List.sublist_flatten_of_mem
        (List.mem_map_of_mem (List.mem_map_of_mem he)))
    rw [encode, encodeItems, List.length_append] at hsize
    rw [Item.text, List.length_append, List.length_append] at htext
    omega
  have hitems : ∀ i ∈ es.map Entry.item, i.Fits := by
    simpa using hfits
  have hheld := holds_self (encode es)
  rw [encode, encodeItems, holds_append] at hheld
  rw [listing, encode, parse_encodeItems hitems hsize]
  exact congrArg Except.ok (contents_headers hes hfits hheld.1)

end Restyle.Archive
