import Restyle.Encoding.Decode
import Restyle.Proofs.Text.Utf8

/-!
# Reading back the Unicode forms

A text that is written in a Unicode form, behind the mark of the form, is read back as it was written.
For each form there is one lemma about the units of a character, whatever follows it, and one induction
over the text: `decode8_encode`, `decode16_encode16` and `decode32_encode32`.

The marks are prefixes of one another, so the form has to be recognised as well.  The mark of UTF-16 in
little order and U+0000 behind it are the mark of UTF-32 in little order: such a text is taken for UTF-32.

* `decode_mark_encode_iff`: every text is read back in every form, those excepted.
-/

namespace Restyle

namespace Unicode

/-! ### Numbers and their bytes -/

/-- A number of 16 bits has its lower bytes. -/
theorem ByteOrder.exists_ofWord (o : ByteOrder) (n : Nat) :
    ∃ a b, o.ofWord n = [a, b] ∧ o.word a b = n % 65536 := by
  cases o with
  | big =>
      refine ⟨_, _, rfl, ?_⟩
      simp only [ByteOrder.word, UInt8.toNat_ofNat']
      omega
  | little =>
      refine ⟨_, _, rfl, ?_⟩
      simp only [ByteOrder.word, UInt8.toNat_ofNat']
      omega

/-- Four bytes hold any number of that size. -/
theorem ByteOrder.exists_ofLong (o : ByteOrder) {n : Nat} (h : n < 4294967296) :
    ∃ a b c d, o.ofLong n = [a, b, c, d] ∧ o.long a b c d = n := by
  obtain ⟨a, b, hhigh, hab⟩ := o.exists_ofWord (n / 65536)
  obtain ⟨c, d, hlow, hcd⟩ := o.exists_ofWord n
  cases o with
  | big =>
      refine ⟨a, b, c, d, by simp [ByteOrder.ofLong, hhigh, hlow], ?_⟩
      simp only [ByteOrder.long, hab, hcd]
      omega
  | little =>
      refine ⟨c, d, a, b, by simp [ByteOrder.ofLong, hhigh, hlow], ?_⟩
      simp only [ByteOrder.long, hab, hcd]
      omega

/-- A code point of a character is that character. -/
theorem character_toNat (c : Char) : character c.toNat = c := by
  have hvalid : c.toNat.isValidChar := c.valid
  rw [character, if_pos hvalid, Char.ofNat_toNat]

/-! ### UTF-8 -/

theorem decode8From_append (t s : Bytes) : decode8From t.length (t ++ s) = decode8 s := by
  induction t with
  | nil => rfl
  | cons b t ih => exact ih

/-- Text is decoded from its bytes. -/
theorem decode8_encode (text : List Char) : decode8 (Utf8.encode text) = text := by
  induction text with
  | nil => rfl
  | cons c text ih =>
      have hread := Utf8.decodeChar?_encodeChar c (Utf8.encode text)
      obtain ⟨b, t, hb⟩ := List.exists_cons_of_ne_nil (Utf8.encodeChar_ne_nil c)
      have hcons : Utf8.encode (c :: text) = b :: (t ++ Utf8.encode text) := by
        rw [Utf8.encode, List.flatMap_cons, hb]
        rfl
      rw [hb, List.cons_append] at hread
      rw [hcons, decode8, decode8From]
      simp only [hread, List.length_cons, Nat.add_sub_cancel, decode8From_append, ih]

/-! ### UTF-16 -/

/-- A unit that is no surrogate is a character, whatever follows it. -/
theorem decode16_word {o : ByteOrder} {a b : UInt8} (h : isSurrogate (o.word a b) = false) (s : Bytes) :
    decode16 o (a :: b :: s) = character (o.word a b) :: decode16 o s := by
  match s with
  | [] | [_] => rfl
  | c :: d :: s => simp only [decode16, h, Bool.false_and, Bool.false_eq_true, if_false]

/-- A leading and a trailing surrogate are one character. -/
theorem decode16_pair {o : ByteOrder} {a b c d : UInt8} (hlead : isSurrogate (o.word a b) = true)
    (htrail : isTrailing (o.word c d) = true) (s : Bytes) :
    decode16 o (a :: b :: c :: d :: s) = pair (o.word a b) (o.word c d) :: decode16 o s := by
  simp only [decode16, hlead, htrail, Bool.and_true, if_true]

theorem encode16_cons (o : ByteOrder) (c : Char) (text : List Char) :
    encode16 o (c :: text) =
      (if c.toNat < 0x10000 then o.ofWord c.toNat
        else o.ofWord (0xD800 + (c.toNat - 0x10000) / 1024) ++
          o.ofWord (0xDC00 + (c.toNat - 0x10000) % 1024)) ++ encode16 o text := by
  simp [encode16]

/-- **A character is read back from its units**, one or two of them. -/
theorem decode16_encode16 (o : ByteOrder) (text : List Char) : decode16 o (encode16 o text) = text := by
  induction text with
  | nil => rfl
  | cons c text ih =>
      have hscalar := Utf8.toNat_scalar c
      rw [encode16_cons]
      split
      · next hc =>
          obtain ⟨a, b, hbytes, hword⟩ := o.exists_ofWord c.toNat
          rw [Nat.mod_eq_of_lt hc] at hword
          have hsingle : isSurrogate (o.word a b) = false := by
            rw [hword]
            simp [isSurrogate]
            omega
          rw [hbytes, List.cons_append, List.cons_append, List.nil_append, decode16_word hsingle, ih,
            hword, character_toNat]
      · next hc =>
          obtain ⟨a, b, hlead, hab⟩ := o.exists_ofWord (0xD800 + (c.toNat - 0x10000) / 1024)
          obtain ⟨d, e, htrail, hde⟩ := o.exists_ofWord (0xDC00 + (c.toNat - 0x10000) % 1024)
          rw [Nat.mod_eq_of_lt (by omega)] at hab hde
          have hleading : isSurrogate (o.word a b) = true ∧ isTrailing (o.word a b) = false := by
            rw [hab]
            simp [isSurrogate, isTrailing]
            omega
          have htrailing : isTrailing (o.word d e) = true := by
            rw [hde]
            simp [isTrailing]
            omega
          -- the two halves make up the character again
          have hjoined : 0x10000 + (o.word a b - 0xD800) * 1024 + (o.word d e - 0xDC00) = c.toNat := by
            rw [hab, hde]
            omega
          rw [hlead, htrail]
          simp only [List.cons_append, List.nil_append]
          rw [decode16_pair hleading.1 htrailing, ih, pair, hleading.2, if_neg Bool.false_ne_true,
            hjoined, character_toNat]

/-! ### UTF-32 -/

theorem encode32_cons (o : ByteOrder) (c : Char) (text : List Char) :
    encode32 o (c :: text) = o.ofLong c.toNat ++ encode32 o text := by
  simp [encode32]

/-- Text is decoded from its four byte form. -/
theorem decode32_encode32 (o : ByteOrder) (text : List Char) : decode32 o (encode32 o text) = text := by
  induction text with
  | nil => rfl
  | cons c text ih =>
      have hscalar := Utf8.toNat_scalar c
      obtain ⟨a, b, d, e, hbytes, hlong⟩ := o.exists_ofLong (n := c.toNat) (by omega)
      rw [encode32_cons, hbytes]
      simp only [List.cons_append, List.nil_append, decode32, hlong, character_toNat, ih]

/-! ### Marks -/

namespace Form

/-- The bytes start with U+0000 in UTF-16. -/
def startsWithNull (data : Bytes) : Bool :=
  [0x00, 0x00].isPrefixOf data

/-- **The form is recognised by its mark**, but that UTF-32 is seen where U+0000 follows the mark of
UTF-16 in little order. -/
theorem detect?_mark (f : Form) (data : Bytes) :
    detect? (f.mark ++ data) =
      some (if f = .utf16 .little ∧ startsWithNull data = true then .utf32 .little else f) := by
  rcases f with _ | (_ | _) | (_ | _)
  · rfl
  · rfl
  · have hfind : detect? (mark (.utf16 .little) ++ data) =
        match startsWithNull data with
        | true => some (.utf32 .little)
        | false => some (.utf16 .little) := rfl
    rw [hfind]
    cases startsWithNull data <;> rfl
  · rfl
  · rfl

/-- A mark is dropped by the decoder of its own form. -/
theorem decode_mark (f : Form) (text : List Char) : f.decode (f.mark ++ f.encode text) = .ok text := by
  rcases f with _ | (_ | _) | (_ | _)
  · exact congrArg Except.ok (decode8_encode text)
  · exact congrArg Except.ok (decode16_encode16 .big text)
  · exact congrArg Except.ok (decode16_encode16 .little text)
  · exact congrArg Except.ok (decode32_encode32 .big text)
  · exact congrArg Except.ok (decode32_encode32 .little text)

theorem startsWithNull_ofWord {n : Nat} (h : n < 65536) (data : Bytes) :
    startsWithNull (ByteOrder.ofWord .little n ++ data) = true ↔ n = 0 := by
  obtain ⟨a, b, hbytes, hword⟩ := ByteOrder.exists_ofWord .little n
  rw [Nat.mod_eq_of_lt h, ByteOrder.word] at hword
  have hbytewise : startsWithNull ([a, b] ++ data) = true ↔ 0 = a ∧ 0 = b := by
    simp [startsWithNull]
  rw [hbytes, hbytewise, ← UInt8.toNat_inj, ← UInt8.toNat_inj]
  have hzero : (0 : UInt8).toNat = 0 := rfl
  omega

/-- Little endian text begins with a null if its first character is one. -/
theorem startsWithNull_encode16 (text : List Char) :
    startsWithNull (encode16 .little text) = true ↔ text.head? = some '\x00' := by
  cases text with
  | nil => decide
  | cons c text =>
      have hscalar := Utf8.toNat_scalar c
      have hnull : (c :: text).head? = some '\x00' ↔ c.toNat = 0 := by
        rw [List.head?_cons, Option.some.injEq]
        exact Char.toNat_inj.symm
      rw [encode16_cons, hnull]
      split
      · next hc => exact startsWithNull_ofWord hc _
      · rw [List.append_assoc, startsWithNull_ofWord (by omega)]
        omega

/-! ### Texts that are taken for UTF-32 -/

/-- No character takes more than four bytes. -/
theorem length_encode16_le (o : ByteOrder) (text : List Char) :
    (encode16 o text).length ≤ 4 * text.length := by
  induction text with
  | nil => exact Nat.le_refl _
  | cons c text ih =>
      have two : ∀ n, (o.ofWord n).length = 2 := fun n => by cases o <;> rfl
      rw [encode16_cons, List.length_append, List.length_cons]
      split
      · rw [two]
        omega
      · rw [List.length_append, two, two]
        omega

/-- Each character takes four bytes, but the last may have less. -/
theorem length_decode32_le (o : ByteOrder) (data : Bytes) :
    4 * (decode32 o data).length ≤ data.length + 3 := by
  fun_induction decode32 o data with
  | case1 a b c d s ih =>
      simp only [List.length_cons]
      omega
  | case2 => simp
  | case3 s h _ =>
      cases s with
      | nil => simp at *
      | cons a s => simp

end Form

end Unicode

open Unicode

/-- **Every text is read back in every Unicode form**, whatever the code page and however pages with several
bytes a character are read, when it stands behind the mark of the form.  Texts in UTF-16 of little order that
start with U+0000 are excepted: they are taken for UTF-32, and never read back. -/
theorem decode_mark_encode_iff (f : Form) (page : Option CodePage) (wide : CodePage.Wide) (text : List Char) :
    decode page (f.mark ++ f.encode text) wide = .ok (Utf8.encode text) ↔
      (f = .utf16 .little → text.head? ≠ some '\x00') := by
  rw [decode, Form.detect?_mark]
  split
  · next h =>
      obtain ⟨rfl, hnull⟩ := h
      have hstart : text.head? = some '\x00' := (Form.startsWithNull_encode16 text).1 hnull
      refine iff_of_false ?_ (fun hne => hne rfl hstart)
      obtain ⟨rest, rfl⟩ := List.head?_eq_some_iff.1 hstart
      have hread : readAs (some (.utf32 .little)) page
          ((Form.utf16 .little).mark ++ (Form.utf16 .little).encode ('\x00' :: rest)) wide =
            .ok (Utf8.encode (decode32 .little (encode16 .little rest))) := rfl
      rw [hread, Except.ok.injEq, Utf8.encode_inj]
      intro heq
      -- four bytes are read as one character, none was written in more, and the first has gone
      have hshort := Form.length_decode32_le .little (encode16 .little rest)
      have hlong := Form.length_encode16_le .little rest
      rw [heq, List.length_cons] at hshort
      omega
  · next h =>
      refine iff_of_true ?_ ?_
      · rw [readAs, Form.decode_mark]
        rfl
      · rintro rfl hstart
        exact h ⟨rfl, (Form.startsWithNull_encode16 text).2 hstart⟩

end Restyle
