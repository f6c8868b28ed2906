import Restyle.Proofs.Encoding

/-!
# Reading malformed bytes

What stands behind a byte order mark may be anything: units may be missing, broken or out of order.  A
text is *read from* bytes (`Form.Reads`) when it has every character that is there, in order, and one
replacement character for each piece between them in which no character starts.  The reader of each form
gives such a text, whatever the bytes are: `reads_decode8`, `reads_decode16` and `reads_decode32`.

The mark is looked for twice, once to recognise the form and once to read it.  The two agree
(`Form.exists_decode_mark`), and no form that is recognised is refused.

* `decode_detected`: reading never fails, and bytes behind a mark are read as valid UTF-8, the same in
  every code page.
-/

namespace Restyle

namespace Unicode

namespace Form

/-- The number of bytes in a unit of the form. -/
def unit : Form → Nat
  | .utf8 => 1
  | .utf16 _ => 2
  | .utf32 _ => 4

/-- No character starts the bytes. -/
def Malformed (f : Form) (s : Bytes) : Prop :=
  ∀ c, ¬ f.encode [c] <+: s

/-- The text is what the bytes hold.  A broken piece is no longer than a character may be, and no
character starts at any of its units. -/
inductive Reads (f : Form) : Bytes → List Char → Prop where
  | nil : Reads f [] []
  | char {s : Bytes} {text : List Char} (c : Char) (rest : Reads f s text) :
      Reads f (f.encode [c] ++ s) (c :: text)
  | broken {b s : Bytes} {text : List Char} (hne : b ≠ []) (hlen : b.length ≤ 4)
      (hbroken : ∀ k, k * f.unit < b.length → f.Malformed ((b ++ s).drop (k * f.unit)))
      (rest : Reads f s text) : Reads f (b ++ s) (Utf8.replacement :: text)

variable {f : Form} {b s : Bytes} {text : List Char}

/-- A unit that starts no character, or what there is of it. -/
theorem Reads.unit (hne : b ≠ []) (hlen : b.length ≤ f.unit) (hbroken : f.Malformed (b ++ s))
    (rest : f.Reads s text) : f.Reads (b ++ s) (Utf8.replacement :: text) := by
  have hfour : f.unit ≤ 4 := by cases f <;> simp [Form.unit]
  refine .broken hne (Nat.le_trans hlen hfour) (fun k hk => ?_) rest
  cases k with
  | zero => rwa [Nat.zero_mul]
  | succ k =>
      rw [Nat.succ_mul] at hk
      omega

end Form

open Form (Malformed Reads)

/-! ### UTF-8 -/

theorem decode8From_eq (k : Nat) (s : Bytes) : decode8From k s = decode8 (s.drop k) := by
  induction k generalizing s with
  | zero => rfl
  | succ k ih =>
      cases s with
      | nil => rfl
      | cons b s => exact ih s

/-- Bytes that begin no character are malformed. -/
theorem malformed8 {s : Bytes} (h : Utf8.decodeChar? s = none) : Malformed .utf8 s := by
  rintro c ⟨t, rfl⟩
  have hread := Utf8.decodeChar?_encodeChar c t
  rw [show Form.utf8.encode [c] = Utf8.encodeChar c from List.append_nil _, hread] at h
  cases h

/-- No character starts with a byte that continues one. -/
theorem malformed8_continuation {b : UInt8} (h : 0x80 ≤ b.toNat ∧ b.toNat < 0xC0) (s : Bytes) :
    Malformed .utf8 (b :: s) := by
  refine malformed8 ?_
  simp only [Utf8.decodeChar?, if_neg (show ¬ b.toNat < 0x80 by omega),
    if_pos (show b.toNat < 0xC2 by omega)]

/-- A byte that may follow is one of those that continue. -/
theorem continues_of_follows {a b : UInt8} (h : follows a b = true) :
    0x80 ≤ b.toNat ∧ b.toNat < 0xC0 := by
  unfold follows at h
  dsimp only at h
  split at h <;> simp only [Bool.and_eq_true, decide_eq_true_eq] at h <;> omega

theorem continues_of_isContinuation {b : UInt8} (h : isContinuation b = true) :
    0x80 ≤ b.toNat ∧ b.toNat < 0xC0 := by
  rw [isContinuation, Utf8.continuation?] at h
  split at h
  · next hb => exact hb
  · cases h

/-- A broken character goes on with bytes that start none. -/
theorem brokenWidth_spec (a : UInt8) (s : Bytes) :
    0 < brokenWidth (a :: s) ∧ brokenWidth (a :: s) ≤ 4 ∧ brokenWidth (a :: s) ≤ (a :: s).length ∧
      ∀ k, k + 1 < brokenWidth (a :: s) → Malformed .utf8 (s.drop k) := by
  match s with
  | [] =>
      exact ⟨by simp [brokenWidth], by simp [brokenWidth], Nat.le_refl _,
        fun k hk => absurd hk (by simp [brokenWidth])⟩
  | [b] =>
      simp only [brokenWidth]
      split
      · exact ⟨by decide, by decide, by simp, fun k hk => absurd hk (by omega)⟩
      · next hfollows =>
          simp only [Bool.or_eq_true, not_or, Bool.not_eq_true', Bool.not_eq_false] at hfollows
          refine ⟨by decide, by decide, by simp, fun k hk => ?_⟩
          obtain rfl : k = 0 := by omega
          exact malformed8_continuation (continues_of_follows hfollows.2) []
  | b :: c :: s =>
      simp only [brokenWidth]
      split
      · exact ⟨by decide, by decide, by simp, fun k hk => absurd hk (by omega)⟩
      · next hfollows =>
          simp only [Bool.or_eq_true, not_or, Bool.not_eq_true', Bool.not_eq_false] at hfollows
          have hsecond := malformed8_continuation (continues_of_follows hfollows.2) (c :: s)
          split
          · refine ⟨by decide, by decide, by simp, fun k hk => ?_⟩
            obtain rfl : k = 0 := by omega
            exact hsecond
          · next hthird =>
              simp only [Bool.or_eq_true, not_or, Bool.not_eq_true', Bool.not_eq_false] at hthird
              refine ⟨by decide, by decide, by simp, fun k hk => ?_⟩
              obtain rfl | rfl : k = 0 ∨ k = 1 := by omega
              · exact hsecond
              · exact malformed8_continuation (continues_of_isContinuation hthird.2) s

/-- **Bytes are read** as characters, with a replacement for each that is malformed. -/
theorem reads_decode8 (s : Bytes) : Reads .utf8 s (decode8 s) := by
  induction hlen : s.length using Nat.strongRecOn generalizing s with
  | ind len ih =>
      cases s with
      | nil => exact .nil
      | cons a s =>
          rw [decode8, decode8From]
          cases hd : Utf8.decodeChar? (a :: s) with
          | some r =>
              obtain ⟨c, width⟩ := r
              obtain ⟨t, ht⟩ := Utf8.encodeChar_of_decodeChar? hd
              rw [ht, Utf8.decodeChar?_encodeChar] at hd
              cases hd
              have hpos := List.length_pos_iff.2 (Utf8.encodeChar_ne_nil c)
              have hrest : s.drop ((Utf8.encodeChar c).length - 1) = t := by
                have := congrArg (List.drop (Utf8.encodeChar c).length) ht
                rw [List.drop_left] at this
                rw [← this, ← Nat.sub_add_cancel hpos, Nat.add_sub_cancel, List.drop_succ_cons]
              have hshort : t.length < len := by
                rw [← hlen, ht, List.length_append]
                omega
              -- the character was spelled as it is encoded
              have hchar := Reads.char (f := .utf8) c (ih t.length hshort t rfl)
              rw [show Form.utf8.encode [c] = Utf8.encodeChar c from List.append_nil _, ← ht] at hchar
              dsimp only
              rwa [decode8From_eq, hrest]
          | none =>
              obtain ⟨hpos, hfour, hwithin, htail⟩ := brokenWidth_spec a s
              dsimp only
              generalize brokenWidth (a :: s) = width at hpos hfour hwithin htail ⊢
              have hrest : s.drop (width - 1) = (a :: s).drop width := by
                rw [← Nat.sub_add_cancel hpos, Nat.add_sub_cancel, List.drop_succ_cons]
              have hshort : ((a :: s).drop width).length < len := by
                rw [List.length_drop]
                omega
              have htake : ((a :: s).take width).length = width := by
                rw [List.length_take]
                omega
              -- no character begins inside the broken piece
              have hpiece := Reads.broken (f := .utf8) (b := (a :: s).take width)
                (List.length_pos_iff.1 (by omega)) (by omega) (fun k hk => ?_)
                (ih _ hshort ((a :: s).drop width) rfl)
              · rwa [List.take_append_drop, ← hrest, ← decode8From_eq] at hpiece
              · rw [List.take_append_drop]
                cases k with
                | zero => exact malformed8 hd
                | succ k =>
                    rw [show (k + 1) * Form.utf8.unit = k + 1 from Nat.mul_one _, List.drop_succ_cons]
                    exact htail k (by rw [← htake]; simpa [Form.unit] using hk)

/-! ### UTF-16 -/

/-- Two bytes are one word. -/
theorem ByteOrder.ofWord_word (o : ByteOrder) (a b : UInt8) : o.ofWord (o.word a b) = [a, b] := by
  have ha := a.toNat_lt
  have hb := b.toNat_lt
  cases o <;> simp only [ofWord, word, List.cons.injEq, and_true] <;>
    constructor <;> rw [← UInt8.toNat_inj, UInt8.toNat_ofNat'] <;> omega

theorem ByteOrder.word_lt (o : ByteOrder) (a b : UInt8) : o.word a b < 65536 := by
  have ha := a.toNat_lt
  have hb := b.toNat_lt
  cases o <;> simp only [word] <;> omega

/-- Only surrogates are no characters. -/
theorem isValidChar_iff {n : Nat} (h : n < 0x110000) : n.isValidChar ↔ isSurrogate n = false := by
  simp only [Nat.isValidChar, isSurrogate, Bool.and_eq_false_iff, decide_eq_false_iff_not]
  omega

/-- A number that is a character is read as it. -/
theorem character_of_valid {n : Nat} (h : n.isValidChar) : (character n).toNat = n := by
  rw [character, if_pos h, Utf8.toNat_ofNat h]

/-- A number that is no character is read as the replacement. -/
theorem character_of_not_valid {n : Nat} (h : ¬ n.isValidChar) : character n = Utf8.replacement :=
  if_neg h

/-- **Where a character starts**, there is a unit that is no surrogate, or a leading and a trailing
one. -/
theorem units_of_prefix {o : ByteOrder} {c : Char} {s : Bytes} (h : encode16 o [c] <+: s) :
    ∃ a b t, s = a :: b :: t ∧ (isSurrogate (o.word a b) = false ∨
      isTrailing (o.word a b) = false ∧ ∃ d e r, t = d :: e :: r ∧ isTrailing (o.word d e) = true) := by
  obtain ⟨t, rfl⟩ := h
  have hscalar := Utf8.toNat_scalar c
  rw [encode16_cons, show encode16 o [] = [] from rfl, List.append_nil]
  split
  · next hc =>
      obtain ⟨a, b, hbytes, hword⟩ := o.exists_ofWord c.toNat
      rw [Nat.mod_eq_of_lt hc] at hword
      refine ⟨a, b, t, by rw [hbytes]; rfl, .inl ?_⟩
      rw [hword]
      simp only [isSurrogate, Bool.and_eq_false_iff, decide_eq_false_iff_not]
      omega
  · next hc =>
      obtain ⟨a, b, hlead, hab⟩ := o.exists_ofWord (0xD800 + (c.toNat - 0x10000) / 1024)
      obtain ⟨d, e, htrail, hde⟩ := o.exists_ofWord (0xDC00 + (c.toNat - 0x10000) % 1024)
      rw [Nat.mod_eq_of_lt (by omega)] at hab hde
      refine ⟨a, b, d :: e :: t, by rw [hlead, htrail]; rfl, .inr ⟨?_, d, e, t, rfl, ?_⟩⟩
      · rw [hab]
        simp only [isTrailing, Bool.and_eq_false_iff, decide_eq_false_iff_not]
        omega
      · rw [hde]
        simp only [isTrailing, Bool.and_eq_true, decide_eq_true_eq]
        omega

theorem isSurrogate_of_isTrailing {n : Nat} (h : isTrailing n = true) : isSurrogate n = true := by
  simp only [isTrailing, isSurrogate, Bool.and_eq_true, decide_eq_true_eq] at h ⊢
  omega

/-- A trailing surrogate that nothing leads is malformed. -/
theorem malformed16_trailing {o : ByteOrder} {a b : UInt8} (h : isTrailing (o.word a b) = true)
    (s : Bytes) : Malformed (.utf16 o) (a :: b :: s) := by
  intro c hc
  obtain ⟨a', b', t, hs, hunits⟩ := units_of_prefix hc
  cases hs
  rcases hunits with hsingle | ⟨hlead, -⟩
  · rw [isSurrogate_of_isTrailing h] at hsingle
    cases hsingle
  · rw [h] at hlead
    cases hlead

/-- A surrogate without its partner starts no character. -/
theorem malformed16_lone {o : ByteOrder} {a b : UInt8} {s : Bytes}
    (h : isSurrogate (o.word a b) = true)
    (hnext : ∀ c d t, s = c :: d :: t → isTrailing (o.word c d) = false) :
    Malformed (.utf16 o) (a :: b :: s) := by
  intro c hc
  obtain ⟨a', b', t, hs, hunits⟩ := units_of_prefix hc
  cases hs
  rcases hunits with hsingle | ⟨-, d, e, r, rfl, htrail⟩
  · rw [h] at hsingle
    cases hsingle
  · rw [hnext d e r rfl] at htrail
    cases htrail

/-- A single byte at the end is malformed. -/
theorem reads_half (o : ByteOrder) (a : UInt8) : Reads (.utf16 o) [a] [Utf8.replacement] := by
  refine .unit (b := [a]) (List.cons_ne_nil _ _) (Nat.le_succ 1) (fun c hc => ?_) .nil
  obtain ⟨a', b', t, hs, -⟩ := units_of_prefix hc
  cases hs

/-- A unit that is read alone. -/
theorem reads_word {o : ByteOrder} {a b : UInt8} {s : Bytes} {text : List Char}
    (hnext : isSurrogate (o.word a b) = true →
      ∀ c d t, s = c :: d :: t → isTrailing (o.word c d) = false)
    (rest : Reads (.utf16 o) s text) :
    Reads (.utf16 o) (a :: b :: s) (character (o.word a b) :: text) := by
  have hlt := o.word_lt a b
  cases hs : isSurrogate (o.word a b) with
  | false =>
      have hvalid := (isValidChar_iff (by omega)).2 hs
      have hbytes : (Form.utf16 o).encode [character (o.word a b)] = [a, b] := by
        change encode16 o [character (o.word a b)] = _
        rw [encode16_cons, character_of_valid hvalid, if_pos hlt, o.ofWord_word]
        rfl
      have hchar := Reads.char (character (o.word a b)) rest
      rwa [hbytes] at hchar
  | true =>
      have hvalid : ¬ (o.word a b).isValidChar := by
        rw [isValidChar_iff (by omega), hs]
        exact Bool.false_ne_true.symm
      rw [character_of_not_valid hvalid]
      exact .unit (b := [a, b]) (List.cons_ne_nil _ _) (Nat.le_refl 2) (malformed16_lone hs (hnext hs)) rest

/-- Two surrogates that are read together. -/
theorem reads_pair {o : ByteOrder} {a b c d : UInt8} {s : Bytes} {text : List Char}
    (hlead : isSurrogate (o.word a b) = true) (htrail : isTrailing (o.word c d) = true)
    (rest : Reads (.utf16 o) s text) :
    Reads (.utf16 o) (a :: b :: c :: d :: s) (pair (o.word a b) (o.word c d) :: text) := by
  rw [pair]
  split
  · next hfirst =>
      refine .broken (b := [a, b, c, d]) (List.cons_ne_nil _ _) (Nat.le_refl 4) (fun k hk => ?_) rest
      obtain rfl | rfl : k = 0 ∨ k = 1 := by
        simp only [Form.unit, List.length_cons, List.length_nil] at hk
        omega
      · exact malformed16_trailing hfirst _
      · exact malformed16_trailing htrail _
  · next hfirst =>
      have hbounds : (0xD800 ≤ o.word a b ∧ o.word a b < 0xDC00) ∧
          0xDC00 ≤ o.word c d ∧ o.word c d < 0xE000 := by
        simp only [isSurrogate, isTrailing, Bool.and_eq_true, decide_eq_true_eq] at hlead htrail hfirst
        omega
      let n := 0x10000 + (o.word a b - 0xD800) * 1024 + (o.word c d - 0xDC00)
      have hvalid : n.isValidChar := by
        unfold Nat.isValidChar
        omega
      have hbytes : (Form.utf16 o).encode [character n] = [a, b, c, d] := by
        have hhigh : 0xD800 + (n - 0x10000) / 1024 = o.word a b := by omega
        have hlow : 0xDC00 + (n - 0x10000) % 1024 = o.word c d := by omega
        change encode16 o [character n] = _
        rw [encode16_cons, character_of_valid hvalid, if_neg (by omega), hhigh, hlow, o.ofWord_word,
          o.ofWord_word]
        rfl
      have hchar := Reads.char (character n) rest
      rwa [hbytes] at hchar

/-- **Words are read** as characters, with a replacement for each that is malformed. -/
theorem reads_decode16 (o : ByteOrder) (s : Bytes) : Reads (.utf16 o) s (decode16 o s) := by
  fun_induction decode16 o s with
  | case1 a b c d s h ih =>
      rw [Bool.and_eq_true] at h
      exact reads_pair h.1 h.2 ih
  | case2 a b c d s h ih =>
      refine reads_word (fun hs c' d' t ht => ?_) ih
      cases ht
      rw [hs, Bool.true_and, Bool.not_eq_true] at h
      exact h
  | case3 a b c =>
      exact reads_word (fun _ _ _ _ ht => by cases ht) (reads_half o c)
  | case4 a b => exact reads_word (fun _ _ _ _ ht => by cases ht) .nil
  | case5 a => exact reads_half o a
  | case6 => exact .nil

/-! ### UTF-32 -/

theorem ByteOrder.ofLong_long (o : ByteOrder) (a b c d : UInt8) :
    o.ofLong (o.long a b c d) = [a, b, c, d] := by
  have ha := a.toNat_lt
  have hb := b.toNat_lt
  have hc := c.toNat_lt
  have hd := d.toNat_lt
  cases o <;>
    simp only [ofLong, ofWord, long, word, List.cons_append, List.nil_append, List.cons.injEq, and_true] <;>
    refine ⟨?_, ?_, ?_, ?_⟩ <;> rw [← UInt8.toNat_inj, UInt8.toNat_ofNat'] <;> omega

/-- Four bytes at the beginning are a character if they spell it. -/
theorem long_of_prefix {o : ByteOrder} {c : Char} {s : Bytes} (h : encode32 o [c] <+: s) :
    ∃ a b d e t, s = a :: b :: d :: e :: t ∧ o.long a b d e = c.toNat := by
  obtain ⟨t, rfl⟩ := h
  have hscalar := Utf8.toNat_scalar c
  obtain ⟨a, b, d, e, hbytes, hlong⟩ := o.exists_ofLong (n := c.toNat) (by omega)
  exact ⟨a, b, d, e, t, by rw [encode32_cons, hbytes]; rfl, hlong⟩

/-- **Long words are read** as characters, with a replacement for each that is malformed. -/
theorem reads_decode32 (o : ByteOrder) (s : Bytes) : Reads (.utf32 o) s (decode32 o s) := by
  fun_induction decode32 o s with
  | case1 a b c d s ih =>
      by_cases hvalid : (o.long a b c d).isValidChar
      · have hbytes : (Form.utf32 o).encode [character (o.long a b c d)] = [a, b, c, d] := by
          change encode32 o [character (o.long a b c d)] = _
          rw [encode32_cons, character_of_valid hvalid, o.ofLong_long]
          rfl
        have hchar := Reads.char (character (o.long a b c d)) ih
        rwa [hbytes] at hchar
      · rw [character_of_not_valid hvalid]
        refine .unit (b := [a, b, c, d]) (List.cons_ne_nil _ _) (Nat.le_refl 4) (fun x hx => ?_) ih
        obtain ⟨a', b', c', d', t, hs, hlong⟩ := long_of_prefix hx
        cases hs
        exact hvalid (hlong ▸ x.valid)
  | case2 => exact .nil
  | case3 s hlong hne =>
      have hshort : s.length < 4 := by
        rcases s with _ | ⟨a, _ | ⟨b, _ | ⟨c, _ | ⟨d, t⟩⟩⟩⟩
        case cons.cons.cons.cons => exact absurd rfl (hlong a b c d t)
        all_goals simp
      have hpiece := Reads.unit (f := .utf32 o) (b := s) (s := []) hne (Nat.le_of_lt hshort) (fun x hx => ?_) .nil
      · rwa [List.append_nil] at hpiece
      · obtain ⟨a, b, c, d, t, hs, -⟩ := long_of_prefix hx
        rw [List.append_nil] at hs
        exact hlong a b c d t hs

/-! ### Marks -/

/-- **A form that is recognised by its mark is read**, whatever stands behind the mark. -/
theorem Form.exists_decode_mark {f : Form} {data : Bytes} (h : detect? data = some f) :
    ∃ rest text, data = f.mark ++ rest ∧ f.decode data = .ok text ∧ f.Reads rest text := by
  rw [detect?] at h
  have hmark := List.find?_some h
  obtain ⟨rest, rfl⟩ := List.isPrefixOf_iff_prefix.1 hmark
  rcases f with _ | (_ | _) | (_ | _)
  · exact ⟨rest, _, rfl, rfl, reads_decode8 rest⟩
  · exact ⟨rest, _, rfl, rfl, reads_decode16 .big rest⟩
  · exact ⟨rest, _, rfl, rfl, reads_decode16 .little rest⟩
  · exact ⟨rest, _, rfl, rfl, reads_decode32 .big rest⟩
  · exact ⟨rest, _, rfl, rfl, reads_decode32 .little rest⟩

end Unicode

open Unicode

/-- **A byte order mark makes reading total.**  No document is refused.  One that begins with a mark,
whatever stands behind it, is read as valid UTF-8, the same in every code page: the characters that are
there, and a replacement character for each broken piece. -/
theorem decode_detected (data : Bytes) :
    (∀ page wide e, decode page data wide ≠ .error e) ∧
      ∀ f, Form.detect? data = some f →
        ∃ out rest, (∀ page wide, decode page data wide = .ok out) ∧ Utf8.isValid out = true ∧
          data = f.mark ++ rest ∧ f.Reads rest (Utf8.codePoints out) := by
  have hread : ∀ f, Form.detect? data = some f →
      ∃ rest text, data = f.mark ++ rest ∧ f.Reads rest text ∧
        ∀ page wide, decode page data wide = .ok (Utf8.encode text) := by
    intro f hf
    obtain ⟨rest, text, hdata, htext, hreads⟩ := Form.exists_decode_mark hf
    refine ⟨rest, text, hdata, hreads, fun page wide => ?_⟩
    rw [decode, hf, readAs, htext]
    rfl
  constructor
  · intro page wide e
    cases hf : Form.detect? data with
    | some f =>
        obtain ⟨rest, text, -, -, hok⟩ := hread f hf
        rw [hok]
        intro herror
        cases herror
    | none =>
        rw [decode, hf]
        intro herror
        cases page <;> cases herror
  · intro f hf
    obtain ⟨rest, text, hdata, hreads, hok⟩ := hread f hf
    refine ⟨Utf8.encode text, rest, hok, Utf8.isValid_encode text, hdata, ?_⟩
    rwa [Utf8.codePoints_encode]

/-- A leading surrogate without its partner, a letter, and half of another, behind a mark. -/
def brokenUnits : Bytes := [0xFF, 0xFE, 0x00, 0xD8, 0x41, 0x00, 0x42]

/-- Text with a lone surrogate and a byte too many is read. -/
theorem decode_detected_brokenUnits :
    Form.detect? brokenUnits = some (.utf16 .little) ∧
      ∃ out rest, (∀ page wide, decode page brokenUnits wide = .ok out) ∧ Utf8.isValid out = true ∧
        brokenUnits = (Form.utf16 .little).mark ++ rest ∧
        (Form.utf16 .little).Reads rest (Utf8.codePoints out) :=
  ⟨by decide, (decode_detected brokenUnits).2 _ (by decide)⟩

end Restyle
