import Restyle.Text.Utf8

/-!
# Reading back what was written

`encode` writes a text as bytes and `codePoints` reads bytes as a text.  Every text is read back as
it was written (`codePoints_encode`), so a document that an edit has written anew holds exactly the
text of the edit.

A character is read back whatever follows it (`decodeChar?_encodeChar`); the rest is one induction
over the text.  The other way round, a byte string without stray bytes is the encoding of what is read
(`encode_codePoints`).  A byte below 128 parts what is read before it from what is read behind it
(`codePoints_append`).
-/

namespace Restyle.Utf8

/-! ### One character -/

theorem toNat_byte {n : Nat} (h : n < 256) : (UInt8.ofNat n).toNat = n :=
  UInt8.toNat_ofNat_of_lt h

theorem continuation?_byte {n : Nat} (h : n < 64) :
    continuation? (UInt8.ofNat (0x80 + n)) = some n := by
  have hb : (UInt8.ofNat (0x80 + n)).toNat = 0x80 + n := toNat_byte (by omega)
  simp only [continuation?, hb]
  rw [if_pos (by omega), Nat.add_sub_cancel_left]

/-- The numbers of characters leave out the surrogates. -/
theorem toNat_scalar (c : Char) :
    c.toNat < 0xD800 ∨ (0xDFFF < c.toNat ∧ c.toNat < 0x110000) :=
  c.valid

/-- **A character is read back**, with its width, whatever follows it. -/
theorem decodeChar?_encodeChar (c : Char) (s : Bytes) :
    decodeChar? (encodeChar c ++ s) = some (c, (encodeChar c).length) := by
  have hv := toNat_scalar c
  have hc := Char.ofNat_toNat c
  have six : ∀ n : Nat, continuation? (UInt8.ofNat (0x80 + n % 64)) = some (n % 64) :=
    fun n => continuation?_byte (Nat.mod_lt n (by decide))
  -- one case for each number of bytes
  simp only [encodeChar]
  by_cases h₁ : c.toNat < 0x80
  · rw [if_pos h₁]
    simp [decodeChar?, toNat_byte (show c.toNat < 256 by omega), h₁, hc]
  by_cases h₂ : c.toNat < 0x800
  · have ha : (UInt8.ofNat (0xC0 + c.toNat / 64)).toNat = 0xC0 + c.toNat / 64 :=
      toNat_byte (by omega)
    have hn : c.toNat / 64 * 64 + c.toNat % 64 = c.toNat := by omega
    rw [if_neg h₁, if_pos h₂]
    simp only [decodeChar?, List.cons_append, ha, six]
    rw [if_neg (by omega), if_neg (by omega), if_pos (by omega)]
    simp [hn, hc]
  by_cases h₃ : c.toNat < 0x10000
  · have ha : (UInt8.ofNat (0xE0 + c.toNat / 4096)).toNat = 0xE0 + c.toNat / 4096 :=
      toNat_byte (by omega)
    have hn : (c.toNat / 4096 * 64 + c.toNat / 64 % 64) * 64 + c.toNat % 64 = c.toNat := by omega
    rw [if_neg h₁, if_neg h₂, if_pos h₃]
    simp only [decodeChar?, List.cons_append, ha, six]
    rw [if_neg (by omega), if_neg (by omega), if_neg (by omega), if_pos (by omega)]
    simp [hn, hc]
    omega
  · have ha : (UInt8.ofNat (0xF0 + c.toNat / 262144)).toNat = 0xF0 + c.toNat / 262144 :=
      toNat_byte (by omega)
    have hn : ((c.toNat / 262144 * 64 + c.toNat / 4096 % 64) * 64 + c.toNat / 64 % 64) * 64 +
        c.toNat % 64 = c.toNat := by omega
    rw [if_neg h₁, if_neg h₂, if_neg h₃]
    simp only [decodeChar?, List.cons_append, ha, six]
    rw [if_neg (by omega), if_neg (by omega), if_neg (by omega), if_neg (by omega),
      if_pos (by omega)]
    simp [hn, hc]
    omega

/-! ### A text -/

/-- Symbols are those behind what has been passed. -/
theorem symbolsFrom_append (t s : Bytes) : symbolsFrom t.length (t ++ s) = symbolsFrom 0 s := by
  induction t with
  | nil => rfl
  | cons b t ih => exact ih

theorem encodeChar_ne_nil (c : Char) : encodeChar c ≠ [] := by
  intro h
  have := decodeChar?_encodeChar c []
  rw [h] at this
  cases this

/-- All bytes of a character from 128 on are from 128 on. -/
theorem le_of_mem_encodeChar {c : Char} (h : 0x80 ≤ c.toNat) :
    ∀ b ∈ encodeChar c, 0x80 ≤ b.toNat := by
  have hv := toNat_scalar c
  have hbyte : ∀ n, 0x80 ≤ n → n < 256 → 0x80 ≤ (UInt8.ofNat n).toNat := fun n h₁ h₂ => by
    rwa [toNat_byte h₂]
  unfold encodeChar
  dsimp only
  rw [if_neg (by omega)]
  repeat' split
  all_goals
    simp only [List.forall_mem_cons]
    repeat' apply And.intro
  all_goals first | exact hbyte _ (by omega) (by omega) | exact List.forall_mem_nil _

/-- A character is read back from its bytes. -/
theorem symbols_encodeChar_append (c : Char) (s : Bytes) :
    symbols (encodeChar c ++ s) = .char c :: symbols s := by
  have h := decodeChar?_encodeChar c s
  obtain ⟨b, t, hb⟩ := List.exists_cons_of_ne_nil (encodeChar_ne_nil c)
  rw [hb, List.cons_append] at h ⊢
  simp only [symbols, symbolsFrom, h, List.length_cons, Nat.add_sub_cancel, symbolsFrom_append]

/-- **A text is read back from its bytes.** -/
theorem symbols_encode (text : List Char) : symbols (encode text) = text.map .char := by
  induction text with
  | nil => rfl
  | cons c text ih =>
      show symbols (encodeChar c ++ encode text) = _
      rw [symbols_encodeChar_append, ih, List.map_cons]

/-- **A text is read back as it was written.** -/
@[simp] theorem codePoints_encode (text : List Char) : codePoints (encode text) = text := by
  rw [codePoints, symbols_encode, List.map_map]
  exact List.map_id text

/-- Encoded text is valid. -/
theorem isValid_encode (text : List Char) : isValid (encode text) = true := by
  simp [isValid, symbols_encode]

/-- Different texts have different encodings. -/
theorem encode_inj {s t : List Char} : encode s = encode t ↔ s = t := by
  refine ⟨fun h => ?_, congrArg encode⟩
  rw [← codePoints_encode s, h, codePoints_encode]

/-- A byte below 128 at the start is a character. -/
theorem head?_codePoints {b : UInt8} (hb : b.toNat < 0x80) (s : Bytes) :
    (codePoints (b :: s)).head? = some (Char.ofNat b.toNat) := by
  have hchar : decodeChar? (b :: s) = some (Char.ofNat b.toNat, 1) := by
    simp only [decodeChar?, hb, if_true]
  simp only [codePoints, symbols, symbolsFrom, hchar]
  rfl

/-! ### Valid byte strings -/

/-- A continuation holds six bits. -/
theorem continuation?_eq_some {b : UInt8} {x : Nat} (h : continuation? b = some x) :
    x < 64 ∧ b = UInt8.ofNat (0x80 + x) := by
  simp only [continuation?, Option.ite_none_right_eq_some, Option.some.injEq] at h
  obtain ⟨⟨hlow, hhigh⟩, rfl⟩ := h
  refine ⟨by omega, ?_⟩
  rw [Nat.add_sub_cancel' hlow, UInt8.ofNat_toNat]

theorem toNat_ofNat {v : Nat} (h : v.isValidChar) : (Char.ofNat v).toNat = v := by
  rw [Char.ofNat, dif_pos h]
  rfl

theorem eq_ofNat {b : UInt8} {n : Nat} (h : b.toNat = n) : b = UInt8.ofNat n := by
  rw [← h, UInt8.ofNat_toNat]

/-- A character of two bytes. -/
theorem encodeChar_two {a : UInt8} {v x : Nat} (ha : 0xC2 ≤ a.toNat ∧ a.toNat < 0xE0) (hx : x < 64)
    (hv : v = (a.toNat - 0xC0) * 64 + x) : encodeChar (Char.ofNat v) = [a, UInt8.ofNat (0x80 + x)] := by
  rw [encodeChar, toNat_ofNat (.inl (by omega)), if_neg (by omega), if_pos (by omega),
    ← eq_ofNat (b := a) (by omega), show v % 64 = x by omega]

/-- A character of three bytes. -/
theorem encodeChar_three {a : UInt8} {v x y : Nat} (ha : 0xE0 ≤ a.toNat ∧ a.toNat < 0xF0) (hx : x < 64)
    (hy : y < 64) (hv : v = ((a.toNat - 0xE0) * 64 + x) * 64 + y)
    (hgood : ¬ (v < 0x800 ∨ (0xD800 ≤ v ∧ v < 0xE000))) :
    encodeChar (Char.ofNat v) = [a, UInt8.ofNat (0x80 + x), UInt8.ofNat (0x80 + y)] := by
  have hchar : v.isValidChar := by
    unfold Nat.isValidChar
    omega
  rw [encodeChar, toNat_ofNat hchar, if_neg (by omega), if_neg (by omega), if_pos (by omega),
    ← eq_ofNat (b := a) (by omega), show v / 64 % 64 = x by omega, show v % 64 = y by omega]

/-- A character of four bytes. -/
theorem encodeChar_four {a : UInt8} {v x y z : Nat} (ha : 0xF0 ≤ a.toNat ∧ a.toNat < 0xF5) (hx : x < 64)
    (hy : y < 64) (hz : z < 64) (hv : v = (((a.toNat - 0xF0) * 64 + x) * 64 + y) * 64 + z)
    (hgood : ¬ (v < 0x10000 ∨ 0x110000 ≤ v)) :
    encodeChar (Char.ofNat v) =
      [a, UInt8.ofNat (0x80 + x), UInt8.ofNat (0x80 + y), UInt8.ofNat (0x80 + z)] := by
  have hchar : v.isValidChar := by
    unfold Nat.isValidChar
    omega
  rw [encodeChar, toNat_ofNat hchar, if_neg (by omega), if_neg (by omega), if_neg (by omega),
    ← eq_ofNat (b := a) (by omega), show v / 4096 % 64 = x by omega, show v / 64 % 64 = y by omega,
    show v % 64 = z by omega]

/-- **A character that is read stands there as it would be written.** -/
theorem encodeChar_of_decodeChar? {s : Bytes} {c : Char} {n : Nat} (h : decodeChar? s = some (c, n)) :
    ∃ t, s = encodeChar c ++ t := by
  cases s with
  | nil => cases h
  | cons a s =>
      -- one case for each number of bytes; the others are refused
      simp only [decodeChar?] at h
      split at h
      · next h₁ =>
          obtain ⟨rfl, rfl⟩ := Prod.mk.inj (Option.some.inj h)
          exact ⟨s, by simp [encodeChar, toNat_ofNat (.inl (show a.toNat < 0xD800 by omega)), h₁]⟩
      split at h
      · cases h
      split at h
      · split at h
        · next b t =>
            obtain ⟨x, hx, hsome⟩ := Option.bind_eq_some_iff.1 h
            obtain ⟨hlt, rfl⟩ := continuation?_eq_some hx
            obtain ⟨rfl, rfl⟩ := Prod.mk.inj (Option.some.inj hsome)
            exact ⟨t, by rw [encodeChar_two (by omega) hlt rfl]; rfl⟩
        · cases h
      split at h
      · split at h
        · next b b' t =>
            obtain ⟨x, hx, hsome⟩ := Option.bind_eq_some_iff.1 h
            obtain ⟨y, hy, hif⟩ := Option.bind_eq_some_iff.1 hsome
            obtain ⟨hlt, rfl⟩ := continuation?_eq_some hx
            obtain ⟨hlt', rfl⟩ := continuation?_eq_some hy
            obtain ⟨hgood, hpair⟩ := Option.ite_none_left_eq_some.1 hif
            obtain ⟨rfl, rfl⟩ := Prod.mk.inj (Option.some.inj hpair)
            exact ⟨t, by rw [encodeChar_three (by omega) hlt hlt' rfl hgood]; rfl⟩
        · cases h
      split at h
      · split at h
        · next b b' b'' t =>
            obtain ⟨x, hx, hsome⟩ := Option.bind_eq_some_iff.1 h
            obtain ⟨y, hy, hsome'⟩ := Option.bind_eq_some_iff.1 hsome
            obtain ⟨z, hz, hif⟩ := Option.bind_eq_some_iff.1 hsome'
            obtain ⟨hlt, rfl⟩ := continuation?_eq_some hx
            obtain ⟨hlt', rfl⟩ := continuation?_eq_some hy
            obtain ⟨hlt'', rfl⟩ := continuation?_eq_some hz
            obtain ⟨hgood, hpair⟩ := Option.ite_none_left_eq_some.1 hif
            obtain ⟨rfl, rfl⟩ := Prod.mk.inj (Option.some.inj hpair)
            exact ⟨t, by rw [encodeChar_four (by omega) hlt hlt' hlt'' rfl hgood]; rfl⟩
        · cases h
      · cases h

/-- **A valid byte string is the encoding of its code points.** -/
theorem encode_codePoints {s : Bytes} (h : isValid s = true) : encode (codePoints s) = s := by
  induction hlen : s.length using Nat.strongRecOn generalizing s with
  | ind len ih =>
      cases s with
      | nil => rfl
      | cons b s =>
          cases hd : decodeChar? (b :: s) with
          | none => simp [isValid, symbols, symbolsFrom, hd] at h
          | some r =>
              obtain ⟨c, n⟩ := r
              obtain ⟨t, ht⟩ := encodeChar_of_decodeChar? hd
              have hpos := List.length_pos_iff.2 (encodeChar_ne_nil c)
              have hlt : t.length < len := by
                rw [← hlen, ht, List.length_append]
                omega
              rw [ht] at h ⊢
              rw [isValid, symbols_encodeChar_append] at h
              rw [codePoints, symbols_encodeChar_append]
              change encodeChar c ++ encode (codePoints t) = _
              rw [ih _ hlt h rfl]

/-! ### A byte below 128 between two byte strings -/

/-- A byte below 128 belongs to no character that starts before it. -/
theorem decodeChar?_append {b : UInt8} (hb : b.toNat < 0x80) (a : UInt8) (x y : Bytes) :
    decodeChar? (a :: (x ++ b :: y)) = decodeChar? (a :: x) := by
  have hnone : continuation? b = none := by
    rw [continuation?, if_neg (by omega)]
  match x, y with
  | [], [] => simp [decodeChar?, hnone]
  | [], [_] => simp [decodeChar?, hnone]
  | [], _ :: _ :: _ => simp [decodeChar?, hnone]
  | [_], [] => simp [decodeChar?, hnone]
  | [_], _ :: _ => simp [decodeChar?, hnone]
  | [_, _], _ => simp [decodeChar?, hnone]
  | _ :: _ :: _ :: _, _ => simp [decodeChar?]

/-- No character takes more bytes than there are. -/
theorem width_le_of_decodeChar? {s : Bytes} {c : Char} {n : Nat} (h : decodeChar? s = some (c, n)) :
    n ≤ s.length := by
  obtain ⟨t, rfl⟩ := encodeChar_of_decodeChar? h
  rw [decodeChar?_encodeChar] at h
  cases h
  simp

/-- **A byte below 128 is read alone**, whatever stray bytes stand before it. -/
theorem codePoints_append {b : UInt8} (hb : b.toNat < 0x80) (x y : Bytes) :
    codePoints (x ++ b :: y) = codePoints x ++ Char.ofNat b.toNat :: codePoints y := by
  suffices h : ∀ (x : Bytes) (skip : Nat), skip ≤ x.length →
      symbolsFrom skip (x ++ b :: y) = symbolsFrom skip x ++ .char (Char.ofNat b.toNat) :: symbols y by
    simp [codePoints, symbols, h x 0 (Nat.zero_le _), Symbol.shown]
  intro x
  induction x with
  | nil =>
      intro skip hskip
      obtain rfl : skip = 0 := by simpa using hskip
      have hchar : decodeChar? (b :: y) = some (Char.ofNat b.toNat, 1) := by
        simp only [decodeChar?, hb, if_true]
      simp only [List.nil_append, symbolsFrom, hchar]
      rfl
  | cons a x ih =>
      intro skip hskip
      cases skip with
      | succ k => exact ih k (Nat.le_of_succ_le_succ hskip)
      | zero =>
          simp only [List.cons_append, symbolsFrom, decodeChar?_append hb]
          cases hd : decodeChar? (a :: x) with
          | none => simp [ih 0 (Nat.zero_le _)]
          | some r =>
              obtain ⟨c, n⟩ := r
              have hn : n - 1 ≤ x.length := by
                have := width_le_of_decodeChar? hd
                rw [List.length_cons] at this
                omega
              simp [ih _ hn]

end Restyle.Utf8
