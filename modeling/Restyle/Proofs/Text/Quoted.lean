import Restyle.Proofs.FileName
import Restyle.Text.Blank
import Restyle.Text.Quoted

/-!
# Quoted text read back

A quoted byte string stands on one line (`lineEnd_not_mem_quote`), and no two byte strings are quoted alike
(`quote_inj`), whatever bytes they are made of.

The symbols of a byte string tell its bytes (`Utf8.flatMap_bytes_symbols`).  A symbol in quotes is a
character that stands for itself or an escape, and it can be told from what follows it: `Quoted.first` reads
it back (`Quoted.spells_symbol`).
-/

namespace Restyle

namespace Utf8

/-! ### Symbols and their bytes -/

/-- What holds of nothing, and still holds with a character or a stray byte put in front, holds of all
byte strings. -/
theorem symbols_induction {P : Bytes → Prop} (nil : P [])
    (char : ∀ c s, P s → P (encodeChar c ++ s))
    (stray : ∀ b s, decodeChar? (b :: s) = none → P s → P (b :: s)) (s : Bytes) : P s := by
  induction hlen : s.length using Nat.strongRecOn generalizing s with
  | ind len ih =>
      cases s with
      | nil => exact nil
      | cons b s =>
          cases hd : decodeChar? (b :: s) with
          | none => exact stray b s hd (ih s.length (by rw [← hlen]; exact Nat.lt_succ_self _) s rfl)
          | some r =>
              obtain ⟨t, ht⟩ := encodeChar_of_decodeChar? (c := r.1) (n := r.2) hd
              have hpos := List.length_pos_iff.2 (encodeChar_ne_nil r.1)
              have hlt : t.length < len := by
                rw [← hlen, ht, List.length_append]
                omega
              rw [ht]
              exact char r.1 t (ih t.length hlt t rfl)

/-- Only bytes from 128 on are stray. -/
def Symbol.Sound : Symbol → Prop
  | .char _ => True
  | .stray b => 0x80 ≤ b.toNat

/-- A byte that begins no character is a symbol of its own. -/
theorem symbols_stray {b : UInt8} {s : Bytes} (h : decodeChar? (b :: s) = none) :
    symbols (b :: s) = .stray b :: symbols s := by
  simp only [symbols, symbolsFrom, h]

/-- **No byte is lost in symbols.** -/
theorem flatMap_bytes_symbols (s : Bytes) : (symbols s).flatMap Symbol.bytes = s := by
  induction s using symbols_induction with
  | nil => rfl
  | char c s ih =>
      rw [symbols_encodeChar_append, List.flatMap_cons, ih]
      rfl
  | stray b s hd ih =>
      rw [symbols_stray hd, List.flatMap_cons, ih]
      rfl

/-- Symbols of a text are sound. -/
theorem sound_of_mem_symbols {p : Symbol} {s : Bytes} (h : p ∈ symbols s) : p.Sound := by
  induction s using symbols_induction with
  | nil => cases h
  | char c s ih =>
      rw [symbols_encodeChar_append] at h
      rcases List.mem_cons.1 h with rfl | h
      · trivial
      · exact ih h
  | stray b s hd ih =>
      rw [symbols_stray hd] at h
      rcases List.mem_cons.1 h with rfl | h
      · refine Nat.le_of_not_lt fun hlow => ?_
        simp [decodeChar?, hlow] at hd
      · exact ih h

end Utf8

namespace Quoted

open Utf8 (Symbol)

/-! ### Hexadecimal numbers -/

/-- The number of a hexadecimal digit in lower case. -/
def digitValue (c : Char) : Nat :=
  if c.isDigit then c.toNat - 0x30 else c.toNat - 0x57

/-- The number that digits stand for. -/
def hexValue (digits : List Char) : Nat :=
  digits.foldl (fun v c => v * 16 + digitValue c) 0

theorem digitValue_digitChar : ∀ d < 16, digitValue (Nat.digitChar d) = d := by
  decide

/-- A number is known from its digits. -/
theorem hexValue_toDigits (n : Nat) : hexValue (Nat.toDigits 16 n) = n := by
  induction n using Nat.strongRecOn with
  | ind n ih =>
      by_cases hn : n < 16
      · rw [Nat.toDigits_of_lt_base hn]
        simpa [hexValue] using digitValue_digitChar n hn
      · have hrest := ih (n / 16) (by omega)
        rw [hexValue] at hrest
        rw [Nat.toDigits_of_base_le (by decide) (Nat.le_of_not_lt hn), hexValue, List.foldl_append, hrest,
          List.foldl_cons, List.foldl_nil, digitValue_digitChar _ (Nat.mod_lt n (by decide))]
        omega

theorem hexValue_hex (width n : Nat) : hexValue (hex width n) = n := by
  have zeros : ∀ k : Nat, (List.replicate k '0').foldl (fun v c => v * 16 + digitValue c) 0 = 0 := by
    intro k
    induction k with
    | zero => rfl
    | succ k ih => exact ih
  rw [hexValue, hex, List.foldl_append, zeros]
  exact hexValue_toDigits n

/-- A number takes the width it is given. -/
theorem length_hex {width n : Nat} (hw : 0 < width) (hn : n < 16 ^ width) :
    (hex width n).length = width := by
  have hlen := (Nat.length_toDigits_le_iff (by decide) hw).2 hn
  simp only [hex, List.length_append, List.length_replicate]
  omega

theorem mem_toDigits {n : Nat} {c : Char} (h : c ∈ Nat.toDigits 16 n) :
    ∃ d < 16, c = Nat.digitChar d := by
  induction n using Nat.strongRecOn with
  | ind n ih =>
      by_cases hn : n < 16
      · rw [Nat.toDigits_of_lt_base hn, List.mem_singleton] at h
        exact ⟨n, hn, h⟩
      · rw [Nat.toDigits_of_base_le (by decide) (Nat.le_of_not_lt hn), List.mem_append,
          List.mem_singleton] at h
        rcases h with h | h
        · exact ih (n / 16) (by omega) h
        · exact ⟨n % 16, Nat.mod_lt n (by decide), h⟩

theorem lineEnd_not_mem_hex (width n : Nat) : '\n' ∉ hex width n := by
  rw [hex, List.mem_append]
  rintro (h | h)
  · exact absurd (List.eq_of_mem_replicate h) (by decide)
  · obtain ⟨d, hd, heq⟩ := mem_toDigits h
    exact absurd heq.symm ((by decide : ∀ d < 16, Nat.digitChar d ≠ '\n') d hd)

/-! ### One symbol -/

/-- The symbol of an escape, without its backslash, and what follows. -/
def coded : List Char → Symbol × List Char
  | [] => (.char '\\', [])
  | k :: s =>
    match k with
    | 'x' =>
      let n := hexValue (s.take 2)
      (if n < 0x80 then .char (Char.ofNat n) else .stray (UInt8.ofNat n), s.drop 2)
    | 'u' => (.char (Char.ofNat (hexValue (s.take 4))), s.drop 4)
    | 'U' => (.char (Char.ofNat (hexValue (s.take 8))), s.drop 8)
    | 'a' => (.char '\x07', s)
    | 'b' => (.char '\x08', s)
    | 't' => (.char '\t', s)
    | 'n' => (.char '\n', s)
    | 'v' => (.char '\x0b', s)
    | 'f' => (.char '\x0c', s)
    | 'r' => (.char '\r', s)
    | _ => (.char k, s)

/-- The first symbol of quoted text, and what follows it. -/
def first : List Char → Symbol × List Char
  | [] => (.char '\\', [])
  | c :: s => if c = '\\' then coded s else (.char c, s)

/-- The characters stand for a symbol, on one line, and do not look like the closing quote. -/
structure Spells (p : Symbol) (e : List Char) : Prop where
  read : ∀ rest, first (e ++ rest) = (p, rest)
  inline : '\n' ∉ e
  head : ∃ c s, e = c :: s ∧ c ≠ '"'

/-- What is read back behind a backslash spells a symbol. -/
theorem spells_escaped {p : Symbol} {e : List Char} (hread : ∀ rest, coded (e ++ rest) = (p, rest))
    (hinline : '\n' ∉ e) : Spells p ('\\' :: e) where
  read := hread
  inline := by
    rw [List.mem_cons, not_or]
    exact ⟨by decide, hinline⟩
  head := ⟨_, _, rfl, by decide⟩

theorem spells_letter {p : Symbol} {k : Char} (hk : k ≠ '\n') (hread : ∀ rest, coded (k :: rest) = (p, rest)) :
    Spells p ['\\', k] :=
  spells_escaped hread (by simpa using hk.symm)

theorem spells_hex {p : Symbol} {k : Char} {width n : Nat} (hw : 0 < width) (hn : n < 16 ^ width)
    (hk : k ≠ '\n')
    (hread : ∀ s, hexValue (s.take width) = n → coded (k :: s) = (p, s.drop width)) :
    Spells p ('\\' :: k :: hex width n) := by
  have hlen := length_hex hw hn
  refine spells_escaped (fun rest => ?_) ?_
  · rw [List.cons_append, hread, List.drop_left' hlen]
    rw [List.take_left' hlen, hexValue_hex]
  · rw [List.mem_cons, not_or]
    exact ⟨hk.symm, lineEnd_not_mem_hex width n⟩

/-- **Every character is spelled** by its escape. -/
theorem spells_escape (c : Char) : Spells (.char c) (escape c) := by
  have hscalar := Utf8.toNat_scalar c
  have hofNat := Char.ofNat_toNat c
  unfold escape
  split
  · next hquote =>
      rw [Bool.or_eq_true, beq_iff_eq, beq_iff_eq] at hquote
      rcases hquote with rfl | rfl
      · exact spells_letter (by decide) fun _ => rfl
      · exact spells_letter (by decide) fun _ => rfl
  · next hplain =>
      simp only [Bool.or_eq_true, beq_iff_eq, not_or] at hplain
      split
      · next hprint =>
          refine ⟨fun rest => if_neg hplain.2, fun hbreak => ?_, _, _, rfl, hplain.1⟩
          rw [← List.mem_singleton.1 hbreak] at hprint
          exact absurd hprint (by decide)
      · split
        case h_8 n =>
            split
            · next hn =>
                refine spells_hex (by decide) (by omega) (by decide) fun s hs => ?_
                simp only [coded, hs, if_pos hn, hofNat]
            · split
              · next hn =>
                  refine spells_hex (by decide) (by omega) (by decide) fun s hs => ?_
                  simp only [coded, hs, hofNat]
              · refine spells_hex (by decide) (by omega) (by decide) fun s hs => ?_
                simp only [coded, hs, hofNat]
        all_goals
          next hn =>
            rw [hn] at hofNat
            exact spells_letter (by decide) fun _ => by rw [← hofNat]; rfl

/-- **A symbol in quotes can be read back.** -/
theorem spells_symbol {p : Symbol} (hp : p.Sound) : Spells p (symbol p) := by
  cases p with
  | char c => exact spells_escape c
  | stray b =>
      have hb := b.toNat_lt
      refine spells_hex (by decide) (by omega) (by decide) fun s hs => ?_
      have hlow : ¬ b.toNat < 0x80 := Nat.not_lt.2 hp
      simp only [coded, hs, if_neg hlow, UInt8.ofNat_toNat]

/-! ### Whole texts -/

/-- Symbols are known from what they are quoted as. -/
theorem flatMap_symbol_inj {ps qs : List Symbol} (hps : ∀ p ∈ ps, p.Sound) (hqs : ∀ q ∈ qs, q.Sound)
    (h : ps.flatMap symbol ++ ['"'] = qs.flatMap symbol ++ ['"']) : ps = qs := by
  -- where one text ends and the other goes on, a symbol would start with the closing quote
  have hends : ∀ (q : Symbol) (qs : List Symbol), q.Sound →
      ['"'] ≠ (q :: qs).flatMap symbol ++ ['"'] := by
    intro q qs hq heq
    obtain ⟨c, s, hsymbol, hne⟩ := (spells_symbol hq).head
    rw [List.flatMap_cons, hsymbol] at heq
    exact hne (List.cons.inj heq).1.symm
  induction ps generalizing qs with
  | nil =>
      cases qs with
      | nil => rfl
      | cons q qs => exact absurd h (hends q qs (hqs q List.mem_cons_self))
  | cons p ps ih =>
      cases qs with
      | nil => exact absurd h.symm (hends p ps (hps p List.mem_cons_self))
      | cons q qs =>
          rw [List.forall_mem_cons] at hps hqs
          rw [List.flatMap_cons, List.flatMap_cons, List.append_assoc, List.append_assoc] at h
          have hfirst := congrArg first h
          rw [(spells_symbol hps.1).read, (spells_symbol hqs.1).read, Prod.mk.injEq] at hfirst
          rw [hfirst.1, ih hps.2 hqs.2 hfirst.2]

end Quoted

/-- **No two byte strings are quoted alike.** -/
theorem quote_inj {s t : Bytes} : quote s = quote t ↔ s = t := by
  refine ⟨fun h => ?_, congrArg quote⟩
  have hchars := (List.cons.inj (Utf8.encode_inj.1 h)).2
  have hsymbols := Quoted.flatMap_symbol_inj (fun _ => Utf8.sound_of_mem_symbols)
    (fun _ => Utf8.sound_of_mem_symbols) hchars
  rw [← Utf8.flatMap_bytes_symbols s, hsymbols, Utf8.flatMap_bytes_symbols]

theorem quote_ne_nil (s : Bytes) : quote s ≠ [] := by
  intro h
  have hchars := (Utf8.encode_inj (t := [])).1 h
  cases hchars

/-- **A quoted byte string stands on one line.** -/
theorem lineEnd_not_mem_quote (s : Bytes) : (0x0A : UInt8) ∉ quote s := by
  intro h
  have hbreak : '\n' ∈ '"' :: (Utf8.symbols s).flatMap Quoted.symbol ++ ['"'] :=
    Utf8.mem_of_mem_encode (by decide) h
  simp only [List.cons_append, List.mem_cons, List.mem_append, List.mem_flatMap, List.not_mem_nil,
    or_false] at hbreak
  rcases hbreak with hquote | ⟨p, hp, hbreak⟩ | hquote
  · exact absurd hquote (by decide)
  · exact (Quoted.spells_symbol (Utf8.sound_of_mem_symbols hp)).inline hbreak
  · exact absurd hquote (by decide)

end Restyle
