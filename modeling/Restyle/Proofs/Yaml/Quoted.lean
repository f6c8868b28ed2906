import Mathlib.Algebra.Group.Nat.Defs
import Restyle.Proofs.Yaml.Source

/-!
# Quoted scalars read back

In double quotes every text can stand: what cannot be written as it is, is escaped (`escape_spec`).  In
single quotes only quotes are changed, but a text may go over several lines there, since the separators
of lines and of paragraphs end a line too.

* `quoted?_double`, `quoted?_single`: a text in quotes is read back, whatever follows the closing quote.
-/

namespace Restyle.Yaml

open Printer

/-! ### Hexadecimal numbers -/

theorem hexDigit?_digitChar : ∀ d < 16, hexDigit? (Nat.digitChar d).toUpper = some d := by
  decide

/-- A number is read back from its digits. -/
theorem hexNumber?_digits (n : Nat) :
    ((Nat.toDigits 16 n).map Char.toUpper).foldlM (fun v c => (hexDigit? c).map (v * 16 + ·)) 0 =
      some n := by
  induction n using Nat.strongRecOn with
  | ind n ih =>
      by_cases hn : n < 16
      · simp [Nat.toDigits_of_lt_base hn, hexDigit?_digitChar n hn]
      · rw [Nat.toDigits_of_base_le (by decide) (Nat.le_of_not_lt hn), List.map_append, List.foldlM_append,
          ih (n / 16) (by omega)]
        simp [hexDigit?_digitChar (n % 16) (Nat.mod_lt n (by decide)), Nat.div_add_mod']

theorem length_upperHex {width n : Nat} (hw : 0 < width) (hn : n < 16 ^ width) :
    (upperHex width n).length = width := by
  have hlen := (Nat.length_toDigits_le_iff (by decide) hw).2 hn
  simp only [upperHex, List.length_append, List.length_replicate, List.length_map]
  omega

/-- A number is read back whatever zeros stand before it. -/
theorem hexNumber?_upperHex {width n : Nat} (hw : 0 < width) (hn : n < 16 ^ width) (rest : List Char) :
    hexNumber? width (upperHex width n ++ rest) = some n := by
  have zeros : ∀ k : Nat, (List.replicate k '0').foldlM
      (fun v c => (hexDigit? c).map (v * 16 + ·)) 0 = some 0 := by
    intro k
    induction k with
    | zero => rfl
    | succ k ih => exact ih
  have hlen := length_upperHex hw hn
  rw [hexNumber?, if_neg (by simp [hlen]), List.take_append_of_le_length (by omega),
    List.take_of_length_le (by omega), upperHex, List.foldlM_append, zeros]
  exact hexNumber?_digits n

/-- A character that is written as it is and stays on its line. -/
def isInline (c : Char) : Bool :=
  isWritten c && !isBreak c

/-- An inline character can be written, and does not end its line. -/
theorem isInline_spec {c : Char} (h : isInline c = true) : isWritten c = true ∧ isBreak c = false := by
  simpa [isInline] using h

theorem isInline_hexDigit : ∀ d < 16, isInline (Nat.digitChar d).toUpper = true := by
  decide

/-! ### Escapes -/

theorem isInline_upperHex {width n : Nat} {c : Char} (h : c ∈ upperHex width n) : isInline c = true := by
  rw [upperHex, List.mem_append, List.mem_map] at h
  rcases h with h | ⟨d, hd, rfl⟩
  · rw [List.eq_of_mem_replicate h]
    decide
  · induction n using Nat.strongRecOn with
    | ind n ih =>
        by_cases hn : n < 16
        · rw [Nat.toDigits_of_lt_base hn, List.mem_singleton] at hd
          rw [hd]
          exact isInline_hexDigit n hn
        · rw [Nat.toDigits_of_base_le (by decide) (Nat.le_of_not_lt hn), List.mem_append,
            List.mem_singleton] at hd
          rcases hd with hd | rfl
          · exact ih (n / 16) (by omega) hd
          · exact isInline_hexDigit _ (Nat.mod_lt n (by decide))

/-- What an escape says, with what is needed to read it. -/
structure Escapes (c : Char) (e : List Char) : Prop where
  read : ∀ rest, escaped? (e ++ rest) = some (c, e.length)
  inline : ∀ x ∈ e, isInline x = true
  ne_nil : e ≠ []

/-- A character is read back from its code. -/
theorem escapes_coded {c mark : Char} {width : Nat} (hw : 0 < width) (hc : c.toNat < 16 ^ width)
    (hmark : (mark, width) ∈ [('x', 2), ('u', 4), ('U', 8)]) :
    Escapes c (mark :: upperHex width c.toNat) where
  read rest := by
    have hread := hexNumber?_upperHex hw hc rest
    have hvalid : c.toNat.isValidChar := c.valid
    have hlen := length_upperHex hw hc
    simp only [List.mem_cons, Prod.mk.injEq, List.not_mem_nil, or_false] at hmark
    rcases hmark with ⟨rfl, rfl⟩ | ⟨rfl, rfl⟩ | ⟨rfl, rfl⟩ <;>
      simp [escaped?, hread, hvalid, hlen]
  inline x hx := by
    simp only [List.mem_cons, Prod.mk.injEq, List.not_mem_nil, or_false] at hmark
    rcases List.mem_cons.1 hx with rfl | hx
    · rcases hmark with ⟨rfl, -⟩ | ⟨rfl, -⟩ | ⟨rfl, -⟩ <;> decide
    · exact isInline_upperHex hx
  ne_nil := List.cons_ne_nil _ _

/-- A character that stands for itself between double quotes. -/
structure Stands (c : Char) : Prop where
  shown : isShown c = true
  ne_quote : c ≠ '"'
  ne_escape : c ≠ '\\'
  ne_tab : c ≠ '\t'
  not_break : isBreak c = false

/-- **A character is written as it is, or escaped.** -/
theorem escape_spec (c : Char) : (escape c = [c] ∧ Stands c) ∨ ∃ e, escape c = '\\' :: e ∧ Escapes c e := by
  have one : ∀ {x : Char}, escaped? [x] = some (c, 1) → (∀ rest, escaped? (x :: rest) = escaped? [x]) →
      isInline x = true → Escapes c [x] := by
    intro x hread hrest hinline
    refine ⟨fun rest => (hrest rest).trans hread, ?_, List.cons_ne_nil _ _⟩
    simpa using hinline
  unfold escape
  split
  iterate 14 exact .inr ⟨_, rfl, one rfl (fun _ => rfl) (by decide)⟩
  next h₁ h₂ h₃ h₄ h₅ h₆ h₇ h₈ h₉ h₁₀ h₁₁ h₁₂ h₁₃ h₁₄ =>
    split
    · next hshown =>
        refine .inl ⟨rfl, hshown, h₁₀, h₁₁, h₄, ?_⟩
        simp only [isBreak, Bool.or_eq_false_iff, beq_eq_false_iff_ne]
        exact ⟨⟨h₅, h₁₃⟩, h₁₄⟩
    have hlt : c.toNat < 0x110000 := by
      rcases c.valid with h | h
      · exact Nat.lt_trans h (by decide)
      · exact h.2
    split
    · exact .inr ⟨_, rfl, escapes_coded (by decide) (by omega) (by simp)⟩
    split
    · exact .inr ⟨_, rfl, escapes_coded (by decide) (by omega) (by simp)⟩
    · exact .inr ⟨_, rfl, escapes_coded (by decide) (by omega) (by simp)⟩

/-! ### Double quotes -/

/-- **Text in double quotes** is read back escape by escape. -/
theorem quotedFrom_double {s tail : List Char} {fuel : Nat} {f : Folding} {p : Pos} (hf : f.breaks = none)
    (hcolumn : 0 < p.column) (hfuel : (s.flatMap escape).length < fuel) :
    quotedFrom true fuel f ⟨p, s.flatMap escape ++ '"' :: tail⟩ =
      some (f.joined.reverse ++ s, ⟨p.along (s.flatMap escape ++ ['"']), tail⟩) := by
  induction s generalizing fuel f p with
  | nil =>
      obtain ⟨fuel, rfl⟩ := Nat.exists_eq_add_one.2 hfuel
      simp [quotedFrom, isGap, isBreak, Nat.ne_of_gt hcolumn]
  | cons c s ih =>
      obtain ⟨fuel, rfl⟩ := Nat.exists_eq_add_one.2 (Nat.zero_lt_of_lt hfuel)
      rw [List.flatMap_cons] at hfuel ⊢
      have hcol : (p.column == 0) = false := beq_eq_false_iff_ne.2 (Nat.ne_of_gt hcolumn)
      rcases escape_spec c with ⟨hc, hstands⟩ | ⟨e, hc, hread, hinline, hne⟩
      · have hnext : 0 < (p.next c).column := by
          rw [Pos.next_of_not_break hstands.not_break]
          exact Nat.succ_pos _
        rw [hc] at hfuel ⊢
        rw [List.length_append, List.length_singleton] at hfuel
        rw [List.append_assoc, List.singleton_append, quotedFrom]
        simp only [hcol, Bool.false_and, Bool.false_eq_true, if_false, hstands.not_break]
        -- a gap is kept apart, since it would not count before a line end
        by_cases hgap : isGap c = true
        · have hnone : (f.addGap c).breaks = none := by rw [Folding.addGap_of_none hf]; exact hf
          rw [if_pos hgap, Cursor.skip_succ, Cursor.skip_zero, ih hnone hnext (by omega),
            Folding.joined_of_none hnone, Folding.joined_of_none hf, Folding.addGap_of_none hf]
          simp
        · rw [if_neg hgap]
          simp only [hstands.ne_escape, hstands.ne_quote, beq_iff_eq, Bool.true_and, if_false,
            Bool.not_true, Bool.false_and, Bool.false_eq_true]
          rw [Cursor.skip_succ, Cursor.skip_zero, ih rfl hnext (by omega)]
          simp [Folding.addChars, Folding.joined]
      · have hline : ∀ x ∈ '\\' :: e, isBreak x = false := by
          intro x hx
          rcases List.mem_cons.1 hx with rfl | hx
          · rfl
          · exact (isInline_spec (hinline x hx)).2
        have hbreak : ∀ rest, startsBreak (e ++ rest) = false := by
          intro rest
          obtain ⟨x, e, rfl⟩ := List.exists_cons_of_ne_nil hne
          exact hline x (by simp)
        have hnext : 0 < (p.along ('\\' :: e)).column := by
          rw [Pos.along_of_no_break hline]
          exact Nat.lt_add_right _ hcolumn
        rw [hc] at hfuel ⊢
        rw [List.length_append, List.length_cons] at hfuel
        rw [List.append_assoc, List.cons_append, quotedFrom]
        simp only [hcol, Bool.false_and, Bool.false_eq_true, if_false, hbreak, hread]
        change quotedFrom true fuel (f.addChars [c])
          (Cursor.skip ('\\' :: e).length ⟨p, ('\\' :: e) ++ (s.flatMap escape ++ '"' :: tail)⟩) = _
        rw [Cursor.skip_append, ih rfl hnext (by omega)]
        simp [Folding.addChars, Folding.joined]

/-- **A text in double quotes is read back.** -/
theorem quoted?_double (p : Pos) (s tail : List Char) :
    quoted? true ⟨p, doubleQuoted s ++ tail⟩ = some (s, ⟨p.along (doubleQuoted s), tail⟩) := by
  have hnext : 0 < (p.next '"').column := by
    rw [Pos.next_of_not_break (by decide)]
    exact Nat.succ_pos _
  have hrest : doubleQuoted s ++ tail = '"' :: (s.flatMap escape ++ '"' :: tail) := by
    simp [doubleQuoted]
  rw [quoted?, hrest, Cursor.skip_succ, Cursor.skip_zero,
    quotedFrom_double rfl hnext (by simp only [List.length_cons, List.length_append]; omega)]
  simp [doubleQuoted, Folding.joined]

/-! ### Single quotes -/

/-- A text without a pair has none behind its first character. -/
theorem hasPair_cons {f g : Char → Bool} {a : Char} {s : List Char} (h : hasPair f g (a :: s) = false) :
    (f a = true → ∀ b ∈ s.head?, g b = false) ∧ hasPair f g s = false := by
  cases s with
  | nil => simp [hasPair]
  | cons b s =>
      rw [hasPair, Bool.or_eq_false_iff, Bool.and_eq_false_iff] at h
      refine ⟨fun ha x hx => ?_, h.2⟩
      obtain rfl := Option.some.inj hx
      simpa [ha] using h.1

/-- A quote is written twice. -/
def doubled (s : List Char) : List Char :=
  s.flatMap fun c => if c == '\'' then [c, c] else [c]

/-- Only single quotes are doubled. -/
theorem doubled_cons (c : Char) (s : List Char) :
    doubled (c :: s) = (if c = '\'' then [c, c] else [c]) ++ doubled s := by
  simp [doubled]

namespace Folding

/-- Where a text stands in a quoted scalar: in a line, or at the start of one that follows line ends.
These are not line feeds, so that all of them count. -/
inductive Goes (f : Folding) : (lineStart : Bool) → Prop where
  | inLine (hbreaks : f.breaks = none) : Goes f false
  | atStart {b : Char} {more : List Char} (hgaps : f.gaps = []) (hbreaks : f.breaks = some ([b], more))
      (hb : b ≠ '\n') : Goes f true

variable {f : Folding} {lineStart : Bool}

/-- A break that is no line feed is kept. -/
theorem joined_of_some {b : Char} {more : List Char} (h : f.breaks = some ([b], more)) (hb : b ≠ '\n') :
    f.joined = more ++ b :: f.text := by
  simp [joined, h, hb]

/-- A break goes on with a new line. -/
theorem Goes.addBreak (h : f.Goes lineStart) (hgaps : f.gaps = []) {c : Char} (hc : c ≠ '\n') :
    (f.addBreak c).Goes true ∧ (f.addBreak c).joined = c :: f.joined := by
  cases h with
  | inLine hbreaks =>
      have hadd : f.addBreak c = { f with gaps := [], breaks := some ([c], []) } := by
        simp [Folding.addBreak, hbreaks]
      rw [hadd, joined_of_none hbreaks, hgaps, joined_of_some rfl hc]
      exact ⟨.atStart rfl rfl hc, rfl⟩
  | @atStart b more _ hbreaks hb =>
      have hadd : f.addBreak c = { f with breaks := some ([b], c :: more) } := by
        simp [Folding.addBreak, hbreaks]
      rw [hadd, joined_of_some hbreaks hb, joined_of_some rfl hb]
      exact ⟨.atStart hgaps rfl hb, rfl⟩

/-- A character of a line: a space is kept apart, since it would not count before a line end. -/
def addInline (f : Folding) (c : Char) : Folding :=
  if isSpace c then f.addGap c else f.addChars [c]

/-- Any other character goes on with the line. -/
theorem Goes.addInline (h : f.Goes lineStart) {c : Char} (hc : lineStart = true → isSpace c = false) :
    (f.addInline c).Goes false ∧ (f.addInline c).joined = c :: f.joined ∧
      ((f.addInline c).gaps ≠ [] → isSpace c = true) := by
  unfold Folding.addInline
  split
  · next hspace =>
      cases h with
      | inLine hbreaks =>
          rw [addGap_of_none hbreaks, joined_of_none hbreaks]
          exact ⟨.inLine hbreaks, joined_of_none hbreaks, fun _ => hspace⟩
      | atStart => simp [hc rfl] at hspace
  · exact ⟨.inLine rfl, rfl, fun h => absurd rfl h⟩

end Folding

theorem startsDocumentMark_cons {c : Char} (hdash : c ≠ '-') (hdot : c ≠ '.') (s : List Char) :
    startsDocumentMark (c :: s) = false := by
  simp [startsDocumentMark, List.isPrefixOf, hdash.symm, hdot.symm]

/-- Indentation is passed over. -/
theorem quotedFrom_spaces {n fuel : Nat} {f : Folding} {p : Pos} {rest : List Char} (hf : f.Goes true) :
    quotedFrom false (fuel + n) f ⟨p, spaces n ++ rest⟩ =
      quotedFrom false fuel f ⟨p.along (spaces n), rest⟩ := by
  induction n generalizing p with
  | zero => rfl
  | succ n ih =>
      have hgap : f.addGap ' ' = f := by
        cases hf with
        | atStart _ hbreaks _ => simp [Folding.addGap, hbreaks]
      change quotedFrom false (fuel + n + 1) f ⟨p, ' ' :: (spaces n ++ rest)⟩ = _
      simp only [quotedFrom, startsDocumentMark_cons (show ' ' ≠ '-' by decide) (by decide), Bool.and_false]
      change quotedFrom false (fuel + n) (f.addGap ' ') ⟨p.next ' ', spaces n ++ rest⟩ = _
      rw [hgap, ih]
      rfl

/-- A character in single quotes is read as itself. -/
theorem quotedFrom_inline {fuel : Nat} {f : Folding} {p : Pos} {c : Char} {rest : List Char}
    (hcolumn : 0 < p.column) (hbreak : isBreak c = false) (htab : c ≠ '\t') :
    quotedFrom false (fuel + 1) f ⟨p, (if c = '\'' then [c, c] else [c]) ++ rest⟩ =
      quotedFrom false fuel (f.addInline c) ⟨p.along (if c = '\'' then [c, c] else [c]), rest⟩ := by
  have hcol : (p.column == 0) = false := beq_eq_false_iff_ne.2 (Nat.ne_of_gt hcolumn)
  by_cases hquote : c = '\''
  · subst hquote
    rw [if_pos rfl]
    simp only [List.cons_append, List.nil_append, quotedFrom, hcol]
    rfl
  · rw [if_neg hquote]
    by_cases hspace : c = ' '
    · subst hspace
      simp only [List.cons_append, List.nil_append, quotedFrom, hcol]
      rfl
    · have hgap : isGap c = false := by simp [isGap, hspace, htab]
      simp [quotedFrom, hcol, hgap, hbreak, hquote, Folding.addInline, isSpace, hspace]

theorem quotedFrom_break {fuel : Nat} {f : Folding} {p : Pos} {c : Char} {rest : List Char}
    (hc : isBreak c = true) :
    quotedFrom false (fuel + 1) f ⟨p, c :: rest⟩ = quotedFrom false fuel (f.addBreak c) ⟨p.next c, rest⟩ := by
  have hne : ∀ {x : Char}, isBreak x = false → c ≠ x := by
    rintro x hx rfl
    rw [hc] at hx
    cases hx
  have hgap : isGap c = false := by
    simp [isGap, hne (show isBreak ' ' = false by decide), hne (show isBreak '\t' = false by decide)]
  simp only [quotedFrom, startsDocumentMark_cons (hne (show isBreak '-' = false by decide)) (hne (by decide)),
    Bool.and_false, Bool.false_eq_true, if_false, hgap, hc, if_true, Cursor.skip_succ, Cursor.skip_zero]

/-- Lines in single quotes are indented at their start. -/
theorem indented_doubled (indent : Nat) (lineStart : Bool) {c : Char} (hc : endsLine c = false)
    (s : List Char) : indented indent lineStart (doubled (c :: s)) =
      (if lineStart then spaces indent else []) ++ ((if c = '\'' then [c, c] else [c]) ++
        indented indent false (doubled s)) := by
  rw [doubled_cons]
  by_cases hquote : c = '\''
  · subst hquote
    cases lineStart <;> simp [indented, endsLine, isBreak, spaces]
  · cases lineStart <;> simp [indented, hc, hquote, spaces]

theorem indented_doubled_break (indent : Nat) (lineStart : Bool) {c : Char} (hc : endsLine c = true)
    (s : List Char) :
    indented indent lineStart (doubled (c :: s)) = c :: indented indent true (doubled s) := by
  have hquote : c ≠ '\'' := by
    rintro rfl
    revert hc
    decide
  simp [doubled_cons, hquote, indented, hc]

/-- A text that can stand in single quotes. -/
structure Quotable (s : List Char) : Prop where
  chars : ∀ c ∈ s, c ≠ '\n' ∧ c ≠ '\t' ∧ (endsLine c = true → isBreak c = true)
  no_space_before : hasPair isSpace endsLine s = false
  no_space_after : hasPair endsLine isSpace s = false

/-- What can be quoted still can without its first character. -/
theorem Quotable.tail {c : Char} {s : List Char} (h : Quotable (c :: s)) : Quotable s :=
  ⟨fun x hx => h.chars x (List.mem_cons_of_mem c hx), (hasPair_cons h.no_space_before).2,
    (hasPair_cons h.no_space_after).2⟩

/-- **Text in single quotes** is read back line by line. -/
theorem quotedFrom_single {indent : Nat} (hindent : 0 < indent) {s tail : List Char}
    (htail : tail.head? ≠ some '\'') (hs : Quotable s) {fuel : Nat} {f : Folding} {p : Pos} {lineStart : Bool}
    (hf : f.Goes lineStart) (hcolumn : lineStart = false → 0 < p.column)
    (hgaps : f.gaps ≠ [] → ∀ c ∈ s.head?, endsLine c = false)
    (hspace : lineStart = true → ∀ c ∈ s.head?, isSpace c = false)
    (hfuel : (indented indent lineStart (doubled s)).length < fuel) :
    quotedFrom false fuel f ⟨p, indented indent lineStart (doubled s) ++ '\'' :: tail⟩ =
      some (f.joined.reverse ++ s, ⟨p.along (indented indent lineStart (doubled s) ++ ['\'']), tail⟩) := by
  induction s generalizing fuel f p lineStart with
  | nil =>
      obtain ⟨fuel, rfl⟩ := Nat.exists_eq_add_one.2 (Nat.zero_lt_of_lt hfuel)
      change quotedFrom false (fuel + 1) f ⟨p, '\'' :: tail⟩ = _
      have hnext : (tail.head? == some '\'') = false := beq_eq_false_iff_ne.2 htail
      simp only [quotedFrom, startsDocumentMark_cons (show '\'' ≠ '-' by decide) (by decide), hnext]
      simp [isGap, isBreak, doubled, indented]
  | cons c s ih =>
      obtain ⟨fuel, rfl⟩ := Nat.exists_eq_add_one.2 (Nat.zero_lt_of_lt hfuel)
      obtain ⟨hfeed, htab, hbreak⟩ := hs.chars c List.mem_cons_self
      by_cases hends : endsLine c = true
      · have hnil : f.gaps = [] := by
          refine Decidable.byContradiction fun hne => ?_
          rw [hgaps hne c rfl] at hends
          cases hends
        obtain ⟨hgoes, hjoined⟩ := hf.addBreak hnil hfeed
        have hnogaps : (f.addBreak c).gaps = [] := by
          cases hgoes with
          | atStart hgaps _ _ => exact hgaps
        rw [indented_doubled_break indent lineStart hends] at hfuel ⊢
        rw [List.cons_append, quotedFrom_break (hbreak hends), ih hs.tail hgoes (fun h => by cases h)
          (fun h => absurd hnogaps h) (fun _ => (hasPair_cons hs.no_space_after).1 hends)
          (by simpa using hfuel), hjoined]
        simp
      · -- the indentation, if there is one, is passed over first
        rw [Bool.not_eq_true] at hends
        have hnot := isBreak_eq_false hends
        obtain ⟨hgoes, hjoined, hlast⟩ := hf.addInline fun h => hspace h c rfl
        have hrun : ∀ {fuel : Nat} {q : Pos}, 0 < q.column →
            (indented indent false (doubled s)).length < fuel →
            quotedFrom false (fuel + 1) f ⟨q, (if c = '\'' then [c, c] else [c]) ++
                (indented indent false (doubled s) ++ '\'' :: tail)⟩ =
              some (f.joined.reverse ++ c :: s, ⟨q.along ((if c = '\'' then [c, c] else [c]) ++
                (indented indent false (doubled s) ++ ['\''])), tail⟩) := by
          intro fuel q hq hlen
          have hnext : 0 < (q.along (if c = '\'' then [c, c] else [c])).column := by
            rw [Pos.along_of_no_break (by intro x hx; split at hx <;> simp_all)]
            exact Nat.lt_add_right _ hq
          rw [quotedFrom_inline hq hnot htab, ih hs.tail hgoes (fun _ => hnext)
            (fun h => (hasPair_cons hs.no_space_before).1 (hlast h)) (fun h => by cases h) hlen, hjoined]
          simp
        have hwidth : 0 < (if c = '\'' then [c, c] else [c]).length := by split <;> simp
        rw [indented_doubled indent lineStart hends] at hfuel ⊢
        cases lineStart with
        | false =>
            simp only [Bool.false_eq_true, if_false, List.nil_append, List.append_assoc,
              List.length_append] at hfuel ⊢
            exact hrun (hcolumn rfl) (by omega)
        | true =>
            simp only [if_true, List.append_assoc, List.length_append, length_spaces] at hfuel ⊢
            obtain ⟨more, hmore⟩ : ∃ more, fuel + 1 = more + 1 + indent := ⟨fuel - indent, by omega⟩
            rw [hmore, quotedFrom_spaces hf, hrun (by simp; omega) (by omega)]
            simp

/-- What a text has to be like to be written in single quotes. -/
theorem allowsSingle_spec {s : List Char} (h : allowsSingle s = true) :
    hasPair endsLine isSpace s = false ∧ hasPair isSpace endsLine s = false ∧ hasSpecial s = false ∧
      '\t' ∉ s := by
  simpa [allowsSingle, needsEscapes, and_assoc] using h

theorem isShown_of_not_special {s : List Char} (h : hasSpecial s = false) {c : Char} (hc : c ∈ s) :
    isWritten c = true := by
  rw [hasSpecial, List.any_eq_false] at h
  have := h c hc
  by_cases htab : c = '\t'
  · simp [isWritten, htab]
  · simpa [isWritten, htab] using this

/-- A text that is allowed single quotes can be quoted, but for line feeds. -/
theorem quotable_of_allowsSingle {s : List Char} (h : allowsSingle s = true) (hfeed : '\n' ∉ s) : Quotable s := by
  obtain ⟨hafter, hbefore, hspecial, htab⟩ := allowsSingle_spec h
  refine ⟨fun c hc => ⟨?_, ?_, fun hends => ?_⟩, hbefore, hafter⟩
  · rintro rfl
    exact hfeed hc
  · rintro rfl
    exact htab hc
  · obtain ⟨-, hr, hn⟩ := isWritten_spec (isShown_of_not_special hspecial hc)
    simpa [endsLine, hr, hn] using hends

/-- **A text in single quotes is read back.** -/
theorem quoted?_single {indent : Nat} (hindent : 0 < indent) (p : Pos) {s tail : List Char}
    (hs : allowsSingle s = true) (hfeed : '\n' ∉ s) (htail : tail.head? ≠ some '\'') :
    quoted? false ⟨p, singleQuoted indent s ++ tail⟩ =
      some (s, ⟨p.along (singleQuoted indent s), tail⟩) := by
  have hnext : 0 < (p.next '\'').column := by
    rw [Pos.next_of_not_break (by decide)]
    exact Nat.succ_pos _
  have hquoted : singleQuoted indent s = '\'' :: (indented indent false (doubled s) ++ ['\'']) := rfl
  have hrest : singleQuoted indent s ++ tail = '\'' :: (indented indent false (doubled s) ++ '\'' :: tail) := by
    simp [hquoted]
  rw [quoted?, hrest, Cursor.skip_succ, Cursor.skip_zero,
    quotedFrom_single hindent htail (quotable_of_allowsSingle hs hfeed) (.inLine rfl) (fun _ => hnext)
      (fun h => absurd rfl h) (fun h => by cases h)
      (by simp only [List.length_cons, List.length_append]; omega)]
  simp [hquoted, Folding.joined]

end Restyle.Yaml
