import Restyle.Proofs.Yaml.Base64
import Restyle.Proofs.Yaml.Nodes
import Restyle.Yaml.Decode

/-!
# Values in a file

A byte string as it stands in a file, and what is read of it there.  Text is read back as it is, unless it
is written in literal style: a line end at its start is lost then, and with a tab at its start it cannot
be read.  What is no text comes back from base 64.

* `leafOf_written`: the value is read as its content.
* `text_of_shows`: the content is the value, up to its start.
-/

namespace Restyle.Yaml

open Printer Scanner

/-! ### Characters -/

/-- All that stands in double quotes can be written. -/
theorem isWritten_doubleQuoted {s : List Char} {c : Char} (h : c ∈ doubleQuoted s) : isWritten c = true := by
  simp only [doubleQuoted, List.cons_append, List.mem_cons, List.mem_append, List.mem_flatMap, List.not_mem_nil,
    or_false] at h
  rcases h with rfl | ⟨x, -, hc⟩ | rfl
  · decide
  · rcases escape_spec x with ⟨hx, hstands⟩ | ⟨e, hx, hescapes⟩
    · rw [hx, List.mem_singleton] at hc
      rw [hc, isWritten, hstands.shown, Bool.or_true]
    · rw [hx, List.mem_cons] at hc
      rcases hc with rfl | hc
      · decide
      · exact (isInline_spec (hescapes.inline c hc)).1
  · decide

/-- Indenting adds what can be written. -/
theorem isWritten_indented {indent : Nat} {lineStart : Bool} {s : List Char} (hs : ∀ c ∈ s, isWritten c = true)
    {c : Char} (h : c ∈ indented indent lineStart s) : isWritten c = true := by
  induction s generalizing lineStart with
  | nil => cases h
  | cons x s ih =>
      have hmore := fun y hy => hs y (List.mem_cons_of_mem x hy)
      rw [indented] at h
      split at h
      · rcases List.mem_cons.1 h with rfl | h
        · exact hs c List.mem_cons_self
        · exact ih hmore h
      · rcases List.mem_append.1 h with h | h
        · split at h
          · rw [List.eq_of_mem_replicate h]
            decide
          · cases h
        · rcases List.mem_cons.1 h with rfl | h
          · exact hs c List.mem_cons_self
          · exact ih hmore h

theorem isWritten_singleQuoted {indent : Nat} {s : List Char} (hs : ∀ c ∈ s, isWritten c = true) {c : Char}
    (h : c ∈ singleQuoted indent s) : isWritten c = true := by
  have hdoubled : ∀ x ∈ doubled s, isWritten x = true := by
    intro x hx
    obtain ⟨y, hy, hx⟩ := List.mem_flatMap.1 hx
    split at hx
    all_goals
      have : x = y := by simpa using hx
      rw [this]
      exact hs y hy
  rcases List.mem_append.1 h with h | h
  · rcases List.mem_cons.1 h with rfl | h
    · decide
    · exact isWritten_indented hdoubled h
  · rw [List.mem_singleton.1 h]
    decide

/-- A literal is written with characters that can be. -/
theorem isWritten_literal {indent : Nat} {s : List Char} (hs : ∀ c ∈ s, isWritten c = true) {c : Char}
    (h : c ∈ literal indent s ++ lastFeed s) : isWritten c = true := by
  obtain ⟨b, hb, hliteral⟩ := literal_eq indent hs
  have hheader : ∀ x ∈ '|' :: ((if hinted s then ['4'] else []) ++ (Chomping.of s).mark), isWritten x = true := by
    cases hinted s <;> cases Chomping.of s <;> exact List.all_iff_forall_prop.1 (by decide)
  rw [hliteral, ← List.cons_append] at h
  rcases List.mem_append.1 h with h | h
  · exact hheader c h
  rcases List.mem_cons.1 h with rfl | h
  · rcases break_cases hb with rfl | rfl | rfl <;> decide
  · refine isWritten_indented (fun x hx => ?_) h
    rcases List.mem_append.1 hx with hx | hx
    · exact hs x (mem_readLiteral hx)
    · exact isWritten_of_mem_lastFeed hx

/-! ### Line ends -/

theorem ended_append {pre s : List Char} (hs : s ≠ []) : ended (pre ++ s) = pre ++ ended s := by
  have hlast : (pre ++ s).getLast? = s.getLast? := by
    rw [List.getLast?_append, List.getLast?_eq_some_getLast hs]
    rfl
  rw [ended, ended, hlast]
  split
  · rfl
  · exact List.append_assoc _ _ _

/-- A line end is added behind a line. -/
theorem ended_of_inline {s : List Char} {c : Char} (hc : endsLine c = false) : ended (s ++ [c]) = s ++ [c] ++ ['\n'] := by
  rw [ended, if_neg (by simp [hc])]

/-- Indenting does not change how a text ends. -/
theorem getLast?_indented (indent : Nat) (lineStart : Bool) (s : List Char) :
    (indented indent lineStart s).getLast? = s.getLast? := by
  induction s generalizing lineStart with
  | nil => rfl
  | cons c s ih =>
      rw [indented]
      split
      · rw [List.getLast?_cons, List.getLast?_cons, ih]
      · rw [List.getLast?_append, List.getLast?_cons, List.getLast?_cons, ih]
        rfl

/-- A literal is ended as its text is. -/
theorem ended_literal (indent : Nat) {s : List Char} (hs : s ≠ []) :
    ended (literal indent s) = literal indent s ++ lastFeed s := by
  have hlast : (literal indent s).getLast? = s.getLast? := by
    rw [literal, List.getLast?_append, getLast?_indented, List.getLast?_eq_some_getLast hs]
    rfl
  rw [ended, lastFeed, hlast]
  split <;> simp

/-! ### Texts -/

/-- What is read where a text stands. -/
def textContent (s : List Char) : Option Content :=
  if style s == .literal then
    if s.head? == some '\t' then none else some { style := .literal, text := readLiteral s }
  else some { style := style s, text := s }

/-- Text and the style it is written in. -/
inductive Styled (s : List Char) : ScalarStyle → Prop where
  | plain (hne : s ≠ []) (h : allowsPlain s = true) (hmeans : meaning true s = .text) : Styled s .plain
  | single (h : allowsSingle s = true) (hfeed : '\n' ∉ s) : Styled s .singleQuoted
  | double : Styled s .doubleQuoted
  | literal (hne : s ≠ []) (h : ∀ c ∈ s, isWritten c = true) : Styled s .literal

/-- **A style is chosen** for which the text can be read back. -/
theorem styled (s : List Char) : Styled s (style s) := by
  unfold style
  split
  · next hfeed =>
      split
      · next hliteral =>
          have hne : s ≠ [] := by
            rintro rfl
            cases hfeed
          refine .literal hne fun c hc => ?_
          simp only [allowsLiteral, needsEscapes, Bool.and_eq_true, Bool.not_eq_true', Bool.or_eq_false_iff]
            at hliteral
          exact isShown_of_not_special hliteral.2.2 hc
      · exact .double
  · next hfeed =>
      split
      · next hreads =>
          simp only [readsAsText, Bool.and_eq_true, beq_iff_eq] at hreads
          split
          · next hplain =>
              refine .plain ?_ hplain hreads.1.1
              rintro rfl
              cases hreads.1.1
          · split
            · next hsingle => exact .single hsingle (by simpa using hfeed)
            · exact .double
      · exact .double

theorem isWritten_of_allowsPlain {s : List Char} (h : allowsPlain s = true) {c : Char} (hc : c ∈ s) :
    isWritten c = true :=
  isShown_of_not_special (allowsPlain_spec h).2.2.2.1 hc

theorem ended_plain {s : List Char} (hne : s ≠ []) (h : allowsPlain s = true) : ended s = s ++ ['\n'] := by
  obtain ⟨t, c, rfl⟩ := (List.eq_nil_or_concat s).resolve_left hne
  rw [List.concat_eq_append] at *
  exact ended_of_inline ((allowsPlain_spec h).2.1 c (by simp))

section

variable {parent indent : Nat} {s : List Char}

/-- A text is written with characters that can be, in any style. -/
theorem isWritten_text {c : Char} (hc : c ∈ ended (text indent s)) : isWritten c = true := by
  have hstyled := styled s
  unfold text at hc
  have feed : ∀ {t : List Char}, (∀ x ∈ t, isWritten x = true) → c ∈ ended t → isWritten c = true := by
    intro t ht hc
    rw [ended] at hc
    split at hc
    · exact ht c hc
    · rcases List.mem_append.1 hc with hc | hc
      · exact ht c hc
      · rw [List.mem_singleton.1 hc]
        decide
  generalize style s = style at hstyled hc
  cases hstyled with
  | plain hne h _ => exact feed (fun x hx => isWritten_of_allowsPlain h hx) hc
  | single h hfeed =>
      obtain ⟨-, -, hspecial, -⟩ := allowsSingle_spec h
      exact feed (fun x hx => isWritten_singleQuoted (fun y hy => isShown_of_not_special hspecial hy) hx) hc
  | double => exact feed (fun x hx => isWritten_doubleQuoted hx) hc
  | literal hne h => exact isWritten_literal h (ended_literal indent hne ▸ hc)

/-- **A text is read as its content.** -/
theorem text_written (hindent : parent < indent) (hhint : hinted s = true → indent = parent + 4) :
    Leaf.Written parent ⟨ended (text indent s), textContent s⟩ := by
  have hstyled := styled s
  have hchars : ∀ c ∈ ended (text indent s), isWritten c = true := fun c hc => isWritten_text hc
  unfold text at hchars ⊢
  unfold textContent
  generalize style s = style at hstyled hchars
  cases hstyled with
  | plain hne h _ =>
      refine Leaf.written_of_reads ?_ hchars
      rw [ended_plain hne h]
      exact reads_plain hne h
  | single h hfeed =>
      refine Leaf.written_of_reads ?_ hchars
      have hended : ended (singleQuoted indent s) = singleQuoted indent s ++ ['\n'] := ended_of_inline rfl
      simp only [hended]
      exact reads_single (Nat.zero_lt_of_lt hindent) h hfeed
  | double =>
      refine Leaf.written_of_reads ?_ hchars
      have hended : ended (doubleQuoted s) = doubleQuoted s ++ ['\n'] := ended_of_inline rfl
      simp only [hended]
      exact reads_double s
  | literal hne h =>
      simp only [beq_self_eq_true, if_true, beq_iff_eq, ended_literal indent hne] at hchars ⊢
      by_cases htab : s.head? = some '\t'
      · rw [if_pos htab]
        refine ⟨fun c hc => (nomatch hc), fun _ s' outer found rest h hcolumn hrest => ?_, hchars⟩
        exact fault_literal htab h hcolumn (hrest.trans (by rw [List.append_assoc]))
      · rw [if_neg htab]
        exact Leaf.written_of_reads (reads_literal hindent hne hhint h htab) hchars

end

/-! ### Data -/

/-- The letters of data, in lines if they do not fit on one. -/
def lettersOf (v : Bytes) : List Char :=
  if (Base64.encode v).length < 70 then Base64.encode v
  else inLines (Base64.encode v).length (Base64.encode v)

/-- A letter of bytes in lines. -/
def isLetter (c : Char) : Bool :=
  c == '\n' || Base64.isDigit c

theorem isLetter_inLines {s : List Char} (h : ∀ c ∈ s, isLetter c = true) (fuel : Nat) :
    ∀ c ∈ inLines fuel s, isLetter c = true := by
  induction fuel generalizing s with
  | zero => exact h
  | succ fuel ih =>
      intro c hc
      rw [inLines] at hc
      split at hc
      · cases hc
      · rcases List.mem_append.1 hc with hc | hc
        · exact h c (List.mem_of_mem_take hc)
        · rcases List.mem_cons.1 hc with rfl | hc
          · decide
          · exact ih (fun x hx => h x (List.mem_of_mem_drop hx)) c hc

theorem isLetter_lettersOf (v : Bytes) : ∀ c ∈ lettersOf v, isLetter c = true := by
  have hencode : ∀ c ∈ Base64.encode v, isLetter c = true := fun c hc => by
    rw [isLetter, Base64.isDigit_encode v c hc, Bool.or_true]
  unfold lettersOf
  split
  · exact hencode
  · exact isLetter_inLines hencode _

theorem head?_lettersOf (v : Bytes) : (lettersOf v).head? = (Base64.encode v).head? := by
  unfold lettersOf
  split
  · rfl
  · next hlong =>
      obtain ⟨c, s, hs⟩ := List.exists_cons_of_ne_nil (l := Base64.encode v) (by
        rintro h
        rw [h] at hlong
        exact hlong (by decide))
      rw [hs]
      rfl

/-- Bytes are read back from their letters. -/
theorem decode?_lettersOf (v : Bytes) : Base64.decode? (lettersOf v) = some v := by
  unfold lettersOf
  split
  · exact Base64.decode?_encode v
  · exact Base64.decode?_inLines v _

/-- A digit of base 64 means nothing else in a file. -/
theorem digit_spec {c : Char} (h : Base64.isDigit c = true) :
    isWritten c = true ∧ isSpace c = false ∧ endsLine c = false ∧ c ≠ '\t' ∧ c ≠ '#' ∧ c ≠ ':' ∧ c ≠ '-' ∧ c ≠ '.' ∧
      c ≠ '?' ∧ "#,[]\x7b\x7d&*!|>'\"%@\x60".toList.contains c = false := by
  have hall : ∀ c ∈ '=' :: Base64.alphabet, isWritten c = true ∧ isSpace c = false ∧ endsLine c = false ∧ c ≠ '\t' ∧
      c ≠ '#' ∧ c ≠ ':' ∧ c ≠ '-' ∧ c ≠ '.' ∧ c ≠ '?' ∧
      "#,[]\x7b\x7d&*!|>'\"%@\x60".toList.contains c = false := List.all_iff_forall_prop.1 (by decide)
  exact hall c (by simpa [Base64.isDigit] using h)

/-- Letters can be written plainly. -/
theorem allowsPlain_digits {s : List Char} (hne : s ≠ []) (h : ∀ c ∈ s, Base64.isDigit c = true) :
    allowsPlain s = true := by
  have hedge : edgeIs isSpace s = false := by
    rw [edgeIs, Bool.or_eq_false_iff]
    constructor
    · cases hs : s.head? with
      | none => rfl
      | some c => exact (digit_spec (h c (List.mem_of_head? hs))).2.1
    · cases hs : s.getLast? with
      | none => rfl
      | some c => exact (digit_spec (h c (List.mem_of_getLast? hs))).2.1
  have hends : s.any endsLine = false := List.any_eq_false.2 fun c hc => by
    simp [(digit_spec (h c hc)).2.2.1]
  have htab : s.contains '\t' = false := by
    rw [List.contains_eq_mem, decide_eq_false_iff_not]
    exact fun hc => (digit_spec (h _ hc)).2.2.2.1 rfl
  have hspecial : hasSpecial s = false := List.any_eq_false.2 fun c hc => by
    have := (digit_spec (h c hc)).1
    simp only [isWritten, Bool.or_eq_true, beq_iff_eq] at this
    simpa [Classical.or_iff_not_imp_left] using this
  have hcuts : cutsPlain s = false := by
    obtain ⟨c, s, rfl⟩ := List.exists_cons_of_ne_nil hne
    obtain ⟨-, -, -, -, -, hcolon, hdash, hdot, hquestion, hmarks⟩ := digit_spec (h c List.mem_cons_self)
    have hlater : ∀ afterBlank, cutsLater afterBlank s = false := cutsLater_of_no_mark fun x hx => by
      obtain ⟨-, -, -, -, hhash, hcolon, -⟩ := digit_spec (h x (List.mem_cons_of_mem c hx))
      exact ⟨hcolon, hhash⟩
    have hdashes : ['-', '-', '-'].isPrefixOf (c :: s) = false := by
      rw [List.isPrefixOf, beq_eq_false_iff_ne.2 hdash.symm, Bool.false_and]
    have hdots : ['.', '.', '.'].isPrefixOf (c :: s) = false := by
      rw [List.isPrefixOf, beq_eq_false_iff_ne.2 hdot.symm, Bool.false_and]
    simp only [cutsPlain, hdashes, hdots, hmarks, beq_eq_false_iff_ne.2 hquestion, beq_eq_false_iff_ne.2 hcolon,
      beq_eq_false_iff_ne.2 hdash, hlater, Bool.or_self, Bool.false_and]
  rw [allowsPlain, hedge, hends, htab, hspecial, hcuts]
  rfl

theorem isDigit_lettersOf {v : Bytes} (h : (lettersOf v).contains '\n' = false) :
    ∀ c ∈ lettersOf v, Base64.isDigit c = true := by
  intro c hc
  have hletter := isLetter_lettersOf v c hc
  rw [isLetter, Bool.or_eq_true, beq_iff_eq] at hletter
  refine hletter.resolve_left ?_
  rintro rfl
  rw [List.contains_iff_mem.2 hc] at h
  cases h

theorem isWritten_lettersOf {v : Bytes} {c : Char} (h : c ∈ lettersOf v) : isWritten c = true := by
  have hletter := isLetter_lettersOf v c h
  rw [isLetter, Bool.or_eq_true, beq_iff_eq] at hletter
  rcases hletter with rfl | hdigit
  · decide
  · exact (digit_spec hdigit).1

/-- Data that is no text begins with a digit. -/
theorem exists_digit {v : Bytes} (h : Utf8.isValid v = false) :
    ∃ c s, lettersOf v = c :: s ∧ Base64.isDigit c = true := by
  have hhead : ∃ c ∈ (Base64.encode v).head?, Base64.isDigit c = true := by
    match v with
    | [] => cases h
    | [a] | [a, b] | a :: b :: c :: v => exact ⟨_, rfl, Base64.isDigit_letter _⟩
  obtain ⟨c, hc, hdigit⟩ := hhead
  rw [← head?_lettersOf] at hc
  obtain ⟨s, hs⟩ := List.head?_eq_some_iff.1 hc
  exact ⟨c, s, hs, hdigit⟩

/-- What is read where a byte string stands. -/
def bytesContent (v : Bytes) : Option Content :=
  if Utf8.isValid v then textContent (Utf8.codePoints v)
  else some {
    binary := true
    style := if (lettersOf v).contains '\n' then .literal else .plain
    text := lettersOf v }

/-- A byte string as it stands in a file. -/
def leafOf (indent : Nat) (v : Bytes) : Leaf :=
  ⟨ended (bytes indent v), bytesContent v⟩

/-- The line of data that is no text. -/
theorem line_of_data (indent : Nat) {v : Bytes} (h : Utf8.isValid v = false) :
    (leafOf indent v).line = "!!binary ".toList ++ if (lettersOf v).contains '\n' then
      literal indent (lettersOf v) ++ lastFeed (lettersOf v) else lettersOf v ++ ['\n'] := by
  obtain ⟨c, s, hs, -⟩ := exists_digit h
  have hne : lettersOf v ≠ [] := by simp [hs]
  have hline : bytes indent v = "!!binary ".toList ++ if (lettersOf v).contains '\n' then
      literal indent (lettersOf v) else lettersOf v := by
    simp only [bytes, h, Bool.false_eq_true, if_false]
    rfl
  rw [leafOf, hline, ended_append, apply_ite ended, ended_literal indent hne]
  · split
    · rfl
    · next hfeed =>
        rw [Bool.not_eq_true] at hfeed
        rw [ended_plain hne (allowsPlain_digits hne (isDigit_lettersOf hfeed))]
  · split
    · obtain ⟨rest, hrest⟩ := exists_literal indent (lettersOf v)
      simp [hrest]
    · exact hne

/-- The line of a leaf can be written. -/
theorem isWritten_leafOf {indent : Nat} {v : Bytes} {c : Char} (h : c ∈ (leafOf indent v).line) :
    isWritten c = true := by
  cases hvalid : Utf8.isValid v with
  | true =>
      simp only [leafOf, bytes, hvalid, if_true] at h
      exact isWritten_text h
  | false =>
      rw [line_of_data indent hvalid] at h
      rcases List.mem_append.1 h with h | h
      · have hall : ∀ x ∈ "!!binary ".toList, isWritten x = true := List.all_iff_forall_prop.1 (by decide)
        exact hall c h
      · split at h
        · exact isWritten_literal (fun x hx => isWritten_lettersOf hx) h
        · rcases List.mem_append.1 h with h | h
          · exact isWritten_lettersOf h
          · rw [List.mem_singleton.1 h]
            decide

/-- **A byte string is read as its content.**  A hint at the indentation says that it is four. -/
theorem leafOf_written {parent indent : Nat} (hindent : parent < indent) {v : Bytes}
    (hhint : Utf8.isValid v = true → hinted (Utf8.codePoints v) = true → indent = parent + 4) :
    (leafOf indent v).Written parent := by
  cases hvalid : Utf8.isValid v with
  | true =>
      have := text_written hindent (hhint hvalid)
      simpa only [leafOf, bytes, bytesContent, hvalid, if_true] using this
  | false =>
      obtain ⟨d, s, hs, hdigit⟩ := exists_digit hvalid
      obtain ⟨-, hspace, hends, htab, -⟩ := digit_spec hdigit
      have hne : lettersOf v ≠ [] := by simp [hs]
      refine ⟨fun c hc => ?_, fun hnone => ?_, fun c hc => isWritten_leafOf hc⟩
      · rw [line_of_data indent hvalid]
        simp only [leafOf, bytesContent, hvalid, Bool.false_eq_true, if_false, Option.some.injEq] at hc
        subst hc
        refine ReadsAs.tagged ?_
        split
        · have hread : readLiteral (lettersOf v) = lettersOf v := by simp [readLiteral, hs, hends]
          have := reads_literal hindent hne (by simp [hinted, hs, hspace, hends])
            (fun c hc => isWritten_lettersOf hc) (by simpa [hs] using htab)
          rwa [hread] at this
        · next hfeed =>
            rw [Bool.not_eq_true] at hfeed
            exact reads_plain hne (allowsPlain_digits hne (isDigit_lettersOf hfeed))
      · simp [leafOf, bytesContent, hvalid] at hnone

/-! ### Reading back -/

/-- A byte string as it is read back: text in literal style loses a line end at its start. -/
def readBack (v : Bytes) : Bytes :=
  if Utf8.isValid v && style (Utf8.codePoints v) == .literal then
    Utf8.encode (readLiteral (Utf8.codePoints v))
  else v

/-- A scalar with the tag for bytes is read as its bytes. -/
theorem text_binary {line : Nat} {style : ScalarStyle} {s : List Char} {v : Bytes} (h : Base64.decode? s = some v)
    (issues : List Issue) :
    (Decoding.text (.scalar line (some "!!binary".toList) style s)).run issues = some (some v, issues) := by
  simp only [Decoding.text, Decoding.target, pure_bind, beq_self_eq_true, if_true, h]
  rfl

/-- A scalar that means a text is read as it. -/
theorem text_scalar {line : Nat} {style : ScalarStyle} {s : List Char} (h : scalarMeaning? none style s = some .text)
    (issues : List Issue) :
    (Decoding.text (.scalar line none style s)).run issues = some (some (Utf8.encode s), issues) := by
  simp only [Decoding.text, Decoding.target, pure_bind, Decoding.scalar, h]
  rfl

/-- Text in any style means a text. -/
theorem means_text (s : List Char) : scalarMeaning? none (style s) s = some .text := by
  have hstyled := styled s
  generalize style s = style at hstyled
  cases hstyled with
  | plain hne h hmeans => simp [scalarMeaning?, hmeans]
  | single | double | literal => rfl

/-- **The content of a byte string** is the byte string that is read back. -/
theorem text_of_shows {indent : Nat} {v : Bytes} {n : Node} (h : (leafOf indent v).Shows n) (issues : List Issue) :
    (Decoding.text n).run issues = some (some (readBack v), issues) := by
  obtain ⟨c, line, hc, rfl⟩ := h
  simp only [leafOf, bytesContent] at hc
  cases hvalid : Utf8.isValid v with
  | false =>
      simp only [hvalid, Bool.false_eq_true, if_false, Option.some.injEq] at hc
      subst hc
      simp only [readBack, hvalid, Bool.false_and, Bool.false_eq_true, if_false]
      exact text_binary (decode?_lettersOf v) issues
  | true =>
      simp only [hvalid, if_true, textContent] at hc
      by_cases hstyle : style (Utf8.codePoints v) = .literal
      · simp only [hstyle, beq_self_eq_true, if_true, beq_iff_eq] at hc
        split at hc
        · cases hc
        · obtain rfl := Option.some.inj hc
          simp only [readBack, hvalid, hstyle, beq_self_eq_true, Bool.and_self, if_true]
          exact text_scalar rfl issues
      · simp only [beq_eq_false_iff_ne.2 hstyle, Bool.false_eq_true, if_false, Option.some.injEq] at hc
        subst hc
        simp only [readBack, beq_eq_false_iff_ne.2 hstyle, Bool.and_false, Bool.false_eq_true, if_false]
        have hread : (Decoding.text (.scalar line none _ _)).run issues = _ :=
          text_scalar (means_text (Utf8.codePoints v)) issues
        rwa [Utf8.encode_codePoints hvalid] at hread

/-- Text in literal style whose first character is lost, or keeps it from being read. -/
def losesStart (v : Bytes) : Bool :=
  Utf8.isValid v && style (Utf8.codePoints v) == .literal &&
    (Utf8.codePoints v).head?.any fun c => c == '\t' || endsLine c

/-- What a literal has to begin with to lose nothing. -/
theorem losesStart_eq_false {v : Bytes} (h : losesStart v = false) (hvalid : Utf8.isValid v = true)
    (hstyle : style (Utf8.codePoints v) = .literal) :
    ∀ c ∈ (Utf8.codePoints v).head?, c ≠ '\t' ∧ endsLine c = false := by
  intro c hc
  rw [losesStart, hvalid, hstyle, Option.mem_def.1 hc] at h
  simpa using h

/-- What loses nothing can be read. -/
theorem bytesContent_ne_none {v : Bytes} (h : losesStart v = false) : bytesContent v ≠ none := by
  unfold bytesContent textContent
  split
  · next hvalid =>
      split
      · next hstyle =>
          rw [if_neg]
          · simp
          · rw [beq_iff_eq]
            exact fun htab => (losesStart_eq_false h hvalid (by simpa using hstyle) '\t' htab).1 rfl
      · simp
  · simp

/-- **A byte string that keeps its start is read back as it is.** -/
theorem readBack_eq {v : Bytes} (h : losesStart v = false) : readBack v = v := by
  unfold readBack
  split
  · next hliteral =>
      simp only [Bool.and_eq_true, beq_iff_eq] at hliteral
      have hread : readLiteral (Utf8.codePoints v) = Utf8.codePoints v := by
        rw [readLiteral, if_neg]
        cases hhead : (Utf8.codePoints v).head? with
        | none => simp
        | some c => simp [(losesStart_eq_false h hliteral.1 hliteral.2 c hhead).2]
      rw [hread, Utf8.encode_codePoints hliteral.1]
  · rfl

theorem length_encodeChar_pos (c : Char) : 0 < (Utf8.encodeChar c).length :=
  List.length_pos_iff.2 (Utf8.encodeChar_ne_nil c)

/-- **One that does not is shorter**, if it is read at all. -/
theorem length_readBack_lt {v : Bytes} (h : losesStart v = true) (hread : bytesContent v ≠ none) :
    (readBack v).length < v.length := by
  simp only [losesStart, Bool.and_eq_true, beq_iff_eq, Option.any_eq_true] at h
  obtain ⟨⟨hvalid, hstyle⟩, c, hhead, hc⟩ := h
  obtain ⟨s, hs⟩ := List.head?_eq_some_iff.1 hhead
  have hends : endsLine c = true := by
    refine (Bool.or_eq_true _ _ ▸ hc).resolve_left fun htab => hread ?_
    rw [beq_iff_eq] at htab
    simp [bytesContent, textContent, hvalid, hstyle, hhead, htab]
  have hread : readBack v = Utf8.encode s := by
    rw [readBack, hvalid, hstyle]
    simp [readLiteral, hs, hends]
  have hv : v = Utf8.encodeChar c ++ Utf8.encode s := by
    rw [← Utf8.encode_codePoints hvalid, hs]
    rfl
  have hpos := length_encodeChar_pos c
  rw [hread, hv, List.length_append]
  omega

end Restyle.Yaml
