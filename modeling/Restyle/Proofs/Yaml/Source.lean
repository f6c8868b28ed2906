import Mathlib.Data.Bool.AllAny
import Restyle.Proofs.Text.Utf8
import Restyle.Yaml.Printer

/-!
# Positions in a text, and texts as streams

Where a cursor stands depends only on the characters it has passed (`Pos.along`).  What the printer writes
as it is can stand in a stream (`source?_encode`).
-/

namespace Restyle.Yaml

/-! ### Positions -/

/-- The position behind a text. -/
def Pos.along (p : Pos) (s : List Char) : Pos :=
  s.foldl Pos.next p

namespace Pos

variable {p : Pos} {s t : List Char}

@[simp] theorem along_nil : p.along [] = p := rfl

@[simp] theorem along_cons (c : Char) : p.along (c :: s) = (p.next c).along s := rfl

@[simp] theorem along_append : p.along (s ++ t) = (p.along s).along t :=
  List.foldl_append

/-- A character that breaks no line takes one column. -/
theorem next_of_not_break {c : Char} (h : isBreak c = false) :
    p.next c = ⟨p.index + 1, p.line, p.column + 1⟩ := by
  simp [next, h]

/-- A line takes as many columns as it has characters. -/
theorem along_of_no_break (h : ∀ c ∈ s, isBreak c = false) :
    p.along s = ⟨p.index + s.length, p.line, p.column + s.length⟩ := by
  induction s generalizing p with
  | nil => rfl
  | cons c s ih =>
      rw [along_cons, ih fun x hx => h x (List.mem_cons_of_mem c hx),
        next_of_not_break (h c List.mem_cons_self), List.length_cons]
      simp only [Nat.add_assoc, Nat.add_comm 1]

/-- Behind a break the first column is next. -/
theorem column_next_break {c : Char} (h : isBreak c = true) : (p.next c).column = 0 := by
  simp [next, h]

end Pos

/-- So many spaces. -/
def spaces (n : Nat) : List Char :=
  List.replicate n ' '

@[simp] theorem length_spaces (n : Nat) : (spaces n).length = n :=
  List.length_replicate

theorem eq_space_of_mem {n : Nat} {c : Char} (h : c ∈ spaces n) : c = ' ' :=
  List.eq_of_mem_replicate h

@[simp] theorem column_along_spaces (p : Pos) (n : Nat) : (p.along (spaces n)).column = p.column + n := by
  have hspaces : ∀ c ∈ spaces n, isBreak c = false := by
    intro c hc
    rw [eq_space_of_mem hc]
    decide
  rw [Pos.along_of_no_break hspaces, length_spaces]

namespace Cursor

variable {f : Char → Bool} {p : Pos} {s r : List Char}

@[simp] theorem skip_zero (k : Cursor) : k.skip 0 = k := rfl

@[simp] theorem skip_succ (n : Nat) (c : Char) : skip (n + 1) ⟨p, c :: s⟩ = skip n ⟨p.next c, s⟩ := by
  rw [skip]

/-- What is skipped by its length is skipped as a whole. -/
theorem skip_append : skip s.length ⟨p, s ++ r⟩ = ⟨p.along s, r⟩ := by
  induction s generalizing p with
  | nil => exact skip_zero _
  | cons c s ih => exact ih

/-- The text goes on with no character of the class. -/
def StopsAt (f : Char → Bool) (r : List Char) : Prop :=
  ∀ c ∈ r.head?, f c = false

/-- Characters of a class are skipped up to one that is not. -/
theorem skipWhile_append (hs : ∀ c ∈ s, f c = true) (hr : StopsAt f r) :
    skipWhile f ⟨p, s ++ r⟩ = ⟨p.along s, r⟩ := by
  change skipWhileFrom f p (s ++ r) = _
  induction s generalizing p with
  | nil =>
      cases r with
      | nil => rfl
      | cons c r => rw [List.nil_append, skipWhileFrom, hr c rfl]; rfl
  | cons c s ih =>
      rw [List.cons_append, skipWhileFrom, hs c List.mem_cons_self]
      exact ih fun x hx => hs x (List.mem_cons_of_mem c hx)

theorem takeWhile_stops (hs : ∀ c ∈ s, f c = true) (hr : StopsAt f r) : (s ++ r).takeWhile f = s := by
  rw [List.takeWhile_append_of_pos hs]
  cases r with
  | nil => simp
  | cons c r => simp [hr c rfl]

/-- Characters of a class are taken up to one that is not. -/
theorem takeWhile_append (hs : ∀ c ∈ s, f c = true) (hr : StopsAt f r) :
    takeWhile f ⟨p, s ++ r⟩ = (s, ⟨p.along s, r⟩) := by
  rw [takeWhile, skipWhile_append hs hr, takeWhile_stops hs hr]

end Cursor

/-- A line goes on with neither white space nor a comment. -/
def isRest (c : Char) : Bool :=
  !(isGap c || isBreak c || c == '#' || c == '\ufeff')

/-- What follows the indentation of the next line. -/
def Rests (body : List Char) : Prop :=
  ∀ c ∈ body.head?, isRest c = true

/-- What a character that rests is not. -/
theorem isRest_spec {c : Char} (h : isRest c = true) :
    isGap c = false ∧ isBreak c = false ∧ c ≠ '#' ∧ c ≠ '\ufeff' := by
  simpa [isRest, and_assoc] using h

theorem Rests.cons {c : Char} {rest : List Char} (h : isRest c = true) : Rests (c :: rest) := by
  intro x hx
  obtain rfl := Option.some.inj hx
  exact h

theorem isBreak_eq_false {c : Char} (h : Printer.endsLine c = false) : isBreak c = false := by
  simp only [Printer.endsLine, Bool.or_eq_false_iff] at h
  exact h.1.1

/-! ### Folding -/

namespace Folding

variable {f : Folding}

theorem addGap_of_none (h : f.breaks = none) (c : Char) : f.addGap c = { f with gaps := c :: f.gaps } := by
  simp [addGap, h]

/-- Without break, blanks are kept. -/
theorem joined_of_none (h : f.breaks = none) : f.joined = f.gaps ++ f.text := by
  simp [joined, h]

end Folding

/-! ### Streams -/

/-- A character that is written as it is. -/
def isWritten (c : Char) : Bool :=
  c == '\t' || Printer.isShown c

/-- What a character that can be written is not. -/
theorem isWritten_spec {c : Char} (h : isWritten c = true) :
    isAllowed c = true ∧ c ≠ '\r' ∧ c ≠ '\u0085' := by
  refine ⟨?_, ?_, ?_⟩
  · simp only [isWritten, Printer.isShown, isAllowed, Bool.or_eq_true, Bool.and_eq_true, beq_iff_eq,
      decide_eq_true_eq, bne_iff_ne] at h ⊢
    rcases h with rfl | h
    · decide
    · omega
  all_goals
    rintro rfl
    revert h
    decide

/-- Written text has no line ends of other kinds. -/
theorem unifyBreaks_of_written {s : List Char} (h : ∀ c ∈ s, isWritten c = true) : unifyBreaks s = s := by
  induction s with
  | nil => rfl
  | cons c s ih =>
      obtain ⟨-, hr, hn⟩ := isWritten_spec (h c List.mem_cons_self)
      rw [unifyBreaks.eq_2 c s (by rintro s' rfl; exact absurd rfl hr),
        ih fun x hx => h x (List.mem_cons_of_mem c hx)]
      simp [hr, hn]

/-- Text that begins with a low character is read as it is. -/
theorem characters?_encode {c : Char} (hc : c.toNat < 0x80) (s : List Char) :
    characters? (Utf8.encode (c :: s)) = some (c :: s) := by
  have hbyte : Utf8.encode (c :: s) = UInt8.ofNat c.toNat :: Utf8.encode s := by
    simp [Utf8.encode, Utf8.encodeChar, hc]
  have hne : ∀ b : UInt8, 0x80 ≤ b.toNat → UInt8.ofNat c.toNat ≠ b := by
    rintro _ hb rfl
    rw [Utf8.toNat_byte (by omega)] at hb
    omega
  have hvalid := Utf8.isValid_encode (c :: s)
  have hpoints := Utf8.codePoints_encode (c :: s)
  rw [hbyte] at hvalid hpoints ⊢
  unfold characters?
  split
  · next h => exact absurd (List.cons.inj h).1 (hne _ (by decide))
  · next h => exact absurd (List.cons.inj h).1 (hne _ (by decide))
  · next h => exact absurd (List.cons.inj h).1 (hne _ (by decide))
  · rw [if_pos hvalid, hpoints]

/-- **What is written can be read as a stream.**  It does not begin with a byte order mark. -/
theorem source?_encode {c : Char} (hc : c.toNat < 0x80) {s : List Char}
    (h : ∀ x ∈ c :: s, isWritten x = true) : source? (Utf8.encode (c :: s)) = some (c :: s) := by
  have hallowed : (c :: s).all isAllowed = true :=
    List.all_eq_true.2 fun x hx => (isWritten_spec (h x hx)).1
  rw [source?, characters?_encode hc]
  change (if _ then _ else _) = _
  rw [if_pos hallowed, unifyBreaks_of_written h]

end Restyle.Yaml
