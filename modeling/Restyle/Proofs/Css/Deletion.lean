import Restyle.Proofs.Css.Minify

/-!
# Minification only deletes

What minification leaves of a text without comments is a subsequence of it (`sublist_tidy`).  Apart
from white space, only semicolons go, and of them the runs that stand directly before a closing
brace (`solid_tidy`).  Both are said for each kind of pass first.
-/

namespace Restyle.Css

/-- A text without its white space. -/
def solid (s : List Char) : List Char :=
  s.filter (! isBlank ·)

/-- Drops every run of semicolons that stands directly before a closing brace. -/
def withoutFinal : List Char → List Char
  | [] => []
  | c :: s =>
    if c = ';' ∧ (s.dropWhile (· == ';')).head? = some '}' then withoutFinal s
    else c :: withoutFinal s

/-- A blank is not solid. -/
theorem solid_cons_of_blank {c : Char} (h : isBlank c = true) (s : List Char) :
    solid (c :: s) = solid s :=
  List.filter_cons_of_neg (by simp [h])

theorem solid_cons_of_not_blank {c : Char} (h : isBlank c = false) (s : List Char) :
    solid (c :: s) = c :: solid s :=
  List.filter_cons_of_pos (by simp [h])

/-- What is put before two texts alike does not tell them apart. -/
theorem solid_cons_congr (c : Char) {s t : List Char} (h : solid s = solid t) :
    solid (c :: s) = solid (c :: t) := by
  cases hc : isBlank c with
  | true => rw [solid_cons_of_blank hc, solid_cons_of_blank hc, h]
  | false => rw [solid_cons_of_not_blank hc, solid_cons_of_not_blank hc, h]

/-! ### White space behind a mark -/

/-- Dropping blanks behind a mark only deletes. -/
theorem sublist_dropBlankAfter (mark : Char) (behind : Bool) (s : List Char) :
    (dropBlankAfter mark behind s).Sublist s := by
  induction s generalizing behind with
  | nil => exact .slnil
  | cons c s ih =>
      rw [dropBlankAfter]
      split
      · exact (ih true).cons c
      · exact (ih _).cons_cons c

theorem solid_dropBlankAfter (mark : Char) (behind : Bool) (s : List Char) :
    solid (dropBlankAfter mark behind s) = solid s := by
  induction s generalizing behind with
  | nil => rfl
  | cons c s ih =>
      rw [dropBlankAfter]
      split
      · next h =>
          simp only [Bool.and_eq_true] at h
          rw [ih, solid_cons_of_blank h.2]
      · exact solid_cons_congr c (ih _)

/-! ### The gap between a closing parenthesis and an opening brace -/

/-- Joining braces only deletes. -/
theorem sublist_joinOpenAfterClose (inside : Bool) (s : List Char) :
    (joinOpenAfterClose inside s).Sublist s := by
  induction s generalizing inside with
  | nil => exact .slnil
  | cons c s ih =>
      rw [joinOpenAfterClose]
      split
      · exact (ih true).cons c
      · exact (ih _).cons_cons c

theorem solid_joinOpenAfterClose (inside : Bool) (s : List Char) :
    solid (joinOpenAfterClose inside s) = solid s := by
  induction s generalizing inside with
  | nil => rfl
  | cons c s ih =>
      rw [joinOpenAfterClose]
      split
      · next h =>
          simp only [Bool.and_eq_true] at h
          rw [ih, solid_cons_of_blank h.2]
      · exact solid_cons_congr c (ih _)

/-! ### What stands before a mark -/

/-- Dropping what stands before a mark only deletes. -/
theorem sublist_dropBefore (drop : Char → Bool) (mark : Char) (s : List Char) :
    (dropBefore drop mark s).Sublist s := by
  induction s with
  | nil => exact .slnil
  | cons c s ih =>
      rw [dropBefore_cons]
      split
      · exact ih.cons c
      · exact ih.cons_cons c

/-- Nothing solid is deleted if only blanks are dropped. -/
theorem solid_dropBefore (mark : Char) (s : List Char) :
    solid (dropBefore isBlank mark s) = solid s := by
  induction s with
  | nil => rfl
  | cons c s ih =>
      rw [dropBefore_cons]
      split
      · next h =>
          simp only [Bool.and_eq_true] at h
          rw [ih, solid_cons_of_blank h.1]
      · exact solid_cons_congr c ih

/-- Something of the class does not keep a mark from coming to the front. -/
theorem head?_dropBefore_cons_of_drop {drop : Char → Bool} {mark c : Char} (hd : drop c = true)
    (hc : c ≠ mark) (s : List Char) :
    (dropBefore drop mark (c :: s)).head? = some mark ↔ (dropBefore drop mark s).head? = some mark := by
  rw [dropBefore_cons, hd, Bool.true_and]
  split
  · rfl
  · next h =>
      rw [List.head?_cons, Option.some.injEq]
      exact ⟨fun he => absurd he hc, fun he => absurd (beq_iff_eq.2 he) h⟩

/-- The last pass brings a closing brace to the front exactly where only semicolons, and white space,
stand before one. -/
theorem head?_dropBefore_eq_brace_iff (s : List Char) :
    (dropBefore isBlankOrSemicolon '}' s).head? = some '}' ↔
      ((solid s).dropWhile (· == ';')).head? = some '}' := by
  induction s with
  | nil => simp [dropBefore, solid]
  | cons c s ih =>
      cases hb : isBlank c with
      | true =>
          have hc : c ≠ '}' := by rintro rfl; cases hb
          rw [solid_cons_of_blank hb, ← ih,
            head?_dropBefore_cons_of_drop (by simp [isBlankOrSemicolon, hb]) hc]
      | false =>
          rw [solid_cons_of_not_blank hb]
          by_cases hs : c = ';'
          · subst hs
            rw [List.dropWhile_cons_of_pos (by decide), ← ih,
              head?_dropBefore_cons_of_drop (by decide) (by decide)]
          · rw [dropBefore_cons, List.dropWhile_cons_of_neg (by simpa using hs),
              if_neg (by simp [isBlankOrSemicolon, hs, hb]), List.head?_cons, List.head?_cons]

/-- Before a closing brace it deletes the semicolons that end a block. -/
theorem solid_dropBefore_brace (s : List Char) :
    solid (dropBefore isBlankOrSemicolon '}' s) = withoutFinal (solid s) := by
  induction s with
  | nil => rfl
  | cons c s ih =>
      rw [dropBefore_cons]
      simp only [beq_iff_eq, Bool.and_eq_true, head?_dropBefore_eq_brace_iff]
      cases hb : isBlank c with
      | true =>
          rw [solid_cons_of_blank hb, ← ih]
          split
          · rfl
          · exact solid_cons_of_blank hb _
      | false =>
          have hdrop : isBlankOrSemicolon c = true ↔ c = ';' := by simp [isBlankOrSemicolon, hb]
          simp only [solid_cons_of_not_blank hb, withoutFinal, hdrop, ← ih]
          split
          · rfl
          · exact solid_cons_of_not_blank hb _

/-! ### All passes -/

/-- The passes together only delete. -/
theorem sublist_tidy (s : List Char) : (tidy s).Sublist s :=
  (sublist_dropBefore _ _ _).trans <| (sublist_dropBefore _ _ _).trans <|
    (sublist_dropBlankAfter _ _ _).trans <| (sublist_dropBlankAfter _ _ _).trans <|
    (sublist_dropBefore _ _ _).trans <| (sublist_joinOpenAfterClose _ _).trans <|
    (sublist_dropBlankAfter _ _ _).trans <| sublist_dropBlankAfter _ _ _

/-- Of what is solid the passes delete only semicolons that end a block. -/
theorem solid_tidy (s : List Char) : solid (tidy s) = withoutFinal (solid s) := by
  rw [tidy, solid_dropBefore_brace, solid_dropBefore, solid_dropBlankAfter, solid_dropBlankAfter,
    solid_dropBefore, solid_joinOpenAfterClose, solid_dropBlankAfter, solid_dropBlankAfter]

/-- **Minification only deletes, and only what it may.**  Of the document without its comments it
keeps a subsequence: all but white space and the semicolons before a closing brace. -/
theorem minify_apply_deletes (doc : Bytes) :
    (Utf8.codePoints (minify.apply doc)).Sublist (Utf8.codePoints (dropComments.apply doc)) ∧
    solid (Utf8.codePoints (minify.apply doc)) =
      withoutFinal (solid (Utf8.codePoints (dropComments.apply doc))) := by
  simp only [Edit.codePoints_apply, minify_run_eq, run_dropComments]
  exact ⟨sublist_tidy _, solid_tidy _⟩

end Restyle.Css
