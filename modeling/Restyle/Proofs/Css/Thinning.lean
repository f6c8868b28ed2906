import Restyle.Proofs.Css.Lexeme

/-!
# Thinned lists of lexemes

`Thins` relates a list of lexemes to what is left of it when comments go, white space goes beside
marks, semicolons go before closing braces, and strings and urls get other contents.  White space
between two words stays, so a list that fits still does (`Thins.fits`).
-/

namespace Restyle.Css

namespace Lexeme

/-- Equal, or two strings or urls of one form. -/
inductive Alike : Lexeme → Lexeme → Prop where
  | refl (m : Lexeme) : Alike m m
  | quoted (q : Char) (w v : List Char) : Alike (quoted q w) (quoted q v)
  | url (name : List Char) (q : Option Char) (w v : List Char) : Alike (url name q w) (url name q v)

/-- Whether white space may go behind a lexeme, when `open_` says so of what stands before it: no word
stands there. -/
def frees (open_ : Bool) : Lexeme → Bool
  | note _ => open_
  | word _ => false
  | _ => true

/-- What is left of a list; `open_` says that white space at its start may go. -/
inductive Thins : Bool → List Lexeme → List Lexeme → Prop where
  | nil (open_ : Bool) : Thins open_ [] []
  | keep {open_ : Bool} {m l : Lexeme} {ms ls : List Lexeme} (alike : m.Alike l) (sound : l.Sound)
      (rest : Thins (m.frees open_) ms ls) : Thins open_ (m :: ms) (l :: ls)
  | note {open_ : Bool} {ms ls : List Lexeme} (w : List Char) (rest : Thins open_ ms ls) :
      Thins open_ (note w :: ms) ls
  | gap {open_ : Bool} {ms ls : List Lexeme} (w : List Char)
      (free : open_ = true ∨ ∃ c, ls.head? = some (mark c)) (rest : Thins open_ ms ls) :
      Thins open_ (gap w :: ms) ls
  | semicolon {open_ : Bool} {ms ls : List Lexeme} (brace : ls.head? = some (mark '}'))
      (rest : Thins open_ ms ls) : Thins open_ (mark ';' :: ms) ls

namespace Alike

variable {m l : Lexeme}

theorem isNote_eq (h : m.Alike l) : l.isNote = m.isNote := by
  cases h <;> rfl

theorem isSpacing_eq (h : m.Alike l) : l.isSpacing = m.isSpacing := by
  cases h <;> rfl

/-- Only a mark is like a mark. -/
theorem eq_mark {c : Char} (h : m.Alike (mark c)) : m = mark c := by
  cases h
  rfl

end Alike

namespace Thins

variable {open_ : Bool} {ms ls : List Lexeme}

/-- What is left is sound. -/
theorem sound (h : Thins open_ ms ls) : ∀ l ∈ ls, l.Sound := by
  induction h with
  | nil => exact List.forall_mem_nil _
  | keep _ hs _ ih => exact List.forall_mem_cons.2 ⟨hs, ih⟩
  | note _ _ ih => exact ih
  | gap _ _ _ ih => exact ih
  | semicolon _ _ ih => exact ih

/-- No comment is added. -/
theorem isNote_eq (h : Thins open_ ms ls) (hms : ∀ m ∈ ms, m.isNote = false) :
    ∀ l ∈ ls, l.isNote = false := by
  induction h with
  | nil => exact List.forall_mem_nil _
  | keep ha _ _ ih =>
      rw [List.forall_mem_cons] at hms ⊢
      exact ⟨ha.isNote_eq.trans hms.1, ih hms.2⟩
  | note _ _ ih => exact ih (List.forall_mem_cons.1 hms).2
  | gap _ _ _ ih => exact ih (List.forall_mem_cons.1 hms).2
  | semicolon _ _ ih => exact ih (List.forall_mem_cons.1 hms).2

/-- A parenthesis stays where it is. -/
theorem head?_paren (h : Thins open_ ms ls) (hms : ms.head? = some (mark '(')) :
    ls.head? = some (mark '(') := by
  cases h with
  | nil => cases hms
  | keep ha _ _ =>
      cases hms
      cases ha
      rfl
  | note => cases hms
  | gap => cases hms
  | semicolon => simp at hms

/-- A parenthesis that comes next came next before. -/
theorem ahead_paren (h : Thins open_ ms ls) (hls : ahead ls = some (mark '(')) :
    ahead ms = some (mark '(') := by
  induction h with
  | nil => exact hls
  | keep ha _ _ ih =>
      rw [ahead, List.find?_cons] at hls ⊢
      rw [ha.isSpacing_eq] at hls
      split at hls
      · cases hls
        exact congrArg some ha.eq_mark
      · exact ih hls
  | note _ _ ih => exact ih hls
  | gap _ _ _ ih => exact ih hls
  | semicolon hb _ _ =>
      obtain ⟨ls, rfl⟩ := List.head?_eq_some_iff.1 hb
      simp [ahead, isSpacing] at hls

/-- What follows a word, if it is no mark, followed it before. -/
theorem exists_follower (h : Thins false ms ls) {l : Lexeme} (hl : follower ls = some l)
    (hmark : ∀ c, l ≠ mark c) : ∃ m, follower ms = some m ∧ m.Alike l := by
  generalize hopen : false = open_ at h
  induction h with
  | nil => cases hl
  | @keep _ m _ _ _ ha _ _ ih =>
      subst hopen
      rw [follower, List.find?_cons, ha.isNote_eq] at hl
      rw [follower, List.find?_cons]
      split at hl
      · next hn =>
          cases hl
          exact ⟨m, rfl, ha⟩
      · next hn =>
          -- a comment leaves open what was open
          cases m with
          | note w => exact ih hl rfl
          | _ => cases hn
  | note _ _ ih => exact ih hl hopen
  | gap _ hfree _ _ =>
      subst hopen
      rcases hfree with hfree | ⟨c, hc⟩
      · cases hfree
      · obtain ⟨ls, rfl⟩ := List.head?_eq_some_iff.1 hc
        cases hl
        exact absurd rfl (hmark c)
  | semicolon hb _ _ =>
      obtain ⟨ls, rfl⟩ := List.head?_eq_some_iff.1 hb
      cases hl
      exact absurd rfl (hmark '}')

/-- A word still meets what follows it. -/
theorem meets {u : List Char} (h : Thins false ms ls) (hu : meets u ms = true) :
    meets u ls = true := by
  rw [Lexeme.meets, Bool.and_eq_true] at hu ⊢
  refine ⟨?_, ?_⟩
  · cases hf : follower ls with
    | none => rfl
    | some l =>
        cases l with
        | mark c => rfl
        | note w => rfl
        | quoted q w => rfl
        | _ =>
            obtain ⟨m, hm, ha⟩ := h.exists_follower hf fun _ hmark => by cases hmark
            rw [hm] at hu
            cases ha <;> exact hu.1
  · rw [Bool.or_eq_true, bne_iff_ne] at hu ⊢
    exact hu.2.imp_left fun hne hls => hne (h.ahead_paren hls)

/-- **A thinned list fits.** -/
theorem fits (h : Thins open_ ms ls) (hms : fits ms = true) : fits ls = true := by
  induction h with
  | nil => rfl
  | @keep _ m _ _ _ ha _ hrest ih =>
      cases m with
      | word u =>
          rw [Lexeme.fits, Bool.and_eq_true] at hms
          cases ha
          rw [Lexeme.fits, Bool.and_eq_true]
          exact ⟨hrest.meets hms.1, ih hms.2⟩
      | _ => cases ha <;> exact ih hms
  | note _ _ ih => exact ih hms
  | gap _ _ _ ih => exact ih hms
  | semicolon _ _ ih => exact ih hms

/-- **No name comes to begin a declaration as a function.** -/
theorem calls {fresh : Bool} (h : Thins open_ ms ls) (hms : calls fresh ms = true) :
    calls fresh ls = true := by
  induction h generalizing fresh with
  | nil => rfl
  | @keep _ m _ _ _ ha _ hrest ih =>
      cases m with
      | word u =>
          cases ha
          rw [Lexeme.calls, Bool.and_eq_true] at hms ⊢
          refine ⟨?_, ih hms.2⟩
          have h₁ := hms.1
          simp only [Bool.or_eq_true, beq_iff_eq, bne_iff_ne, ne_eq] at h₁ ⊢
          rcases h₁ with ((h₁ | h₁) | h₁) | h₁
          · exact .inl (.inl (.inl h₁))
          · exact .inl (.inl (.inr (hrest.head?_paren h₁)))
          · exact .inl (.inr fun hls => h₁ (hrest.ahead_paren hls))
          · exact .inr h₁
      | _ => cases ha <;> exact ih hms
  | note _ _ ih => exact ih hms
  | gap _ _ _ ih => exact ih hms
  | semicolon hb _ ih =>
      obtain ⟨ls, rfl⟩ := List.head?_eq_some_iff.1 hb
      exact @ih true hms

end Thins

end Lexeme

end Restyle.Css
