import Restyle.Proofs.Css.Grammar
import Restyle.Proofs.Css.Uncommented

/-!
# The structure that minification keeps

Minification knows no tokens.  Yet for a stylesheet written as lexemes that the grammar reads to its
end, the grammar also reads the minified text to its end, and finds in it as many rulesets, at-rules
and declarations (`outline_minify_apply`).

What is left of such a sheet is one again, and a run of the grammar over its tokens is one over those
that are left (`run?_reading_of_thins`).  Gone are white space and comments, which the grammar passes
over; semicolons before closing braces; and names that a parenthesis has come next to, which are now
part of what opens.

Without lexemes this fails: a comment that starts in one string and ends in another takes the rule
between them along (`outline_minify_apply_commentMarks`).
-/

namespace Restyle.Css

open Outline Token

namespace Lexeme

/-! ### Runs over thinned lists -/

/-- A name that has become part of what opens is not missed, unless a declaration begins. -/
theorem run?_withoutName {s s₁ s' : State} {l ts : List Token} (hl : ∀ x ∈ l, isInner x = true)
    (hs : ¬ s.Fresh) (h : s.run? l = some s₁) (hts : s₁.run? (.opening :: ts) = some s') :
    s.run? (withoutName l ++ .opening :: ts) = some s' := by
  unfold withoutName
  split
  · next hlast =>
      obtain ⟨l, rfl⟩ := List.getLast?_eq_some_iff.1 hlast
      rw [State.run?_append, Option.bind_eq_some_iff] at h
      obtain ⟨s₀, h₀, h⟩ := h
      obtain ⟨s₁, hident, h⟩ := State.run?_cons_eq_some.1 h
      cases h
      have hs₀ : ¬ s₀.Fresh := fun hf =>
        hs (State.fresh_of_run? (fun x hx => hl x (List.mem_append_left _ hx)) h₀ hf).2
      rw [State.run?, State.step_ident_opening hs₀ hident] at hts
      rw [List.dropLast_concat, State.run?_append, h₀]
      exact hts
  · rw [State.run?_append, h]
    exact hts

/-- Away from a parenthesis the tokens of a word are its own. -/
theorem wordTokens_of_ne {u : List Char} {ms : List Lexeme} (h : ms.head? ≠ some (mark '(')) :
    wordTokens u ms = lex (view u) :=
  if_neg h

/-- Behind a word a declaration may begin only if the word was made of asterisks. -/
theorem fresh_of_word {u : List Char} (hu : (word u).Sound) {ms : List Lexeme} {s s₁ s' : State}
    (h₁ : s.run? (wordTokens u ms) = some s₁) (hrun : s₁.run? (reading ms) = some s')
    (hf : s₁.Fresh) : (lex (view u)).all (· == .delim '*') = true ∧ s.Fresh := by
  have hapart : ms.head? ≠ some (mark '(') := by
    intro hp
    obtain ⟨ms, rfl⟩ := List.head?_eq_some_iff.1 hp
    obtain ⟨s₂, h₂, -⟩ := State.run?_cons_eq_some.1 hrun
    exact State.not_fresh_of_opening h₂ hf
  obtain ⟨hstars, hs⟩ := State.fresh_of_run? (isInner_of_mem_wordTokens hu) h₁ hf
  rw [wordTokens_of_ne hapart] at hstars
  exact ⟨List.all_eq_true.2 fun x hx => beq_iff_eq.2 (hstars x hx), hs⟩

/-- A word leads to what it led to, also when a parenthesis has come next to it. -/
theorem run?_wordTokens {u : List Char} (hu : (word u).Sound) {ms ls : List Lexeme} {fresh : Bool}
    (h : Thins false ms ls) (hcalls : calls fresh (word u :: ms) = true) {s s₁ s' : State}
    (hfresh : s.Fresh → fresh = true) (h₁ : s.run? (wordTokens u ms) = some s₁)
    (hrest : s₁.run? (reading ls) = some s') :
    s.run? (wordTokens u ls ++ reading ls) = some s' := by
  have hsame : wordTokens u ls = wordTokens u ms →
      s.run? (wordTokens u ls ++ reading ls) = some s' := by
    intro heq
    rw [heq, State.run?_append, h₁]
    exact hrest
  by_cases hls : ls.head? = some (mark '(')
  · by_cases hms : ms.head? = some (mark '(')
    · exact hsame ((if_pos hls).trans (if_pos hms).symm)
    · have hahead := h.ahead_paren (show ahead ls = some (mark '(') by
        obtain ⟨ls, rfl⟩ := List.head?_eq_some_iff.1 hls
        rfl)
      rw [calls, Bool.and_eq_true] at hcalls
      have hcall := hcalls.1
      simp only [hms, hahead, Bool.or_eq_true, Bool.not_eq_true', beq_iff_eq, bne_iff_ne, ne_eq,
        not_true_eq_false, or_false] at hcall
      rcases hcall with rfl | hlast
      · have hs : ¬ s.Fresh := fun hf => by cases hfresh hf
        have hinner : ∀ x ∈ wordTokens u ms, isInner x = true := isInner_of_mem_wordTokens hu
        rw [wordTokens_of_ne hms] at h₁ hinner
        obtain ⟨ls, rfl⟩ := List.head?_eq_some_iff.1 hls
        exact run?_withoutName hinner hs h₁ hrest
      · -- the word ends in no name, so the parenthesis takes nothing from it
        refine hsame ?_
        rw [wordTokens_of_ne hms, wordTokens, if_pos hls, withoutName, if_neg hlast]
  · have hms : ms.head? ≠ some (mark '(') := fun hms => hls (h.head?_paren hms)
    exact hsame ((if_neg hls).trans (if_neg hms).symm)

/-- **A run over a list is one over what is left of it.**  By induction on what goes; `fresh` says at
least where the machine finds that a declaration may begin. -/
theorem run?_reading_of_thins {open_ : Bool} {ms ls : List Lexeme} (h : Thins open_ ms ls)
    {fresh : Bool} {s s' : State} (hs : s.Settled) (hfresh : s.Fresh → fresh = true)
    (hsound : ∀ m ∈ ms, m.Sound) (hcalls : calls fresh ms = true)
    (hrun : s.run? (reading ms) = some s') : s.run? (reading ls) = some s' := by
  induction h generalizing s fresh with
  | nil => exact hrun
  | @keep _ m _ ms ls ha _ hthins ih =>
      rw [List.forall_mem_cons] at hsound
      obtain ⟨hm, hsound⟩ := hsound
      cases m with
      | gap w =>
          cases ha
          exact ih hs hfresh hsound hcalls hrun
      | note w =>
          cases ha
          exact ih hs hfresh hsound hcalls hrun
      | mark c =>
          cases ha
          obtain ⟨s₁, h₁, hrun⟩ := State.run?_cons_eq_some.1 hrun
          have hfresh₁ : s₁.Fresh → (c == ';' || c == '{' || c == '}') = true := by
            intro hf
            simp only [Sound, marks, List.mem_cons, List.not_mem_nil, or_false] at hm
            rcases hm with rfl | rfl | rfl | rfl | rfl | rfl | rfl
            all_goals first | rfl | cases (State.fresh_of_step rfl h₁ hf).1
          exact State.run?_cons_eq_some.2
            ⟨s₁, h₁, ih (State.settled_step hs h₁) hfresh₁ hsound hcalls hrun⟩
      | word u =>
          cases ha
          rw [reading, State.run?_append, Option.bind_eq_some_iff] at hrun
          obtain ⟨s₁, h₁, hrun⟩ := hrun
          have hfresh₁ : s₁.Fresh → (fresh && (lex (view u)).all (· == .delim '*')) = true := by
            intro hf
            obtain ⟨hstars, hf⟩ := fresh_of_word hm h₁ hrun hf
            rw [hfresh hf, hstars]
            rfl
          have hrest := hcalls
          rw [calls, Bool.and_eq_true] at hrest
          exact run?_wordTokens hm hthins hcalls hfresh h₁
            (ih (State.settled_run? hs h₁) hfresh₁ hsound hrest.2 hrun)
      | _ =>
          obtain ⟨s₁, h₁, hrun⟩ := State.run?_cons_eq_some.1 hrun
          have hfresh₁ : s₁.Fresh → false = true := fun hf => by
            cases (State.fresh_of_step rfl h₁ hf).1
          have hrest := ih (State.settled_step hs h₁) hfresh₁ hsound hcalls hrun
          cases ha <;> exact State.run?_cons_eq_some.2 ⟨s₁, h₁, hrest⟩
  | note _ _ ih => exact ih hs hfresh (List.forall_mem_cons.1 hsound).2 hcalls hrun
  | gap _ _ _ ih => exact ih hs hfresh (List.forall_mem_cons.1 hsound).2 hcalls hrun
  | semicolon hb _ ih =>
      -- the brace ends what the semicolon would have ended
      obtain ⟨ls, rfl⟩ := List.head?_eq_some_iff.1 hb
      obtain ⟨s₁, h₁, hrun⟩ := State.run?_cons_eq_some.1 hrun
      have hrest := @ih true _ (State.settled_step hs h₁) (fun _ => rfl)
        (List.forall_mem_cons.1 hsound).2 hcalls hrun
      obtain ⟨s₂, h₂, hrest⟩ := State.run?_cons_eq_some.1 hrest
      exact State.run?_cons_eq_some.2 ⟨s₂, State.step_semicolon_brace hs h₁ h₂, hrest⟩

end Lexeme

/-! ### Sheets -/

open Lexeme

/-- A stylesheet written as a list of lexemes. -/
structure LexemeSheet where
  lexemes : List Lexeme
  sound : ∀ m ∈ lexemes, m.Sound
  fits : Lexeme.fits lexemes = true
  calls : Lexeme.calls true lexemes = true

namespace LexemeSheet

/-- The sheet as a document. -/
def doc (d : LexemeSheet) : Bytes :=
  Utf8.encode (texts d.lexemes)

/-- What is left of a sheet is a sheet. -/
def thinned (d : LexemeSheet) {ls : List Lexeme} (h : Thins true d.lexemes ls) : LexemeSheet where
  lexemes := ls
  sound := h.sound
  fits := h.fits d.fits
  calls := h.calls d.calls

/-- **Minification makes a sheet of a sheet**, and every run over the one is one over the other. -/
theorem exists_minified (d : LexemeSheet) :
    ∃ e : LexemeSheet, e.doc = minify.apply d.doc ∧
      ∀ {s s' : State}, s.Settled → s.run? (reading d.lexemes) = some s' →
        s.run? (reading e.lexemes) = some s' := by
  obtain ⟨ls, hls, hthins⟩ := thinning_minify d.sound d.fits
  have hsheet : ∃ e : LexemeSheet, e.lexemes = ls ∧
      ∀ {s s' : State}, s.Settled → s.run? (reading d.lexemes) = some s' →
        s.run? (reading e.lexemes) = some s' := by
    clear hls
    induction hthins with
    | refl => exact ⟨d, rfl, fun _ hrun => hrun⟩
    | tail _ hstep ih =>
        obtain ⟨e, rfl, hkept⟩ := ih
        refine ⟨e.thinned hstep, rfl, fun hs hrun => ?_⟩
        exact run?_reading_of_thins hstep hs (fun _ => rfl) e.sound e.calls (hkept hs hrun)
  obtain ⟨e, rfl, hkept⟩ := hsheet
  exact ⟨e, by rw [doc, doc, Edit.apply_encode, hls], hkept⟩

end LexemeSheet

/-- The state in which the machine begins. -/
def initial (doc : Bytes) : State :=
  { stats := { bytes := doc.length } }

/-- The grammar reads the text to its end: it meets no error. -/
def ReadsToEnd (doc : Bytes) : Prop :=
  ((initial doc).run? (tokens doc)).isSome = true

instance (doc : Bytes) : Decidable (ReadsToEnd doc) :=
  inferInstanceAs (Decidable (_ = true))

/-- A document is read to its end if no token is refused. -/
theorem readsToEnd_iff {doc : Bytes} :
    ReadsToEnd doc ↔ ∃ s, (initial doc).run? (tokens doc) = some s :=
  Option.isSome_iff_exists

/-- A sheet is read as its lexemes say, but for comments. -/
theorem LexemeSheet.forget_run? (d : LexemeSheet) :
    ((initial d.doc).run? (tokens d.doc)).map State.forget =
      (initial []).run? (reading d.lexemes) := by
  rw [State.forget_run?, ← core_view_texts d.sound d.fits, core, ← tokens_encode]
  rfl

/-- **Minification keeps the structure of a sheet of lexemes.** -/
theorem outline_minify_apply (d : LexemeSheet) (h : ReadsToEnd d.doc) :
    ReadsToEnd (minify.apply d.doc) ∧
      (outline (minify.apply d.doc)).rulesets = (outline d.doc).rulesets ∧
      (outline (minify.apply d.doc)).atRules = (outline d.doc).atRules ∧
      (outline (minify.apply d.doc)).declarations = (outline d.doc).declarations := by
  obtain ⟨s, hs⟩ := readsToEnd_iff.1 h
  obtain ⟨e, hdoc, hkept⟩ := d.exists_minified
  rw [← hdoc]
  have hrun : (initial []).run? (reading d.lexemes) = some s.forget := by
    rw [← d.forget_run?, hs]
    rfl
  have hrun' := hkept (fun _ => .inl rfl) hrun
  rw [← e.forget_run?, Option.map_eq_some_iff] at hrun'
  obtain ⟨s', hs', hforget⟩ := hrun'
  obtain ⟨hrulesets, hatRules, hdeclarations⟩ := s.finish_forget
  obtain ⟨hrulesets', hatRules', hdeclarations'⟩ := s'.finish_forget
  rw [hforget] at hrulesets' hatRules' hdeclarations'
  have hd : outline d.doc = s.finish := State.runTokens_of_run? hs
  have he : outline e.doc = s'.finish := State.runTokens_of_run? hs'
  rw [hd, he]
  exact ⟨readsToEnd_iff.2 ⟨s', hs'⟩, hrulesets'.symm.trans hrulesets, hatRules'.symm.trans hatRules,
    hdeclarations'.symm.trans hdeclarations⟩

/-- A query with two rules: a comment, a string that looks like the end of a rule, a url, a call, and
semicolons before closing braces. -/
def denseSheet : LexemeSheet where
  lexemes :=
    [.word "@media".toList, .gap " ".toList, .mark '(', .word "min-width".toList, .mark ':',
      .gap " ".toList, .word "1px".toList, .mark ')', .gap " ".toList, .mark '{', .gap "\n  ".toList,
      .note " a \x7b ".toList, .gap "\n  ".toList, .word "a".toList, .gap " ".toList, .word ">".toList,
      .gap " ".toList, .word ".b".toList, .gap " ".toList, .mark '{', .gap " ".toList,
      .word "content".toList, .gap " ".toList, .mark ':', .gap " ".toList,
      .quoted '"' "x ; \x7d".toList, .gap " ".toList, .mark ';', .gap " ".toList, .mark '}',
      .gap "\n  ".toList, .word "#é".toList, .gap " ".toList, .mark '{', .gap " ".toList,
      .word "background".toList, .mark ':', .gap " ".toList, .url "url".toList none "i.png".toList,
      .gap " ".toList, .word "top".toList, .mark ';', .gap " ".toList, .word "*width".toList,
      .mark ':', .gap " ".toList, .word "calc".toList, .mark '(', .gap " ".toList,
      .word "1px".toList, .gap " ".toList, .word "+".toList, .gap " ".toList, .word "2px".toList,
      .mark ')', .mark ';', .mark '}', .gap "\n".toList, .mark '}']
  sound := by decide
  fits := by decide
  calls := by decide

theorem outline_minify_apply_denseSheet :
    ReadsToEnd denseSheet.doc ∧ ReadsToEnd (minify.apply denseSheet.doc) ∧
      (outline (minify.apply denseSheet.doc)).rulesets = 2 ∧
      (outline (minify.apply denseSheet.doc)).atRules = 1 ∧
      (outline (minify.apply denseSheet.doc)).declarations = 3 := by
  have hread : ReadsToEnd denseSheet.doc := by decide +kernel
  obtain ⟨hread', hrulesets, hatRules, hdeclarations⟩ := outline_minify_apply denseSheet hread
  exact ⟨hread, hread', hrulesets.trans (by decide +kernel), hatRules.trans (by decide +kernel),
    hdeclarations.trans (by decide +kernel)⟩

/-- Two strings that hold the start and the end of a comment. -/
def commentMarks : List Char :=
  ".a \x7b content: \"/*\" \x7d .b \x7b content: \"*/\" \x7d".toList

theorem minify_apply_commentMarks :
    minify.apply (Utf8.encode commentMarks) = Utf8.encode ".a\x7bcontent:\"\"\x7d".toList := by
  have hcut : Css.comment?.cut commentMarks = some ".a \x7b content: \"\" \x7d".toList := by decide
  have hnone : Css.comment?.cut ".a \x7b content: \"\" \x7d".toList = none := by decide
  rw [Edit.apply_encode, minify_run_eq, withoutComments_of_cut hcut,
    withoutComments_eq_self (cut_comment?_eq_none_iff.1 hnone)]
  exact congrArg Utf8.encode (by decide)

theorem outline_minify_apply_commentMarks :
    ReadsToEnd (Utf8.encode commentMarks) ∧
      (outline (Utf8.encode commentMarks)).rulesets = 2 ∧
      (outline (Utf8.encode commentMarks)).declarations = 2 ∧
      (outline (minify.apply (Utf8.encode commentMarks))).rulesets = 1 ∧
      (outline (minify.apply (Utf8.encode commentMarks))).declarations = 1 := by
  rw [minify_apply_commentMarks]
  decide +kernel

end Restyle.Css
