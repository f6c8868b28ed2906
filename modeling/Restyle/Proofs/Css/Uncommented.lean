import Restyle.Proofs.Css.Passes

/-!
# Comments between lexemes

No lexeme but a comment opens a comment, and no two lexemes side by side do (`Clear`).  So all comments
go in one round, and what is left is the text of the other lexemes (`withoutComments_texts`).

`thinning_minify`: the minified text of sound lexemes that fit is the text of these lexemes thinned.
-/

namespace Restyle.Css

open Lexeme Token

/-! ### Where no comment opens -/

/-- No comment opens in `u`, nor where `t` stands behind it. -/
structure Clear (u t : List Char) : Prop where
  inside : ¬ ['/', '*'] <:+: u
  across : u.getLast? = some '/' → t.head? ≠ some '*'

namespace Clear

variable {u t : List Char}

/-- A clear text is clear from any place on. -/
theorem of_append {x v : List Char} (h : Clear (x ++ v) t) (hv : v ≠ []) : Clear v t where
  inside hi := h.inside (hi.trans (List.suffix_append x v).isInfix)
  across hl := h.across (by rw [List.getLast?_append_of_ne_nil x hv, hl])

/-- No comment starts in a clear text. -/
theorem not_starts {c : Char} (h : Clear (c :: u) t) : ¬ ['/', '*'] <+: c :: (u ++ t) := by
  rintro ⟨v, hv⟩
  obtain ⟨rfl, hstar⟩ : '/' = c ∧ '*' :: v = u ++ t := by simpa using hv
  cases u with
  | nil => exact h.across rfl (by rw [← List.nil_append t, ← hstar]; rfl)
  | cons d u =>
      obtain ⟨rfl, -⟩ := List.cons.inj hstar
      exact h.inside ⟨[], u, rfl⟩

/-- No comment is read at any place of a clear text. -/
theorem comment?_eq_none (h : Clear u t) (x : List Char) (c : Char) (y : List Char)
    (hu : u = x ++ c :: y) : Css.comment? (c :: (y ++ t)) = none := by
  subst hu
  have hnot := (h.of_append (List.cons_ne_nil c y)).not_starts
  unfold Css.comment?
  split
  · next v hv => exact absurd ⟨v, hv.symm⟩ hnot
  · rfl

theorem not_opens (h : Clear u t) (ht : ¬ ['/', '*'] <:+: t) : ¬ ['/', '*'] <:+: u ++ t := by
  induction u with
  | nil => exact ht
  | cons c u ih =>
      rw [List.cons_append, List.infix_cons_iff, not_or]
      refine ⟨h.not_starts, ?_⟩
      cases u with
      | nil => exact ht
      | cons d u => exact ih (of_append (x := [c]) h (List.cons_ne_nil d u))

end Clear

/-- A character that is neither slash nor star parts two texts. -/
theorem not_opens_join {c : Char} (hslash : c ≠ '/') (hstar : c ≠ '*') {u v : List Char}
    (hu : ¬ ['/', '*'] <:+: u) (hv : ¬ ['/', '*'] <:+: v) : ¬ ['/', '*'] <:+: u ++ c :: v := by
  have hcons : ¬ ['/', '*'] <:+: c :: v := by
    refine Clear.not_opens (u := [c]) ⟨fun h => ?_, fun h => ?_⟩ hv
    · simpa using h.length_le
    · exact absurd (Option.some.inj h) hslash
  refine Clear.not_opens ⟨hu, fun _ h => ?_⟩ hcons
  exact absurd (Option.some.inj h) hstar

theorem not_opens_of_not_mem {u : List Char} (h : '/' ∉ u) : ¬ ['/', '*'] <:+: u :=
  fun hi => h (hi.subset (by simp))

/-! ### Comments of a list of lexemes -/

/-- A string opens no comment if there is none in it. -/
theorem not_opens_quote {q : Char} (hq : isQuote q = true) {w : List Char} (hw : ¬ ['/', '*'] <:+: w)
    {t : List Char} (ht : ¬ ['/', '*'] <:+: t) : ¬ ['/', '*'] <:+: q :: (w ++ q :: t) := by
  have hslash : q ≠ '/' := by rintro rfl; cases hq
  have hstar : q ≠ '*' := by rintro rfl; cases hq
  exact not_opens_join (u := []) hslash hstar (not_opens_of_not_mem List.not_mem_nil)
    (not_opens_join hslash hstar hw ht)

/-- A url does not open one by its name. -/
theorem not_opens_url {name : List Char} (hname : isUrl name = true) {t : List Char}
    (ht : ¬ ['/', '*'] <:+: t) : ¬ ['/', '*'] <:+: name ++ '(' :: t := by
  refine not_opens_join (by decide) (by decide) (not_opens_of_not_mem ?_) ht
  obtain ⟨a, b, c, rfl, rfl | rfl, rfl | rfl, rfl | rfl⟩ := exists_of_isUrl hname <;> decide

/-- No lexeme but a comment opens one. -/
theorem clear_text {m : Lexeme} {ms : List Lexeme} (hsound : ∀ l ∈ m :: ms, l.Sound)
    (hnote : m.isNote = false) (hfits : fits (m :: ms) = true) : Clear m.text (texts ms) := by
  rw [List.forall_mem_cons] at hsound
  obtain ⟨hm, hms⟩ := hsound
  have hnil : ¬ ['/', '*'] <:+: ([] : List Char) := not_opens_of_not_mem List.not_mem_nil
  cases m with
  | gap w =>
      have hslash : '/' ∉ w := fun h => absurd (List.all_eq_true.1 hm.2 _ h) (by decide)
      exact ⟨not_opens_of_not_mem hslash, fun h => absurd (List.mem_of_getLast? h) hslash⟩
  | note w => cases hnote
  | mark c =>
      have hslash : '/' ∉ [c] := fun h => by
        obtain rfl := List.mem_singleton.1 h
        exact absurd hm (by decide)
      exact ⟨not_opens_of_not_mem hslash, fun h => absurd (List.mem_of_getLast? h) hslash⟩
  | word w =>
      rw [fits, Bool.and_eq_true] at hfits
      refine ⟨hm.2, fun _ h => ?_⟩
      -- what follows a word is a border, so it is no star
      have hview := (head?_view (a := '*') (by decide) (texts ms)).2 h
      exact absurd ((parts_texts hms hfits.1).1 '*' hview).1 (by decide)
  | quoted q w =>
      refine ⟨not_opens_quote hm.1.1 hm.2 hnil, fun h => ?_⟩
      have hlast : (q :: w ++ [q]).getLast? = some q := List.getLast?_concat ..
      rw [text, ← List.cons_append, hlast] at h
      cases h
      cases hm.1.1
  | url name q w =>
      have htext : (url name q w).text = name ++ '(' :: (q.toList ++ (w ++ q.toList)) ++ [')'] := by
        simp [text]
      refine ⟨?_, fun h => by rw [htext, List.getLast?_concat] at h; cases h⟩
      cases q with
      | none =>
          refine not_opens_url hm.1.1 ?_
          exact not_opens_join (by decide) (by decide) hm.2 hnil
      | some q =>
          refine not_opens_url hm.1.1 (not_opens_quote hm.1.2.1 hm.2 ?_)
          exact not_opens_join (u := []) (by decide) (by decide) hnil hnil

/-- The lexemes that are no comments. -/
def withoutNotes (ms : List Lexeme) : List Lexeme :=
  ms.filter (! ·.isNote)

theorem withoutNotes_cons {m : Lexeme} (hm : m.isNote = false) (ms : List Lexeme) :
    withoutNotes (m :: ms) = m :: withoutNotes ms :=
  List.filter_cons_of_pos (by simp [hm])

/-- Taking out comments thins a list of lexemes. -/
theorem thins_withoutNotes {ms : List Lexeme} (hsound : ∀ m ∈ ms, m.Sound) (open_ : Bool) :
    Thins open_ ms (withoutNotes ms) := by
  induction ms generalizing open_ with
  | nil => exact .nil open_
  | cons m ms ih =>
      rw [List.forall_mem_cons] at hsound
      cases hm : m.isNote with
      | false =>
          rw [withoutNotes_cons hm]
          exact .keep (.refl m) hsound.1 (ih hsound.2 _)
      | true =>
          cases m with
          | note w => exact .note w (ih hsound.2 open_)
          | _ => cases hm

/-- No comment is left. -/
theorem isNote_of_mem_withoutNotes {m : Lexeme} {ms : List Lexeme} (h : m ∈ withoutNotes ms) :
    m.isNote = false := by
  simpa using (List.mem_filter.1 h).2

/-- **Sound lexemes without comments open none.** -/
theorem not_opens_texts {ms : List Lexeme} (hsound : ∀ m ∈ ms, m.Sound) (hfits : fits ms = true)
    (hnote : ∀ m ∈ ms, m.isNote = false) : ¬ ['/', '*'] <:+: texts ms := by
  induction ms with
  | nil => exact not_opens_of_not_mem List.not_mem_nil
  | cons m ms ih =>
      have hclear := clear_text hsound (hnote m List.mem_cons_self) hfits
      rw [List.forall_mem_cons] at hsound hnote
      exact hclear.not_opens (ih hsound.2 (fits_of_cons hfits) hnote.2)

/-- The lexer and the comment loop end a comment at the same place. -/
theorem commentRest_eq (s : List Char) : commentRest s = (afterCommentEnd? s).getD [] := by
  fun_induction commentRest s with
  | case1 => rfl
  | case2 s => rfl
  | case3 c s h ih =>
      rw [ih, afterCommentEnd?]
      exact h

/-- A comment is read as one, up to its end. -/
theorem comment?_note {w : List Char} (hw : (note w).Sound) (t : List Char) :
    Css.comment? ((note w).text ++ t) = some ((), t) := by
  obtain ⟨r, hr⟩ := Option.isSome_iff_exists.1 (afterCommentEnd?_append w t)
  have hend := commentRest_append hw t
  rw [commentRest_eq, hr] at hend
  have htext : (note w).text ++ t = '/' :: '*' :: (w ++ '*' :: '/' :: t) := by simp [text]
  rw [htext, Css.comment?, hr, ← hend]
  rfl

/-- One round takes out all comments of a sound list. -/
theorem run_cut_comment? {ms : List Lexeme} (hsound : ∀ m ∈ ms, m.Sound) (hfits : fits ms = true) :
    Css.comment?.cut.run (texts ms) = texts (withoutNotes ms) := by
  induction ms with
  | nil => rfl
  | cons m ms ih =>
      have hrest := ih (List.forall_mem_cons.1 hsound).2 (fits_of_cons hfits)
      cases hm : m.isNote with
      | false =>
          have hclear := clear_text hsound hm hfits
          rw [texts_cons, Pattern.run_cut_append_of_none hclear.comment?_eq_none, hrest,
            withoutNotes_cons hm, texts_cons]
      | true =>
          cases m with
          | note w =>
              have hnote := comment?_note (hsound _ List.mem_cons_self) (texts ms)
              have hne : (note w).text ≠ [] := List.cons_ne_nil _ _
              rw [texts_cons, Pattern.run_cut_append_of_some hne hnote, hrest]
              rfl
          | _ => cases hm

/-- **Comments are taken out lexeme by lexeme.** -/
theorem withoutComments_texts {ms : List Lexeme} (hsound : ∀ m ∈ ms, m.Sound)
    (hfits : fits ms = true) : withoutComments (texts ms) = texts (withoutNotes ms) := by
  have hthins := thins_withoutNotes hsound true
  have hnone : ¬ HasComment (texts (withoutNotes ms)) := by
    rintro ⟨u, v, w, h⟩
    refine not_opens_texts hthins.sound (hthins.fits hfits) (fun _ => isNote_of_mem_withoutNotes) ?_
    exact ⟨u, v ++ '*' :: '/' :: w, by rw [h]; simp⟩
  have hrun := run_cut_comment? hsound hfits
  unfold Edit.run at hrun
  cases hcut : Css.comment?.cut (texts ms) with
  | none =>
      rw [hcut] at hrun
      rw [withoutComments_eq_self (cut_comment?_eq_none_iff.1 hcut)]
      exact hrun
  | some t =>
      rw [hcut] at hrun
      rw [withoutComments_of_cut hcut, show t = _ from hrun, withoutComments_eq_self hnone]

/-- **Minification thins.** -/
theorem thinning_minify {ms : List Lexeme} (hsound : ∀ m ∈ ms, m.Sound) (hfits : fits ms = true) :
    ∃ ls, texts ls = minify.run (texts ms) ∧ Relation.ReflTransGen (Thins true) ms ls := by
  have hthins := thins_withoutNotes hsound true
  obtain ⟨ls, hls, hrest⟩ := thinning_tidy (withoutNotes ms) hthins.sound
    fun _ => isNote_of_mem_withoutNotes
  exact ⟨ls, by rw [hls, minify_run_eq, withoutComments_texts hsound hfits], .head hthins hrest⟩

end Restyle.Css
