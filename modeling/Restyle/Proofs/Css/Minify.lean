import Mathlib.Data.List.Chain
import Restyle.Proofs.Css.Comment
import Restyle.Proofs.Css.Scan

/-!
# Minified texts

A text is *minified* when it has no comment and every two neighbours are `Tight`: no white space
behind `;`, `:`, `{` or `}`, none before `(`, `{` or `}`, and no semicolon before `}`.

* `minified_run`: minification ends at a minified text.
* `run_of_minified`: it leaves a minified text alone.
* `minify_apply_apply`: minifying a document twice is minifying it once.

Each pass runs once, so what an earlier pass has settled must survive the later ones.  Neighbours in
the text that a pass leaves were neighbours before, or one of them is the mark of the pass; that is
said once for each kind of pass (`isChain_dropBlankAfter`, `isChain_dropBefore`,
`isChain_joinOpenAfterClose`) for any relation between neighbours.  No pass brings a slash and a star
together, so no comment comes back.
-/

namespace Restyle.Css

/-! ### Neighbours -/

/-- No white space stands behind a mark. -/
def NoBlankAfter (mark a b : Char) : Prop :=
  a = mark → isBlank b = false

/-- Nothing of a class stands before a mark. -/
def NoneBefore (drop : Char → Bool) (mark a b : Char) : Prop :=
  b = mark → drop a = false

/-- What goes before a closing brace. -/
def isBlankOrSemicolon (c : Char) : Bool :=
  c == ';' || isBlank c

/-- What may stand side by side in a minified text. -/
structure Tight (a b : Char) : Prop where
  afterSemicolon : NoBlankAfter ';' a b
  afterColon : NoBlankAfter ':' a b
  beforeParen : NoneBefore isBlank '(' a b
  afterOpen : NoBlankAfter '{' a b
  afterClose : NoBlankAfter '}' a b
  beforeOpen : NoneBefore isBlank '{' a b
  beforeClose : NoneBefore isBlankOrSemicolon '}' a b

/-- A text that minification has nothing to do with. -/
structure Minified (s : List Char) : Prop where
  noComment : ¬ HasComment s
  tight : s.IsChain Tight

/-! ### White space behind a mark -/

section DropBlankAfter

variable {mark : Char} {R : Char → Char → Prop}

/-- What the pass leaves behind `prev`, the last character that it kept. -/
theorem isChain_cons_dropBlankAfter (hm : ∀ b, isBlank b = false → R mark b) {prev : Char}
    {behind : Bool} {s : List Char} (hb : behind = (prev == mark))
    (hp : behind = false → (prev :: s).IsChain R) (hs : s.IsChain R) :
    (prev :: dropBlankAfter mark behind s).IsChain fun a b => R a b ∧ NoBlankAfter mark a b := by
  induction s generalizing prev behind with
  | nil => exact .singleton _
  | cons c s ih =>
      have hs' : s.IsChain R := hs.tail
      simp only [dropBlankAfter]
      split
      · next hd =>
          obtain ⟨rfl, -⟩ : behind = true ∧ _ := by simpa using hd
          exact ih hb (fun h => by cases h) hs'
      · next hd =>
          refine .cons_cons ?_ (ih rfl (fun _ => hs) hs')
          cases behind with
          | false =>
              refine ⟨((List.isChain_cons_cons).1 (hp rfl)).1, fun he => ?_⟩
              simp [he] at hb
          | true =>
              have hc : isBlank c = false := by simpa using hd
              obtain rfl : prev = mark := by simpa using hb.symm
              exact ⟨hm c hc, fun _ => hc⟩

/-- What held of neighbours still does, and no blank stands behind the mark any more. -/
theorem isChain_dropBlankAfter (mark : Char) (hm : ∀ b, isBlank b = false → R mark b) {s : List Char}
    (hs : s.IsChain R) :
    (dropBlankAfter mark false s).IsChain fun a b => R a b ∧ NoBlankAfter mark a b := by
  cases s with
  | nil => exact .nil
  | cons c s => exact isChain_cons_dropBlankAfter hm rfl (fun _ => hs) hs.tail

/-- Where no blank stands behind the mark, nothing is dropped. -/
theorem dropBlankAfter_eq_self {behind : Bool} {s : List Char} (h : s.IsChain (NoBlankAfter mark))
    (hb : behind = true → ∀ c ∈ s.head?, isBlank c = false) :
    dropBlankAfter mark behind s = s := by
  induction s generalizing behind with
  | nil => rfl
  | cons c s ih =>
      obtain ⟨hc, hs⟩ := List.isChain_cons.1 h
      have hd : (behind && isBlank c) = false := by
        cases behind with
        | false => rfl
        | true => exact hb rfl c rfl
      rw [dropBlankAfter, hd]
      refine congrArg (c :: ·) (ih hs fun he d hd => hc d hd ?_)
      simpa using he

/-- Pairs that do not concern the mark come from pairs before. -/
theorem lifts_dropBlankAfter {a b : Char} (ha : a ≠ mark) (hb : b ≠ mark) :
    Lifts a b (dropBlankAfter mark false) := by
  suffices h : ∀ s behind u v, dropBlankAfter mark behind s = u ++ a :: b :: v →
      ∃ u' v', s = u' ++ a :: b :: v' ∧ dropBlankAfter mark false v' = v from
    fun s u v => h s false u v
  intro s
  induction s with
  | nil => intro behind u v h; simp [dropBlankAfter] at h
  | cons c s ih =>
      intro behind u v h
      rw [dropBlankAfter] at h
      split at h
      · obtain ⟨u', v', rfl, hv⟩ := ih true u v h
        exact ⟨c :: u', v', rfl, hv⟩
      · cases u with
        | nil =>
            -- nothing goes behind `a`, so `b` is the next character of the text
            obtain ⟨rfl, hbs⟩ := List.cons.inj h
            have hcm : (c == mark) = false := by simpa using ha
            rw [hcm] at hbs
            cases s with
            | nil => cases hbs
            | cons d s =>
                rw [dropBlankAfter] at hbs
                obtain ⟨rfl, hv⟩ := List.cons.inj hbs
                have hdm : (d == mark) = false := by simpa using hb
                rw [hdm] at hv
                exact ⟨[], s, rfl, hv⟩
        | cons x u =>
            obtain ⟨rfl, hs⟩ := List.cons.inj h
            obtain ⟨u', v', rfl, hv⟩ := ih _ u v hs
            exact ⟨c :: u', v', rfl, hv⟩

end DropBlankAfter

/-! ### What stands before a mark -/

section DropBefore

variable {drop : Char → Bool} {mark : Char} {R : Char → Char → Prop}

theorem dropBefore_cons (c : Char) (s : List Char) :
    dropBefore drop mark (c :: s) =
      if drop c && (dropBefore drop mark s).head? == some mark then dropBefore drop mark s
      else c :: dropBefore drop mark s :=
  rfl

theorem head?_dropBefore (drop : Char → Bool) (mark : Char) (s : List Char) :
    (dropBefore drop mark s).head? = s.head? ∨ (dropBefore drop mark s).head? = some mark := by
  cases s with
  | nil => exact .inl rfl
  | cons c s =>
      rw [dropBefore_cons]
      split
      · next h =>
          refine .inr ?_
          simp only [Bool.and_eq_true, beq_iff_eq] at h
          exact h.2
      · exact .inl rfl

/-- What held of neighbours still does, and nothing that is to be dropped stands before the mark any more. -/
theorem isChain_dropBefore (drop : Char → Bool) (mark : Char)
    (hm : ∀ a, drop a = false → R a mark) {s : List Char} (hs : s.IsChain R) :
    (dropBefore drop mark s).IsChain fun a b => R a b ∧ NoneBefore drop mark a b := by
  induction s with
  | nil => exact .nil
  | cons c s ih =>
      obtain ⟨hc, hs'⟩ := List.isChain_cons.1 hs
      rw [dropBefore_cons]
      split
      · exact ih hs'
      · next hd =>
          refine List.isChain_cons.2 ⟨fun b hb => ?_, ih hs'⟩
          -- the next character is the one that stood there, or the mark
          by_cases he : b = mark
          · subst he
            have hdc : drop c = false := by
              rw [Option.mem_def.1 hb] at hd
              simpa using hd
            exact ⟨hm c hdc, fun _ => hdc⟩
          · refine ⟨hc b ?_, fun h => absurd h he⟩
            rcases head?_dropBefore drop mark s with h | h
            · rw [← h]; exact hb
            · rw [Option.mem_def.1 hb] at h
              exact absurd (Option.some.inj h) he

/-- Where nothing that is to be dropped stands before the mark, nothing is. -/
theorem dropBefore_eq_self {s : List Char} (h : s.IsChain (NoneBefore drop mark)) :
    dropBefore drop mark s = s := by
  induction s with
  | nil => rfl
  | cons c s ih =>
      obtain ⟨hc, hs⟩ := List.isChain_cons.1 h
      rw [dropBefore_cons, ih hs, if_neg]
      intro hd
      simp only [Bool.and_eq_true, beq_iff_eq] at hd
      have := hc mark hd.2 rfl
      rw [this] at hd
      cases hd.1

/-- A text without the mark stays as it is. -/
theorem dropBefore_of_contains {s : List Char} (h : s.contains mark = false) :
    dropBefore drop mark s = s := by
  refine dropBefore_eq_self ?_
  induction s with
  | nil => exact .nil
  | cons c s ih =>
      rw [List.contains_cons, Bool.or_eq_false_iff] at h
      refine List.isChain_cons.2 ⟨fun b hb he => ?_, ih h.2⟩
      subst he
      have : b ∈ s := List.mem_of_mem_head? hb
      simp [this] at h

/-- Pairs that do not concern the mark come from pairs before. -/
theorem lifts_dropBefore {a b : Char} (ha : a ≠ mark) (hb : b ≠ mark) :
    Lifts a b (dropBefore drop mark) := by
  intro s
  induction s with
  | nil => intro u v h; simp [dropBefore] at h
  | cons c s ih =>
      intro u v h
      rw [dropBefore_cons] at h
      split at h
      · obtain ⟨u', v', rfl, hv⟩ := ih u v h
        exact ⟨c :: u', v', rfl, hv⟩
      · cases u with
        | nil =>
            obtain ⟨rfl, hbs⟩ := List.cons.inj h
            cases s with
            | nil => cases hbs
            | cons d s =>
                rw [dropBefore_cons] at hbs
                split at hbs
                · next hd =>
                    -- what went before the mark has left the mark in front, and `b` is none
                    rw [hbs] at hd
                    simp [hb] at hd
                · obtain ⟨rfl, hv⟩ := List.cons.inj hbs
                  exact ⟨[], s, rfl, hv⟩
        | cons x u =>
            obtain ⟨rfl, hs⟩ := List.cons.inj h
            obtain ⟨u', v', rfl, hv⟩ := ih u v hs
            exact ⟨c :: u', v', rfl, hv⟩

end DropBefore

/-! ### The gap between a closing parenthesis and an opening brace -/

theorem opensAfter_iff {c : Char} {s : List Char} :
    opensAfter c s = true ↔ c = ')' ∧ (skipBlank s).head? = some '{' := by
  simp [opensAfter]

/-- What the pass leaves behind `prev`, the last character that it kept. -/
theorem isChain_cons_joinOpenAfterClose {R : Char → Char → Prop} (hR : R ')' '{') {prev : Char}
    {s : List Char} (hp : (prev :: s).IsChain R) :
    (prev :: joinOpenAfterClose (opensAfter prev s) s).IsChain R := by
  suffices h : ∀ (s : List Char) (prev : Char) (inside : Bool),
      (inside = true → opensAfter prev s = true) → (inside = false → (prev :: s).IsChain R) →
      s.IsChain R → (prev :: joinOpenAfterClose inside s).IsChain R from
    h s prev _ id (fun _ => hp) hp.tail
  clear hp prev s
  intro s
  induction s with
  | nil => intro prev inside _ _ _; exact .singleton _
  | cons c s ih =>
      intro prev inside hi hp hs
      simp only [joinOpenAfterClose]
      split
      · next hd =>
          -- one more blank of a gap that has begun
          obtain ⟨rfl, hc⟩ : inside = true ∧ isBlank c = true := by simpa using hd
          refine ih prev true (fun _ => ?_) (fun h => by cases h) hs.tail
          have ho := hi rfl
          rw [opensAfter_iff, skipBlank_cons_of_blank hc] at ho
          exact opensAfter_iff.2 ho
      · next hd =>
          refine .cons_cons ?_ (ih c _ id (fun _ => hs) hs.tail)
          cases inside with
          | false => exact (List.isChain_cons_cons.1 (hp rfl)).1
          | true =>
              -- the gap ends, and it ends with the brace
              have hc : isBlank c = false := by simpa using hd
              have ho := opensAfter_iff.1 (hi rfl)
              rw [skipBlank_cons_of_not_blank hc] at ho
              obtain ⟨rfl, he⟩ := ho
              cases he
              exact hR

/-- What held of neighbours still does when braces are joined to parentheses. -/
theorem isChain_joinOpenAfterClose {R : Char → Char → Prop} (hR : R ')' '{') {s : List Char}
    (hs : s.IsChain R) : (joinOpenAfterClose false s).IsChain R := by
  cases s with
  | nil => exact .nil
  | cons c s => exact isChain_cons_joinOpenAfterClose hR hs

/-- Where no white space stands before a brace, there is no gap in front of one. -/
theorem head?_of_skipBlank {s : List Char} (hs : s.IsChain (NoneBefore isBlank '{'))
    (h : (skipBlank s).head? = some '{') : s.head? = some '{' := by
  induction s with
  | nil => exact h
  | cons c s ih =>
      obtain ⟨hc, hs'⟩ := List.isChain_cons.1 hs
      cases hb : isBlank c with
      | false => rwa [skipBlank_cons_of_not_blank hb] at h
      | true =>
          rw [skipBlank_cons_of_blank hb] at h
          have := hc '{' (ih hs' h) rfl
          rw [hb] at this
          cases this

/-- Where no blank stands before a brace, nothing is joined. -/
theorem joinOpenAfterClose_eq_self {inside : Bool} {s : List Char}
    (hs : s.IsChain (NoneBefore isBlank '{')) (hi : inside = true → s.head? = some '{') :
    joinOpenAfterClose inside s = s := by
  induction s generalizing inside with
  | nil => rfl
  | cons c s ih =>
      have hd : (inside && isBlank c) = false := by
        cases inside with
        | false => rfl
        | true => cases hi rfl; decide
      rw [joinOpenAfterClose, hd]
      refine congrArg (c :: ·) (ih hs.tail fun ho => ?_)
      exact head?_of_skipBlank hs.tail (opensAfter_iff.1 ho).2

/-- A text without such a gap stays as it is. -/
theorem joinOpenAfterClose_of_none {s : List Char} (h : hasOpenAfterClose s = false) :
    joinOpenAfterClose false s = s := by
  induction s with
  | nil => rfl
  | cons c s ih =>
      obtain ⟨hc, hs⟩ : opensAfter c s = false ∧ hasOpenAfterClose s = false := by
        simpa [hasOpenAfterClose] using h
      simp only [joinOpenAfterClose, hc, ih hs, Bool.false_and]
      rfl

/-- Pairs that do not concern the parenthesis come from pairs before. -/
theorem lifts_joinOpenAfterClose {a b : Char} (ha : a ≠ ')') (hb : b ≠ ')') :
    Lifts a b (joinOpenAfterClose false) := by
  suffices h : ∀ s inside u v, joinOpenAfterClose inside s = u ++ a :: b :: v →
      ∃ u' v', s = u' ++ a :: b :: v' ∧ joinOpenAfterClose false v' = v from
    fun s u v => h s false u v
  have no : ∀ {c : Char} (s : List Char), c ≠ ')' → opensAfter c s = false := fun s hc => by
    simp [opensAfter, hc]
  intro s
  induction s with
  | nil => intro inside u v h; simp [joinOpenAfterClose] at h
  | cons c s ih =>
      intro inside u v h
      rw [joinOpenAfterClose] at h
      split at h
      · obtain ⟨u', v', rfl, hv⟩ := ih true u v h
        exact ⟨c :: u', v', rfl, hv⟩
      · cases u with
        | nil =>
            obtain ⟨rfl, hbs⟩ := List.cons.inj h
            rw [no s ha] at hbs
            cases s with
            | nil => cases hbs
            | cons d s =>
                rw [joinOpenAfterClose] at hbs
                obtain ⟨rfl, hv⟩ := List.cons.inj hbs
                rw [no s hb] at hv
                exact ⟨[], s, rfl, hv⟩
        | cons x u =>
            obtain ⟨rfl, hs⟩ := List.cons.inj h
            obtain ⟨u', v', rfl, hv⟩ := ih _ u v hs
            exact ⟨c :: u', v', rfl, hv⟩

/-! ### The eight passes -/

/-- The passes as one function on texts. -/
def tidy (s : List Char) : List Char :=
  dropBefore isBlankOrSemicolon '}' <| dropBefore isBlank '{' <|
    dropBlankAfter '}' false <| dropBlankAfter '{' false <| dropBefore isBlank '(' <|
      joinOpenAfterClose false <| dropBlankAfter ':' false <| dropBlankAfter ';' false s

theorem run_sequence_blankPasses (s : List Char) : (Edit.sequence blankPasses).run s = tidy s := by
  simp only [blankPasses, Edit.run_sequence_cons, Edit.run_changing]
  rw [Edit.run_whenever fun _ => joinOpenAfterClose_of_none,
    Edit.run_whenever fun _ => dropBefore_of_contains,
    Edit.run_whenever fun _ => dropBefore_of_contains]
  rfl

/-- **Minifying** is taking out comments and then tidying. -/
theorem minify_run_eq (s : List Char) : minify.run s = tidy (withoutComments s) := by
  rw [minify, Edit.run_andThen, run_dropComments, run_sequence_blankPasses]

/-- **After the passes all neighbours are tight.**  Each pass adds its own relation to those that
held before. -/
theorem isChain_tidy (s : List Char) : (tidy s).IsChain Tight := by
  have paren : isBlank '(' = false := by decide
  have opening : isBlank '{' = false := by decide
  have closing : isBlank '}' = false := by decide
  have h₀ : s.IsChain fun _ _ => True := by
    induction s with
    | nil => exact .nil
    | cons c s ih => exact List.isChain_cons.2 ⟨fun _ _ => trivial, ih⟩
  have h₁ := isChain_dropBlankAfter ';' (fun _ _ => trivial) h₀
  have h₂ := isChain_dropBlankAfter ':'
    (fun b hb => by simp [NoBlankAfter, hb]) h₁
  have h₃ := isChain_joinOpenAfterClose (by simp [NoBlankAfter]) h₂
  have h₄ := isChain_dropBefore isBlank '('
    (fun a _ => by simp [NoBlankAfter, paren]) h₃
  have h₅ := isChain_dropBlankAfter '{'
    (fun b hb => by simp [NoBlankAfter, NoneBefore, hb, opening]) h₄
  have h₆ := isChain_dropBlankAfter '}'
    (fun b hb => by simp [NoBlankAfter, NoneBefore, hb, closing]) h₅
  have h₇ := isChain_dropBefore isBlank '{'
    (fun a _ => by simp [NoBlankAfter, NoneBefore, opening]) h₆
  have h₈ := isChain_dropBefore isBlankOrSemicolon '}'
    (fun a _ => by simp [NoBlankAfter, NoneBefore, closing]) h₇
  refine h₈.imp fun a b h => ?_
  obtain ⟨⟨⟨⟨⟨⟨⟨-, h₁⟩, h₂⟩, h₄⟩, h₅⟩, h₆⟩, h₇⟩, h₈⟩ := h
  exact ⟨h₁, h₂, h₄, h₅, h₆, h₇, h₈⟩

/-- Tidying makes no new pair of other characters. -/
theorem lifts_tidy {a b : Char} (ha : a ∉ [';', ':', '(', ')', '{', '}'])
    (hb : b ∉ [';', ':', '(', ')', '{', '}']) : Lifts a b tidy := by
  simp only [List.mem_cons, List.not_mem_nil, or_false, not_or] at ha hb
  obtain ⟨a₁, a₂, a₃, a₄, a₅, a₆⟩ := ha
  obtain ⟨b₁, b₂, b₃, b₄, b₅, b₆⟩ := hb
  exact (lifts_dropBefore a₆ b₆).comp <| (lifts_dropBefore a₅ b₅).comp <|
    (lifts_dropBlankAfter a₆ b₆).comp <| (lifts_dropBlankAfter a₅ b₅).comp <|
    (lifts_dropBefore a₃ b₃).comp <| (lifts_joinOpenAfterClose a₄ b₄).comp <|
    (lifts_dropBlankAfter a₂ b₂).comp <| lifts_dropBlankAfter a₁ b₁

/-- What is tight stays as it is. -/
theorem tidy_eq_self {s : List Char} (h : s.IsChain Tight) : tidy s = s := by
  have after : ∀ {mark : Char}, s.IsChain (NoBlankAfter mark) → dropBlankAfter mark false s = s :=
    fun h => dropBlankAfter_eq_self h fun h => by cases h
  unfold tidy
  rw [after (h.imp fun _ _ => Tight.afterSemicolon), after (h.imp fun _ _ => Tight.afterColon),
    joinOpenAfterClose_eq_self (h.imp fun _ _ => Tight.beforeOpen) (fun h => by cases h),
    dropBefore_eq_self (h.imp fun _ _ => Tight.beforeParen),
    after (h.imp fun _ _ => Tight.afterOpen), after (h.imp fun _ _ => Tight.afterClose),
    dropBefore_eq_self (h.imp fun _ _ => Tight.beforeOpen),
    dropBefore_eq_self (h.imp fun _ _ => Tight.beforeClose)]

/-! ### Minification settles a text -/

/-- **Minification ends at a minified text.** -/
theorem minified_run (s : List Char) : Minified (minify.run s) := by
  rw [minify_run_eq]
  refine ⟨fun h => ?_, isChain_tidy _⟩
  exact not_hasComment_withoutComments s
    (h.of_lifts (lifts_tidy (by decide) (by decide)) (lifts_tidy (by decide) (by decide)))

/-- **A minified text stays as it is.** -/
theorem run_of_minified {s : List Char} (h : Minified s) : minify.run s = s := by
  rw [minify_run_eq, withoutComments_eq_self h.noComment, tidy_eq_self h.tight]

/-- **Minifying a document twice is minifying it once**, for any byte string. -/
theorem minify_apply_apply (doc : Bytes) :
    minify.apply (minify.apply doc) = minify.apply doc :=
  Edit.apply_apply (fun s => run_of_minified (minified_run s)) doc

end Restyle.Css
