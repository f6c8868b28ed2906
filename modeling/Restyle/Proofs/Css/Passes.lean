import Mathlib.Logic.Relation
import Restyle.Proofs.Css.Minify
import Restyle.Proofs.Css.Thinning

/-!
# Passes over lexemes

Each pass of the minifier drops single characters and knows no lexemes.  A neutral character, one that
is neither white space nor punctuation, parts a text for every pass (`Pass`): so a pass goes through
the text of a list of lexemes one lexeme at a time, and leaves the text of a thinned list
(`thinning_tidy`).
-/

namespace Restyle.Css

open Lexeme Token

/-! ### A pass and the lexemes it does not drop -/

/-- A text of which no pass drops anything. -/
structure Solid (v : List Char) : Prop where
  noBlank : ∀ c ∈ v, isBlank c = false
  noSemicolon : v.IsChain fun a b => b = '}' → a ≠ ';'

/-- A pass over a text, from a state that says whether white space goes at its start.  Behind a neutral
character it starts afresh, and `resume t` is its state between a closing parenthesis and `t`. -/
structure Pass (f : Bool → List Char → List Char) (resume : List Char → Bool) : Prop where
  split : ∀ {c : Char}, isNeutral c = true → ∀ b v t, f b (v ++ c :: t) = f b v ++ c :: f false t
  closing : ∀ b v t, f b (v ++ ')' :: t) = f b v ++ ')' :: f (resume t) t
  opening : ∀ t, f false ('(' :: t) = '(' :: f false t
  solid : ∀ b {v}, Solid v → f b v = v
  quotable : ∀ {q w}, isQuote q = true → quotable q w = true → quotable q (f false w) = true
  lifts : Lifts '/' '*' (f false)

theorem Solid.of_append {u v : List Char} (h : Solid (u ++ v)) : Solid u where
  noBlank c hc := h.noBlank c (List.mem_append_left v hc)
  noSemicolon := h.noSemicolon.left_of_append

theorem isNeutral_of_isQuote {q : Char} (hq : isQuote q = true) : isNeutral q = true :=
  forall_isQuote (P := (isNeutral · = true)) (by decide) (by decide) hq

/-- Text without blanks and closing braces is solid. -/
theorem solid_of_not_mem {v : List Char} (hblank : ∀ c ∈ v, isBlank c = false) (hbrace : '}' ∉ v) :
    Solid v where
  noBlank := hblank
  noSemicolon := by
    refine List.Pairwise.isChain (List.pairwise_of_forall_mem_list fun a _ b hb he => ?_)
    exact absurd (he ▸ hb) hbrace

/-- The characters of a url are solid. -/
theorem solid_of_isUrlChar {w : List Char} (hw : w.all isUrlChar = true) : Solid w := by
  rw [List.all_eq_true] at hw
  refine solid_of_not_mem (fun c hc => ?_) fun hbrace => absurd (hw _ hbrace) (by decide)
  have h := hw c hc
  simp only [isUrlChar, Bool.and_eq_true, Bool.not_eq_true'] at h
  exact h.1.1.1.2

/-- A word starts with no punctuation. -/
theorem not_border_of_wordy {c : Char} {s : List Char} (h : wordy (c :: s) = true) (hc : c ≠ '/') :
    c ∉ borders :=
  not_border_of_firm (firm_of_wordy h) hc

/-- In a word, a brace stands behind a backslash only. -/
theorem solid_of_wordy {w : List Char} (hw : wordy w = true) : Solid w := by
  have noBrace : ∀ {s : List Char}, wordy s = true → ∀ a, ∀ b ∈ s.head?, b = '}' → a ≠ ';' := by
    rintro s hs a b hb rfl
    obtain ⟨s, rfl⟩ := List.head?_eq_some_iff.1 hb
    exact absurd (by decide) (not_border_of_wordy hs (by decide))
  induction hlen : w.length using Nat.strongRecOn generalizing w with
  | ind len ih =>
      cases w with
      | nil => exact ⟨List.forall_mem_nil _, .nil⟩
      | cons c s =>
          rcases spelled_cases hw with ⟨hc, hs⟩ | ⟨d, r, rfl, rfl, hd, hr⟩
          · obtain ⟨hblank, hchain⟩ := ih s.length (by simp [← hlen]) hs rfl
            simp only [Bool.and_eq_true, Bool.not_eq_true'] at hc
            exact ⟨List.forall_mem_cons.2 ⟨hc.2, hblank⟩,
              List.isChain_cons.2 ⟨noBrace hs c, hchain⟩⟩
          · obtain ⟨hblank, hchain⟩ := ih r.length (by simp only [← hlen, List.length_cons]; omega) hr rfl
            simp only [Bool.and_eq_true, Bool.not_eq_true'] at hd
            refine ⟨List.forall_mem_cons.2 ⟨by decide, List.forall_mem_cons.2 ⟨hd.2, hblank⟩⟩, ?_⟩
            refine List.isChain_cons.2 ⟨fun _ _ _ => by decide, ?_⟩
            exact List.isChain_cons.2 ⟨noBrace hr d, hchain⟩

namespace Pass

variable {f : Bool → List Char → List Char} {resume : List Char → Bool}

theorem nil (hf : Pass f resume) (b : Bool) : f b [] = [] :=
  hf.solid b ⟨List.forall_mem_nil _, .nil⟩

/-- A text between quotes is gone through by itself. -/
theorem quote (hf : Pass f resume) {q : Char} (hq : isQuote q = true) (b : Bool) (w t : List Char) :
    f b (q :: (w ++ q :: t)) = q :: (f false w ++ q :: f false t) := by
  have hn := isNeutral_of_isQuote hq
  rw [← List.nil_append (q :: (w ++ q :: t)), hf.split hn, hf.split hn, hf.nil]
  rfl

/-- A pass opens no comment. -/
theorem not_opens (hf : Pass f resume) {w : List Char} (hw : ¬ ['/', '*'] <:+: w) :
    ¬ ['/', '*'] <:+: f false w := by
  rintro ⟨u, v, huv⟩
  obtain ⟨u', v', rfl, -⟩ := hf.lifts w u v (by rw [← huv]; simp)
  exact hw ⟨u', v', by simp⟩

/-- A url is passed up to its parenthesis. -/
theorem url (hf : Pass f resume) {name : List Char} (hname : isUrl name = true) (b : Bool)
    (t : List Char) : f b (name ++ '(' :: t) = name ++ '(' :: f false t := by
  obtain ⟨x, y, c, rfl, hx, hy, hc⟩ := exists_of_isUrl hname
  have hc' : isNeutral c = true := by rcases hc with rfl | rfl <;> decide
  have hsolid : Solid [x, y] := by
    rcases hx with rfl | rfl <;> rcases hy with rfl | rfl <;>
      exact solid_of_not_mem (List.forall_mem_cons.2 ⟨by decide, List.forall_mem_singleton.2 (by decide)⟩)
        (by decide)
  have h := hf.split hc' b [x, y] ('(' :: t)
  rwa [hf.opening, hf.solid b hsolid] at h

/-- The state of a pass behind a lexeme that is neither white space nor a mark. -/
def state (resume : List Char → Bool) : Lexeme → List Char → Bool
  | .url .., t => resume t
  | _, _ => false

/-- White space goes behind no word. -/
theorem frees_of_state {m : Lexeme} {open_ : Bool} {t : List Char} (h : state resume m t = true) :
    m.frees open_ = true := by
  cases m with
  | url => rfl
  | _ => cases h

/-- **A pass goes through words, strings and urls one at a time** and leaves a lexeme of the same
kind. -/
theorem literal (hf : Pass f resume) {m : Lexeme} (hm : m.Sound) (hspacing : m.isSpacing = false)
    (hmark : ∀ c, m ≠ mark c) :
    ∃ l, m.Alike l ∧ l.Sound ∧ ∀ b t, f b (m.text ++ t) = l.text ++ f (state resume m t) t := by
  cases m with
  | gap w => cases hspacing
  | note w => cases hspacing
  | mark c => exact absurd rfl (hmark c)
  | word w =>
      refine ⟨word w, .refl _, hm, fun b t => ?_⟩
      obtain ⟨⟨hne, hwordy, hlast⟩, -⟩ := hm
      -- the last character is neutral, so the pass goes on afresh behind the word
      obtain ⟨v, c, rfl⟩ := List.eq_nil_or_concat' w |>.resolve_left hne
      have hc : isNeutral c = true := by simpa using hlast
      have hsolid : Solid v := (solid_of_wordy hwordy).of_append
      have h := hf.split hc b v t
      rw [hf.solid b hsolid] at h
      simpa [text, state] using h
  | quoted q w =>
      obtain ⟨⟨hq, hw⟩, hopen⟩ := hm
      refine ⟨quoted q (f false w), .quoted q w _, ⟨⟨hq, hf.quotable hq hw⟩, hf.not_opens hopen⟩,
        fun b t => ?_⟩
      have h := hf.quote hq b w t
      simpa [text, state] using h
  | url name q w =>
      cases q with
      | none =>
          refine ⟨.url name none w, .refl _, hm, fun b t => ?_⟩
          obtain ⟨⟨hname, -, hw⟩, -⟩ := hm
          have h := hf.url hname b (w ++ ')' :: t)
          rw [hf.closing, hf.solid false (solid_of_isUrlChar hw)] at h
          simpa [text, state] using h
      | some q =>
          obtain ⟨⟨hname, hq, hw⟩, hopen⟩ := hm
          refine ⟨.url name (some q) (f false w), .url name _ w _,
            ⟨⟨hname, hq, hf.quotable hq hw⟩, hf.not_opens hopen⟩, fun b t => ?_⟩
          have h := hf.url hname b (q :: (w ++ q :: ')' :: t))
          have hclose := hf.closing false [] t
          rw [hf.nil, List.nil_append, List.nil_append] at hclose
          rw [hf.quote hq, hclose] at h
          simpa [text, state] using h

end Pass

/-! ### Passes that drop white space behind something -/

section Sweep

variable {begins : Char → List Char → Bool}

/-- Drops the white space behind every character `c` that stands before an `s` with `begins c s`. -/
def sweep (begins : Char → List Char → Bool) (b : Bool) : List Char → List Char
  | [] => []
  | c :: s => if b && isBlank c then sweep begins true s else c :: sweep begins (begins c s) s

/-- Dropping blanks behind a mark is a sweep. -/
theorem dropBlankAfter_eq_sweep (k : Char) (b : Bool) (s : List Char) :
    dropBlankAfter k b s = sweep (fun c _ => c == k) b s := by
  induction s generalizing b with
  | nil => rfl
  | cons c s ih => simp only [dropBlankAfter, sweep, ih]

/-- Joining braces to parentheses is a sweep. -/
theorem joinOpenAfterClose_eq_sweep (b : Bool) (s : List Char) :
    joinOpenAfterClose b s = sweep opensAfter b s := by
  induction s generalizing b with
  | nil => rfl
  | cons c s ih => simp only [joinOpenAfterClose, sweep, ih]

/-- A sweep begins behind punctuation only, and looks no further than the next neutral character or
closing parenthesis. -/
structure Begins (begins : Char → List Char → Bool) : Prop where
  only : ∀ {c s}, begins c s = true → c ∈ breaks ∧ c ≠ '('
  near : ∀ {c}, isNeutral c = true ∨ c = ')' → ∀ d v t, begins d (v ++ c :: t) = begins d v

namespace Begins

/-- A sweep begins at breaks only. -/
theorem of_not_mem (h : Begins begins) {c : Char} (hc : c ∉ breaks) (s : List Char) :
    begins c s = false := by
  cases hb : begins c s with
  | false => rfl
  | true => exact absurd (h.only hb).1 hc

/-- A sweep can be made in two goes, parted at a neutral character or a closing parenthesis. -/
theorem append_cons (h : Begins begins) {c : Char} (hc : isNeutral c = true ∨ c = ')') (b : Bool)
    (v t : List Char) :
    sweep begins b (v ++ c :: t) = sweep begins b v ++ c :: sweep begins (begins c t) t := by
  have hblank : isBlank c = false := by
    rcases hc with hc | rfl
    · exact isBlank_of_isNeutral hc
    · decide
  induction v generalizing b with
  | nil => simp [sweep, hblank]
  | cons d v ih =>
      simp only [List.cons_append, sweep, ih, h.near hc]
      split <;> rfl

/-- Solid text is left as it is by a sweep. -/
theorem of_solid (begins : Char → List Char → Bool) (b : Bool) {v : List Char} (hv : Solid v) :
    sweep begins b v = v := by
  have hblank := hv.noBlank
  clear hv
  induction v generalizing b with
  | nil => rfl
  | cons c v ih =>
      rw [List.forall_mem_cons] at hblank
      rw [sweep, hblank.1, Bool.and_false, if_neg (by decide), ih _ hblank.2]

/-- What is spelled out still is after a sweep. -/
theorem spelled_sweep (h : Begins begins) {plain escaped : Char → Bool} (hback : plain '\\' = false)
    {s : List Char} (hs : spelled plain escaped s = true) (b : Bool) :
    spelled plain escaped (sweep begins b s) = true := by
  induction hlen : s.length using Nat.strongRecOn generalizing s b with
  | ind len ih =>
      cases s with
      | nil => rfl
      | cons c s =>
          rcases spelled_cases hs with ⟨hc, hr⟩ | ⟨d, r, rfl, rfl, hd, hr⟩
          · have hne : c ≠ '\\' := by rintro rfl; rw [hback] at hc; cases hc
            have hrest := fun b => ih s.length (by simp [← hlen]) hr b rfl
            rw [sweep]
            split
            · exact hrest true
            · rw [spelled_cons hne, hc, hrest]
              rfl
          · have hrest := fun b => ih r.length (by simp only [← hlen, List.length_cons]; omega) hr b rfl
            -- nothing goes behind the backslash
            have hkept : sweep begins b ('\\' :: d :: r) =
                '\\' :: d :: sweep begins (begins d r) r := by
              have hblank : isBlank '\\' = false := by decide
              simp [sweep, hblank, h.of_not_mem (c := '\\') (by decide)]
            rw [hkept, spelled, hd, hrest]
            rfl

/-- A sweep that makes no new pair is a pass. -/
theorem pass (h : Begins begins) (hlifts : Lifts '/' '*' (sweep begins false)) :
    Pass (sweep begins) (begins ')') where
  split := by
    intro c hc b v t
    rw [h.append_cons (.inl hc), h.of_not_mem fun hm => ne_of_isNeutral hc hm rfl]
  closing := h.append_cons (.inr rfl)
  opening := fun t => by
    have hopening : begins '(' t = false := by
      cases hb : begins '(' t with
      | false => rfl
      | true => exact absurd rfl (h.only hb).2
    rw [sweep, hopening]
    rfl
  solid := fun b _ hv => of_solid begins b hv
  quotable := fun _ hw => h.spelled_sweep (by simp) hw false
  lifts := hlifts

end Begins

/-- A sweep behind one of the marks begins as it should. -/
theorem begins_after {k : Char} (hk : k ∈ [';', ':', '{', '}']) : Begins fun c _ => c == k where
  only := by
    intro c _ hc
    obtain rfl : c = k := by simpa using hc
    simp only [List.mem_cons, List.not_mem_nil, or_false] at hk
    rcases hk with rfl | rfl | rfl | rfl <;> decide
  near := fun _ _ _ _ => rfl

/-- A sweep behind a closing parenthesis begins as it should. -/
theorem begins_opensAfter : Begins opensAfter where
  only := by
    intro c s hc
    obtain ⟨rfl, -⟩ := opensAfter_iff.1 hc
    decide
  near := by
    intro c hc d v t
    have hfree : isBlank c = false ∧ c ≠ '{' := by
      rcases hc with hc | rfl
      · exact ⟨isBlank_of_isNeutral hc, ne_of_isNeutral hc (by decide)⟩
      · decide
    have hhead : (skipBlank (v ++ c :: t)).head? = some '{' ↔ (skipBlank v).head? = some '{' := by
      rw [skipBlank_append_of_not_blank (by rintro x ⟨⟩; exact hfree.1)]
      cases skipBlank v with
      | nil => simpa using hfree.2
      | cons x u => rfl
    rw [Bool.eq_iff_iff, opensAfter_iff, opensAfter_iff, hhead]

end Sweep

/-! ### Passes that drop what stands before a mark -/

section DropBefore

variable {drop : Char → Bool} {k : Char}

/-- Dropping can be done in two goes, parted at a character that stays. -/
theorem dropBefore_append_cons {c : Char} (hc : drop c = false) (hk : c ≠ k) (v t : List Char) :
    dropBefore drop k (v ++ c :: t) = dropBefore drop k v ++ c :: dropBefore drop k t := by
  induction v with
  | nil => simp [dropBefore, hc]
  | cons d v ih =>
      rw [List.cons_append, dropBefore_cons, dropBefore_cons, ih]
      have hhead : ((dropBefore drop k v ++ c :: dropBefore drop k t).head? == some k) =
          ((dropBefore drop k v).head? == some k) := by
        cases dropBefore drop k v with
        | nil => simpa using hk
        | cons x u => rfl
      rw [hhead]
      split <;> rfl

/-- What is spelled out still is after dropping. -/
theorem spelled_dropBefore {plain escaped : Char → Bool} (hback : plain '\\' = false)
    (hdrop : drop '\\' = false) (hk : k ≠ '\\') (hescaped : escaped k = true) {s : List Char}
    (hs : spelled plain escaped s = true) : spelled plain escaped (dropBefore drop k s) = true := by
  induction hlen : s.length using Nat.strongRecOn generalizing s with
  | ind len ih =>
      cases s with
      | nil => rfl
      | cons c s =>
          rw [dropBefore_cons]
          rcases spelled_cases hs with ⟨hc, hr⟩ | ⟨d, r, rfl, rfl, hd, hr⟩
          · have hne : c ≠ '\\' := by rintro rfl; rw [hback] at hc; cases hc
            have hrest := ih s.length (by simp [← hlen]) hr rfl
            split
            · exact hrest
            · rw [spelled_cons hne, hc, hrest]
              rfl
          · have hrest := ih r.length (by simp only [← hlen, List.length_cons]; omega) hr rfl
            rw [hdrop, Bool.false_and, if_neg (by decide), dropBefore_cons]
            split
            · next hd =>
                -- the mark takes the place of what the backslash stood before
                simp only [Bool.and_eq_true, beq_iff_eq] at hd
                obtain ⟨v, hv⟩ := List.head?_eq_some_iff.1 hd.2
                rw [hv] at hrest ⊢
                rw [spelled, hescaped, spelled_tail hrest hk]
                rfl
            · rw [spelled, hd, hrest]
              rfl

/-- What a pass drops before `k`: white space, and semicolons before a closing brace. -/
structure Drops (drop : Char → Bool) (k : Char) : Prop where
  blank : ∀ {c}, isBlank c = true → drop c = true
  only : ∀ {c}, drop c = true → isBlank c = true ∨ (c = ';' ∧ k = '}')
  bracket : k ∈ ['(', '{', '}']

namespace Drops

/-- Only blanks and semicolons are dropped. -/
theorem not_drop (h : Drops drop k) {c : Char} (hblank : isBlank c = false) (hc : c ≠ ';') :
    drop c = false := by
  cases hd : drop c with
  | false => rfl
  | true =>
      rcases h.only hd with hb | hb
      · rw [hblank] at hb; cases hb
      · exact absurd hb.1 hc

/-- Solid text is left as it is. -/
theorem eq_self (h : Drops drop k) {v : List Char} (hv : Solid v) : dropBefore drop k v = v := by
  obtain ⟨hblank, hchain⟩ := hv
  induction v with
  | nil => rfl
  | cons c v ih =>
      rw [List.forall_mem_cons] at hblank
      rw [List.isChain_cons] at hchain
      rw [dropBefore_cons, ih hblank.2 hchain.2, if_neg]
      intro hd
      simp only [Bool.and_eq_true, beq_iff_eq] at hd
      rcases h.only hd.1 with hb | ⟨hc, hk⟩
      · rw [hblank.1] at hb
        cases hb
      · exact hchain.1 k hd.2 hk hc

/-- Dropping is a pass. -/
theorem pass (h : Drops drop k) : Pass (fun _ => dropBefore drop k) fun _ => false := by
  have hbreak : k ∈ breaks ∧ k ∉ [')', '\\', '/', '*'] ∧ k.toNat < 0x80 ∧ isNewline k = false := by
    have hk := h.bracket
    simp only [List.mem_cons, List.not_mem_nil, or_false] at hk
    rcases hk with rfl | rfl | rfl <;> decide
  obtain ⟨hbreak, hnot, hlow, hline⟩ := hbreak
  simp only [List.mem_cons, List.not_mem_nil, or_false, not_or] at hnot
  obtain ⟨hclosing, hback, hslash, hstar⟩ := hnot
  exact {
    split := fun {c} hc _ v t =>
      dropBefore_append_cons (h.not_drop (isBlank_of_isNeutral hc) (ne_of_isNeutral hc (by decide)))
        (ne_of_isNeutral hc hbreak) v t
    closing := fun _ v t =>
      dropBefore_append_cons (h.not_drop (by decide) (by decide)) (Ne.symm hclosing) v t
    opening := fun t => by
      rw [dropBefore_cons, h.not_drop (by decide) (by decide)]
      rfl
    solid := fun _ _ hv => h.eq_self hv
    quotable := fun hq hw =>
      spelled_dropBefore (by simp) (h.not_drop (by decide) (by decide)) hback (by simp [hlow, hline]) hw
    lifts := lifts_dropBefore (Ne.symm hslash) (Ne.symm hstar) }

end Drops

end DropBefore

/-! ### From lexeme to lexeme -/

/-- `f` leaves, of the text of sound lexemes without comments, the text of a thinned list. -/
def Thinning (f : List Char → List Char) : Prop :=
  ∀ ms : List Lexeme, (∀ m ∈ ms, m.Sound) → (∀ m ∈ ms, m.isNote = false) →
    ∃ ls, texts ls = f (texts ms) ∧ Relation.ReflTransGen (Thins true) ms ls

/-- What is thinned stays sound. -/
theorem sound_of_thins {ms ls : List Lexeme} (h : Relation.ReflTransGen (Thins true) ms ls)
    (hms : ∀ m ∈ ms, m.Sound) : ∀ l ∈ ls, l.Sound := by
  induction h with
  | refl => exact hms
  | tail _ hstep _ => exact hstep.sound

/-- Thinning adds no comment. -/
theorem isNote_of_thins {ms ls : List Lexeme} (h : Relation.ReflTransGen (Thins true) ms ls)
    (hms : ∀ m ∈ ms, m.isNote = false) : ∀ l ∈ ls, l.isNote = false := by
  induction h with
  | refl => exact hms
  | tail _ hstep ih => exact hstep.isNote_eq ih

/-- Two thinnings after each other are one. -/
theorem Thinning.comp {f g : List Char → List Char} (hf : Thinning f) (hg : Thinning g) :
    Thinning fun s => f (g s) := by
  intro ms hsound hnote
  obtain ⟨ls, hls, hthins⟩ := hg ms hsound hnote
  obtain ⟨rs, hrs, hthins'⟩ := hf ls (sound_of_thins hthins hsound) (isNote_of_thins hthins hnote)
  exact ⟨rs, by rw [hrs, hls], hthins.trans hthins'⟩

theorem isBlank_of_isSpace {c : Char} (hc : isSpace c = true) : isBlank c = true := by
  rcases space_cases hc with rfl | rfl | rfl | rfl | rfl <;> decide

theorem isBlank_of_mem_marks {c : Char} (hc : c ∈ marks) : isBlank c = false := by
  simpa using List.all_eq_true.1 (show marks.all (!isBlank ·) = true by decide) c hc

/-- A sweep does not begin at a blank. -/
theorem not_break_of_isBlank {c : Char} (hc : isBlank c = true) : c ∉ breaks := by
  intro hb
  have : isBlank c = false := by
    simpa using List.all_eq_true.1 (show breaks.all (!isBlank ·) = true by decide) c hb
  rw [hc] at this
  cases this

/-- Blanks are swept away or kept as a whole. -/
theorem Begins.blank {begins : Char → List Char → Bool} (h : Begins begins) {w : List Char}
    (hw : ∀ c ∈ w, isBlank c = true) (b : Bool) (t : List Char) :
    sweep begins b (w ++ t) = if b then sweep begins true t else w ++ sweep begins false t := by
  induction w generalizing b with
  | nil => cases b <;> rfl
  | cons c w ih =>
      rw [List.forall_mem_cons] at hw
      rw [List.cons_append, sweep, hw.1, h.of_not_mem (not_break_of_isBlank hw.1), ih hw.2, ih hw.2]
      cases b <;> rfl

/-- **A sweep thins**: what it drops at the start of a list follows no word. -/
theorem Begins.thinning {begins : Char → List Char → Bool} (h : Begins begins)
    (hlifts : Lifts '/' '*' (sweep begins false)) : Thinning (sweep begins false) := by
  suffices H : ∀ ms : List Lexeme, (∀ m ∈ ms, m.Sound) → (∀ m ∈ ms, m.isNote = false) →
      ∀ b open_, (b = true → open_ = true) →
        ∃ ls, texts ls = sweep begins b (texts ms) ∧ Thins open_ ms ls by
    intro ms hsound hnote
    obtain ⟨ls, hls, hthins⟩ := H ms hsound hnote false true fun _ => rfl
    exact ⟨ls, hls, .single hthins⟩
  intro ms hsound hnote
  induction ms with
  | nil => exact fun b open_ _ => ⟨[], rfl, .nil open_⟩
  | cons m ms ih =>
      intro b open_ hb
      rw [List.forall_mem_cons] at hsound hnote
      have ih := ih hsound.2 hnote.2
      obtain ⟨hm, -⟩ := hsound
      have hliteral : m.isSpacing = false → (∀ c, m ≠ mark c) →
          ∃ ls, texts ls = sweep begins b (texts (m :: ms)) ∧ Thins open_ (m :: ms) ls := by
        intro hspacing hmark
        obtain ⟨l, halike, hl, htext⟩ := (h.pass hlifts).literal hm hspacing hmark
        obtain ⟨ls, hls, hthins⟩ := ih _ (m.frees open_) Pass.frees_of_state
        exact ⟨l :: ls, by rw [texts_cons, texts_cons, htext, hls], .keep halike hl hthins⟩
      cases m with
      | gap w =>
          have hblank := h.blank (w := w) (fun c hc => isBlank_of_isSpace (List.all_eq_true.1 hm.2 c hc)) b
            (texts ms)
          rw [texts_cons, text, hblank]
          cases b with
          | true =>
              obtain ⟨ls, hls, hthins⟩ := ih true open_ hb
              exact ⟨ls, hls, .gap w (.inl (hb rfl)) hthins⟩
          | false =>
              obtain ⟨ls, hls, hthins⟩ := ih false true fun hb => by cases hb
              exact ⟨gap w :: ls, by rw [texts_cons, hls]; rfl, .keep (.refl _) hm hthins⟩
      | note w => cases hnote.1
      | mark c =>
          obtain ⟨ls, hls, hthins⟩ := ih (begins c (texts ms)) true fun _ => rfl
          refine ⟨mark c :: ls, ?_, .keep (.refl _) hm hthins⟩
          rw [texts_cons, texts_cons, hls, text, List.singleton_append, List.singleton_append, sweep,
            isBlank_of_mem_marks hm, Bool.and_false, if_neg (by decide)]
      | word w => exact hliteral rfl fun _ hmark => by cases hmark
      | quoted q w => exact hliteral rfl fun _ hmark => by cases hmark
      | url name q w => exact hliteral rfl fun _ hmark => by cases hmark

/-- Only a mark starts with a parenthesis or a brace. -/
theorem head?_of_texts {k : Char} (hk : k ∈ ['(', '{', '}']) {ls : List Lexeme}
    (hls : ∀ l ∈ ls, l.Sound) (h : (texts ls).head? = some k) : ls.head? = some (mark k) := by
  have hborder : k ∈ borders ∧ k ≠ '/' ∧ isBlank k = false ∧ isQuote k = false ∧ k.isAlpha = false := by
    simp only [List.mem_cons, List.not_mem_nil, or_false] at hk
    rcases hk with rfl | rfl | rfl <;> decide
  obtain ⟨hborder, hslash, hblank, hquote, halpha⟩ := hborder
  cases ls with
  | nil => cases h
  | cons l ls =>
      have hl := hls l List.mem_cons_self
      -- each other kind of lexeme begins with something else
      cases l with
      | gap w =>
          obtain ⟨hne, hw⟩ := hl
          obtain ⟨c, w, rfl⟩ := List.exists_cons_of_ne_nil hne
          cases h
          rw [List.all_cons, Bool.and_eq_true] at hw
          rw [isBlank_of_isSpace hw.1] at hblank
          cases hblank
      | note w =>
          cases h
          exact absurd rfl hslash
      | mark c =>
          cases h
          rfl
      | word w =>
          obtain ⟨⟨hne, hw, -⟩, -⟩ := hl
          obtain ⟨c, w, rfl⟩ := List.exists_cons_of_ne_nil hne
          cases h
          exact absurd hborder (not_border_of_wordy hw hslash)
      | quoted q w =>
          cases h
          rw [hl.1.1] at hquote
          cases hquote
      | url name q w =>
          have hname : isUrl name = true := by cases q <;> exact hl.1.1
          obtain ⟨x, y, z, rfl, hx, -⟩ := exists_of_isUrl hname
          cases h
          rcases hx with rfl | rfl <;> cases halpha

namespace Drops

variable {drop : Char → Bool} {k : Char}

/-- Blanks before a mark are dropped as a whole, or not at all. -/
theorem blank_append (h : Drops drop k) {w : List Char} (hw : ∀ c ∈ w, isBlank c = true)
    (t : List Char) : dropBefore drop k (w ++ t) =
      if (dropBefore drop k t).head? = some k then dropBefore drop k t
      else w ++ dropBefore drop k t := by
  have hk : isBlank k = false := by
    have hk := h.bracket
    simp only [List.mem_cons, List.not_mem_nil, or_false] at hk
    rcases hk with rfl | rfl | rfl <;> decide
  induction w with
  | nil => split <;> rfl
  | cons c w ih =>
      rw [List.forall_mem_cons] at hw
      rw [List.cons_append, dropBefore_cons, h.blank hw.1, ih hw.2]
      split
      · next hhead => simp [hhead]
      · next hhead =>
          have hne : (w ++ dropBefore drop k t).head? ≠ some k := by
            cases w with
            | nil => exact hhead
            | cons d w =>
                rintro ⟨⟩
                rw [hw.2 k List.mem_cons_self] at hk
                cases hk
          rw [beq_eq_false_iff_ne.2 hne]
          rfl

/-- **Dropping before a mark thins.** -/
theorem thinning (h : Drops drop k) : Thinning (dropBefore drop k) := by
  suffices H : ∀ ms : List Lexeme, (∀ m ∈ ms, m.Sound) → (∀ m ∈ ms, m.isNote = false) →
      ∃ ls, texts ls = dropBefore drop k (texts ms) ∧ ∀ open_, Thins open_ ms ls by
    intro ms hsound hnote
    obtain ⟨ls, hls, hthins⟩ := H ms hsound hnote
    exact ⟨ls, hls, .single (hthins true)⟩
  intro ms hsound hnote
  induction ms with
  | nil => exact ⟨[], rfl, .nil⟩
  | cons m ms ih =>
      rw [List.forall_mem_cons] at hsound hnote
      obtain ⟨ls, hls, hthins⟩ := ih hsound.2 hnote.2
      obtain ⟨hm, -⟩ := hsound
      have hhead : (texts ls).head? = some k → ls.head? = some (mark k) :=
        head?_of_texts h.bracket (hthins true).sound
      have hliteral : m.isSpacing = false → (∀ c, m ≠ mark c) →
          ∃ ls, texts ls = dropBefore drop k (texts (m :: ms)) ∧ ∀ open_, Thins open_ (m :: ms) ls := by
        intro hspacing hmark
        obtain ⟨l, halike, hl, htext⟩ := h.pass.literal hm hspacing hmark
        exact ⟨l :: ls, by rw [texts_cons, texts_cons, htext false, hls],
          fun _ => .keep halike hl (hthins _)⟩
      cases m with
      | gap w =>
          rw [texts_cons, text,
            h.blank_append fun c hc => isBlank_of_isSpace (List.all_eq_true.1 hm.2 c hc), ← hls]
          split
          · next hk => exact ⟨ls, rfl, fun _ => .gap w (.inr ⟨k, hhead hk⟩) (hthins _)⟩
          · exact ⟨gap w :: ls, rfl, fun _ => .keep (.refl _) hm (hthins _)⟩
      | note w => cases hnote.1
      | mark c =>
          rw [texts_cons, text, List.singleton_append, dropBefore_cons, ← hls]
          split
          · next hd =>
              -- only a semicolon goes, and only before a closing brace
              simp only [Bool.and_eq_true, beq_iff_eq] at hd
              obtain ⟨rfl, rfl⟩ := (h.only hd.1).resolve_left fun hb => by
                rw [isBlank_of_mem_marks hm] at hb
                cases hb
              exact ⟨ls, rfl, fun _ => .semicolon (hhead hd.2) (hthins _)⟩
          · exact ⟨mark c :: ls, rfl, fun _ => .keep (.refl _) hm (hthins _)⟩
      | word w => exact hliteral rfl fun _ hmark => by cases hmark
      | quoted q w => exact hliteral rfl fun _ hmark => by cases hmark
      | url name q w => exact hliteral rfl fun _ hmark => by cases hmark

end Drops

theorem drops_isBlank {k : Char} (hk : k ∈ ['(', '{', '}']) : Drops isBlank k where
  blank := id
  only := .inl
  bracket := hk

theorem drops_isBlankOrSemicolon : Drops isBlankOrSemicolon '}' where
  blank := fun hc => by simp [isBlankOrSemicolon, hc]
  only := fun {c} hc => by
    rw [isBlankOrSemicolon, Bool.or_eq_true, beq_iff_eq] at hc
    exact hc.elim (fun hc => .inr ⟨hc, rfl⟩) .inl
  bracket := by decide

/-- **Dropping blanks behind a mark** thins a list of lexemes. -/
theorem thinning_dropBlankAfter {k : Char} (hk : k ∈ [';', ':', '{', '}']) :
    Thinning (dropBlankAfter k false) := by
  have hne : '/' ≠ k ∧ '*' ≠ k := by
    simp only [List.mem_cons, List.not_mem_nil, or_false] at hk
    rcases hk with rfl | rfl | rfl | rfl <;> decide
  have hlifts := lifts_dropBlankAfter hne.1 hne.2
  rw [funext (dropBlankAfter_eq_sweep k false)] at hlifts ⊢
  exact (begins_after hk).thinning hlifts

/-- **Joining braces to parentheses** thins a list of lexemes. -/
theorem thinning_joinOpenAfterClose : Thinning (joinOpenAfterClose false) := by
  have hlifts := lifts_joinOpenAfterClose (a := '/') (b := '*') (by decide) (by decide)
  rw [funext (joinOpenAfterClose_eq_sweep false)] at hlifts ⊢
  exact begins_opensAfter.thinning hlifts

/-- The eight passes together thin. -/
theorem thinning_tidy : Thinning tidy :=
  drops_isBlankOrSemicolon.thinning.comp <| (drops_isBlank (by decide)).thinning.comp <|
    (thinning_dropBlankAfter (by decide)).comp <| (thinning_dropBlankAfter (by decide)).comp <|
    (drops_isBlank (by decide)).thinning.comp <| thinning_joinOpenAfterClose.comp <|
    (thinning_dropBlankAfter (by decide)).comp <| thinning_dropBlankAfter (by decide)

end Restyle.Css
