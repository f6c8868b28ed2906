import Restyle.Proofs.Css.Literal
import Restyle.Text.Blank

/-!
# Stylesheets as lists of lexemes

A *lexeme* is a piece of a stylesheet that the lexer and a reader of plain text see alike: white
space, a comment, a punctuation mark, a word, a string or a url.  A lexeme is *sound* when its text
has the form that its kind asks for, and a list of lexemes *fits* when no word runs on into what
stands behind it (`fits`); `calls` asks for a little more where declarations begin.

`core_view_texts`: the tokens of such a text, but for white space and comments, are those of its
lexemes.
-/

namespace Restyle.Css

open Token

/-- A piece of a stylesheet. -/
inductive Lexeme where
  | gap (w : List Char)
  | note (w : List Char)
  | mark (c : Char)
  | word (w : List Char)
  | quoted (q : Char) (w : List Char)
  /-- A url with its name as it is written; its address may stand between quotes. -/
  | url (name : List Char) (q : Option Char) (w : List Char)
  deriving Repr, DecidableEq

namespace Lexeme

def text : Lexeme → List Char
  | gap w => w
  | note w => '/' :: '*' :: (w ++ ['*', '/'])
  | mark c => [c]
  | word w => w
  | quoted q w => q :: (w ++ [q])
  | url name q w => name ++ '(' :: (q.toList ++ (w ++ (q.toList ++ [')'])))

def texts (ms : List Lexeme) : List Char :=
  ms.flatMap text

@[simp] theorem texts_nil : texts [] = [] :=
  rfl

@[simp] theorem texts_cons (m : Lexeme) (ms : List Lexeme) : texts (m :: ms) = m.text ++ texts ms :=
  rfl

/-! ### Soundness -/

/-- Characters that stand for themselves. -/
def marks : List Char :=
  [';', ':', ',', '(', ')', '{', '}']

/-- The marks that white space may go beside. -/
def breaks : List Char :=
  [';', ':', '(', ')', '{', '}']

/-- A character that neither is white space nor has white space dropped beside it. -/
def isNeutral (c : Char) : Bool :=
  !isBlank c && !breaks.contains c

/-- A neutral character is no blank. -/
theorem isBlank_of_isNeutral {c : Char} (hc : isNeutral c = true) : isBlank c = false := by
  simp only [isNeutral, Bool.and_eq_true, Bool.not_eq_true'] at hc
  exact hc.1

/-- A neutral character is none of those at which a word breaks. -/
theorem ne_of_isNeutral {c k : Char} (hc : isNeutral c = true) (hk : k ∈ breaks) : c ≠ k := by
  rintro rfl
  simp [isNeutral, hk] at hc

/-- A text that may stand in a word, and without white space of any kind. -/
abbrev wordy (w : List Char) : Bool :=
  spelled (fun c => isPlain c && !isBlank c) (fun c => isEscapable c && !isBlank c) w

/-- `url`, in any case. -/
def isUrl (name : List Char) : Bool :=
  name.map Char.toLower == ['u', 'r', 'l']

/-- The text of a lexeme has the form of its kind.  No lexeme but a comment opens a comment. -/
def Sound : Lexeme → Prop
  | gap w => w ≠ [] ∧ w.all isSpace = true
  | note w => ¬ ['*', '/'] <:+: w
  | mark c => c ∈ marks
  | word w =>
    (w ≠ [] ∧ wordy w = true ∧ w.getLast?.all isNeutral = true) ∧ ¬ ['/', '*'] <:+: w
  | quoted q w => (isQuote q = true ∧ quotable q w = true) ∧ ¬ ['/', '*'] <:+: w
  | url name none w =>
    (isUrl name = true ∧ w ≠ [] ∧ w.all isUrlChar = true) ∧ ¬ ['/', '*'] <:+: w
  | url name (some q) w =>
    (isUrl name = true ∧ isQuote q = true ∧ quotable q w = true) ∧ ¬ ['/', '*'] <:+: w

instance : DecidablePred Sound
  | gap _ => inferInstanceAs (Decidable (_ ∧ _))
  | note _ => inferInstanceAs (Decidable (¬ _))
  | mark c => inferInstanceAs (Decidable (c ∈ marks))
  | word _ => inferInstanceAs (Decidable (_ ∧ _))
  | quoted _ _ => inferInstanceAs (Decidable (_ ∧ _))
  | url _ none _ => inferInstanceAs (Decidable (_ ∧ _))
  | url _ (some _) _ => inferInstanceAs (Decidable (_ ∧ _))

/-! ### Neighbours -/

/-- Whether it is a comment. -/
def isNote : Lexeme → Bool
  | note _ => true
  | _ => false

/-- Whether it stands for nothing that is read. -/
def isSpacing : Lexeme → Bool
  | gap _ | note _ => true
  | _ => false

/-- What follows when comments go. -/
def follower (ms : List Lexeme) : Option Lexeme :=
  ms.find? (! ·.isNote)

/-- What follows when comments and white space go. -/
def ahead (ms : List Lexeme) : Option Lexeme :=
  ms.find? (! ·.isSpacing)

/-- The word `u` ends where it stands before `ms`, with or without the comments in between, and is no
`url` to a parenthesis that comes next. -/
def meets (u : List Char) (ms : List Lexeme) : Bool :=
  (match follower ms with
    | some (word _) | some (url ..) => false
    | some (gap _) => !endsInHex (view u)
    | _ => true) &&
  (ahead ms != some (mark '(') || callable (view u))

/-- Every word meets something that does not go on with it. -/
def fits : List Lexeme → Bool
  | [] => true
  | word u :: ms => meets u ms && fits ms
  | _ :: ms => fits ms

/-- What fits still does without its first lexeme. -/
theorem fits_of_cons {m : Lexeme} {ms : List Lexeme} (h : fits (m :: ms) = true) :
    fits ms = true := by
  cases m with
  | word u =>
      rw [fits, Bool.and_eq_true] at h
      exact h.2
  | _ => exact h

/-- No name that may begin a declaration stands apart from a parenthesis behind it: side by side they
would be a function, and none begins a declaration.  `fresh` says that an item may begin here, or has
begun with asterisks alone. -/
def calls (fresh : Bool) : List Lexeme → Bool
  | [] => true
  | gap _ :: ms | note _ :: ms => calls fresh ms
  | mark c :: ms => calls (c == ';' || c == '{' || c == '}') ms
  | word u :: ms =>
    (!fresh || ms.head? == some (mark '(') || ahead ms != some (mark '(') ||
      (lex (view u)).getLast? != some .ident) &&
    calls (fresh && (lex (view u)).all (· == .delim '*')) ms
  | quoted .. :: ms | url .. :: ms => calls false ms

/-! ### Tokens -/

/-- The token of a mark. -/
def markToken : Char → Token
  | ';' => .semicolon
  | ':' => .colon
  | '(' => .opening
  | ')' => .closing
  | '{' => .leftBrace
  | '}' => .rightBrace
  | _ => .other

/-- The tokens of a word before `ms`: a name directly before a parenthesis is part of what opens. -/
def wordTokens (u : List Char) (ms : List Lexeme) : List Token :=
  if ms.head? = some (mark '(') then withoutName (lex (view u)) else lex (view u)

/-- The tokens of a text, without white space and comments. -/
def reading : List Lexeme → List Token
  | [] => []
  | gap _ :: ms | note _ :: ms => reading ms
  | mark c :: ms => markToken c :: reading ms
  | word u :: ms => wordTokens u ms ++ reading ms
  | quoted .. :: ms | url .. :: ms => .other :: reading ms

end Lexeme

/-! ### The tokens that are read -/

/-- A token that is neither white space nor a comment. -/
def isRead (t : Token) : Bool :=
  t != .blank && t != .comment

/-- The tokens of a text without white space and comments. -/
def core (s : List Char) : List Token :=
  (lex s).filter isRead

/-- White space has no part in what is read. -/
theorem core_of_space {c : Char} (hc : isSpace c = true) (s : List Char) : core (c :: s) = core s := by
  have hblank : ∀ {c : Char}, isSpace c = true → ∀ s,
      lex (c :: s) = .blank :: lex (s.dropWhile isSpace) := by
    intro c hc s
    have hnext : next c s = (.blank, s.dropWhile isSpace) := by
      simp [next, recognisers, hc, blank?]
    rw [lex_cons, hnext]
  have hstep : core (c :: s) = core (s.dropWhile isSpace) := by
    rw [core, hblank hc]
    rfl
  rw [hstep]
  cases s with
  | nil => rfl
  | cons d s =>
      cases hd : isSpace d with
      | false => rw [List.dropWhile_cons_of_neg (by simp [hd])]
      | true =>
          rw [List.dropWhile_cons_of_pos hd, core, core, hblank hd]
          rfl

theorem core_spaces {w : List Char} (hw : w.all isSpace = true) (t : List Char) :
    core (w ++ t) = core t := by
  induction w with
  | nil => rfl
  | cons c w ih =>
      rw [List.all_cons, Bool.and_eq_true] at hw
      rw [List.cons_append, core_of_space hw.1, ih hw.2]

theorem lex_mark {c : Char} (hc : c ∈ Lexeme.marks) (s : List Char) :
    lex (c :: s) = Lexeme.markToken c :: lex s := by
  simp only [Lexeme.marks, List.mem_cons, List.not_mem_nil, or_false] at hc
  rcases hc with rfl | rfl | rfl | rfl | rfl | rfl | rfl <;> exact lex_cons _ s

theorem lex_note {u : List Char} (hu : ¬ ['*', '/'] <:+: u) (t : List Char) :
    lex ('/' :: '*' :: (u ++ '*' :: '/' :: t)) = .comment :: lex t := by
  have hnext : next '/' ('*' :: (u ++ '*' :: '/' :: t)) =
      (.comment, commentRest (u ++ '*' :: '/' :: t)) := rfl
  rw [lex_cons, hnext, commentRest_append hu]

theorem lex_quoted {q : Char} (hq : isQuote q = true) {w : List Char} (hw : quotable q w = true)
    (t : List Char) : lex (q :: (view w ++ q :: t)) = .other :: lex t := by
  have hnext : next q (view w ++ q :: t) = (.other, (stringRest q 0 (view w ++ q :: t)).2) :=
    forall_isQuote (P := fun q => ∀ s, next q s = (.other, (stringRest q 0 s).2)) (fun _ => rfl)
      (fun _ => rfl) hq _
  rw [lex_cons, hnext, stringRest_append hq (quotable_view hq hw)]

theorem eq_or_of_toLower {c d e : Char} (he : e.val + ('a'.val - 'A'.val) = d.val)
    (h : c.toLower = d) : c = d ∨ c = e := by
  unfold Char.toLower at h
  split at h
  · have hval : c.val + ('a'.val - 'A'.val) = e.val + ('a'.val - 'A'.val) :=
      (congrArg Char.val h).trans he.symm
    exact .inr (Char.ext ((UInt32.add_left_inj _).1 hval))
  · exact .inl h

/-- The spellings of `url` are eight. -/
theorem exists_of_isUrl {name : List Char} (h : Lexeme.isUrl name = true) :
    ∃ a b c, name = [a, b, c] ∧ (a = 'u' ∨ a = 'U') ∧ (b = 'r' ∨ b = 'R') ∧ (c = 'l' ∨ c = 'L') := by
  rw [Lexeme.isUrl, beq_iff_eq, List.map_eq_cons_iff] at h
  obtain ⟨a, _, rfl, ha, h⟩ := h
  obtain ⟨b, _, rfl, hb, h⟩ := List.map_eq_cons_iff.1 h
  obtain ⟨c, _, rfl, hc, h⟩ := List.map_eq_cons_iff.1 h
  rw [List.map_eq_nil_iff] at h
  subst h
  exact ⟨a, b, c, rfl, eq_or_of_toLower (by decide) ha, eq_or_of_toLower (by decide) hb,
    eq_or_of_toLower (by decide) hc⟩

/-- A url is a token, with all that belongs to it. -/
theorem lex_url {name : List Char} (hname : Lexeme.isUrl name = true) (t : List Char) :
    lex (name ++ '(' :: t) = .other :: lex (urlRest t) := by
  -- every spelling is one name, and the parenthesis makes a url of it
  have spelling : ∀ {c : Char} {s : List Char}, firm (c :: s) = true → ¬ ['/', '*'] <:+: c :: s →
      next c s = (.ident, []) → isUrlName (c :: s) = true →
      lex (c :: s ++ '(' :: t) = .other :: lex (urlRest t) := by
    intro c s hu hopen hnext hurl
    rw [List.cons_append, lex_cons, (next_append hu hopen (parts_paren _ t)).2, hnext]
    simp [called, call, hurl]
  obtain ⟨a, b, c, rfl, rfl | rfl, rfl | rfl, rfl | rfl⟩ := exists_of_isUrl hname <;>
    exact spelling (by decide) (by decide) (by decide) (by decide)

/-! ### The tokens of a list of lexemes -/

namespace Lexeme

/-- A word is firm. -/
theorem firm_of_wordy {w : List Char} (hw : wordy w = true) : firm w = true := by
  induction hlen : w.length using Nat.strongRecOn generalizing w with
  | ind len ih =>
      cases w with
      | nil => rfl
      | cons c s =>
          rcases spelled_cases hw with ⟨hc, hs⟩ | ⟨d, r, rfl, rfl, hd, hr⟩
          · rw [Bool.and_eq_true] at hc
            rw [firm, spelled_cons (ne_backslash_of_plain hc.1), hc.1]
            exact ih s.length (by simp [← hlen]) hs rfl
          · rw [Bool.and_eq_true] at hd
            rw [firm, spelled, hd.1]
            exact ih r.length (by simp only [← hlen, List.length_cons]; omega) hr rfl

/-- A word stays firm as it is seen. -/
theorem firm_view {w : List Char} (hw : wordy w = true) : firm (view w) = true := by
  refine spelled_view (by decide) (fun x hx => ?_) (fun c hc => ?_) (firm_of_wordy hw)
  · have hborder : x ∉ borders := by
      intro h
      have hlow : x.toNat < 0x80 := by
        simpa using List.all_eq_true.1 (show borders.all (·.toNat < 0x80) = true by decide) x h
      omega
    simp [isPlain, hborder, ne_of_high (a := '\\') hx]
  · simp only [isEscapable, Bool.and_eq_true, decide_eq_true_eq] at hc
    exact hc.1

/-- The first character of a lexeme behind a word. -/
theorem head?_text {m : Lexeme} (hm : m.Sound) (hword : ∀ w, m ≠ word w)
    (hurl : ∀ n q w, m ≠ url n q w) :
    ∃ x r, m.text = x :: r ∧ x ∈ borders ∧ (isSpace x = true → ∃ w, m = gap w) ∧
      (x = '(' ↔ m = mark '(') := by
  cases m with
  | gap w =>
      obtain ⟨hne, hspace⟩ := hm
      obtain ⟨x, r, rfl⟩ := List.exists_cons_of_ne_nil hne
      rw [List.all_cons, Bool.and_eq_true] at hspace
      refine ⟨x, r, rfl, ?_, fun _ => ⟨_, rfl⟩, ?_⟩
      · rcases space_cases hspace.1 with rfl | rfl | rfl | rfl | rfl <;> decide
      · refine ⟨?_, fun h => by cases h⟩
        rintro rfl
        cases hspace.1
  | note w => exact ⟨'/', _, rfl, by decide, fun h => absurd h (by decide), by simp⟩
  | mark c =>
      have hc : c ∈ borders ∧ isSpace c = false := by
        simp only [Sound, marks, List.mem_cons, List.not_mem_nil, or_false] at hm
        rcases hm with rfl | rfl | rfl | rfl | rfl | rfl | rfl <;> decide
      refine ⟨c, [], rfl, hc.1, fun h => ?_, by simp⟩
      rw [hc.2] at h
      cases h
  | word w => exact absurd rfl (hword w)
  | quoted q w =>
      refine ⟨q, _, rfl, ?_, ?_, ?_⟩
      · exact forall_isQuote (P := (· ∈ borders)) (by decide) (by decide) hm.1.1
      · exact forall_isQuote (P := fun q => isSpace q = true → ∃ w', quoted q w = gap w')
          (fun h => absurd h (by decide)) (fun h => absurd h (by decide)) hm.1.1
      · refine ⟨?_, fun h => by cases h⟩
        rintro rfl
        cases hm.1.1
  | url n q w => exact absurd rfl (hurl n q w)

/-- What stands behind a word parts it from the rest. -/
theorem parts_texts {u : List Char} {ms : List Lexeme} (hms : ∀ m ∈ ms, m.Sound)
    (h : meets u ms = true) :
    Parts (view u) (view (texts ms)) ∧
      ((view (texts ms)).head? = some '(' ↔ ms.head? = some (mark '(')) := by
  cases ms with
  | nil => exact ⟨parts_nil _, by simp⟩
  | cons m ms =>
      rw [meets, Bool.and_eq_true] at h
      -- a comment comes before its own follower, anything else is the follower
      have hfollower : m.isNote = false → follower (m :: ms) = some m := fun hn => by
        simp [follower, hn]
      have hword : ∀ w, m ≠ word w := by
        rintro w rfl
        rw [hfollower rfl] at h
        cases h.1
      have hurl : ∀ n q w, m ≠ url n q w := by
        rintro n q w rfl
        rw [hfollower rfl] at h
        cases h.1
      obtain ⟨x, r, hx, hborder, hspace, hparen⟩ := head?_text (hms m List.mem_cons_self) hword hurl
      have hlow : x.toNat < 0x80 := by
        simpa using List.all_eq_true.1 (show borders.all (·.toNat < 0x80) = true by decide) x hborder
      rw [texts_cons, hx, List.cons_append, view_cons_of_lt hlow]
      refine ⟨?_, by simp [hparen]⟩
      rintro y ⟨⟩
      refine ⟨hborder, fun hs => ?_⟩
      obtain ⟨w, rfl⟩ := hspace hs
      rw [hfollower rfl] at h
      simpa using h.1

theorem low_of_isSpace {c : Char} (hc : isSpace c = true) : c.toNat < 0x80 := by
  rcases space_cases hc with rfl | rfl | rfl | rfl | rfl <;> decide

theorem low_of_mem_marks {c : Char} (hc : c ∈ marks) : c.toNat < 0x80 := by
  simpa using List.all_eq_true.1 (show marks.all (·.toNat < 0x80) = true by decide) c hc

/-! The lexer sees a sound lexeme with its own punctuation around what it sees of its body. -/

/-- White space is seen as it is. -/
theorem view_gap {w : List Char} (hw : w.all isSpace = true) : view w = w := by
  induction w with
  | nil => rfl
  | cons c w ih =>
      rw [List.all_cons, Bool.and_eq_true] at hw
      rw [view_cons_of_lt (low_of_isSpace hw.1), ih hw.2]

theorem view_note (w t : List Char) :
    view ((note w).text ++ t) = '/' :: '*' :: (view w ++ '*' :: '/' :: view t) := by
  have hlow : view ('*' :: '/' :: t) = '*' :: '/' :: view t := by
    rw [view_cons_of_lt (by decide), view_cons_of_lt (by decide)]
  rw [text, List.cons_append, List.cons_append, view_cons_of_lt (by decide),
    view_cons_of_lt (by decide), List.append_assoc, view_append]
  exact congrArg (fun v => '/' :: '*' :: (view w ++ v)) hlow

theorem view_quoted {q : Char} (hq : isQuote q = true) (w t : List Char) :
    view (q :: (w ++ q :: t)) = q :: (view w ++ q :: view t) := by
  have hlow : q.toNat < 0x80 := forall_isQuote (P := (·.toNat < 0x80)) (by decide) (by decide) hq
  rw [view_cons_of_lt hlow, view_append, view_cons_of_lt hlow]

theorem view_url {name : List Char} (hname : isUrl name = true) (t : List Char) :
    view (name ++ '(' :: t) = name ++ '(' :: view t := by
  rw [view_append, view_cons_of_lt (by decide)]
  obtain ⟨a, b, c, rfl, rfl | rfl, rfl | rfl, rfl | rfl⟩ := exists_of_isUrl hname <;> rfl

/-- A sound url is one token, whatever stands behind it. -/
theorem lex_view_url {name : List Char} {q : Option Char} {w : List Char} (h : (url name q w).Sound)
    (t : List Char) : lex (view ((url name q w).text ++ t)) = .other :: lex (view t) := by
  cases q with
  | none =>
      obtain ⟨⟨hname, hne, hw⟩, -⟩ := h
      have htext : (url name none w).text ++ t = name ++ '(' :: (w ++ ')' :: t) := by simp [text]
      rw [htext, view_url hname, lex_url hname, view_append, view_cons_of_lt (by decide),
        urlRest_plain hne (List.all_eq_true.1 hw)]
  | some q =>
      obtain ⟨⟨hname, hq, hw⟩, -⟩ := h
      have htext : (url name (some q) w).text ++ t = name ++ '(' :: (q :: (w ++ q :: ')' :: t)) := by
        simp [text]
      rw [htext, view_url hname, lex_url hname, view_quoted hq, view_cons_of_lt (by decide),
        urlRest_quoted hq hw]

/-- A token that is read is the first of what is read. -/
theorem core_cons {x : Token} (hx : isRead x = true) {s t : List Char} (h : lex s = x :: lex t) :
    core s = x :: core t := by
  rw [core, h, List.filter_cons_of_pos hx]
  rfl

theorem isRead_of_isInner {x : Token} (h : isInner x = true) : isRead x = true := by
  cases x <;> first | rfl | cases h

theorem mem_of_mem_withoutName {x : Token} {l : List Token} (h : x ∈ withoutName l) : x ∈ l := by
  unfold withoutName at h
  split at h
  · exact List.mem_of_mem_dropLast h
  · exact h

/-- The tokens of a word before something are tokens of the word. -/
theorem mem_of_mem_wordTokens {x : Token} {u : List Char} {ms : List Lexeme}
    (h : x ∈ wordTokens u ms) : x ∈ lex (view u) := by
  unfold wordTokens at h
  split at h
  · exact mem_of_mem_withoutName h
  · exact h

/-- The tokens of a word neither end nor open an item. -/
theorem isInner_of_mem_wordTokens {u : List Char} (hu : (word u).Sound) {ms : List Lexeme} :
    ∀ x ∈ wordTokens u ms, isInner x = true := by
  obtain ⟨⟨-, hwordy, -⟩, hopen⟩ := hu
  intro x hx
  exact isInner_of_mem_lex (firm_view hwordy)
    (fun h => hopen (infix_of_infix_view (by decide) (by decide) h)) x (mem_of_mem_wordTokens hx)

/-- **A word** is read as its tokens if it meets what follows. -/
theorem core_word {u : List Char} (hu : (word u).Sound) {ms : List Lexeme} (hms : ∀ m ∈ ms, m.Sound)
    (h : meets u ms = true) :
    core (view (u ++ texts ms)) = wordTokens u ms ++ core (view (texts ms)) := by
  obtain ⟨hparts, hparen⟩ := parts_texts hms h
  have hcall : ms.head? = some (mark '(') → callable (view u) = true := by
    intro hhead
    obtain ⟨ms, rfl⟩ := List.head?_eq_some_iff.1 hhead
    simpa [meets, ahead, isSpacing] using (Bool.and_eq_true _ _ ▸ h).2
  have hopen : ¬ ['/', '*'] <:+: view u := fun h =>
    hu.2 (infix_of_infix_view (by decide) (by decide) h)
  have hlex := lex_append (firm_view hu.1.2.1) hopen hparts fun hp => hcall (hparen.1 hp)
  rw [if_congr hparen rfl rfl] at hlex
  rw [view_append, core, hlex, List.filter_append]
  refine congrArg (· ++ core (view (texts ms))) (List.filter_eq_self.2 fun x hx => ?_)
  exact isRead_of_isInner (isInner_of_mem_wordTokens hu x hx)

/-- **The tokens of a text are those of its lexemes**, but for white space and comments. -/
theorem core_view_texts {ms : List Lexeme} (hms : ∀ m ∈ ms, m.Sound) (hfits : fits ms = true) :
    core (view (texts ms)) = reading ms := by
  induction ms with
  | nil => rfl
  | cons m ms ih =>
      rw [List.forall_mem_cons] at hms
      obtain ⟨hm, hms⟩ := hms
      rw [texts_cons]
      cases m with
      | gap w =>
          obtain ⟨-, hspace⟩ := hm
          rw [text, view_append, view_gap hspace, core_spaces hspace]
          exact ih hms hfits
      | note w =>
          -- the note ends at its own end, and leaves no token
          have hclose : ¬ ['*', '/'] <:+: view w := fun h =>
            hm (infix_of_infix_view (by decide) (by decide) h)
          rw [view_note, core, lex_note hclose]
          exact ih hms hfits
      | mark c =>
          have hread : isRead (markToken c) = true := by unfold markToken; split <;> rfl
          rw [text, List.singleton_append, view_cons_of_lt (low_of_mem_marks hm),
            core_cons hread (lex_mark hm _), ih hms hfits]
          rfl
      | word u =>
          rw [fits, Bool.and_eq_true] at hfits
          rw [text, core_word hm hms hfits.1, ih hms hfits.2]
          rfl
      | quoted q w =>
          obtain ⟨⟨hq, hw⟩, -⟩ := hm
          have htext : (quoted q w).text ++ texts ms = q :: (w ++ q :: texts ms) := by simp [text]
          rw [htext, view_quoted hq, core_cons rfl (lex_quoted hq hw _), ih hms hfits]
          rfl
      | url name q w =>
          refine (core_cons rfl (lex_view_url hm (texts ms))).trans ?_
          rw [ih hms hfits]
          rfl

end Lexeme

end Restyle.Css
