import Mathlib.Data.List.Infix
import Restyle.Css.Undefined
import Restyle.Proofs.Css.Balance
import Restyle.Proofs.Css.Scan

/-!
# Sequences of rules

A `RuleText` is a selector and a body in braces, with the white space before it; a `RuleSheet` is a
sequence of them.  Its parts hold no brace, so the braces of a sheet are those of its rules.

What the search for undefined rules asks of a text is said here without the search:

* `NamesClassOrId s`: a point or a hash stands before a name character.
* `DeclaresUndefined s`: a name of lower case letters and hyphens, which starts at the edge of a
  word, a colon, white space, and `undefined`.

`namesClassOrId_iff` and `setsUndefined_iff` say that the search answers just these questions, and
`undefinedRule?_append` what it finds at a place of a sheet.
-/

namespace Restyle.Css

/-! ### Naming a class or an id -/

/-- A class or an id is named somewhere in the text. -/
def NamesClassOrId (s : List Char) : Prop :=
  ∃ u c d v, s = u ++ c :: d :: v ∧ (c = '.' ∨ c = '#') ∧ isNameChar d = true

/-- The check finds a class or an id exactly if one is named. -/
theorem namesClassOrId_iff {s : List Char} : namesClassOrId s = true ↔ NamesClassOrId s := by
  fun_induction namesClassOrId s with
  | case1 c d s ih =>
      rw [Bool.or_eq_true, ih, Bool.and_eq_true, Bool.or_eq_true, beq_iff_eq, beq_iff_eq]
      constructor
      · rintro (⟨hc, hd⟩ | ⟨u, a, b, v, hs, h⟩)
        · exact ⟨[], c, d, s, rfl, hc, hd⟩
        · exact ⟨c :: u, a, b, v, by rw [hs]; rfl, h⟩
      · rintro ⟨u, a, b, v, hs, h⟩
        cases u with
        | nil => cases hs; exact .inl h
        | cons x u => exact .inr ⟨u, a, b, v, (List.cons.inj hs).2, h⟩
  | case2 s hs =>
      refine ⟨(fun h => by cases h), ?_⟩
      rintro ⟨u, a, b, v, rfl, -⟩
      cases u with
      | nil => exact absurd rfl (hs a b v)
      | cons x u =>
          obtain ⟨y, t, ht⟩ := List.exists_cons_of_ne_nil
            (show u ++ a :: b :: v ≠ [] by simp)
          exact absurd (by rw [List.cons_append, ht]) (hs x y t)

instance (s : List Char) : Decidable (NamesClassOrId s) :=
  decidable_of_iff _ namesClassOrId_iff

/-- What names a class does so with more text before it. -/
theorem NamesClassOrId.append_left {s : List Char} (h : NamesClassOrId s) (t : List Char) :
    NamesClassOrId (t ++ s) := by
  obtain ⟨u, c, d, v, rfl, h⟩ := h
  exact ⟨t ++ u, c, d, v, by simp, h⟩

/-- White space names nothing. -/
theorem namesClassOrId_blank_append {g s : List Char} (hg : ∀ c ∈ g, isBlank c = true) :
    NamesClassOrId (g ++ s) ↔ NamesClassOrId s := by
  refine ⟨?_, fun h => h.append_left g⟩
  rintro ⟨u, c, d, v, he, hc, hd⟩
  rcases List.append_eq_append_iff.1 he with ⟨w, rfl, hs⟩ | ⟨w, rfl, hs⟩
  · exact ⟨w, c, d, v, hs, hc, hd⟩
  · cases w with
    | nil => exact ⟨[], c, d, v, by simpa using hs.symm, hc, hd⟩
    | cons x w =>
        obtain ⟨rfl, -⟩ := List.cons.inj hs
        have hb := hg c (by simp)
        rcases hc with rfl | rfl <;> cases hb

/-! ### Declaring `undefined` -/

/-- A colon, white space and `undefined` start the text. -/
theorem undefinedFollows_iff {s : List Char} :
    undefinedFollows s = true ↔
      ∃ g v, s = ':' :: (g ++ ("undefined".toList ++ v)) ∧ ∀ c ∈ g, isBlank c = true := by
  unfold undefinedFollows
  split
  · next s =>
      rw [Option.isSome_iff_exists]
      constructor
      · rintro ⟨v, hv⟩
        obtain ⟨g, hg, hb⟩ := exists_blank_append_skipBlank s
        rw [after?_eq_some_iff] at hv
        exact ⟨g, v, by rw [← hv, ← hg], hb⟩
      · rintro ⟨g, v, he, hb⟩
        rw [(List.cons.inj he).2, skipBlank_append hb]
        exact ⟨v, after?_eq_some_iff.2 rfl⟩
  · next hs =>
      refine ⟨(fun h => by cases h), ?_⟩
      rintro ⟨g, v, rfl, -⟩
      exact absurd rfl (hs _)

/-- A name, a colon and `undefined` stand in a text.  The name starts at the edge of a word;
`previous` is the character before the text. -/
def DeclaresUndefined (previous : Char) (s : List Char) : Prop :=
  ∃ u c name g v, s = u ++ c :: (name ++ ':' :: (g ++ ("undefined".toList ++ v))) ∧
    (∀ x ∈ c :: name, isPropertyChar x = true) ∧ (∀ x ∈ g, isBlank x = true) ∧
    isWord (u.getLastD previous) ≠ isWord c

/-- The same, or the rest of such a name at the start of the text. -/
def DeclaresUndefinedFrom (previous : Char) (named : Bool) (s : List Char) : Prop :=
  ∃ u c name g v, s = u ++ c :: (name ++ ':' :: (g ++ ("undefined".toList ++ v))) ∧
    (∀ x ∈ c :: name, isPropertyChar x = true) ∧ (∀ x ∈ g, isBlank x = true) ∧
    (isWord (u.getLastD previous) ≠ isWord c ∨ (named = true ∧ u = []))

/-- One character of the search, which reads a name when it has begun one or begins one here. -/
theorem declaresUndefinedFrom_cons {previous c : Char} {named : Bool} {s : List Char} :
    DeclaresUndefinedFrom previous named (c :: s) ↔
      ((isPropertyChar c && (named || isWord previous != isWord c)) = true ∧
        undefinedFollows s = true) ∨
      DeclaresUndefinedFrom c (isPropertyChar c && (named || isWord previous != isWord c)) s := by
  constructor
  · rintro ⟨u, d, name, g, v, hs, hn, hg, he⟩
    cases u with
    | cons x u =>
        obtain ⟨rfl, rfl⟩ := List.cons.inj hs
        refine .inr ⟨u, d, name, g, v, rfl, hn, hg, .inl ?_⟩
        have := he.resolve_right (by simp)
        rwa [List.getLastD_cons] at this
    | nil =>
        obtain ⟨rfl, rfl⟩ := List.cons.inj hs
        have hc : isPropertyChar c = true := hn c List.mem_cons_self
        have hnamed : (isPropertyChar c && (named || isWord previous != isWord c)) = true := by
          rcases he with he | ⟨rfl, -⟩
          · simpa [hc] using Or.inr he
          · simp [hc]
        -- the name ends here, or goes on with the next character
        cases name with
        | nil => exact .inl ⟨hnamed, undefinedFollows_iff.2 ⟨g, v, rfl, hg⟩⟩
        | cons n name =>
            exact .inr ⟨[], n, name, g, v, rfl, fun x hx => hn x (List.mem_cons_of_mem _ hx), hg,
              .inr ⟨hnamed, rfl⟩⟩
  · have begins : (isPropertyChar c && (named || isWord previous != isWord c)) = true →
        isPropertyChar c = true ∧ (isWord (([] : List Char).getLastD previous) ≠ isWord c ∨
          (named = true ∧ ([] : List Char) = [])) := by
      intro h
      simp only [Bool.and_eq_true, Bool.or_eq_true, bne_iff_ne] at h
      exact ⟨h.1, h.2.elim (fun h => .inr ⟨h, rfl⟩) .inl⟩
    rintro (⟨h, hf⟩ | ⟨u, d, name, g, v, rfl, hn, hg, he⟩)
    · obtain ⟨g, v, rfl, hg⟩ := undefinedFollows_iff.1 hf
      exact ⟨[], c, [], g, v, rfl, by simpa using (begins h).1, hg, (begins h).2⟩
    · rcases he with he | ⟨h, rfl⟩
      · refine ⟨c :: u, d, name, g, v, rfl, hn, hg, .inl ?_⟩
        rwa [List.getLastD_cons]
      · refine ⟨[], c, d :: name, g, v, rfl, ?_, hg, (begins h).2⟩
        intro x hx
        rcases List.mem_cons.1 hx with rfl | hx
        · exact (begins h).1
        · exact hn x hx

/-- The check finds `undefined` exactly if it is declared. -/
theorem setsUndefined_iff_from {previous : Char} {named : Bool} {s : List Char} :
    setsUndefined previous named s = true ↔ DeclaresUndefinedFrom previous named s := by
  induction s generalizing previous named with
  | nil =>
      refine ⟨(fun h => by cases h), ?_⟩
      rintro ⟨u, c, name, g, v, hs, -⟩
      simp at hs
  | cons c s ih =>
      rw [declaresUndefinedFrom_cons, ← ih, setsUndefined, Bool.or_eq_true, Bool.and_eq_true]

/-- **The search finds a declaration exactly when there is one.** -/
theorem setsUndefined_iff {previous : Char} {s : List Char} :
    setsUndefined previous false s = true ↔ DeclaresUndefined previous s := by
  rw [setsUndefined_iff_from]
  constructor
  · rintro ⟨u, c, name, g, v, hs, hn, hg, he⟩
    exact ⟨u, c, name, g, v, hs, hn, hg, he.resolve_right (by simp)⟩
  · rintro ⟨u, c, name, g, v, hs, hn, hg, he⟩
    exact ⟨u, c, name, g, v, hs, hn, hg, .inl he⟩

instance (previous : Char) (s : List Char) : Decidable (DeclaresUndefined previous s) :=
  decidable_of_iff _ setsUndefined_iff

/-- A text that declares `undefined` holds the word. -/
theorem DeclaresUndefined.holds_word {previous : Char} {s : List Char}
    (h : DeclaresUndefined previous s) : "undefined".toList <:+: s := by
  obtain ⟨u, c, name, g, v, rfl, -⟩ := h
  exact ⟨u ++ c :: (name ++ ':' :: g), v, by simp⟩

/-! ### Rules -/

/-- A selector and a body, with the white space before them. -/
structure RuleText where
  gap : List Char
  selector : List Char
  body : List Char
  gap_blank : ∀ c ∈ gap, isBlank c = true
  selector_plain : ∀ c ∈ selector, isBrace c = false
  /-- White space before the selector belongs to the gap. -/
  selector_starts : ∀ c ∈ selector.head?, isBlank c = false
  body_plain : ∀ c ∈ body, isBrace c = false

/-- Rules one after another, and the white space behind the last. -/
structure RuleSheet where
  rules : List RuleText
  tail : List Char
  tail_blank : ∀ c ∈ tail, isBlank c = true

namespace RuleText

/-- The rule of some parts, when they pass a check. -/
def ofParts (gap selector body : List Char)
    (h : (gap.all isBlank && selector.all (! isBrace ·) && selector.head?.all (! isBlank ·) &&
      body.all (! isBrace ·)) = true := by decide) : RuleText :=
  have h : (((∀ c ∈ gap, isBlank c = true) ∧ ∀ c ∈ selector, isBrace c = false) ∧
      ∀ c ∈ selector.head?, isBlank c = false) ∧ ∀ c ∈ body, isBrace c = false := by
    simp only [Bool.and_eq_true, List.all_eq_true, Option.all_eq_true, Bool.not_eq_true'] at h
    exact h
  ⟨gap, selector, body, h.1.1.1, h.1.1.2, h.1.2, h.2⟩

/-- The rule without the white space before it. -/
def block (r : RuleText) : List Char :=
  r.selector ++ '{' :: (r.body ++ ['}'])

/-- The rule as it is written, with what stands before it. -/
def text (r : RuleText) : List Char :=
  r.gap ++ r.block

/-- Some declaration of the body has the value `undefined`. -/
def Undefined (r : RuleText) : Prop :=
  DeclaresUndefined '{' r.body

instance (r : RuleText) : Decidable r.Undefined :=
  inferInstanceAs (Decidable (DeclaresUndefined _ _))

end RuleText

def RuleSheet.text (d : RuleSheet) : List Char :=
  d.rules.flatMap RuleText.text ++ d.tail

theorem isBrace_eq_false_iff {c : Char} : isBrace c = false ↔ c ≠ '{' ∧ c ≠ '}' := by
  simp [isBrace]

/-- Blanks are no braces. -/
theorem isBrace_of_isBlank {c : Char} (h : isBlank c = true) : isBrace c = false := by
  rw [isBrace_eq_false_iff]
  constructor <;> rintro rfl <;> cases h

theorem not_mem_of_plain {s : List Char} (h : ∀ c ∈ s, isBrace c = false) {b : Char}
    (hb : isBrace b = true) : b ∉ s := by
  intro hm
  rw [h b hm] at hb
  cases hb

namespace RuleText

/-- There is no brace before that of the rule. -/
theorem head_plain (r : RuleText) : ∀ c ∈ r.gap ++ r.selector, isBrace c = false := by
  intro c hc
  rcases List.mem_append.1 hc with hc | hc
  · exact isBrace_of_isBlank (r.gap_blank c hc)
  · exact r.selector_plain c hc

theorem text_append (r : RuleText) (t : List Char) :
    r.text ++ t = (r.gap ++ r.selector) ++ '{' :: (r.body ++ '}' :: t) := by
  simp [text, block]

theorem length_text (r : RuleText) :
    r.text.length = r.gap.length + r.selector.length + r.body.length + 2 := by
  simp only [text, block, List.length_append, List.length_cons, List.length_nil]
  omega

/-- The braces of a rule are balanced. -/
theorem balanced_text (r : RuleText) : Balanced r.text := by
  have plain : ∀ {s : List Char}, (∀ c ∈ s, isBrace c = false) → Balanced s :=
    fun h => balanced_of_plain fun c hc => isBrace_eq_false_iff.1 (h c hc)
  have := (plain r.head_plain).append (plain r.body_plain).braces
  simpa [text, block] using this

end RuleText

/-- Blanks are balanced. -/
theorem balanced_of_blank {s : List Char} (h : ∀ c ∈ s, isBlank c = true) : Balanced s :=
  balanced_of_plain (plain_of_blank h)

/-! ### What is found at a place of a sheet -/

/-- **The rule found at a place.**  `w` is the text up to the next brace; what `x` holds more, up to
the next opening brace, starts with a closing one. -/
theorem undefinedRule?_append {w x body rest : List Char} (hw : ∀ c ∈ w, isBrace c = false)
    (hx : '{' ∉ x) (hxc : ∀ c ∈ x.head?, c = '}') (hb : '}' ∉ body) :
    undefinedRule? (w ++ (x ++ '{' :: (body ++ '}' :: rest))) =
      if NamesClassOrId w ∧ DeclaresUndefined '{' body then some rest else none := by
  have hsel : (w ++ (x ++ '{' :: (body ++ '}' :: rest))).takeWhile (! isBrace ·) = w := by
    rw [List.takeWhile_append_of_pos (fun c hc => by simp [hw c hc])]
    cases x with
    | nil => simp [isBrace]
    | cons c x => obtain rfl := hxc c rfl; simp [isBrace]
  have hopen : upTo? '{' (w ++ (x ++ '{' :: (body ++ '}' :: rest))) =
      some (w ++ x, body ++ '}' :: rest) := by
    rw [← List.append_assoc]
    refine upTo?_append ?_ _
    rw [List.mem_append, not_or]
    exact ⟨not_mem_of_plain hw rfl, hx⟩
  unfold undefinedRule?
  simp only [hsel, hopen, upTo?_append hb, Option.bind_eq_bind, Option.bind_some,
    Bool.and_eq_true, namesClassOrId_iff, setsUndefined_iff]

/-- Without an opening brace there is no rule. -/
theorem undefinedRule?_eq_none {s : List Char} (h : '{' ∉ s) : undefinedRule? s = none := by
  unfold undefinedRule?
  simp only [upTo?_eq_none h, Option.bind_eq_bind, Option.bind_none]

end Restyle.Css
