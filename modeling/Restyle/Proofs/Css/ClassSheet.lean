import Restyle.Css.Merge
import Restyle.Proofs.Css.Block
import Restyle.Proofs.Css.FlatQuery
import Restyle.Proofs.Css.Rule

/-!
# The rules that merging finds

Merging cuts the queries and looks for class rules in what is left.  A query is cut up to its first
closing brace, so here a text is a list of *parts*: white space, class rules, queries up to their
first closing brace, and closing braces that are left over.

A rule that leaves a header open is torn when a query follows in which the condition ends.  It keeps
what stands before the header, and takes what follows the query up to the next closing brace.

* `remains_rule`, `remains_torn`, `remains_query`: what the cut leaves of each part.
* `taken ps`: the bodies of the rules, read off the parts.  `findAll_run_cut`: merging finds just
  these.
-/

namespace Restyle.Css

/-! ### Class rules -/

/-- Any number of blanks. -/
abbrev Blanks := { w : List Char // ∀ c ∈ w, isBlank c = true }

/-- White space, when it passes a check. -/
def Blanks.ofList (w : List Char) (h : w.all isBlank = true := by decide) : Blanks :=
  ⟨w, List.all_eq_true.1 h⟩

theorem Blanks.not_mem (w : Blanks) {c : Char} (h : isBlank c = false) : c ∉ w.1 := by
  intro hm
  rw [w.2 c hm] at h
  cases h

/-- A rule whose selector is one class, with the white space before it. -/
structure ClassRule where
  gap : Blanks
  name : List Char
  /-- The white space between the selector and its brace. -/
  space : Blanks
  body : List Char
  name_ne_nil : name ≠ []
  name_chars : ∀ c ∈ name, isNameChar c = true
  body_plain : ∀ c ∈ body, isBrace c = false

namespace ClassRule

/-- The rule of some parts, when they pass a check. -/
def ofParts (gap name space body : List Char)
    (h : (gap.all isBlank && ! name.isEmpty && name.all isNameChar && space.all isBlank &&
      body.all (! isBrace ·)) = true := by decide) : ClassRule :=
  have h : (((∀ c ∈ gap, isBlank c = true) ∧ name ≠ []) ∧ ∀ c ∈ name, isNameChar c = true) ∧
      (∀ c ∈ space, isBlank c = true) ∧ ∀ c ∈ body, isBrace c = false := by
    simp only [Bool.and_eq_true, List.all_eq_true, Bool.not_eq_true', List.isEmpty_eq_false_iff,
      and_assoc] at h ⊢
    exact h
  ⟨⟨gap, h.1.1.1⟩, name, ⟨space, h.2.1⟩, body, h.1.1.2, h.1.2, h.2.2⟩

/-- The selector behind its point. -/
def selector (r : ClassRule) : List Char :=
  r.name ++ r.space.1

/-- The rule without its closing brace. -/
def opening (r : ClassRule) : List Char :=
  r.gap.1 ++ '.' :: (r.selector ++ '{' :: r.body)

def text (r : ClassRule) : List Char :=
  r.opening ++ ['}']

theorem text_append (r : ClassRule) (t : List Char) :
    r.text ++ t = (r.gap.1 ++ '.' :: (r.selector ++ ['{'])) ++ (r.body ++ '}' :: t) := by
  simp [text, opening]

theorem selector_ne_nil (r : ClassRule) : r.selector ≠ [] :=
  List.append_ne_nil_of_left_ne_nil r.name_ne_nil _

/-- A selector holds names and white space only. -/
theorem not_mem_selector (r : ClassRule) {c : Char} (hn : isNameChar c = false)
    (hb : isBlank c = false) : c ∉ r.selector := by
  intro hm
  rcases List.mem_append.1 hm with hm | hm
  · rw [r.name_chars c hm] at hn; cases hn
  · exact r.space.not_mem hb hm

/-- There is no brace in a selector. -/
theorem selector_plain (r : ClassRule) : ∀ c ∈ r.selector, isBrace c = false := by
  intro c hc
  rw [isBrace_eq_false_iff]
  constructor <;> rintro rfl <;> exact r.not_mem_selector (by decide) (by decide) hc

/-- Nor does what stands before the body, but for the point and the brace. -/
theorem not_mem_head (r : ClassRule) {c : Char} (hn : isNameChar c = false)
    (hb : isBlank c = false) (hc : c ≠ '.' ∧ c ≠ '{') :
    c ∉ r.gap.1 ++ '.' :: (r.selector ++ ['{']) := by
  simp [r.gap.not_mem hb, r.not_mem_selector hn hb, hc.1, hc.2]

/-- The closing brace of a rule is its last character. -/
theorem close_not_mem_opening (r : ClassRule) : '}' ∉ r.opening := by
  have hgap : '}' ∉ r.gap.1 := r.gap.not_mem (by decide)
  simp [opening, hgap, not_mem_of_plain r.selector_plain, not_mem_of_plain r.body_plain, isBrace]

end ClassRule

/-! ### Parts -/

/-- The text before a closing brace. -/
abbrev Unclosed := { s : List Char // '}' ∉ s }

/-- The parts of a sheet with class rules. -/
inductive Part where
  | blank (w : Blanks)
  | rule (r : ClassRule)
  /-- A query up to its first closing brace. -/
  | query (h : HeaderText) (inside : Unclosed)
  /-- A closing brace that is left over. -/
  | close

def Part.text : Part → List Char
  | blank w => w.1
  | rule r => r.text
  | query h inside => h.block inside.1
  | close => ['}']

def textOf (ps : List Part) : List Char :=
  ps.flatMap Part.text

theorem textOf_cons (p : Part) (ps : List Part) : textOf (p :: ps) = p.text ++ textOf ps :=
  rfl

/-- The parts behind the query in which an open condition ends. -/
def behindQuery? : List Part → Option (List Part)
  | [] => none
  | .query _ _ :: ps => some ps
  | .rule r :: ps => if ')' ∈ r.body then none else behindQuery? ps
  | .blank _ :: ps => behindQuery? ps
  | .close :: ps => behindQuery? ps

/-- A parenthesis closed in a body is followed by no block. -/
theorem afterCondition?_of_mem {body : List Char} (hbody : ∀ c ∈ body, isBrace c = false)
    (h : ')' ∈ body) (t : List Char) : afterCondition? (body ++ '}' :: t) = none := by
  obtain ⟨a, b, rfl, ha⟩ := List.eq_append_cons_of_mem h
  have hup : upTo? ')' (a ++ ')' :: (b ++ '}' :: t)) = some (a, b ++ '}' :: t) := upTo?_append ha _
  have hskip : skipBlank (b ++ '}' :: t) = skipBlank b ++ '}' :: t :=
    skipBlank_append_of_not_blank (fun c hc => by cases hc; decide) b
  have hafter : after? ['{'] (skipBlank b ++ '}' :: t) = none := by
    cases hb : skipBlank b with
    | nil => rfl
    | cons c s =>
        have hskipped : c ∈ skipBlank b := by rw [hb]; exact List.mem_cons_self
        have hc : c ∈ b := (List.dropWhile_sublist isBlank).subset hskipped
        have hne : '{' ≠ c := by
          rintro rfl
          exact absurd (hbody '{' (by simp [hc])) (by decide)
        simp [after?, hne]
  unfold afterCondition?
  rw [List.append_assoc, List.cons_append, hup]
  simp only [Option.bind_eq_bind, Option.bind_some, hskip, hafter, Option.bind_none]

theorem flatQuery?_block (h : HeaderText) (s : List Char) :
    (flatQuery? (h.text ++ s)).map Prod.snd =
      afterCondition? (h.inner ++ ')' :: (h.behind ++ s)) := by
  rw [← flatQuery?_open h.kind h.gap_blank]
  simp [HeaderText.text]

/-- The condition of a query is followed by its whole block if there is no closing brace inside. -/
theorem afterCondition?_header (h : HeaderText) {inside : List Char} (hi : '}' ∉ inside)
    (t : List Char) :
    afterCondition? (h.inner ++ ')' :: (h.behind ++ '{' :: (inside ++ '}' :: t))) = some t := by
  have hskip := skipBlank_append_cons h.behind_blank (c := '{') (by decide) (inside ++ '}' :: t)
  unfold afterCondition?
  rw [upTo?_append h.inner_open]
  simp [hskip, after?, upTo?_append hi]

/-- **Where an open condition ends**, in a list of parts. -/
theorem afterCondition?_textOf (ps : List Part) :
    afterCondition? (textOf ps) = (behindQuery? ps).map textOf := by
  induction ps with
  | nil => rfl
  | cons p ps ih =>
      rw [textOf_cons]
      cases p with
      | blank w =>
          exact (afterCondition?_append (w.not_mem (by decide)) _).trans ih
      | close => exact (afterCondition?_append (by decide) _).trans ih
      | rule r =>
          have hhead := r.not_mem_head (c := ')') (by decide) (by decide) (by decide)
          rw [behindQuery?, Part.text, r.text_append, afterCondition?_append hhead]
          split
          · next h => rw [afterCondition?_of_mem r.body_plain h]; rfl
          · next h =>
              rw [← ih, List.append_cons]
              exact afterCondition?_append (by simp [h]) _
      | query h inside =>
          have hname : ')' ∉ '@' :: (h.kind.name ++ (h.gap ++ ['('])) := by
            have hg : ')' ∉ h.gap := fun hm => absurd (h.gap_blank _ hm) (by decide)
            simp [h.kind.close_not_mem_name, hg]
          have := afterCondition?_append hname
            (h.inner ++ ')' :: (h.behind ++ '{' :: (inside.1 ++ '}' :: textOf ps)))
          rw [afterCondition?_header h inside.2] at this
          rw [Part.text, h.block_append, behindQuery?, Option.map_some, ← this]
          simp [HeaderText.text]

/-! ### What the cut leaves of each part -/

/-- What a rule keeps of its body, when it is torn in front of these parts. -/
def ClassRule.kept? (r : ClassRule) (ps : List Part) : Option (List Char) :=
  if (behindQuery? ps).isSome then beforeOpen? r.body else none

/-- A rule is kept up to a condition that it leaves open, if that is closed behind it. -/
theorem ClassRule.kept?_eq_some_iff {r : ClassRule} {ps : List Part} {p : List Char} :
    r.kept? ps = some p ↔ beforeOpen? r.body = some p ∧ ∃ qs, behindQuery? ps = some qs := by
  unfold kept?
  cases behindQuery? ps <;> simp

theorem ClassRule.kept?_eq_none_iff {r : ClassRule} {ps : List Part} :
    r.kept? ps = none ↔ beforeOpen? r.body = none ∨ behindQuery? ps = none := by
  unfold kept?
  cases behindQuery? ps <;> simp

/-- What the cut leaves of a list of parts. -/
abbrev remains (ps : List Part) : List Char :=
  flatQuery?.cut.run (textOf ps)

/-- A part without at sign remains. -/
theorem remains_plain {p : Part} (h : '@' ∉ p.text) (ps : List Part) :
    remains (p :: ps) = p.text ++ remains ps :=
  run_cut_plain h (textOf ps)

theorem remains_query (h : HeaderText) (inside : Unclosed) (ps : List Part) :
    remains (.query h inside :: ps) = remains ps := by
  have hq := flatQuery?_block h ('{' :: (inside.1 ++ '}' :: textOf ps))
  rw [afterCondition?_header h inside.2, Option.map_eq_some_iff] at hq
  obtain ⟨⟨q, rest⟩, hq, rfl⟩ := hq
  rw [← h.block_append] at hq
  exact run_cut_of_flatQuery? hq

/-- A rule that is not torn stays as it is. -/
theorem remains_rule {r : ClassRule} {ps : List Part} (h : r.kept? ps = none) :
    remains (.rule r :: ps) = r.text ++ remains ps := by
  have hbody : beforeOpen? r.body = none ∨ afterCondition? (textOf ps) = none := by
    rw [afterCondition?_textOf, Option.map_eq_none_iff]
    exact ClassRule.kept?_eq_none_iff.1 h
  rw [remains, textOf_cons, Part.text, r.text_append,
    run_cut_plain (r.not_mem_head (by decide) (by decide) (by decide)),
    run_cut_body r.body_plain hbody, r.text_append]

/-- A torn rule keeps the start of its body and goes on behind the query. -/
theorem remains_torn {r : ClassRule} {ps : List Part} {p : List Char} (h : r.kept? ps = some p) :
    ∃ qs, behindQuery? ps = some qs ∧
      remains (.rule r :: ps) = r.gap.1 ++ '.' :: (r.selector ++ '{' :: p) ++ remains qs := by
  obtain ⟨hopen, qs, hqs⟩ := ClassRule.kept?_eq_some_iff.1 h
  have hend : afterCondition? (textOf ps) = some (textOf qs) := by
    rw [afterCondition?_textOf, hqs]
    rfl
  refine ⟨qs, hqs, ?_⟩
  rw [remains, textOf_cons, Part.text, r.text_append,
    run_cut_plain (r.not_mem_head (by decide) (by decide) (by decide)),
    run_cut_torn r.body_plain hopen hend]
  simp

/-! ### Class rules in a text -/

/-- The body behind an opening brace, when no other opening brace stands in it. -/
def bodyOf? (t : List Char) : Option (List Char × List Char) :=
  match upTo? '}' t with
  | some (body, rest) => if body.contains '{' then none else some (body, rest)
  | none => none

/-- A class rule begins with a point. -/
theorem classBody?_of_ne {c : Char} (h : c ≠ '.') (s : List Char) : classBody? (c :: s) = none := by
  unfold classBody?
  split
  · next he => exact absurd (List.cons.inj he).1 h
  · rfl

/-- Behind the selector its body is read. -/
theorem classBody?_of_selector {sel : List Char} (hne : sel ≠ []) (ho : '{' ∉ sel)
    (t : List Char) : classBody? ('.' :: (sel ++ '{' :: t)) = bodyOf? t := by
  obtain ⟨c, s, rfl⟩ := List.exists_cons_of_ne_nil hne
  simp only [classBody?, upTo?_append ho]
  rfl

/-- A body goes up to the first closing brace and has no brace in it. -/
theorem bodyOf?_eq_some_iff {t body rest : List Char} :
    bodyOf? t = some (body, rest) ↔
      t = body ++ '}' :: rest ∧ ∀ c ∈ body, isBrace c = false := by
  constructor
  · intro h
    unfold bodyOf? at h
    split at h
    · next b r hu =>
        obtain ⟨rfl, hclose⟩ := upTo?_eq_some_iff.1 hu
        split at h
        · cases h
        · next hopen =>
            cases h
            refine ⟨rfl, fun c hc => isBrace_eq_false_iff.2 ⟨?_, ?_⟩⟩ <;> rintro rfl
            · exact hopen (by simpa using hc)
            · exact hclose hc
    · cases h
  · rintro ⟨rfl, hbody⟩
    have hopen : '{' ∉ body := not_mem_of_plain hbody rfl
    have hclose : '}' ∉ body := not_mem_of_plain hbody rfl
    simp [bodyOf?, upTo?_append hclose, hopen]

theorem bodyOf?_close {p : List Char} (hp : ∀ c ∈ p, isBrace c = false) (t : List Char) :
    bodyOf? (p ++ '}' :: t) = some (p, t) :=
  bodyOf?_eq_some_iff.2 ⟨rfl, hp⟩

/-- A second opening brace is met before any closing one. -/
theorem bodyOf?_brace {w : List Char} (hw : '}' ∉ w) (t : List Char) :
    bodyOf? (w ++ '{' :: t) = none := by
  cases h : bodyOf? (w ++ '{' :: t) with
  | none => rfl
  | some r =>
      obtain ⟨he, hbody⟩ := bodyOf?_eq_some_iff.1 h
      rcases List.append_eq_append_iff.1 he with ⟨z, hz, hrest⟩ | ⟨z, rfl, hrest⟩
      · cases z with
        | nil => cases hrest
        | cons c z =>
            obtain ⟨rfl, -⟩ := List.cons.inj hrest
            exact absurd (hbody '{' (by simp [hz])) (by decide)
      · cases z with
        | nil => cases hrest
        | cons c z => obtain ⟨rfl, -⟩ := List.cons.inj hrest; simp at hw

/-- **A class rule is found** with its body, and the search goes on behind it. -/
theorem findAll_classBody? {sel t body rest : List Char} (hne : sel ≠ []) (ho : '{' ∉ sel)
    (h : bodyOf? t = some (body, rest)) :
    classBody?.findAll ('.' :: (sel ++ '{' :: t)) = body :: classBody?.findAll rest := by
  have hrule := classBody?_of_selector hne ho t
  rw [h] at hrule
  have hs : '.' :: (sel ++ '{' :: t) = '.' :: (sel ++ '{' :: (body ++ ['}'])) ++ rest := by
    rw [(bodyOf?_eq_some_iff.1 h).1]
    simp
  rw [hs] at hrule ⊢
  exact Pattern.findAll_append_of_some (by simp) hrule

/-- Points before a selector make it longer, and the body stays the same. -/
theorem findAll_append_selector {w sel : List Char} (hw : '{' ∉ w) (hne : sel ≠ []) (ho : '{' ∉ sel)
    (t : List Char) :
    classBody?.findAll (w ++ '.' :: (sel ++ '{' :: t)) =
      classBody?.findAll ('.' :: (sel ++ '{' :: t)) := by
  induction w with
  | nil => rfl
  | cons c w ih =>
      rw [List.mem_cons, not_or] at hw
      rw [List.cons_append]
      by_cases hc : c = '.'
      · subst hc
        have hlong : w ++ '.' :: sel ≠ [] := by simp
        have hopen : '{' ∉ w ++ '.' :: sel := by simp [hw.2, ho]
        have he : '.' :: (w ++ '.' :: (sel ++ '{' :: t)) = '.' :: ((w ++ '.' :: sel) ++ '{' :: t) := by
          simp
        cases hb : bodyOf? t with
        | none =>
            have hnone := classBody?_of_selector hlong hopen t
            rw [hb, ← he] at hnone
            rw [Pattern.findAll_cons_of_none hnone, ih hw.2]
        | some r =>
            rw [he, findAll_classBody? hlong hopen hb, findAll_classBody? hne ho hb]
      · rw [Pattern.findAll_cons_of_none (classBody?_of_ne hc _), ih hw.2]

/-- Text without points has no class rule. -/
theorem findAll_append_of_no_point {w : List Char} (h : '.' ∉ w) (t : List Char) :
    classBody?.findAll (w ++ t) = classBody?.findAll t :=
  Pattern.findAll_append_of_none fun x c y he => classBody?_of_ne (fun hc => h (by simp [he, hc])) _

/-- Nothing is found where no brace closes. -/
theorem findAll_of_no_close {s : List Char} (h : '}' ∉ s) : classBody?.findAll s = [] := by
  rw [Pattern.findAll_eq_nil_iff]
  intro u c v he
  have hv : '}' ∉ v := fun hm => h (by simp [he, hm])
  unfold classBody?
  split
  · next s' hs =>
      obtain ⟨-, rfl⟩ := List.cons.inj hs
      split
      · next a b t hu =>
          have ht : '}' ∉ t := fun hm => hv (by rw [(upTo?_eq_some_iff.1 hu).1]; simp [hm])
          rw [upTo?_eq_none ht]
      · rfl
  · rfl

/-! ### The bodies that are found -/

/-- The bodies of a list of parts, in order.  `open?` is what a torn rule before them has of its
body, and `passing` says that its condition has not ended yet. -/
def takenFrom (passing : Bool) (open? : Option (List Char)) : List Part → List (List Char)
  | [] => []
  | .query _ _ :: ps => takenFrom false open? ps
  | .blank w :: ps =>
    if passing then takenFrom true open? ps else takenFrom false (open?.map (· ++ w.1)) ps
  | .close :: ps =>
    if passing then takenFrom true open? ps else open?.toList ++ takenFrom false none ps
  | .rule r :: ps =>
    if passing then takenFrom true open? ps else
      match r.kept? ps with
      | some p => takenFrom true (some p) ps
      | none => r.body :: takenFrom false none ps

/-- The bodies that are taken from the parts of a sheet. -/
def taken (ps : List Part) : List (List Char) :=
  takenFrom false none ps

/-- The text of a rule that has said `p` of its body, or nothing. -/
def Opened : Option (List Char) → List Char → Prop
  | none, x => x = []
  | some p, x => ∃ sel, sel ≠ [] ∧ '.' ∉ sel ∧ (∀ c ∈ sel, isBrace c = false) ∧
      (∀ c ∈ p, isBrace c = false) ∧ x = '.' :: (sel ++ '{' :: p)

/-- Blanks behind an open rule belong to what it has said. -/
theorem Opened.blank {o : Option (List Char)} {x : List Char} (h : Opened o x) (w : Blanks) :
    ∃ y, Opened (o.map (· ++ w.1)) y ∧
      ∀ t, classBody?.findAll (x ++ (w.1 ++ t)) = classBody?.findAll (y ++ t) := by
  cases o with
  | none =>
      subst h
      exact ⟨[], rfl, fun t => findAll_append_of_no_point (w.not_mem (by decide)) t⟩
  | some p =>
      obtain ⟨sel, hne, hdot, hsel, hp, rfl⟩ := h
      refine ⟨'.' :: (sel ++ '{' :: (p ++ w.1)), ⟨sel, hne, hdot, hsel, ?_, rfl⟩, fun t => by simp⟩
      intro c hc
      rcases List.mem_append.1 hc with hc | hc
      · exact hp c hc
      · exact isBrace_of_isBlank (w.2 c hc)

/-- The next rule is found as if nothing were open: the open rule has met a second opening brace. -/
theorem Opened.selector {o : Option (List Char)} {x : List Char} (h : Opened o x) (w : Blanks)
    {sel : List Char} (hne : sel ≠ []) (hsel : ∀ c ∈ sel, isBrace c = false) (t : List Char) :
    classBody?.findAll (x ++ (w.1 ++ '.' :: (sel ++ '{' :: t))) =
      classBody?.findAll ('.' :: (sel ++ '{' :: t)) := by
  have ho : '{' ∉ sel := not_mem_of_plain hsel rfl
  cases o with
  | none =>
      subst h
      exact findAll_append_selector (w.not_mem (by decide)) hne ho t
  | some p =>
      obtain ⟨sel', hne', hdot, hsel', hp, rfl⟩ := h
      have hbetween : '}' ∉ p ++ (w.1 ++ '.' :: sel) := by
        have hw : '}' ∉ w.1 := w.not_mem (by decide)
        simp [not_mem_of_plain hp, not_mem_of_plain hsel, hw, isBrace]
      have hnone := classBody?_of_selector hne' (not_mem_of_plain hsel' rfl)
        ((p ++ (w.1 ++ '.' :: sel)) ++ '{' :: t)
      rw [bodyOf?_brace hbetween] at hnone
      have hpoint : '.' ∉ sel' ++ ['{'] := by simp [hdot]
      have hbefore : '{' ∉ p ++ w.1 := by
        have hw : '{' ∉ w.1 := w.not_mem (by decide)
        simp [not_mem_of_plain hp, hw, isBrace]
      calc classBody?.findAll ('.' :: (sel' ++ '{' :: p) ++ (w.1 ++ '.' :: (sel ++ '{' :: t)))
        _ = classBody?.findAll ('.' :: (sel' ++ '{' :: ((p ++ (w.1 ++ '.' :: sel)) ++ '{' :: t))) := by
            simp
        _ = classBody?.findAll (sel' ++ '{' :: ((p ++ (w.1 ++ '.' :: sel)) ++ '{' :: t)) :=
            Pattern.findAll_cons_of_none hnone
        _ = classBody?.findAll ((sel' ++ ['{']) ++ ((p ++ w.1) ++ '.' :: (sel ++ '{' :: t))) := by
            simp
        _ = classBody?.findAll ((p ++ w.1) ++ '.' :: (sel ++ '{' :: t)) :=
            findAll_append_of_no_point hpoint _
        _ = classBody?.findAll ('.' :: (sel ++ '{' :: t)) :=
            findAll_append_selector hbefore hne ho t

/-- A closing brace ends the open rule. -/
theorem Opened.close {o : Option (List Char)} {x : List Char} (h : Opened o x) (t : List Char) :
    classBody?.findAll (x ++ '}' :: t) = o.toList ++ classBody?.findAll t := by
  cases o with
  | none =>
      subst h
      exact findAll_append_of_no_point (w := ['}']) (by decide) t
  | some p =>
      obtain ⟨sel, hne, hdot, hsel, hp, rfl⟩ := h
      have := findAll_classBody? hne (not_mem_of_plain hsel rfl) (bodyOf?_close hp t)
      simpa using this

/-- A rule without its end is opened. -/
theorem opened_of_kept? {r : ClassRule} {ps : List Part} {p : List Char} (h : r.kept? ps = some p) :
    Opened (some p) ('.' :: (r.selector ++ '{' :: p)) := by
  refine ⟨r.selector, r.selector_ne_nil, r.not_mem_selector (by decide) (by decide),
    r.selector_plain, fun c hc => ?_, rfl⟩
  obtain ⟨y, hy, -⟩ := beforeOpen?_eq_some (ClassRule.kept?_eq_some_iff.1 h).1
  exact r.body_plain c (by rw [hy]; exact List.mem_append_left y hc)

/-- The search through the parts.  The second half is about a rule whose condition has not ended:
the parts before the query in which it ends are gone. -/
theorem findAll_remains (ps : List Part) :
    (∀ o x, Opened o x → classBody?.findAll (x ++ remains ps) = takenFrom false o ps) ∧
    (∀ p x qs, Opened (some p) x → behindQuery? ps = some qs →
      classBody?.findAll (x ++ remains qs) = takenFrom true (some p) ps) := by
  induction ps with
  | nil =>
      refine ⟨fun o x hx => ?_, fun p x qs _ h => by cases h⟩
      have hclose : '}' ∉ x ++ remains [] := by
        cases o with
        | none => cases hx; exact List.not_mem_nil
        | some p =>
            obtain ⟨sel, -, -, hsel, hp, rfl⟩ := hx
            have hr : remains [] = [] := rfl
            simp [hr, not_mem_of_plain hsel, not_mem_of_plain hp, isBrace]
      exact findAll_of_no_close hclose
  | cons part ps ih =>
      cases part with
      | blank w =>
          refine ⟨fun o x hx => ?_, fun p x qs hx h => ih.2 p x qs hx h⟩
          obtain ⟨y, hy, hfind⟩ := hx.blank w
          rw [remains_plain (w.not_mem (by decide)), Part.text, hfind]
          exact ih.1 _ y hy
      | close =>
          refine ⟨fun o x hx => ?_, fun p x qs hx h => ih.2 p x qs hx h⟩
          rw [remains_plain (by decide)]
          exact (hx.close _).trans (congrArg (o.toList ++ ·) (ih.1 none [] rfl))
      | query h inside =>
          constructor
          · intro o x hx
            rw [remains_query]
            exact ih.1 o x hx
          · rintro p x qs hx ⟨⟩
            exact ih.1 (some p) x hx
      | rule r =>
          constructor
          · intro o x hx
            cases hk : r.kept? ps with
            | none =>
                have hbody := bodyOf?_close r.body_plain (remains ps)
                have hne := r.selector_ne_nil
                have ho := not_mem_of_plain r.selector_plain (b := '{') rfl
                rw [remains_rule hk, r.text_append, takenFrom, hk, ← ih.1 none [] rfl]
                have := (hx.selector r.gap hne r.selector_plain _).trans
                  (findAll_classBody? hne ho hbody)
                simpa using this
            | some p =>
                -- the rule stays open, and the parts up to the end of its condition are gone
                obtain ⟨qs, hqs, hr⟩ := remains_torn hk
                have := hx.selector r.gap r.selector_ne_nil r.selector_plain (p ++ remains qs)
                rw [hr, takenFrom, hk]
                refine Eq.trans ?_ (ih.2 p _ qs (opened_of_kept? hk) hqs)
                simpa using this
          · intro p x qs hx h
            rw [behindQuery?] at h
            split at h
            · cases h
            · exact ih.2 p x qs hx h

/-- **Merging takes the bodies that can be read off the parts.** -/
theorem findAll_run_cut (ps : List Part) :
    classBody?.findAll (flatQuery?.cut.run (textOf ps)) = taken ps :=
  (findAll_remains ps).1 none [] rfl

/-! ### Where no rule is torn -/

/-- The bodies of the rules among some parts. -/
def Part.bodies : Part → List (List Char)
  | rule r => [r.body]
  | blank _ | query _ _ | close => []

/-- Nothing is behind a query where there is none. -/
theorem behindQuery?_eq_none {ps : List Part} (h : ∀ hd inside, .query hd inside ∉ ps) :
    behindQuery? ps = none := by
  induction ps with
  | nil => rfl
  | cons part ps ih =>
      have hrest := ih fun hd inside hm => h hd inside (List.mem_cons_of_mem part hm)
      cases part with
      | blank w => exact hrest
      | close => exact hrest
      | rule r => rw [behindQuery?, hrest, ite_self]
      | query hd inside => exact absurd List.mem_cons_self (h hd inside)

/-- Parts without a query hold none: a header that is left open finds no end. -/
theorem findAll_flatQuery?_eq_nil {ps : List Part} (h : ∀ hd inside, .query hd inside ∉ ps) :
    flatQuery?.findAll (textOf ps) = [] := by
  have plain : ∀ {w : List Char}, '@' ∉ w → ∀ t : List Char,
      flatQuery?.findAll (w ++ t) = flatQuery?.findAll t := fun hw t =>
    Pattern.findAll_append_of_none fun _ _ _ he => flatQuery?_eq_none_of_plain hw he t
  induction ps with
  | nil => rfl
  | cons part ps ih =>
      have hbehind : ∀ hd inside, Part.query hd inside ∉ ps := fun hd inside hm =>
        h hd inside (List.mem_cons_of_mem part hm)
      rw [textOf_cons, ← ih hbehind]
      cases part with
      | blank w => exact plain (w.not_mem (by decide)) _
      | close => exact plain (by decide) _
      | query hd inside => exact absurd List.mem_cons_self (h hd inside)
      | rule r =>
          have hend : afterCondition? (textOf ps) = none := by
            rw [afterCondition?_textOf, behindQuery?_eq_none hbehind]
            rfl
          rw [Part.text, r.text_append, plain (r.not_mem_head (by decide) (by decide) (by decide)),
            Pattern.findAll_append_of_none fun _ _ _ he =>
              flatQuery?_eq_none_in_body r.body_plain (.inr hend) he]
          exact plain (w := ['}']) (by decide) _

/-- **Rules that are not torn** give their bodies: rules that leave no header open, or that no query
follows. -/
theorem taken_eq_bodies {ps : List Part}
    (h : (∀ body ∈ ps.flatMap Part.bodies, beforeOpen? body = none) ∨
      ∀ hd inside, .query hd inside ∉ ps) :
    taken ps = ps.flatMap Part.bodies := by
  induction ps with
  | nil => rfl
  | cons part ps ih =>
      have hrest := ih <| h.imp (fun h body hm => h body (List.mem_append_right part.bodies hm))
        fun h hd inside hm => h hd inside (List.mem_cons_of_mem part hm)
      cases part with
      | blank w => exact hrest
      | close => exact hrest
      | query hd inside => exact hrest
      | rule r =>
          have hkept : r.kept? ps = none := by
            refine ClassRule.kept?_eq_none_iff.2 (h.imp (fun h => ?_) fun h => ?_)
            · exact h r.body (List.mem_append_left _ List.mem_cons_self)
            · exact behindQuery?_eq_none fun hd inside hm => h hd inside (List.mem_cons_of_mem _ hm)
          rw [taken, takenFrom, hkept]
          exact congrArg (r.body :: ·) hrest

/-- A document is merged as text. -/
theorem mergeRules_apply (doc : Bytes) :
    mergeRules.apply doc = Utf8.encode (merged (Utf8.codePoints doc)).1 :=
  rfl

/-- **Without queries** the merged text is what the bodies declare. -/
theorem merged_of_no_query {ps : List Part} (h : ∀ hd inside, .query hd inside ∉ ps) :
    (merged (textOf ps)).1 = extract false (ps.flatMap Part.bodies).flatten := by
  unfold merged
  dsimp only
  rw [findAll_flatQuery?_eq_nil h, findAll_run_cut, taken_eq_bodies (.inr h), List.flatMap_nil,
    List.append_nil]

end Restyle.Css
