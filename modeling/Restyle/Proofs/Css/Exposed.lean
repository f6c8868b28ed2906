import Restyle.Proofs.Css.Undefined

/-!
# What a second removal of undefined rules finds

A rule goes only if it is found at the start of a line, and every line start is looked at once.  What
stands behind a rule that goes is in the middle of a line then, but at the start of one in what is left.
So a second removal may find what the first has passed over.  It can do so in two ways only, each at a
stretch that has gone (`Exposed`):

* right behind the stretch there is another undefined rule, on the same line;
* the stretch has taken the closing brace of a rule along, and what stands behind it makes an undefined
  rule of what is left of that one.

`Scanned` says how the removal goes through a text, and the statements here are inductions on it.

* `removeUndefined_apply_apply_iff`: a second removal changes nothing exactly when no stretch that has
  gone exposes a rule.
-/

namespace Restyle.Css

/-! ### The rules that go -/

/-- The text up to the first brace. -/
def selectorOf (head : List Char) : List Char :=
  head.takeWhile (! isBrace ·)

/-- A stretch that goes: what stands before an opening brace, and a body. -/
structure TakenRule where
  head : List Char
  body : List Char
  head_open : '{' ∉ head
  names : NamesClassOrId (selectorOf head)
  body_close : '}' ∉ body
  declares : DeclaresUndefined '{' body

def TakenRule.text (r : TakenRule) : List Char :=
  r.head ++ '{' :: (r.body ++ ['}'])

theorem TakenRule.text_append (r : TakenRule) (t : List Char) :
    r.text ++ t = r.head ++ '{' :: (r.body ++ '}' :: t) := by
  simp [text]

theorem TakenRule.text_ne_nil (r : TakenRule) : r.text ≠ [] := by
  simp [text]

/-- A rule is read from its first brace on: its selector stands before it, and its body goes up to the next
closing one. -/
theorem undefinedRule?_open {head t : List Char} (h : '{' ∉ head) :
    undefinedRule? (head ++ '{' :: t) = (do
      let (body, rest) ← upTo? '}' t
      if namesClassOrId (selectorOf head) && setsUndefined '{' false body then some rest
      else none) := by
  have hsel : (head ++ '{' :: t).takeWhile (! isBrace ·) = selectorOf head := by
    rw [List.takeWhile_append]
    split
    · next hl =>
        rw [selectorOf, (List.takeWhile_prefix _).eq_of_length hl]
        simp [isBrace]
    · rfl
  unfold undefinedRule?
  simp only [hsel, upTo?_append h, Option.bind_eq_bind, Option.bind_some]

/-- **What is found at a place** is a rule that goes. -/
theorem undefinedRule?_eq_some_iff {s rest : List Char} :
    undefinedRule? s = some rest ↔ ∃ r : TakenRule, s = r.text ++ rest := by
  constructor
  · intro h
    by_cases ho : '{' ∈ s
    · obtain ⟨head, t, rfl, hhead⟩ := List.eq_append_cons_of_mem ho
      rw [undefinedRule?_open hhead, Option.bind_eq_bind, Option.bind_eq_some_iff] at h
      obtain ⟨⟨body, rest'⟩, hup, h⟩ := h
      obtain ⟨rfl, hbody⟩ := upTo?_eq_some_iff.1 hup
      dsimp only at h
      split at h
      · next hc =>
          cases h
          rw [Bool.and_eq_true, namesClassOrId_iff, setsUndefined_iff] at hc
          exact ⟨⟨head, body, hhead, hc.1, hbody, hc.2⟩, by simp [TakenRule.text]⟩
      · cases h
    · rw [undefinedRule?_eq_none ho] at h
      cases h
  · rintro ⟨r, rfl⟩
    rw [r.text_append, undefinedRule?_open r.head_open]
    simp [upTo?_append r.body_close, namesClassOrId_iff, setsUndefined_iff, r.names, r.declares]

/-- What is declared behind a brace is declared, whatever stands before the brace. -/
theorem DeclaresUndefined.append_left {s : List Char} (h : DeclaresUndefined '{' s) (previous : Char)
    (t : List Char) : DeclaresUndefined previous (t ++ '{' :: s) := by
  obtain ⟨u, c, name, g, v, rfl, hname, hg, hedge⟩ := h
  refine ⟨t ++ '{' :: u, c, name, g, v, by simp, hname, hg, ?_⟩
  have hlast : (t ++ '{' :: u).getLastD previous = u.getLastD '{' := by
    induction t generalizing previous with
    | nil => rw [List.nil_append, List.getLastD_cons]
    | cons x t ih => rw [List.cons_append, List.getLastD_cons, ih]
  rwa [hlast]

/-- A closing brace ends the selector, whatever follows it. -/
theorem selectorOf_append_of_mem {u : List Char} (h : '}' ∈ u) (t : List Char) :
    selectorOf (u ++ t) = selectorOf u := by
  rw [selectorOf, List.takeWhile_append, if_neg, selectorOf]
  intro hl
  have hall := List.takeWhile_eq_self_iff.1 ((List.takeWhile_prefix _).eq_of_length hl)
  exact absurd (hall '}' h) (by decide)

/-- Without braces all of a text belongs to the selector. -/
theorem selectorOf_append_of_plain {u : List Char} (h : ∀ c ∈ u, isBrace c = false) (t : List Char) :
    selectorOf (u ++ t) = u ++ selectorOf t :=
  List.takeWhile_append_of_pos fun c hc => by simp [h c hc]

/-! ### Through a text -/

/-- How the removal goes through a text, from a place at which a line starts or not, and the pieces into
which it cuts it. -/
inductive Scanned : Bool → List Char → List (Piece (List Char)) → Prop
  | nil {lineStart} : Scanned lineStart [] []
  | found {rest ps} (r : TakenRule) : Scanned false rest ps →
      Scanned true (r.text ++ rest) (.found r.text :: ps)
  | other {lineStart c s ps} : (lineStart = true → undefinedRule? (c :: s) = none) →
      Scanned (c == '\n') s ps → Scanned lineStart (c :: s) (.other c :: ps)

theorem scanned (lineStart : Bool) (s : List Char) :
    Scanned lineStart s (undefinedPiecesFrom 0 lineStart s) := by
  induction hn : s.length using Nat.strong_induction_on generalizing lineStart s with
  | _ n ih =>
      subst hn
      cases s with
      | nil => exact .nil
      | cons c s =>
          by_cases hnone : lineStart = true → undefinedRule? (c :: s) = none
          · rw [undefinedPiecesFrom_other hnone]
            exact .other hnone (ih _ (by simp) _ s rfl)
          · rw [Classical.not_imp] at hnone
            obtain ⟨rfl, hsome⟩ := hnone
            obtain ⟨rest, hrest⟩ := Option.ne_none_iff_exists'.1 hsome
            obtain ⟨r, hr⟩ := undefinedRule?_eq_some_iff.1 hrest
            have hlt : rest.length < (c :: s).length := by
              rw [hr, List.length_append]
              have := List.length_pos_iff.2 r.text_ne_nil
              omega
            rw [hr] at hrest hlt ⊢
            rw [undefinedPiecesFrom_found r.text_ne_nil hrest]
            exact .found r (ih _ (hr ▸ hlt) _ rest rfl)

@[simp] theorem leftOver_other (c : Char) (ps : List (Piece (List Char))) :
    leftOver (.other c :: ps) = c :: leftOver ps := rfl

namespace Scanned

variable {lineStart : Bool} {s : List Char} {ps : List (Piece (List Char))}

/-- Nothing goes, or there is a first rule that goes. -/
theorem first (h : Scanned lineStart s ps) :
    ps = s.map .other ∨ ∃ (u : List Char) (r : TakenRule) (rest : List Char)
      (qs : List (Piece (List Char))), s = u ++ (r.text ++ rest) ∧
        ps = u.map .other ++ .found r.text :: qs ∧ Scanned false rest qs := by
  induction h with
  | nil => exact .inl rfl
  | @found rest ps r h _ => exact .inr ⟨[], r, rest, ps, rfl, rfl, h⟩
  | @other lineStart c s ps _ _ ih =>
      rcases ih with rfl | ⟨u, r, rest, qs, rfl, rfl, h⟩
      · exact .inl rfl
      · exact .inr ⟨c :: u, r, rest, qs, rfl, rfl, h⟩

/-- What is left over is not longer than what was read. -/
theorem length_leftOver_le (h : Scanned lineStart s ps) : (leftOver ps).length ≤ s.length := by
  induction h with
  | nil => exact Nat.le_refl _
  | found r _ ih =>
      rw [leftOver_found, List.length_append]
      omega
  | other _ _ ih =>
      rw [leftOver_other, List.length_cons, List.length_cons]
      omega

/-- A rule that goes starts a line, of the text and of what is left of it. -/
theorem lineStartAfter_before (h : Scanned lineStart s ps) {before after : List (Piece (List Char))}
    {w : List Char} (hps : ps = before ++ .found w :: after) {b : Bool}
    (hb : lineStart = true → b = true) : lineStartAfter b (leftOver before) = true := by
  induction h generalizing before b with
  | nil => simp at hps
  | found r _ ih =>
      cases before with
      | nil => exact hb rfl
      | cons x before =>
          obtain ⟨rfl, rfl⟩ := List.cons.inj hps
          exact ih rfl fun h => by cases h
  | other _ _ ih =>
      cases before with
      | nil => cases (List.cons.inj hps).1
      | cons x before =>
          obtain ⟨rfl, rfl⟩ := List.cons.inj hps
          exact ih rfl id

/-- Where nothing goes, nothing was found at any line start. -/
theorem undefinedRule?_eq_none (h : Scanned lineStart s ps) (hps : ps = s.map .other)
    {x y : List Char} (hs : s = x ++ y) (hx : lineStartAfter lineStart x = true) :
    undefinedRule? y = none := by
  induction h generalizing x with
  | nil =>
      obtain ⟨-, rfl⟩ := List.nil_eq_append_iff.1 hs
      rfl
  | found r _ _ =>
      obtain ⟨c, w, hw⟩ := List.exists_cons_of_ne_nil r.text_ne_nil
      simp [hw] at hps
  | other hnone _ ih =>
      cases x with
      | nil =>
          rw [List.nil_append] at hs
          exact hs ▸ hnone hx
      | cons d x =>
          obtain ⟨rfl, htail⟩ := List.cons.inj hs
          exact ih (List.cons.inj hps).2 htail hx

end Scanned

/-! ### Lines that start a rule -/

/-- Some line of the text starts an undefined rule; `lineStart` says whether its first one counts. -/
def Starts (lineStart : Bool) (s : List Char) : Prop :=
  ∃ x y rest, s = x ++ y ∧ lineStartAfter lineStart x = true ∧ undefinedRule? y = some rest

/-- A rule starts somewhere if not everything is left over. -/
theorem Scanned.starts_iff {lineStart : Bool} {s : List Char} {ps : List (Piece (List Char))}
    (h : Scanned lineStart s ps) : Starts lineStart s ↔ leftOver ps ≠ s := by
  rcases h.first with rfl | ⟨u, r, rest, qs, rfl, rfl, hrest⟩
  · rw [leftOver_map_other]
    refine iff_of_false ?_ (fun hne => hne rfl)
    rintro ⟨x, y, rest, hs, hx, hy⟩
    rw [h.undefinedRule?_eq_none rfl hs hx] at hy
    cases hy
  · refine iff_of_true ⟨u, r.text ++ rest, rest, rfl, ?_, undefinedRule?_eq_some_iff.2 ⟨r, rfl⟩⟩ ?_
    · have := h.lineStartAfter_before rfl id
      rwa [leftOver_map_other] at this
    · intro he
      have hle := hrest.length_leftOver_le
      have hpos := List.length_pos_iff.2 r.text_ne_nil
      have hlen := congrArg List.length he
      rw [leftOver_append, leftOver_map_other, leftOver_found] at hlen
      simp only [List.length_append] at hlen
      omega

/-! ### What a stretch exposes -/

/-- Between `before` and `after`, which are left, a stretch `r` has gone; a rule has come to light that
goes at the next removal: behind the stretch, or one of which the stretch has taken the closing brace. -/
def Exposed (lineStart : Bool) (before : List Char) (r : TakenRule) (after : List Char) : Prop :=
  (∃ rest, undefinedRule? after = some rest) ∨
  '}' ∈ r.head ∧ ∃ x head body rest, before = x ++ (head ++ '{' :: body) ∧
    lineStartAfter lineStart x = true ∧ '{' ∉ head ∧ '}' ∉ body ∧
    undefinedRule? (head ++ '{' :: (body ++ after)) = some rest

/-- In front of a stretch, the start of the head of a rule makes a longer rule of it. -/
theorem TakenRule.exists_longer {y after rest : List Char} {r' : TakenRule}
    (h : y ++ after = r'.head ++ '{' :: rest) (hy : '{' ∉ y) (r : TakenRule) :
    ∃ longer : TakenRule, longer.text = y ++ r.text := by
  have hnames : NamesClassOrId (selectorOf (y ++ r.head)) := by
    by_cases hc : '}' ∈ y
    · obtain ⟨z, hz⟩ : y <+: r'.head := by
        rcases List.append_eq_append_iff.1 h with ⟨z, hz, -⟩ | ⟨z, rfl, hz⟩
        · exact ⟨z, hz.symm⟩
        · cases z with
          | nil => exact ⟨[], by simp⟩
          | cons c z =>
              obtain ⟨rfl, -⟩ := List.cons.inj hz
              simp at hy
      rw [selectorOf_append_of_mem hc, ← selectorOf_append_of_mem hc z, hz]
      exact r'.names
    · rw [selectorOf_append_of_plain]
      · exact r.names.append_left y
      · intro c hm
        rw [isBrace_eq_false_iff]
        exact ⟨fun he => hy (he ▸ hm), fun he => hc (he ▸ hm)⟩
  refine ⟨⟨y ++ r.head, r.body, ?_, hnames, r.body_close, r.declares⟩, ?_⟩
  · simp [hy, r.head_open]
  · simp [TakenRule.text]

/-- **A rule that was none before** a stretch went was open where it stood, and the stretch has taken
its closing brace. -/
theorem exposed_of_none {y after rest rest' : List Char} {r : TakenRule}
    (hnone : undefinedRule? (y ++ (r.text ++ rest)) = none)
    (hsome : undefinedRule? (y ++ after) = some rest') :
    '}' ∈ r.head ∧ ∃ head body, y = head ++ '{' :: body ∧ '{' ∉ head ∧ '}' ∉ body := by
  have absent : ∀ r' : TakenRule, ∀ t, y ++ (r.text ++ rest) ≠ r'.text ++ t := by
    intro r' t he
    rw [undefinedRule?_eq_some_iff.2 ⟨r', he⟩] at hnone
    cases hnone
  obtain ⟨r', hr'⟩ := undefinedRule?_eq_some_iff.1 hsome
  rw [r'.text_append] at hr'
  have hy : '{' ∈ y := by
    by_contra hy
    obtain ⟨longer, hlonger⟩ := TakenRule.exists_longer hr' hy r
    exact absent longer rest (by rw [hlonger, List.append_assoc])
  obtain ⟨head, body, rfl, hhead⟩ := List.eq_append_cons_of_mem hy
  have hup := upTo?_append r'.head_open (r'.body ++ '}' :: rest')
  rw [← hr', List.append_assoc, List.cons_append, upTo?_append hhead] at hup
  obtain ⟨hh, hbody⟩ := Prod.mk.inj (Option.some.inj hup)
  have hnames : NamesClassOrId (selectorOf head) := hh ▸ r'.names
  have hopen : '}' ∉ body := by
    -- a body that is closed before the stretch is the same with it and without it
    intro hm
    obtain ⟨b, t, rfl, hb⟩ := List.eq_append_cons_of_mem hm
    have hup := upTo?_append r'.body_close rest'
    rw [← hbody, List.append_assoc, List.cons_append, upTo?_append hb] at hup
    obtain ⟨hbb, -⟩ := Prod.mk.inj (Option.some.inj hup)
    refine absent ⟨head, b, hhead, hnames, hb, hbb ▸ r'.declares⟩ (t ++ (r.text ++ rest)) ?_
    simp [TakenRule.text]
  refine ⟨?_, head, body, rfl, hhead, hopen⟩
  -- otherwise the body of the stretch would be part of the open body
  by_contra hc
  refine absent ⟨head, (body ++ r.head) ++ '{' :: r.body, hhead, hnames, ?_,
    r.declares.append_left _ _⟩ rest ?_
  · simp [hopen, hc, r.body_close]
  · simp [TakenRule.text]

theorem lineStartAfter_true {x : List Char} (h : lineStartAfter false x = true) :
    lineStartAfter true x = true := by
  cases x with
  | nil => rfl
  | cons c x => exact h

/-- Of what is left, a line starts a rule only where a stretch exposes it. -/
theorem Scanned.exists_exposed {lineStart : Bool} {s : List Char} {ps : List (Piece (List Char))}
    (h : Scanned lineStart s ps) (hs : Starts lineStart (leftOver ps)) :
    ∃ before r after, ps = before ++ .found (TakenRule.text r) :: after ∧
      Exposed lineStart (leftOver before) r (leftOver after) := by
  obtain ⟨x, y, rest, he, hx, hy⟩ := hs
  induction h generalizing x y with
  | nil =>
      obtain ⟨-, rfl⟩ := List.nil_eq_append_iff.1 he
      cases hy
  | @found _ ps r _ ih =>
      rw [leftOver_found] at he
      cases x with
      | nil => exact ⟨[], r, ps, rfl, .inl ⟨rest, he ▸ hy⟩⟩
      | cons c x =>
          obtain ⟨before, r', after, rfl, hexp⟩ := ih (c :: x) y he hx hy
          refine ⟨.found r.text :: before, r', after, rfl, ?_⟩
          rw [leftOver_found]
          rcases hexp with hexp | ⟨hc, x', head, body, rest', hb, hx', hopen⟩
          · exact .inl hexp
          · exact .inr ⟨hc, x', head, body, rest', hb, lineStartAfter_true hx', hopen⟩
  | @other lineStart c s ps hnone h ih =>
      cases x with
      | nil =>
          rw [List.nil_append] at he
          subst he
          -- the rule was none before, so there is a stretch behind it
          rcases h.first with rfl | ⟨u, r, rest', qs, rfl, rfl, -⟩
          · rw [leftOver_other, leftOver_map_other, hnone hx] at hy
            cases hy
          · rw [leftOver_other, leftOver_append, leftOver_map_other, leftOver_found,
              ← List.cons_append] at hy
            obtain ⟨hc, head, body, hu, hh, hb⟩ := exposed_of_none (y := c :: u) (hnone hx) hy
            refine ⟨.other c :: u.map .other, r, qs, rfl, .inr ⟨hc, [], head, body, rest, ?_, hx, hh, hb,
              ?_⟩⟩
            · rw [leftOver_other, leftOver_map_other, hu, List.nil_append]
            · rw [← hy, hu]
              simp
      | cons d x =>
          rw [leftOver_other] at he
          obtain ⟨rfl, htail⟩ := List.cons.inj he
          obtain ⟨before, r, after, rfl, hexp⟩ := ih x y htail hx hy
          refine ⟨.other c :: before, r, after, rfl, ?_⟩
          rcases hexp with hexp | ⟨hc, x', head, body, rest', hb, hx', hopen⟩
          · exact .inl hexp
          · exact .inr ⟨hc, c :: x', head, body, rest', congrArg (c :: ·) hb, hx', hopen⟩

/-- **A line of what is left starts a rule** exactly where a stretch exposes one. -/
theorem starts_leftOver_iff {s : List Char} :
    Starts true (leftOver (undefinedPieces s)) ↔
      ∃ before r after, undefinedPieces s = before ++ .found (TakenRule.text r) :: after ∧
        Exposed true (leftOver before) r (leftOver after) := by
  have h := scanned true s
  refine ⟨h.exists_exposed, ?_⟩
  rintro ⟨before, r, after, hps, hexp⟩
  have hleft : leftOver (undefinedPieces s) = leftOver before ++ leftOver after := by
    rw [hps, leftOver_append, leftOver_found]
  rcases hexp with ⟨rest, hrest⟩ | ⟨-, x, head, body, rest, hb, hx, -, -, hrest⟩
  · exact ⟨leftOver before, leftOver after, rest, hleft, h.lineStartAfter_before hps id, hrest⟩
  · refine ⟨x, head ++ '{' :: (body ++ leftOver after), rest, ?_, hx, hrest⟩
    rw [hleft, hb]
    simp

/-! ### The second removal -/

/-- **When a second removal changes nothing**: when no line of what the first one leaves starts an
undefined rule.  That is so exactly when no stretch that has gone exposes one. -/
theorem removeUndefined_apply_apply_iff (doc : Bytes) :
    (removeUndefined.apply (removeUndefined.apply doc) = removeUndefined.apply doc ↔
      ¬ Starts true (Utf8.codePoints (removeUndefined.apply doc))) ∧
    (removeUndefined.apply (removeUndefined.apply doc) = removeUndefined.apply doc ↔
      ∀ before r after,
        undefinedPieces (Utf8.codePoints doc) = before ++ .found (TakenRule.text r) :: after →
          ¬ Exposed true (leftOver before) r (leftOver after)) := by
  have hagain : removeUndefined.apply (removeUndefined.apply doc) = removeUndefined.apply doc ↔
      ¬ Starts true (Utf8.codePoints (removeUndefined.apply doc)) := by
    rw [(scanned true _).starts_iff, not_not, ← undefinedPieces, ← run_removeUndefined,
      ← Edit.codePoints_apply]
    generalize removeUndefined.apply doc = left
    refine ⟨congrArg Utf8.codePoints, fun h => ?_⟩
    rw [Edit.codePoints_apply, removeUndefined, Edit.run_changing] at h
    rw [Edit.apply, removeUndefined, Edit.changing, Edit.whenever, if_neg (by simpa using h)]
  refine ⟨hagain, hagain.trans ?_⟩
  rw [Edit.codePoints_apply, run_removeUndefined, starts_leftOver_iff]
  simp only [not_exists, not_and]

/-- Two undefined rules on one line. -/
def sharedLine : List Char :=
  ".a\x7bx:undefined\x7d.b\x7by:undefined\x7d".toList

/-- Of `sharedLine` the first removal leaves the second rule, which goes at the second removal. -/
theorem removeUndefined_apply_apply_sharedLine :
    Utf8.codePoints (removeUndefined.apply (Utf8.encode sharedLine)) =
      ".b\x7by:undefined\x7d".toList ∧
    Utf8.codePoints (removeUndefined.apply (removeUndefined.apply (Utf8.encode sharedLine))) = [] ∧
    removeUndefined.apply (removeUndefined.apply (Utf8.encode sharedLine)) ≠
      removeUndefined.apply (Utf8.encode sharedLine) := by
  have hfirst : Utf8.codePoints (removeUndefined.apply (Utf8.encode sharedLine)) =
      ".b\x7by:undefined\x7d".toList := by
    rw [Edit.codePoints_apply, Utf8.codePoints_encode]
    decide
  have hsecond : Utf8.codePoints
      (removeUndefined.apply (removeUndefined.apply (Utf8.encode sharedLine))) = [] := by
    rw [Edit.codePoints_apply, hfirst]
    decide
  refine ⟨hfirst, hsecond, fun h => ?_⟩
  rw [h, hfirst] at hsecond
  cases hsecond

/-- A stretch that takes the closing brace of a rule along and so makes it an undefined one. -/
example : removeUndefined.run (removeUndefined.run
    ".y\x7ba:\n.5em\x7dq\x7bb:undefined\x7dundefined\x7d".toList) = [] := by decide

end Restyle.Css
