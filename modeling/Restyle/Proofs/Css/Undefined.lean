import Restyle.Proofs.Css.Edit
import Restyle.Proofs.Css.Rule
import Restyle.Proofs.Text.Utf8

/-!
# What the removal of undefined rules takes

On a sheet of rules the removal is meant to take whole rules.  `undefinedPieces` shows what it takes:
the text cut into the characters that stay and the stretches that go.  `CutInto` says that every
such stretch is one whole rule which declares `undefined`, with white space before it.

That is not always so.  A rule is looked for at every line start, and its selector may run over a
closing brace.

* A rule is *caught* when it declares `undefined`, its selector names a class or an id, and a line
  starts before its selector.  It goes as a whole.
* It is *torn* when no line starts before its selector but one starts inside it, before a class or
  an id: the lines before that stay.
* A rule *bites* the next one when its body has a line that names a class or an id (`#fff` and
  `.5em` do) and the next rule declares `undefined`: all from that line to the end of the next rule
  goes, the closing brace of the first rule too.

`removeUndefined_spares_rules_iff`: the removal takes whole rules exactly from the sheets in which no
rule is torn and none that stays bites the next.  Then the rules without the word `undefined` are
all left, in order, and the braces are balanced.
-/

namespace Restyle.Css

/-! ### The pieces of a removal -/

/-- The text as the removal cuts it, passing over the first `skip` characters. -/
def undefinedPiecesFrom (skip : Nat) (lineStart : Bool) : List Char → List (Piece (List Char))
  | [] => []
  | c :: s =>
    match skip with
    | k + 1 => undefinedPiecesFrom k false s
    | 0 =>
      match if lineStart then undefinedRule? (c :: s) else none with
      | some rest =>
        .found ((c :: s).take (s.length + 1 - rest.length)) ::
          undefinedPiecesFrom (s.length - rest.length) false s
      | none => .other c :: undefinedPiecesFrom 0 (c == '\n') s

/-- The characters that stay and the stretches that go. -/
def undefinedPieces (s : List Char) : List (Piece (List Char)) :=
  undefinedPiecesFrom 0 true s

/-- What stays of a text. -/
def leftOver (ps : List (Piece (List Char))) : List Char :=
  ps.flatMap (Piece.text fun _ => [])

/-- What is kept is what is left over of the pieces. -/
theorem dropUndefinedFrom_eq_leftOver (skip : Nat) (lineStart : Bool) (s : List Char) :
    dropUndefinedFrom skip lineStart s = leftOver (undefinedPiecesFrom skip lineStart s) := by
  induction s generalizing skip lineStart with
  | nil => rfl
  | cons c s ih =>
      unfold dropUndefinedFrom undefinedPiecesFrom
      cases skip with
      | succ k => exact ih k false
      | zero =>
          dsimp only
          cases if lineStart then undefinedRule? (c :: s) else none with
          | some rest => exact ih _ false
          | none => exact congrArg (c :: ·) (ih 0 (c == '\n'))

/-- Removing is leaving out the pieces that were found. -/
theorem run_removeUndefined (s : List Char) :
    removeUndefined.run s = leftOver (undefinedPieces s) := by
  rw [removeUndefined, Edit.run_changing]
  exact dropUndefinedFrom_eq_leftOver 0 true s

@[simp] theorem leftOver_append (ps qs : List (Piece (List Char))) :
    leftOver (ps ++ qs) = leftOver ps ++ leftOver qs :=
  List.flatMap_append

@[simp] theorem leftOver_map_other (s : List Char) : leftOver (s.map .other) = s := by
  induction s with
  | nil => rfl
  | cons c s ih => exact congrArg (c :: ·) ih

@[simp] theorem leftOver_found (w : List Char) (ps : List (Piece (List Char))) :
    leftOver (.found w :: ps) = leftOver ps := rfl

/-! ### One step of the search -/

/-- Pieces are those behind what has been passed. -/
theorem undefinedPiecesFrom_skip (u v : List Char) :
    undefinedPiecesFrom u.length false (u ++ v) = undefinedPiecesFrom 0 false v := by
  induction u with
  | nil => rfl
  | cons c u ih => exact ih

/-- A rule is found: it goes, and the search goes on behind it, in the middle of a line. -/
theorem undefinedPiecesFrom_found {w rest : List Char} (hw : w ≠ [])
    (h : undefinedRule? (w ++ rest) = some rest) :
    undefinedPiecesFrom 0 true (w ++ rest) = .found w :: undefinedPiecesFrom 0 false rest := by
  cases w with
  | nil => exact absurd rfl hw
  | cons c w =>
      rw [List.cons_append] at h ⊢
      simp only [undefinedPiecesFrom, if_true, h]
      congr 1
      · congr 1
        rw [← List.cons_append, List.take_left']
        simp only [List.length_append, List.length_cons]
        omega
      · rw [List.length_append, Nat.add_sub_cancel]
        exact undefinedPiecesFrom_skip w rest

/-- Where no rule is found, the character is kept. -/
theorem undefinedPiecesFrom_other {c : Char} {s : List Char} {lineStart : Bool}
    (h : lineStart = true → undefinedRule? (c :: s) = none) :
    undefinedPiecesFrom 0 lineStart (c :: s) = .other c :: undefinedPiecesFrom 0 (c == '\n') s := by
  cases lineStart with
  | false => rfl
  | true => simp only [undefinedPiecesFrom, if_true, h rfl]

/-- In the middle of a line nothing is found before the line ends. -/
theorem undefinedPiecesFrom_line {u : List Char} (hu : '\n' ∉ u) (v : List Char) :
    undefinedPiecesFrom 0 false (u ++ '\n' :: v) =
      (u ++ ['\n']).map .other ++ undefinedPiecesFrom 0 true v := by
  induction u with
  | nil => rfl
  | cons c u ih =>
      rw [List.mem_cons, not_or] at hu
      have hc : (c == '\n') = false := by simpa using Ne.symm hu.1
      rw [List.cons_append, undefinedPiecesFrom_other (fun h => by cases h), hc, ih hu.2]
      rfl

/-! ### A stretch of a sheet

Between two braces, what is found at a line start depends on the rest of the stretch only: it names
a class or an id, and the rule behind it declares `undefined`. -/

/-- A line starts behind a text, when `lineStart` says whether one starts before it. -/
def lineStartAfter (lineStart : Bool) : List Char → Bool
  | [] => lineStart
  | c :: s => lineStartAfter (c == '\n') s

/-- A line starts behind a line end. -/
theorem exists_break_of_lineStartAfter {s : List Char} (h : lineStartAfter false s = true) :
    ∃ u, s = u ++ ['\n'] := by
  suffices H : ∀ (s : List Char) (b : Bool), lineStartAfter b s = true →
      (s = [] ∧ b = true) ∨ ∃ u, s = u ++ ['\n'] from
    (H s false h).resolve_left (by simp)
  intro s
  induction s with
  | nil => intro b hb; exact .inl ⟨rfl, hb⟩
  | cons c s ih =>
      intro b hb
      rcases ih _ hb with ⟨rfl, hc⟩ | ⟨u, rfl⟩
      · obtain rfl : c = '\n' := by simpa using hc
        exact .inr ⟨[], rfl⟩
      · exact .inr ⟨c :: u, rfl⟩

/-- A stretch in which nothing is found stays, with the brace behind it. -/
theorem undefinedPiecesFrom_stretch {w after : List Char} {brace : Char} {lineStart : Bool}
    (hb : brace ≠ '\n')
    (h : ∀ x y, w = x ++ y → lineStartAfter lineStart x = true →
      undefinedRule? (y ++ brace :: after) = none) :
    undefinedPiecesFrom 0 lineStart (w ++ brace :: after) =
      (w ++ [brace]).map .other ++ undefinedPiecesFrom 0 false after := by
  induction w generalizing lineStart with
  | nil =>
      have hbn : (brace == '\n') = false := by simpa using hb
      have hn : lineStart = true → undefinedRule? (brace :: after) = none := h [] [] rfl
      rw [List.nil_append, undefinedPiecesFrom_other hn, hbn]
      rfl
  | cons c w ih =>
      have hn : lineStart = true → undefinedRule? (c :: (w ++ brace :: after)) = none :=
        h [] (c :: w) rfl
      rw [List.cons_append, undefinedPiecesFrom_other hn,
        ih fun x y he hl => h (c :: x) y (by rw [he]; rfl) hl]
      rfl

/-- A text without rules stays. -/
theorem undefinedPiecesFrom_of_no_open {s : List Char} (h : '{' ∉ s) (lineStart : Bool) :
    undefinedPiecesFrom 0 lineStart s = s.map .other := by
  induction s generalizing lineStart with
  | nil => rfl
  | cons c s ih =>
      rw [undefinedPiecesFrom_other fun _ => undefinedRule?_eq_none h,
        ih fun hm => h (List.mem_cons_of_mem c hm)]
      rfl

/-! ### Caught, torn, biting -/

/-- A line of the text, but for the first, starts before a class or an id. -/
def NamesAfterBreak (s : List Char) : Prop :=
  ∃ u v, s = u ++ '\n' :: v ∧ NamesClassOrId v

/-- Then so does the first line that follows another. -/
theorem NamesAfterBreak.first {s : List Char} (h : NamesAfterBreak s) :
    ∃ u v, s = u ++ '\n' :: v ∧ '\n' ∉ u ∧ NamesClassOrId v := by
  obtain ⟨u, v, rfl, hv⟩ := h
  by_cases hu : '\n' ∈ u
  · obtain ⟨x, y, rfl, hx⟩ := List.eq_append_cons_of_mem hu
    refine ⟨x, y ++ '\n' :: v, by simp, hx, ?_⟩
    exact (hv.append_left ['\n']).append_left y
  · exact ⟨u, v, rfl, hu, hv⟩

/-- The check looks behind the first line end. -/
theorem namesAfterBreak_iff {s : List Char} :
    (upTo? '\n' s).any (fun p => namesClassOrId p.2) = true ↔ NamesAfterBreak s := by
  rw [Option.any_eq_true]
  constructor
  · rintro ⟨⟨u, v⟩, hs, hv⟩
    exact ⟨u, v, (upTo?_eq_some_iff.1 hs).1, namesClassOrId_iff.1 hv⟩
  · intro h
    obtain ⟨u, v, rfl, hu, hv⟩ := h.first
    exact ⟨(u, v), upTo?_append hu v, namesClassOrId_iff.2 hv⟩

instance (s : List Char) : Decidable (NamesAfterBreak s) :=
  decidable_of_iff _ namesAfterBreak_iff

namespace RuleText

/-- The rule goes as a whole; `first` says that it stands first in the sheet. -/
def Caught (first : Bool) (r : RuleText) : Prop :=
  r.Undefined ∧ NamesClassOrId r.selector ∧ (first = true ∨ '\n' ∈ r.gap)

/-- The rule goes from a line inside its selector on. -/
def Torn (first : Bool) (r : RuleText) : Prop :=
  r.Undefined ∧ NamesAfterBreak r.selector ∧ first = false ∧ '\n' ∉ r.gap

/-- The next rule goes with the end of this one. -/
def Bites (r next : RuleText) : Prop :=
  NamesAfterBreak r.body ∧ next.Undefined

instance (first : Bool) (r : RuleText) : Decidable (r.Caught first) :=
  inferInstanceAs (Decidable (_ ∧ _ ∧ _))

instance (first : Bool) (r : RuleText) : Decidable (r.Torn first) :=
  inferInstanceAs (Decidable (_ ∧ _ ∧ _ ∧ _))

instance (r next : RuleText) : Decidable (r.Bites next) :=
  inferInstanceAs (Decidable (_ ∧ _))

end RuleText

/-- No rule is torn, and no rule that stays bites the next. -/
def HarmlessFrom (first : Bool) : List RuleText → Prop
  | [] => True
  | r :: rs =>
    ¬ r.Torn first ∧ (r.Caught first ∨ ∀ next ∈ rs.head?, ¬ r.Bites next) ∧ HarmlessFrom false rs

/-- No rule of the sheet is torn, and none that stays bites the next. -/
def RuleSheet.Harmless (d : RuleSheet) : Prop :=
  HarmlessFrom true d.rules

instance decidableHarmlessFrom (first : Bool) :
    (rs : List RuleText) → Decidable (HarmlessFrom first rs)
  | [] => isTrue trivial
  | r :: rs =>
    have := decidableHarmlessFrom false rs
    inferInstanceAs (Decidable (_ ∧ (_ ∨ ∀ next ∈ rs.head?, ¬ r.Bites next) ∧ _))

instance (d : RuleSheet) : Decidable d.Harmless :=
  inferInstanceAs (Decidable (HarmlessFrom true d.rules))

/-! ### One rule of a sheet -/

namespace RuleText

variable {r next : RuleText} {t : List Char} {first : Bool}

/-- What is found at a place before the opening brace of a rule. -/
theorem undefinedRule?_head (r : RuleText) {y : List Char} (hy : ∀ c ∈ y, isBrace c = false)
    (t : List Char) :
    undefinedRule? (y ++ '{' :: (r.body ++ '}' :: t)) =
      if NamesClassOrId y ∧ r.Undefined then some t else none :=
  undefinedRule?_append hy (List.not_mem_nil) (fun c hc => by cases hc)
    (not_mem_of_plain r.body_plain rfl)

/-- What is found at a place inside a body, when another rule follows. -/
theorem undefinedRule?_body (next : RuleText) {y : List Char} (hy : ∀ c ∈ y, isBrace c = false)
    (t : List Char) :
    undefinedRule? (y ++ '}' :: (next.text ++ t)) =
      if NamesClassOrId y ∧ next.Undefined then some t else none := by
  rw [text_append, ← List.cons_append]
  refine undefinedRule?_append hy ?_ (fun c hc => by cases hc; rfl)
    (not_mem_of_plain next.body_plain rfl)
  rw [List.mem_cons, not_or]
  exact ⟨by decide, not_mem_of_plain next.head_plain rfl⟩

theorem block_ne_nil (r : RuleText) : r.block ≠ [] := by
  simp [block]

/-- **A caught rule goes as a whole**, with the white space from the line start before it. -/
theorem undefinedPiecesFrom_caught (h : r.Caught first) (t : List Char) :
    ∃ left taken, r.gap = left ++ taken ∧ undefinedPiecesFrom 0 first (r.text ++ t) =
      left.map .other ++ .found (taken ++ r.block) :: undefinedPiecesFrom 0 false t := by
  obtain ⟨hu, hn, hl⟩ := h
  have found : ∀ {g : List Char}, (∀ c ∈ g, isBlank c = true) →
      undefinedPiecesFrom 0 true ((g ++ r.block) ++ t) =
        .found (g ++ r.block) :: undefinedPiecesFrom 0 false t := by
    intro g hg
    refine undefinedPiecesFrom_found (by simp [block_ne_nil]) ?_
    have hp : ∀ c ∈ g ++ r.selector, isBrace c = false := by
      intro c hc
      rcases List.mem_append.1 hc with hc | hc
      · exact isBrace_of_isBlank (hg c hc)
      · exact r.selector_plain c hc
    have := undefinedRule?_head r hp t
    rw [if_pos ⟨(namesClassOrId_blank_append hg).2 hn, hu⟩] at this
    simpa [block] using this
  cases first with
  | true => exact ⟨[], r.gap, rfl, found r.gap_blank⟩
  | false =>
      obtain ⟨g, g', hg, hng⟩ := List.eq_append_cons_of_mem (hl.resolve_left (by simp))
      refine ⟨g ++ ['\n'], g', by simp [hg], ?_⟩
      have hb : ∀ c ∈ g', isBlank c = true := fun c hc => r.gap_blank c (by simp [hg, hc])
      have he : r.text ++ t = g ++ '\n' :: ((g' ++ r.block) ++ t) := by simp [text, hg]
      rw [he, undefinedPiecesFrom_line hng, found hb]

/-- A torn rule leaves the first lines of its selector. -/
theorem undefinedPiecesFrom_torn (h : r.Torn first) (t : List Char) :
    ∃ u v, r.selector = u ++ v ∧ u ≠ [] ∧ undefinedPiecesFrom 0 first (r.text ++ t) =
      (r.gap ++ u).map .other ++
        .found (v ++ '{' :: (r.body ++ ['}'])) :: undefinedPiecesFrom 0 false t := by
  obtain ⟨hu, hn, rfl, hg⟩ := h
  obtain ⟨u, v, hs, hun, hv⟩ := hn.first
  refine ⟨u ++ ['\n'], v, by simp [hs], by simp, ?_⟩
  have hp : ∀ c ∈ v, isBrace c = false := fun c hc => r.selector_plain c (by simp [hs, hc])
  have he : r.text ++ t =
      (r.gap ++ u) ++ '\n' :: ((v ++ '{' :: (r.body ++ ['}'])) ++ t) := by
    simp [text, block, hs]
  rw [he, undefinedPiecesFrom_line (by simp [hg, hun]), undefinedPiecesFrom_found (by simp)]
  · simp
  · have := undefinedRule?_head r hp t
    rw [if_pos ⟨hv, hu⟩] at this
    simpa using this

/-- The selector of any other rule stays. -/
theorem undefinedPiecesFrom_head (hc : ¬ r.Caught first) (ht : ¬ r.Torn first) (t : List Char) :
    undefinedPiecesFrom 0 first (r.text ++ t) =
      (r.gap ++ r.selector ++ ['{']).map .other ++
        undefinedPiecesFrom 0 false (r.body ++ '}' :: t) := by
  rw [text_append]
  refine undefinedPiecesFrom_stretch (by decide) fun x y he hl => ?_
  rw [undefinedRule?_head r fun c hc => r.head_plain c (by rw [he]; simp [hc]), if_neg]
  rintro ⟨hy, hu⟩
  -- a line starts before `y`, and `y` names a class or an id
  have hs : '\n' ∈ r.gap ∨ first = true → NamesClassOrId r.selector → False :=
    fun h hn => hc ⟨hu, hn, h.symm⟩
  cases first with
  | true =>
      refine hs (.inr rfl) ((namesClassOrId_blank_append r.gap_blank).1 ?_)
      rw [he]; exact hy.append_left x
  | false =>
      obtain ⟨u, rfl⟩ := exists_break_of_lineStartAfter hl
      rw [List.append_assoc] at he
      rcases List.append_eq_append_iff.1 he with ⟨w, rfl, hw⟩ | ⟨w, hw, hw'⟩
      · -- inside the selector
        by_cases hg : '\n' ∈ r.gap
        · refine hs (.inl hg) ?_
          rw [hw]; exact (hy.append_left ['\n']).append_left w
        · exact ht ⟨hu, ⟨w, y, hw, hy⟩, rfl, hg⟩
      · -- inside the gap: the selector itself does not start with a line break
        cases w with
        | nil =>
            have := r.selector_starts '\n' (by rw [← show '\n' :: y = r.selector from hw']; rfl)
            cases this
        | cons c w =>
            obtain ⟨rfl, rfl⟩ := List.cons.inj hw'
            refine hs (.inl (by simp [hw])) ((namesClassOrId_blank_append fun c hc => ?_).1 hy)
            exact r.gap_blank c (by simp [hw, hc])

/-- A body that bites takes the next rule along. -/
theorem undefinedPiecesFrom_bites (h : r.Bites next) (t : List Char) :
    ∃ u v, r.body = u ++ v ∧ undefinedPiecesFrom 0 false (r.body ++ '}' :: (next.text ++ t)) =
      u.map .other ++ .found (v ++ '}' :: next.text) :: undefinedPiecesFrom 0 false t := by
  obtain ⟨hn, hu⟩ := h
  obtain ⟨u, v, hs, hun, hv⟩ := hn.first
  refine ⟨u ++ ['\n'], v, by simp [hs], ?_⟩
  have hp : ∀ c ∈ v, isBrace c = false := fun c hc => r.body_plain c (by simp [hs, hc])
  have he : r.body ++ '}' :: (next.text ++ t) = u ++ '\n' :: ((v ++ '}' :: next.text) ++ t) := by
    simp [hs]
  rw [he, undefinedPiecesFrom_line hun, undefinedPiecesFrom_found (by simp)]
  have := undefinedRule?_body next hp t
  rw [if_pos ⟨hv, hu⟩] at this
  simpa using this

/-- Any other body stays. -/
theorem undefinedPiecesFrom_body
    (h : '{' ∉ t ∨ ∃ next t', t = text next ++ t' ∧ ¬ r.Bites next) :
    undefinedPiecesFrom 0 false (r.body ++ '}' :: t) =
      (r.body ++ ['}']).map .other ++ undefinedPiecesFrom 0 false t := by
  refine undefinedPiecesFrom_stretch (by decide) fun x y he hl => ?_
  have hp : ∀ c ∈ y, isBrace c = false := fun c hc => r.body_plain c (by simp [he, hc])
  rcases h with h | ⟨next, t', rfl, hb⟩
  · refine undefinedRule?_eq_none ?_
    rw [List.mem_append, List.mem_cons]
    rintro (hm | hm | hm)
    · exact not_mem_of_plain hp rfl hm
    · cases hm
    · exact h hm
  · rw [undefinedRule?_body next hp, if_neg]
    rintro ⟨hy, hu⟩
    obtain ⟨u, rfl⟩ := exists_break_of_lineStartAfter hl
    exact hb ⟨⟨u, y, by simpa using he, hy⟩, hu⟩

/-- A rule that is not caught, not torn and does not bite stays. -/
theorem undefinedPiecesFrom_kept {rs : List RuleText} {tail : List Char} (htail : '{' ∉ tail)
    (hc : ¬ r.Caught first) (ht : ¬ r.Torn first) (hb : ∀ next ∈ rs.head?, ¬ r.Bites next) :
    undefinedPiecesFrom 0 first (r.text ++ (rs.flatMap text ++ tail)) =
      r.text.map .other ++ undefinedPiecesFrom 0 false (rs.flatMap text ++ tail) := by
  rw [undefinedPiecesFrom_head hc ht, undefinedPiecesFrom_body, ← List.append_assoc,
    ← List.map_append]
  · simp [text, block]
  · cases rs with
    | nil => exact .inl htail
    | cons next rs =>
        refine .inr ⟨next, rs.flatMap text ++ tail, ?_, hb next rfl⟩
        rw [List.flatMap_cons, List.append_assoc]

/-- Of a rule that is torn or bites, a part stays and a part goes. -/
theorem undefinedPiecesFrom_harmed {rs : List RuleText} (tail : List Char)
    (hc : ¬ r.Caught first) (h : r.Torn first ∨ ∃ next ∈ rs.head?, r.Bites next) :
    ∃ (u x : List Char) (ps : List (Piece (List Char))),
      r.gap.length < u.length ∧ u.length < r.text.length ∧
      undefinedPiecesFrom 0 first (r.text ++ (rs.flatMap text ++ tail)) =
        u.map .other ++ .found x :: ps := by
  by_cases ht : r.Torn first
  · obtain ⟨u, v, hs, hu, he⟩ := undefinedPiecesFrom_torn ht (rs.flatMap text ++ tail)
    have := List.length_pos_iff.2 hu
    refine ⟨r.gap ++ u, _, _, ?_, ?_, he⟩
    · rw [List.length_append]; omega
    · rw [length_text, hs, List.length_append, List.length_append]; omega
  · obtain ⟨next, hn, hb⟩ := h.resolve_left ht
    cases rs with
    | nil => cases hn
    | cons x rs =>
        cases hn
        obtain ⟨u, v, hs, he⟩ := undefinedPiecesFrom_bites hb (rs.flatMap text ++ tail)
        rw [List.flatMap_cons, List.append_assoc, undefinedPiecesFrom_head hc ht, he,
          ← List.append_assoc, ← List.map_append]
        refine ⟨_, _, _, ?_, ?_, rfl⟩
        · simp only [List.length_append, List.length_singleton]; omega
        · rw [length_text, hs]
          simp only [List.length_append, List.length_singleton]; omega

end RuleText

/-! ### Whole rules -/

/-- `CutInto rules kept ps`: in the pieces `ps` of the rules every stretch that goes is one rule
which declares `undefined`, with white space before it; `kept` are the rules that stay. -/
inductive CutInto : List RuleText → List RuleText → List (Piece (List Char)) → Prop
  | nil : CutInto [] [] []
  | keep {rs ks ps} (r : RuleText) : CutInto rs ks ps →
      CutInto (r :: rs) (r :: ks) (r.text.map .other ++ ps)
  | drop {rs ks ps left taken} (r : RuleText) : r.Undefined → r.gap = left ++ taken →
      CutInto rs ks ps →
      CutInto (r :: rs) ks (left.map .other ++ .found (taken ++ r.block) :: ps)

namespace CutInto

variable {r : RuleText} {rs ks : List RuleText} {ps : List (Piece (List Char))}

/-- A rule without the word `undefined` stays. -/
theorem filter_sublist (h : CutInto rs ks ps) :
    (rs.filter fun r => ¬ "undefined".toList <:+: r.body).Sublist ks := by
  induction h with
  | nil => exact List.Sublist.slnil
  | keep r _ ih =>
      rw [List.filter_cons]
      split
      · exact ih.cons_cons r
      · exact ih.cons r
  | drop r hu _ _ ih =>
      rw [List.filter_cons_of_neg]
      · exact ih
      · rw [decide_eq_true_iff]
        exact not_not_intro (DeclaresUndefined.holds_word hu)

/-- What is left over of whole rules is balanced. -/
theorem balanced_leftOver (h : CutInto rs ks ps) : Balanced (leftOver ps) := by
  induction h with
  | nil => rfl
  | keep r _ ih =>
      rw [leftOver_append, leftOver_map_other]
      exact r.balanced_text.append ih
  | drop r _ hg _ ih =>
      rw [leftOver_append, leftOver_map_other, leftOver_found]
      exact (balanced_of_blank fun c hc => r.gap_blank c (by simp [hg, hc])).append ih

end CutInto

/-! ### The first stretch that goes -/

section FirstFound

variable {u v x y : List Char} {ps qs : List (Piece (List Char))}

theorem length_le_of_found (h : u.map .other ++ .found x :: ps = v.map .other ++ qs) :
    v.length ≤ u.length := by
  induction u generalizing v with
  | nil =>
      cases v with
      | nil => exact Nat.le_refl 0
      | cons c v => cases h
  | cons d u ih =>
      cases v with
      | nil => exact Nat.zero_le _
      | cons c v => exact Nat.succ_le_succ (ih (List.cons.inj h).2)

/-- The first piece that was found is found at one place only. -/
theorem eq_of_found
    (h : u.map .other ++ .found x :: ps = v.map .other ++ .found y :: qs) :
    u = v ∧ x = y ∧ ps = qs := by
  induction u generalizing v with
  | nil =>
      cases v with
      | nil => cases h; exact ⟨rfl, rfl, rfl⟩
      | cons c v => cases h
  | cons d u ih =>
      cases v with
      | nil => cases h
      | cons c v =>
          obtain ⟨hc, ht⟩ := List.cons.inj h
          cases hc
          obtain ⟨rfl, hr⟩ := ih ht
          exact ⟨rfl, hr⟩

end FirstFound

/-- A stretch that starts inside the first rule, behind its gap, is no whole rule. -/
theorem CutInto.not_found_inside {r : RuleText} {rs ks : List RuleText} {u x : List Char}
    {ps qs ps' : List (Piece (List Char))} (h : CutInto (r :: rs) ks ps)
    (hg : r.gap.length < u.length) (ht : u.length < r.text.length) :
    ps ++ qs ≠ u.map .other ++ .found x :: ps' := by
  intro he
  cases h with
  | keep _ h =>
      rw [List.append_assoc] at he
      exact absurd (length_le_of_found he.symm) (Nat.not_le.2 ht)
  | drop _ _ hgap h =>
      rw [List.append_assoc, List.cons_append] at he
      obtain ⟨rfl, -⟩ := eq_of_found he
      rw [hgap, List.length_append] at hg
      omega

section

variable {r : RuleText} {rs : List RuleText} {qs tail : List (Piece (List Char))}

/-- Behind a rule that goes the others are cut by themselves. -/
theorem exists_cutInto_drop_iff {left taken : List Char} (hu : r.Undefined) (hg : r.gap = left ++ taken) :
    (∃ kept ps, CutInto (r :: rs) kept ps ∧
      left.map .other ++ .found (taken ++ r.block) :: qs = ps ++ tail) ↔
    ∃ kept ps, CutInto rs kept ps ∧ qs = ps ++ tail := by
  constructor
  · rintro ⟨kept, ps, h, hp⟩
    cases h with
    | keep _ h =>
        rw [List.append_assoc] at hp
        have := length_le_of_found hp
        rw [RuleText.length_text, hg, List.length_append] at this
        omega
    | drop _ _ _ h =>
        rw [List.append_assoc, List.cons_append] at hp
        exact ⟨_, _, h, (eq_of_found hp).2.2⟩
  · rintro ⟨kept, ps, h, hp⟩
    refine ⟨kept, _, .drop r hu hg h, ?_⟩
    rw [hp, List.append_assoc, List.cons_append]

/-- The same behind a rule that stays. -/
theorem exists_cutInto_keep_iff :
    (∃ kept ps, CutInto (r :: rs) kept ps ∧ r.text.map .other ++ qs = ps ++ tail) ↔
    ∃ kept ps, CutInto rs kept ps ∧ qs = ps ++ tail := by
  constructor
  · rintro ⟨kept, ps, h, hp⟩
    cases h with
    | keep _ h =>
        rw [List.append_assoc] at hp
        exact ⟨_, _, h, List.append_cancel_left hp⟩
    | drop _ _ hg h =>
        rw [List.append_assoc, List.cons_append] at hp
        have := length_le_of_found hp.symm
        rw [RuleText.length_text, hg, List.length_append] at this
        omega
  · rintro ⟨kept, ps, h, hp⟩
    refine ⟨r :: kept, _, .keep r h, ?_⟩
    rw [hp, List.append_assoc]

end

/-- A rule that is caught as a whole is not torn. -/
theorem RuleText.Caught.not_torn {r : RuleText} {first : Bool} (hc : r.Caught first) : ¬ r.Torn first := by
  rintro ⟨-, -, hf, hn⟩
  rcases hc.2.2 with h | h
  · rw [hf] at h
    cases h
  · exact hn h

/-- **Whole rules go exactly from a harmless sheet.** -/
theorem exists_cutInto_iff {rs : List RuleText} {tail : List Char} {first : Bool}
    (htail : '{' ∉ tail) :
    (∃ kept ps, CutInto rs kept ps ∧
      undefinedPiecesFrom 0 first (rs.flatMap RuleText.text ++ tail) = ps ++ tail.map .other) ↔
    HarmlessFrom first rs := by
  induction rs generalizing first with
  | nil =>
      refine ⟨fun _ => trivial, fun _ => ⟨[], [], .nil, ?_⟩⟩
      exact undefinedPiecesFrom_of_no_open htail first
  | cons r rs ih =>
      rw [List.flatMap_cons, List.append_assoc, HarmlessFrom, ← ih]
      by_cases hc : r.Caught first
      · obtain ⟨left, taken, hg, he⟩ := RuleText.undefinedPiecesFrom_caught hc
          (rs.flatMap RuleText.text ++ tail)
        rw [he, exists_cutInto_drop_iff hc.1 hg]
        exact ⟨fun h => ⟨hc.not_torn, .inl hc, h⟩, fun h => h.2.2⟩
      by_cases hh : r.Torn first ∨ ∃ next ∈ rs.head?, r.Bites next
      · -- what goes starts inside the rule, so that no whole rules go
        obtain ⟨u, x, ps', hg, ht, he⟩ := RuleText.undefinedPiecesFrom_harmed tail hc hh
        rw [he]
        constructor
        · rintro ⟨kept, ps, h, hp⟩
          exact absurd hp.symm (h.not_found_inside hg ht)
        · rintro ⟨ht, hb, -⟩
          obtain ⟨next, hn, hb'⟩ := hh.resolve_left ht
          exact absurd hb' (hb.resolve_left hc next hn)
      · rw [not_or, not_exists] at hh
        have hb : ∀ next ∈ rs.head?, ¬ r.Bites next := fun next hn h => hh.2 next ⟨hn, h⟩
        rw [RuleText.undefinedPiecesFrom_kept htail hc hh.1 hb, exists_cutInto_keep_iff]
        exact ⟨fun h => ⟨hh.1, .inr hb, h⟩, fun h => h.2.2⟩

/-! ### The removal on a sheet -/

/-- **The removal spares the rules that stay exactly in a harmless sheet.**  Whole rules go, each
with a declaration of `undefined`; then the rules without that word are all left, in order, and the
braces are balanced. -/
theorem removeUndefined_spares_rules_iff {d : RuleSheet} {doc : Bytes}
    (hdoc : Utf8.codePoints doc = d.text) :
    (∃ kept ps, CutInto d.rules kept ps ∧ undefinedPieces d.text = ps ++ d.tail.map .other ∧
      Utf8.codePoints (removeUndefined.apply doc) = leftOver ps ++ d.tail ∧
      (d.rules.filter fun r => ¬ "undefined".toList <:+: r.body).Sublist kept ∧
      Balanced (Utf8.codePoints (removeUndefined.apply doc))) ↔
    d.Harmless := by
  have htail : '{' ∉ d.tail :=
    not_mem_of_plain (fun c hc => isBrace_of_isBlank (d.tail_blank c hc)) rfl
  have hrun : Utf8.codePoints (removeUndefined.apply doc) = leftOver (undefinedPieces d.text) := by
    rw [Edit.codePoints_apply, hdoc, run_removeUndefined]
  rw [RuleSheet.Harmless, ← exists_cutInto_iff htail]
  constructor
  · rintro ⟨kept, ps, h, hp, -⟩
    exact ⟨kept, ps, h, hp⟩
  · rintro ⟨kept, ps, h, hp⟩
    have hout : Utf8.codePoints (removeUndefined.apply doc) = leftOver ps ++ d.tail := by
      rw [hrun, undefinedPieces, RuleSheet.text, hp, leftOver_append, leftOver_map_other]
    refine ⟨kept, ps, h, hp, hout, h.filter_sublist, ?_⟩
    rw [hout]
    exact h.balanced_leftOver.append (balanced_of_blank d.tail_blank)

/-- A rule that goes behind one that stays, which names a colour like an id but breaks no line. -/
def calmSheet : RuleSheet where
  rules := [
    .ofParts [] "p,\n.b ".toList " color: #fff; ".toList,
    .ofParts ['\n'] ".a ".toList "\n  width: undefined;\n".toList]
  tail := ['\n']
  tail_blank := List.all_eq_true.1 rfl

theorem removeUndefined_spares_calmSheet :
    Utf8.codePoints (Utf8.encode calmSheet.text) = calmSheet.text ∧ calmSheet.Harmless ∧
      ∃ kept ps, CutInto calmSheet.rules kept ps ∧
      undefinedPieces calmSheet.text = ps ++ calmSheet.tail.map .other ∧
      Utf8.codePoints (removeUndefined.apply (Utf8.encode calmSheet.text)) =
        leftOver ps ++ calmSheet.tail ∧
      (calmSheet.rules.filter fun r => ¬ "undefined".toList <:+: r.body).Sublist kept ∧
      Balanced (Utf8.codePoints (removeUndefined.apply (Utf8.encode calmSheet.text))) :=
  have harmless : calmSheet.Harmless := by decide
  have read := Utf8.codePoints_encode calmSheet.text
  ⟨read, harmless, (removeUndefined_spares_rules_iff read).2 harmless⟩

/-- The body of the first rule has a line with a number like a class, and the next rule declares
`undefined`. -/
def bitingSheet : RuleSheet where
  rules := [
    .ofParts [] ".a ".toList "\n  width: .5em;\n".toList,
    .ofParts ['\n'] ".b ".toList " color: undefined; ".toList]
  tail := []
  tail_blank := blank_nil

/-- The rule without the word `undefined` loses its body, and its brace is left open. -/
theorem removeUndefined_tears_bitingSheet :
    ¬ bitingSheet.Harmless ∧
      Utf8.codePoints (removeUndefined.apply (Utf8.encode bitingSheet.text)) = ".a \x7b\n".toList ∧
      ¬ Balanced (Utf8.codePoints (removeUndefined.apply (Utf8.encode bitingSheet.text))) := by
  rw [Edit.codePoints_apply, Utf8.codePoints_encode]
  decide

end Restyle.Css
