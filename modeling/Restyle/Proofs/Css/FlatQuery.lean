import Restyle.Css.Merge
import Restyle.Proofs.Css.Block
import Restyle.Proofs.Css.Edit
import Restyle.Proofs.Css.Rule
import Restyle.Proofs.Css.Scan

/-!
# Queries that end at the first closing brace

Merging reads a query up to the first closing brace of its block.  `exists_of_flatQuery?` says what
such a query is made of.

A body without braces may hold the start of a header all the same, as the string `"@media ("` does.
It then *leaves a header open* (`leavesOpen`): the condition runs on behind the body, to the next
closing parenthesis.

* `leavesOpen_of_flatQuery?`: no other query starts in a body without braces.
* `flatQuery?_open`: whether it is a query is decided by what follows (`afterCondition?`).
* `run_cut_body`: so merging cuts a body at the first header that it leaves open, or not at all.
-/

namespace Restyle.Css

/-! ### Flat queries -/

/-- A query begins with an at sign. -/
theorem flatQuery?_cons_of_ne {c : Char} (h : c ≠ '@') (s : List Char) :
    flatQuery? (c :: s) = none := by
  have hk : queryKind? (c :: s) = none := by
    cases hq : queryKind? (c :: s) with
    | none => rfl
    | some r => exact absurd (List.cons.inj (queryKind?_eq_some_iff.1 hq)).1 h
  unfold flatQuery?
  simp [hk]

/-- Behind an opening parenthesis a text goes up to the closing one. -/
theorem parens?_open {gap : List Char} (hgap : ∀ c ∈ gap, isBlank c = true) (s : List Char) :
    parens? (gap ++ '(' :: s) = upTo? ')' s := by
  rw [parens?, skipBlank_append_cons hgap (by decide)]
  rfl

/-- What is read in parentheses stands there, with blanks before it. -/
theorem exists_of_parens? {s inner t : List Char} (h : parens? s = some (inner, t)) :
    ∃ gap, s = gap ++ '(' :: (inner ++ ')' :: t) ∧ (∀ c ∈ gap, isBlank c = true) ∧
      ')' ∉ inner := by
  obtain ⟨u, hu, hi⟩ := Option.bind_eq_some_iff.1 h
  obtain ⟨gap, hgap, hblank⟩ := exists_blank_append_skipBlank s
  obtain ⟨rfl, ho⟩ := upTo?_eq_some_iff.1 hi
  rw [after?_eq_some_iff.1 hu] at hgap
  exact ⟨gap, hgap, hblank, ho⟩

/-- The text behind the block of an open condition: the condition ends at the first closing
parenthesis, and the block, which must follow it, at its first closing brace. -/
def afterCondition? (s : List Char) : Option (List Char) := do
  let (_, u) ← upTo? ')' s
  let v ← after? ['{'] (skipBlank u)
  let (_, rest) ← upTo? '}' v
  some rest

/-- Behind an opening parenthesis, only the end of the condition decides. -/
theorem flatQuery?_open (k : QueryKind) {gap : List Char} (hgap : ∀ c ∈ gap, isBlank c = true)
    (s : List Char) :
    (flatQuery? ('@' :: (k.name ++ (gap ++ '(' :: s)))).map Prod.snd = afterCondition? s := by
  unfold flatQuery? afterCondition?
  simp only [queryKind?_eq_some_iff.2 rfl, parens?_open hgap, Option.bind_eq_bind, Option.bind_some,
    Option.map_bind, Function.comp_def, Option.map_some]

/-- A text without closing parenthesis is part of a condition. -/
theorem afterCondition?_append {w : List Char} (h : ')' ∉ w) (t : List Char) :
    afterCondition? (w ++ t) = afterCondition? t := by
  induction w with
  | nil => rfl
  | cons c w ih =>
      rw [List.mem_cons, not_or] at h
      rw [← ih h.2, List.cons_append]
      unfold afterCondition?
      rw [upTo?, if_neg (Ne.symm h.1)]
      cases upTo? ')' (w ++ t) <;> rfl

/-- A query that is found has a condition, and a block behind it. -/
theorem exists_of_flatQuery? {s rest : List Char} {q : FlatQuery}
    (h : flatQuery? s = some (q, rest)) :
    ∃ (k : QueryKind) (gap inner behind : List Char),
      s = '@' :: (k.name ++ (gap ++ '(' :: (inner ++ ')' :: (behind ++ '{' ::
        (q.body ++ '}' :: rest))))) ∧
      q.header = '@' :: (k.name ++ (gap ++ '(' :: (inner ++ [')']))) ∧
      (∀ c ∈ gap, isBlank c = true) ∧ (∀ c ∈ behind, isBlank c = true) ∧ ')' ∉ inner := by
  unfold flatQuery? at h
  simp only [Option.bind_eq_bind, Option.bind_eq_some_iff] at h
  obtain ⟨⟨k, t⟩, hk, ⟨inner, u⟩, hp, v, hv, ⟨body, rest'⟩, hb, he⟩ := h
  cases he
  obtain ⟨gap, rfl, hgap, hinner⟩ := exists_of_parens? hp
  obtain ⟨behind, hbehind, hblank⟩ := exists_blank_append_skipBlank u
  obtain ⟨rfl, -⟩ := upTo?_eq_some_iff.1 hb
  rw [after?_eq_some_iff.1 hv] at hbehind
  have hs : s = '@' :: (k.name ++ (gap ++ '(' :: (inner ++ [')']))) ++ u := by
    rw [queryKind?_eq_some_iff.1 hk]
    simp
  refine ⟨k, gap, inner, behind, ?_, ?_, hgap, hblank, hinner⟩
  · rw [hs, hbehind]
    simp
  · dsimp only
    rw [hs, List.length_append, Nat.add_sub_cancel, List.take_left]

/-! ### Headers that a body leaves open -/

/-- A header starts the text, and its condition does not end in it. -/
def leavesOpen (s : List Char) : Bool :=
  match queryKind? s with
  | some (_, t) =>
    match after? ['('] (skipBlank t) with
    | some v => ! v.contains ')'
    | none => false
  | none => false

/-- A condition is left open where a query begins and no parenthesis closes it. -/
theorem leavesOpen_iff {s : List Char} :
    leavesOpen s = true ↔ ∃ (k : QueryKind) (gap v : List Char),
      s = '@' :: (k.name ++ (gap ++ '(' :: v)) ∧ (∀ c ∈ gap, isBlank c = true) ∧ ')' ∉ v := by
  constructor
  · intro h
    unfold leavesOpen at h
    split at h
    · next k t hk =>
        split at h
        · next v hv =>
            obtain ⟨gap, hgap, hblank⟩ := exists_blank_append_skipBlank t
            rw [after?_eq_some_iff.1 hv] at hgap
            refine ⟨k, gap, v, ?_, hblank, by simpa using h⟩
            rw [queryKind?_eq_some_iff.1 hk, hgap]
            rfl
        · cases h
    · cases h
  · rintro ⟨k, gap, v, rfl, hgap, hv⟩
    have hskip : skipBlank (gap ++ '(' :: v) = '(' :: v := skipBlank_append_cons hgap (by decide) v
    unfold leavesOpen
    rw [queryKind?_eq_some_iff.2 rfl]
    simp [hskip, after?, hv]

/-- The text before the first header that is left open. -/
def beforeOpen? : List Char → Option (List Char)
  | [] => none
  | c :: s => if leavesOpen (c :: s) then some [] else (beforeOpen? s).map (c :: ·)

/-- If no condition is left open, none is at any place. -/
theorem beforeOpen?_eq_none {s : List Char} (h : beforeOpen? s = none) {x y : List Char} {c : Char}
    (hs : s = x ++ c :: y) : leavesOpen (c :: y) = false := by
  induction x generalizing s with
  | nil =>
      subst hs
      by_contra hc
      rw [List.nil_append, beforeOpen?, if_pos (by simpa using hc)] at h
      cases h
  | cons a x ih =>
      subst hs
      rw [List.cons_append, beforeOpen?] at h
      split at h
      · cases h
      · exact ih (Option.map_eq_none_iff.1 h) rfl

/-- What stands before the first condition that is left open. -/
theorem beforeOpen?_eq_some {s p : List Char} (h : beforeOpen? s = some p) :
    ∃ y, s = p ++ y ∧ leavesOpen y = true ∧
      ∀ x c z, p = x ++ c :: z → leavesOpen (c :: (z ++ y)) = false := by
  induction s generalizing p with
  | nil => cases h
  | cons a s ih =>
      rw [beforeOpen?] at h
      split at h
      · next ha =>
          cases h
          exact ⟨a :: s, rfl, ha, fun x c z he => by simp at he⟩
      · next ha =>
          obtain ⟨p, hp, rfl⟩ := Option.map_eq_some_iff.1 h
          obtain ⟨y, rfl, hy, hfirst⟩ := ih hp
          refine ⟨y, rfl, hy, fun x c z he => ?_⟩
          cases x with
          | nil =>
              obtain ⟨rfl, rfl⟩ := List.cons.inj he
              exact Bool.eq_false_iff.2 ha
          | cons b x => exact hfirst x c z (List.cons.inj he).2

/-- **A query found in a body** that holds no brace is one that the body leaves open. -/
theorem leavesOpen_of_flatQuery? {y t rest : List Char} {q : FlatQuery}
    (hy : ∀ c ∈ y, isBrace c = false) (h : flatQuery? (y ++ '}' :: t) = some (q, rest)) :
    leavesOpen y = true := by
  obtain ⟨k, gap, inner, behind, he, -, hgap, hbehind, hinner⟩ := exists_of_flatQuery? h
  -- the closing brace behind `y` stands before the block's own opening brace
  have hcut : y ++ '}' :: t = ('@' :: (k.name ++ (gap ++ ['('])) ++ (inner ++ ')' :: behind)) ++
      '{' :: (q.body ++ '}' :: rest) := by rw [he]; simp
  obtain ⟨z, hz⟩ : ∃ z, '@' :: (k.name ++ (gap ++ ['('])) ++ (inner ++ ')' :: behind) =
      y ++ '}' :: z := by
    rcases List.append_eq_append_iff.1 hcut with ⟨a, ha, hb⟩ | ⟨a, rfl, hb⟩
    · cases a with
      | nil => cases hb
      | cons c a => cases hb; exact ⟨a, ha⟩
    · cases a with
      | nil => cases hb
      | cons c a =>
          obtain ⟨rfl, -⟩ := List.cons.inj hb
          exact absurd (hy '{' (by simp)) (by decide)
  have hleft : '}' ∉ '@' :: (k.name ++ (gap ++ ['('])) := by
    have hk : '}' ∉ k.name := fun hm => (k.name_plain _ hm).2 rfl
    have hg : '}' ∉ gap := fun hm => absurd (hgap _ hm) (by decide)
    simp [hk, hg]
  have hright : '}' ∉ ')' :: behind := by
    have hb : '}' ∉ behind := fun hm => absurd (hbehind _ hm) (by decide)
    simp [hb]
  obtain ⟨i, j, rfl, rfl⟩ := exists_between hleft hright hz
  refine leavesOpen_iff.2 ⟨k, gap, i, ?_, hgap, fun hm => hinner (by simp [hm])⟩
  have hsame : '@' :: (k.name ++ (gap ++ '(' :: i)) ++ '}' :: (j ++ ')' :: behind) =
      y ++ '}' :: (j ++ ')' :: behind) := by rw [← hz]; simp
  exact (List.append_cancel_right hsame).symm

/-! ### What the cut leaves of a body -/

theorem flatQuery?_eq_none_of_plain {w x y : List Char} {c : Char} (h : '@' ∉ w)
    (he : w = x ++ c :: y) (t : List Char) : flatQuery? (c :: (y ++ t)) = none :=
  flatQuery?_cons_of_ne (fun hc => h (by simp [he, hc])) _

/-- Text without at sign stays. -/
theorem run_cut_plain {w : List Char} (h : '@' ∉ w) (t : List Char) :
    flatQuery?.cut.run (w ++ t) = w ++ flatQuery?.cut.run t :=
  Pattern.run_cut_append_of_none fun _ _ _ he => flatQuery?_eq_none_of_plain h he t

/-- A query at the beginning is cut. -/
theorem run_cut_of_flatQuery? {s rest : List Char} {q : FlatQuery}
    (h : flatQuery? s = some (q, rest)) : flatQuery?.cut.run s = flatQuery?.cut.run rest := by
  obtain ⟨k, gap, inner, behind, he, -⟩ := exists_of_flatQuery? h
  have hs : s = '@' :: (k.name ++ (gap ++ '(' :: (inner ++ ')' :: (behind ++ '{' ::
      (q.body ++ ['}']))))) ++ rest := by rw [he]; simp
  rw [hs] at h ⊢
  exact Pattern.run_cut_append_of_some (by simp) h

/-- A condition that is left open goes on behind the closing brace. -/
theorem flatQuery?_of_leavesOpen {y : List Char} (hy : leavesOpen y = true) (t : List Char) :
    (flatQuery? (y ++ '}' :: t)).map Prod.snd = afterCondition? t := by
  obtain ⟨k, gap, v, rfl, hgap, hv⟩ := leavesOpen_iff.1 hy
  have hend : afterCondition? (v ++ '}' :: t) = afterCondition? t := by
    rw [List.append_cons]
    exact afterCondition?_append (by simp [hv]) t
  rw [← hend, ← flatQuery?_open k hgap]
  simp

/-- No query starts at a place of a body where no header is left open, nor anywhere in it when what
follows ends no condition. -/
theorem flatQuery?_eq_none_before_close {y t : List Char} (hy : ∀ c ∈ y, isBrace c = false)
    (h : leavesOpen y = false ∨ afterCondition? t = none) : flatQuery? (y ++ '}' :: t) = none := by
  cases hq : flatQuery? (y ++ '}' :: t) with
  | none => rfl
  | some r =>
      have hopen : leavesOpen y = true := leavesOpen_of_flatQuery? hy hq
      have hend := flatQuery?_of_leavesOpen hopen t
      rcases h with h | h
      · rw [h] at hopen; cases hopen
      · rw [hq, h] at hend; cases hend

/-- No query is read in a body where none is left open, or where it would not be closed behind it. -/
theorem flatQuery?_eq_none_in_body {body t x y : List Char} {c : Char}
    (hbody : ∀ c ∈ body, isBrace c = false)
    (h : beforeOpen? body = none ∨ afterCondition? t = none) (he : body = x ++ c :: y) :
    flatQuery? (c :: (y ++ '}' :: t)) = none := by
  refine flatQuery?_eq_none_before_close (fun d hd => hbody d ?_) (h.imp_left (beforeOpen?_eq_none · he))
  rw [he]
  exact List.mem_append_right x hd

/-- **A body stays whole** when it leaves no header open, or when the condition is followed by no
block. -/
theorem run_cut_body {body t : List Char} (hbody : ∀ c ∈ body, isBrace c = false)
    (h : beforeOpen? body = none ∨ afterCondition? t = none) :
    flatQuery?.cut.run (body ++ '}' :: t) = body ++ '}' :: flatQuery?.cut.run t := by
  have hclose : flatQuery?.cut.run ('}' :: t) = '}' :: flatQuery?.cut.run t :=
    run_cut_plain (w := ['}']) (by decide) t
  rw [← hclose]
  exact Pattern.run_cut_append_of_none fun _ _ _ he => flatQuery?_eq_none_in_body hbody h he

/-- **A body is torn** at the first header that it leaves open, when the condition ends in a block:
all from there to the end of that block is cut. -/
theorem run_cut_torn {body p t rest : List Char} (hbody : ∀ c ∈ body, isBrace c = false)
    (hp : beforeOpen? body = some p) (ht : afterCondition? t = some rest) :
    flatQuery?.cut.run (body ++ '}' :: t) = p ++ flatQuery?.cut.run rest := by
  obtain ⟨y, rfl, hopen, hfirst⟩ := beforeOpen?_eq_some hp
  have hq := flatQuery?_of_leavesOpen hopen t
  rw [ht, Option.map_eq_some_iff] at hq
  obtain ⟨⟨q, rest'⟩, hq, rfl⟩ := hq
  rw [← run_cut_of_flatQuery? hq, List.append_assoc]
  refine Pattern.run_cut_append_of_none fun x c z he => ?_
  have := flatQuery?_eq_none_before_close (t := t) (fun d hd => hbody d ?_) (.inl (hfirst x c z he))
  · simpa using this
  · rw [he, List.append_assoc]
    exact List.mem_append_right x hd

end Restyle.Css
