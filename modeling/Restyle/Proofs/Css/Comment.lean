import Restyle.Css.Minify
import Restyle.Proofs.Css.Edit

/-!
# Texts without comments

`HasComment s` says that a comment opens in `s` and closes behind its opening.  `withoutComments`
ends at a text that has none (`not_hasComment_withoutComments`) and leaves such a text alone
(`withoutComments_eq_self`).

An operation that only takes characters away may bring a slash and a star together.  `Lifts a b f`
says that `f` does not do so for `a` and `b`: where they stand side by side after `f`, they did
before, and `f` made what follows out of what followed.  Two such facts, for the opening and for the
closing mark, keep a text free of comments (`HasComment.of_lifts`).
-/

namespace Restyle.Css

/-- A comment opens and, behind its opening mark, closes. -/
def HasComment (s : List Char) : Prop :=
  ∃ u v w, s = u ++ '/' :: '*' :: (v ++ '*' :: '/' :: w)

/-! ### Finding a comment -/

/-- A comment ends where its end stands. -/
theorem afterCommentEnd?_append (v w : List Char) :
    (afterCommentEnd? (v ++ '*' :: '/' :: w)).isSome := by
  induction v with
  | nil => rfl
  | cons c v ih =>
      rw [List.cons_append]
      unfold afterCommentEnd?
      split
      · next h => cases h
      · rfl
      · next h => cases h; exact ih

/-- Where a comment ends, its end stands. -/
theorem exists_of_afterCommentEnd? {s r : List Char} (h : afterCommentEnd? s = some r) :
    ∃ v, s = v ++ '*' :: '/' :: r := by
  induction s with
  | nil => cases h
  | cons c s ih =>
      unfold afterCommentEnd? at h
      split at h
      · next he => cases he
      · next he => cases h; cases he; exact ⟨[], rfl⟩
      · next he =>
        cases he
        obtain ⟨v, rfl⟩ := ih h
        exact ⟨c :: v, rfl⟩

/-- What is read as a comment begins and ends as one. -/
theorem exists_of_comment? {s : List Char} {r : Unit × List Char} (h : comment? s = some r) :
    ∃ v w, s = '/' :: '*' :: (v ++ '*' :: '/' :: w) := by
  unfold comment? at h
  split at h
  · obtain ⟨t, ht, -⟩ := Option.map_eq_some_iff.1 h
    obtain ⟨v, rfl⟩ := exists_of_afterCommentEnd? ht
    exact ⟨v, t, rfl⟩
  · cases h

/-- **A cut finds nothing exactly in a text without comments.** -/
theorem cut_comment?_eq_none_iff {s : List Char} : comment?.cut s = none ↔ ¬ HasComment s := by
  rw [Pattern.cut_eq_none_iff]
  constructor
  · rintro h ⟨u, v, w, rfl⟩
    have hn := h u '/' ('*' :: (v ++ '*' :: '/' :: w)) rfl
    obtain ⟨t, ht⟩ := Option.isSome_iff_exists.1 (afterCommentEnd?_append v w)
    simp [comment?, ht] at hn
  · intro h u c v he
    cases hc : comment? (c :: v) with
    | none => rfl
    | some r =>
        obtain ⟨x, y, hxy⟩ := exists_of_comment? hc
        exact absurd ⟨u, x, y, by rw [he, hxy]⟩ h

/-! ### The comment loop -/

/-- Text without comments is left as it is. -/
theorem withoutComments_eq_self {s : List Char} (h : ¬ HasComment s) : withoutComments s = s := by
  rw [← cut_comment?_eq_none_iff] at h
  unfold withoutComments
  split
  · rfl
  · next ht => rw [h] at ht; cases ht

/-- Comments are taken out one round after the other. -/
theorem withoutComments_of_cut {s t : List Char} (h : comment?.cut s = some t) :
    withoutComments s = withoutComments t := by
  rw [withoutComments]
  split
  · next hn => rw [h] at hn; cases hn
  · next ht => rw [h] at ht; cases ht; rfl

/-- **The loop ends at a text without comments**, by induction on its rounds. -/
theorem not_hasComment_withoutComments (s : List Char) : ¬ HasComment (withoutComments s) := by
  fun_induction withoutComments s with
  | case1 s h => exact cut_comment?_eq_none_iff.1 h
  | case2 s t h ih => exact ih

theorem run_dropComments (s : List Char) : dropComments.run s = withoutComments s := by
  unfold Edit.run dropComments
  cases h : comment?.cut s with
  | none => exact (withoutComments_eq_self (cut_comment?_eq_none_iff.1 h)).symm
  | some t => exact (withoutComments_of_cut h).symm

/-! ### Operations that bring no two characters together -/

/-- Where `a` and `b` stand side by side after `f`, they did before. -/
def Lifts (a b : Char) (f : List Char → List Char) : Prop :=
  ∀ s u v, f s = u ++ a :: b :: v → ∃ u' v', s = u' ++ a :: b :: v' ∧ f v' = v

/-- Pairs that come from pairs before two passes come from pairs before both. -/
theorem Lifts.comp {a b : Char} {f g : List Char → List Char} (hf : Lifts a b f)
    (hg : Lifts a b g) : Lifts a b fun s => f (g s) := by
  intro s u v h
  obtain ⟨u₁, v₁, h₁, rfl⟩ := hf _ u v h
  obtain ⟨u₂, v₂, h₂, rfl⟩ := hg s u₁ v₁ h₁
  exact ⟨u₂, v₂, h₂, rfl⟩

/-- Passes that make no new pair make no new comment. -/
theorem HasComment.of_lifts {f : List Char → List Char} (ho : Lifts '/' '*' f)
    (hc : Lifts '*' '/' f) {s : List Char} (h : HasComment (f s)) : HasComment s := by
  obtain ⟨u, v, w, he⟩ := h
  obtain ⟨u', t, rfl, ht⟩ := ho s u _ he
  obtain ⟨v', w', rfl, -⟩ := hc t v w ht
  exact ⟨u', v', w', rfl⟩

end Restyle.Css
