import Mathlib.Data.List.Induction
import Restyle.Order.Natural

/-!
# Stable sorting

`sort` puts one item after the other into its place among those before it.  It only rearranges, whatever
the order (`sort_perm`).  A list is the *stable sort* of another (`StableSort`) when it has the same items,
none stands behind one that it should precede, and of items that neither precede nor follow each other the
first stays first.

* `stableSort_sort`: on items that the order puts in a strict weak order, `sort` gives the stable sort.
-/

namespace Restyle

variable {α : Type} {before : α → α → Bool}

/-! ### Rearranging -/

/-- Inserting loses nothing. -/
theorem insertLast_perm (before : α → α → Bool) (x : α) (ys : List α) :
    (insertLast before x ys).Perm (x :: ys) := by
  induction ys with
  | nil => exact .refl _
  | cons y ys ih =>
      rw [insertLast]
      split
      · exact (ih.cons y).trans (.swap x y ys)
      · exact .refl _

theorem sort_concat (before : α → α → Bool) (xs : List α) (x : α) :
    sort before (xs ++ [x]) = (insertLast before x (sort before xs).reverse).reverse := by
  simp [sort]

theorem sort_perm (before : α → α → Bool) (xs : List α) : (sort before xs).Perm xs := by
  induction xs using List.reverseRecOn with
  | nil => exact .refl _
  | append_singleton xs x ih =>
      rw [sort_concat]
      refine (List.reverse_perm _).trans ((insertLast_perm before x _).trans ?_)
      refine (((List.reverse_perm _).trans ih).cons x).trans ?_
      exact (List.perm_append_singleton x xs).symm

/-! ### Order -/

/-- On these items the order is a strict weak one. -/
structure IsStrictWeak (before : α → α → Bool) (xs : List α) : Prop where
  asymm : ∀ a ∈ xs, ∀ b ∈ xs, before a b = true → before b a = false
  /-- Where one item precedes another, any third is behind the first or before the second. -/
  cotrans : ∀ a ∈ xs, ∀ b ∈ xs, ∀ c ∈ xs, before a c = true → before a b = true ∨ before b c = true

/-- A part of a list is ordered as the whole. -/
theorem IsStrictWeak.of_subset {xs ys : List α} (h : IsStrictWeak before ys) (hsub : xs ⊆ ys) :
    IsStrictWeak before xs where
  asymm a ha b hb := h.asymm a (hsub ha) b (hsub hb)
  cotrans a ha b hb c hc := h.cotrans a (hsub ha) b (hsub hb) c (hsub hc)

/-- Neither item precedes the other. -/
def tied (before : α → α → Bool) (a b : α) : Bool :=
  !before a b && !before b a

/-- A list is sorted, and what is alike stays in its order. -/
structure StableSort (before : α → α → Bool) (xs ys : List α) : Prop where
  perm : ys.Perm xs
  sorted : ys.Pairwise fun a b => before b a = false
  stable : ∀ a ∈ xs, ys.filter (tied before a) = xs.filter (tied before a)

section

variable {x : α} {ys : List α}

/-- An item comes to stand behind all that it does not precede. -/
theorem pairwise_insertLast (h : IsStrictWeak before (x :: ys))
    (hys : ys.Pairwise fun a b => before a b = false) :
    (insertLast before x ys).Pairwise fun a b => before a b = false := by
  induction ys with
  | nil => exact List.pairwise_singleton _ x
  | cons y ys ih =>
      obtain ⟨hy, hys⟩ := List.pairwise_cons.1 hys
      rw [insertLast]
      split
      · next hxy =>
          have hsub : x :: ys ⊆ x :: y :: ys := by simp
          refine List.pairwise_cons.2 ⟨fun z hz => ?_, ih (h.of_subset hsub) hys⟩
          rcases List.mem_cons.1 ((insertLast_perm before x ys).mem_iff.1 hz) with rfl | hz
          · exact h.asymm z (by simp) y (by simp) hxy
          · exact hy z hz
      · next hxy =>
          rw [Bool.not_eq_true] at hxy
          refine List.pairwise_cons.2 ⟨fun z hz => ?_, List.pairwise_cons.2 ⟨hy, hys⟩⟩
          rcases List.mem_cons.1 hz with rfl | hz
          · exact hxy
          · rw [← Bool.not_eq_true]
            intro hxz
            rcases h.cotrans x (by simp) y (by simp) z (by simp [hz]) hxz with hlt | hlt
            · rw [hxy] at hlt
              cases hlt
            · rw [hy z hz] at hlt
              cases hlt

/-- It passes none to which it is tied. -/
theorem filter_insertLast {a : α} (h : IsStrictWeak before (a :: x :: ys)) :
    (insertLast before x ys).filter (tied before a) = (x :: ys).filter (tied before a) := by
  induction ys with
  | nil => rfl
  | cons y ys ih =>
      rw [insertLast]
      split
      · next hxy =>
          have hsub : a :: x :: ys ⊆ a :: x :: y :: ys :=
            List.cons_subset_cons a (List.cons_subset_cons x (List.subset_cons_self y ys))
          rw [List.filter_cons, ih (h.of_subset hsub), List.filter_cons, List.filter_cons, List.filter_cons]
          by_cases hx : tied before a x = true
          · have hy : tied before a y = false := by
              simp only [tied, Bool.and_eq_true, Bool.not_eq_true'] at hx
              have hay := (h.cotrans x (by simp) a (by simp) y (by simp) hxy).resolve_left
                (by simp [hx.2])
              simp [tied, hay]
            simp [hx, hy]
          · simp [hx]
      · rfl

end

/-- **Sorting is stable**, where the order is a strict weak one. -/
theorem stableSort_sort {xs : List α} (h : IsStrictWeak before xs) :
    StableSort before xs (sort before xs) := by
  refine ⟨sort_perm before xs, ?_, ?_⟩
  · induction xs using List.reverseRecOn with
    | nil => exact .nil
    | append_singleton xs x ih =>
        have hxs : IsStrictWeak before xs := h.of_subset (by simp)
        rw [sort_concat, List.pairwise_reverse]
        refine pairwise_insertLast (h.of_subset fun z hz => ?_) (List.pairwise_reverse.2 (ih hxs))
        simpa [(sort_perm before xs).mem_iff, or_comm] using hz
  · intro a ha
    suffices hall : ∀ xs' : List α, xs' ⊆ xs →
        (sort before xs').filter (tied before a) = xs'.filter (tied before a) from hall xs (by simp)
    intro xs' hsub
    induction xs' using List.reverseRecOn with
    | nil => rfl
    | append_singleton xs' x ih =>
        have hxs : xs' ⊆ xs := fun z hz => hsub (by simp [hz])
        have hweak : IsStrictWeak before (a :: x :: (sort before xs').reverse) := by
          refine h.of_subset fun z hz => ?_
          simp only [List.mem_cons, List.mem_reverse, (sort_perm before xs').mem_iff] at hz
          rcases hz with rfl | rfl | hz
          · exact ha
          · exact hsub (by simp)
          · exact hxs hz
        rw [sort_concat, List.filter_reverse, filter_insertLast hweak, List.filter_cons,
          List.filter_reverse, ih hxs, List.filter_append]
        by_cases hx : tied before a x = true <;> simp [hx]

/-! ### Byte by byte -/

/-- Bytes are compared by the order they have. -/
theorem Natural.compareBytes_eq_gt_iff (a b : Bytes) : compareBytes a b = .gt ↔ b < a := by
  induction a generalizing b with
  | nil => cases b <;> simp [compareBytes]
  | cons x a ih =>
      cases b with
      | nil => simp [compareBytes]
      | cons y b =>
          rw [compareBytes, List.cons_lt_cons_iff, ← ih]
          simp only [UInt8.lt_iff_toNat_lt, ← UInt8.toNat_inj]
          split
          · simp only [reduceCtorEq, false_iff]
            omega
          · split
            · simp [*]
            · have : x.toNat = y.toNat := by omega
              simp [*]

end Restyle
