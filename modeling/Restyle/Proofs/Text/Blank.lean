import Mathlib.Data.List.TakeWhile
import Restyle.Text.Blank

/-!
# Trimmed texts

`exists_trim`: a text is its trimmed text with white space on both sides.  White space put around a
text does not change what is left of it (`trim_blank_append`, `trim_append_blank`).
-/

namespace Restyle

theorem trimEnd_cons (c : Char) (s : List Char) :
    trimEnd (c :: s) = if (trimEnd s).isEmpty && isBlank c then [] else c :: trimEnd s := rfl

/-- Blanks at the end make no difference. -/
theorem trimEnd_append_blank {v : List Char} (hv : ∀ c ∈ v, isBlank c = true) (s : List Char) :
    trimEnd (s ++ v) = trimEnd s := by
  induction s with
  | nil =>
      induction v with
      | nil => rfl
      | cons c v ih =>
          have hv' : trimEnd v = [] := ih fun x hx => hv x (List.mem_cons_of_mem c hx)
          rw [List.nil_append, trimEnd_cons, hv', hv c List.mem_cons_self]
          rfl
  | cons c s ih => rw [List.cons_append, trimEnd_cons, trimEnd_cons, ih]

/-- What is dropped at the end is blanks. -/
theorem exists_trimEnd (s : List Char) :
    ∃ v, s = trimEnd s ++ v ∧ ∀ c ∈ v, isBlank c = true := by
  induction s with
  | nil => exact ⟨[], rfl, fun _ hc => by cases hc⟩
  | cons c s ih =>
      obtain ⟨v, hs, hv⟩ := ih
      rw [trimEnd_cons]
      split
      · next h =>
          rw [Bool.and_eq_true, List.isEmpty_iff] at h
          rw [h.1, List.nil_append] at hs
          refine ⟨c :: s, rfl, fun x hx => ?_⟩
          rcases List.mem_cons.1 hx with rfl | hx
          · exact h.2
          · exact hv x (hs ▸ hx)
      · exact ⟨v, congrArg (c :: ·) hs, hv⟩

/-- White space goes from one end as it goes from the other. -/
theorem dropWhile_trimEnd (s : List Char) :
    (trimEnd s).dropWhile isBlank = trimEnd (s.dropWhile isBlank) := by
  induction s with
  | nil => rfl
  | cons c s ih =>
      cases hc : isBlank c with
      | true =>
          rw [List.dropWhile_cons_of_pos hc, ← ih, trimEnd_cons, hc, Bool.and_true]
          split
          · next h => rw [List.isEmpty_iff.1 h]
          · rw [List.dropWhile_cons_of_pos hc]
      | false =>
          have hn : ¬ isBlank c = true := by rw [hc]; exact Bool.false_ne_true
          rw [List.dropWhile_cons_of_neg hn, trimEnd_cons, hc, Bool.and_false, if_neg (by decide),
            List.dropWhile_cons_of_neg hn]

/-- **A text is its trimmed text** with white space on both sides. -/
theorem exists_trim (s : List Char) :
    ∃ u v, s = u ++ (trim s ++ v) ∧ (∀ c ∈ u, isBlank c = true) ∧ ∀ c ∈ v, isBlank c = true := by
  obtain ⟨v, hs, hv⟩ := exists_trimEnd (s.dropWhile isBlank)
  refine ⟨s.takeWhile isBlank, v, ?_, fun _ => List.mem_takeWhile_imp, hv⟩
  rw [trim, ← hs, List.takeWhile_append_dropWhile]

/-- Blanks at the beginning make no difference. -/
theorem trim_blank_append {u : List Char} (hu : ∀ c ∈ u, isBlank c = true) (s : List Char) :
    trim (u ++ s) = trim s := by
  rw [trim, List.dropWhile_append_of_pos hu, trim]

/-- Blanks at the end make no difference. -/
theorem trim_append_blank {v : List Char} (hv : ∀ c ∈ v, isBlank c = true) (s : List Char) :
    trim (s ++ v) = trim s := by
  rw [trim, ← dropWhile_trimEnd, trimEnd_append_blank hv, dropWhile_trimEnd, trim]

/-- Trimming twice is trimming once. -/
theorem trim_trim (s : List Char) : trim (trim s) = trim s := by
  obtain ⟨u, v, hs, hu, hv⟩ := exists_trim s
  have := congrArg trim hs
  rwa [trim_blank_append hu, trim_append_blank hv, eq_comm] at this

/-! ### Counting other characters -/

theorem count_of_blank {c : Char} (hc : isBlank c = false) {s : List Char}
    (hs : ∀ x ∈ s, isBlank x = true) : s.count c = 0 :=
  List.count_eq_zero.2 fun hm => by
    rw [hs c hm] at hc
    cases hc

/-- Trimming loses nothing but blanks. -/
theorem count_trim {c : Char} (hc : isBlank c = false) (s : List Char) :
    (trim s).count c = s.count c := by
  obtain ⟨u, v, hs, hu, hv⟩ := exists_trim s
  conv => rhs; rw [hs]
  rw [List.count_append, List.count_append, count_of_blank hc hu, count_of_blank hc hv,
    Nat.zero_add, Nat.add_zero]

end Restyle
