import Mathlib.Data.List.TakeWhile
import Restyle.Css.Edit

/-!
# Reading the start of a text

What `after?`, `upTo?` and `skipBlank` answer, as equations between texts.
-/

namespace Restyle.Css

/-! ### A given start -/

/-- What stands behind a text at the beginning. -/
theorem after?_eq_some_iff {p s t : List Char} : after? p s = some t ↔ s = p ++ t := by
  induction p generalizing s with
  | nil =>
      rw [after?, List.nil_append]
      exact ⟨Option.some.inj, congrArg some⟩
  | cons a p ih =>
      cases s with
      | nil => simp [after?]
      | cons c s =>
          rw [after?]
          split
          · next h => subst h; rw [ih]; simp
          · next h => simp [Ne.symm h]

/-! ### The first mark -/

/-- **The text before the first mark**: it holds none. -/
theorem upTo?_eq_some_iff {mark : Char} {s u v : List Char} :
    upTo? mark s = some (u, v) ↔ s = u ++ mark :: v ∧ mark ∉ u := by
  induction s generalizing u with
  | nil => simp [upTo?]
  | cons c s ih =>
      rw [upTo?]
      split
      · next h =>
          subst h
          constructor
          · intro he; cases he; exact ⟨rfl, List.not_mem_nil⟩
          · rintro ⟨he, hu⟩
            cases u with
            | nil => cases he; rfl
            | cons x u => obtain ⟨rfl, -⟩ := List.cons.inj he; simp at hu
      · next h =>
          rw [Option.map_eq_some_iff]
          constructor
          · rintro ⟨⟨a, b⟩, hab, he⟩
            cases he
            obtain ⟨rfl, hu⟩ := ih.1 hab
            exact ⟨rfl, by simp [Ne.symm h, hu]⟩
          · rintro ⟨he, hu⟩
            cases u with
            | nil => exact absurd (List.cons.inj he).1 h
            | cons x u =>
                obtain ⟨rfl, rfl⟩ := List.cons.inj he
                rw [List.mem_cons, not_or] at hu
                exact ⟨(u, v), ih.2 ⟨rfl, hu.2⟩, rfl⟩

/-- A text goes up to the first mark. -/
theorem upTo?_append {mark : Char} {u : List Char} (h : mark ∉ u) (v : List Char) :
    upTo? mark (u ++ mark :: v) = some (u, v) :=
  upTo?_eq_some_iff.2 ⟨rfl, h⟩

/-- Without mark there is no such text. -/
theorem upTo?_eq_none {mark : Char} {s : List Char} (h : mark ∉ s) : upTo? mark s = none := by
  cases hu : upTo? mark s with
  | none => rfl
  | some r =>
      obtain ⟨rfl, -⟩ := upTo?_eq_some_iff.1 hu
      simp at h

/-! ### A class of characters at the start -/

/-- A character that stops reading hides what stands behind it. -/
theorem takeWhile_append_cons {p : Char → Bool} {c : Char} (hc : p c = false) (s t : List Char) :
    (s ++ c :: t).takeWhile p = s.takeWhile p := by
  induction s with
  | nil => simp [hc]
  | cons d s ih => simp only [List.cons_append, List.takeWhile_cons, ih]

/-- What stands behind a character that stops reading is left. -/
theorem dropWhile_append_cons {p : Char → Bool} {c : Char} (hc : p c = false) (s t : List Char) :
    (s ++ c :: t).dropWhile p = s.dropWhile p ++ c :: t := by
  induction s with
  | nil => simp [hc]
  | cons d s ih =>
      simp only [List.cons_append, List.dropWhile_cons, ih]
      split <;> rfl

/-- Reading takes what it should if something stops it there. -/
theorem takeWhile_append_of_stop {p : Char → Bool} {u t : List Char} (hu : ∀ c ∈ u, p c = true)
    (ht : ∀ c ∈ t.head?, p c = false) : (u ++ t).takeWhile p = u := by
  rw [List.takeWhile_append_of_pos hu]
  cases t with
  | nil => simp
  | cons c t => simp [ht c rfl]

/-- Reading leaves what it should if something stops it there. -/
theorem dropWhile_append_of_stop {p : Char → Bool} {u t : List Char} (hu : ∀ c ∈ u, p c = true)
    (ht : ∀ c ∈ t.head?, p c = false) : (u ++ t).dropWhile p = t := by
  rw [List.dropWhile_append_of_pos hu]
  cases t with
  | nil => rfl
  | cons c t => simp [ht c rfl]

/-! ### White space at the start -/

theorem blank_nil : ∀ c ∈ ([] : List Char), isBlank c = true :=
  List.forall_mem_nil _

theorem skipBlank_cons_of_blank {c : Char} {s : List Char} (h : isBlank c = true) :
    skipBlank (c :: s) = skipBlank s := by
  simp [skipBlank, h]

theorem skipBlank_cons_of_not_blank {c : Char} {s : List Char} (h : isBlank c = false) :
    skipBlank (c :: s) = c :: s := by
  simp [skipBlank, h]

/-- Blanks at the beginning are skipped. -/
theorem skipBlank_append {u : List Char} (h : ∀ c ∈ u, isBlank c = true) (v : List Char) :
    skipBlank (u ++ v) = skipBlank v :=
  List.dropWhile_append_of_pos h

/-- Blanks are skipped up to the first character that is none. -/
theorem skipBlank_append_cons {u : List Char} (h : ∀ c ∈ u, isBlank c = true) {c : Char}
    (hc : isBlank c = false) (v : List Char) : skipBlank (u ++ c :: v) = c :: v := by
  rw [skipBlank_append h, skipBlank_cons_of_not_blank hc]

/-- White space ends at the latest where something else starts. -/
theorem skipBlank_append_of_not_blank {t : List Char} (h : ∀ c ∈ t.head?, isBlank c = false)
    (w : List Char) : skipBlank (w ++ t) = skipBlank w ++ t := by
  induction w with
  | nil =>
      cases t with
      | nil => rfl
      | cons c t => exact skipBlank_cons_of_not_blank (h c rfl)
  | cons c w ih =>
      rw [List.cons_append]
      cases hc : isBlank c with
      | true => rw [skipBlank_cons_of_blank hc, skipBlank_cons_of_blank hc, ih]
      | false => rw [skipBlank_cons_of_not_blank hc, skipBlank_cons_of_not_blank hc]; rfl

/-- What is skipped is blanks. -/
theorem exists_blank_append_skipBlank (s : List Char) :
    ∃ u, s = u ++ skipBlank s ∧ ∀ c ∈ u, isBlank c = true :=
  ⟨s.takeWhile isBlank, List.takeWhile_append_dropWhile.symm, fun _ => List.mem_takeWhile_imp⟩

/-! ### One character between two texts -/

/-- A character that stands neither before nor behind stands between. -/
theorem exists_between {l m r u w : List Char} {x : Char} (hl : x ∉ l) (hr : x ∉ r)
    (h : l ++ (m ++ r) = u ++ x :: w) : ∃ i j, m = i ++ x :: j ∧ w = j ++ r := by
  rcases List.append_eq_append_iff.1 h with ⟨y, rfl, hy⟩ | ⟨y, rfl, hy⟩
  · rcases List.append_eq_append_iff.1 hy with ⟨z, rfl, hz⟩ | ⟨z, rfl, hz⟩
    · exact absurd (by rw [hz]; simp) hr
    · cases z with
      | nil => exact absurd (by rw [← show x :: w = r from hz]; simp) hr
      | cons c z =>
          obtain ⟨rfl, rfl⟩ := List.cons.inj hz
          exact ⟨y, z, rfl, rfl⟩
  · cases y with
    | nil =>
        cases m with
        | nil => exact absurd (by rw [← show x :: w = r from hy]; simp) hr
        | cons c m =>
            obtain ⟨rfl, rfl⟩ := List.cons.inj hy
            exact ⟨[], m, rfl, rfl⟩
    | cons c y =>
        obtain ⟨rfl, -⟩ := List.cons.inj hy
        exact absurd (by simp) hl

end Restyle.Css
