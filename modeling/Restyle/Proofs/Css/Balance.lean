import Restyle.Css.Query

/-!
# Balanced braces

`depthAfter d s` counts braces: how many are open behind `s` when `d` are open before it, and `none`
when one closes that was never opened.  A text is *balanced* when it opens and closes its own braces
(`Balanced`).

`body?` stops at the first brace that closes more than the body opened.  `body?_eq_some_iff` says
that this is the end of a balanced text, and so takes `body?` out of every later argument.
-/

namespace Restyle.Css

/-- The number of open braces behind a text that starts with `d` of them. -/
def depthAfter (d : Nat) : List Char → Option Nat
  | [] => some d
  | c :: s =>
    if c = '{' then depthAfter (d + 1) s
    else if c = '}' then
      match d with
      | 0 => none
      | e + 1 => depthAfter e s
    else depthAfter d s

/-- Every brace that opens closes, and none closes that was not opened. -/
def Balanced (s : List Char) : Prop :=
  depthAfter 0 s = some 0

instance (s : List Char) : Decidable (Balanced s) :=
  inferInstanceAs (Decidable (depthAfter 0 s = some 0))

/-! ### Counting through a text -/

@[simp] theorem depthAfter_nil (d : Nat) : depthAfter d [] = some d := rfl

@[simp] theorem depthAfter_open (d : Nat) (s : List Char) :
    depthAfter d ('{' :: s) = depthAfter (d + 1) s := rfl

@[simp] theorem depthAfter_close (d : Nat) (s : List Char) :
    depthAfter (d + 1) ('}' :: s) = depthAfter d s := rfl

/-- A brace that closes nothing has no depth behind it. -/
@[simp] theorem depthAfter_close_zero (s : List Char) : depthAfter 0 ('}' :: s) = none := rfl

/-- Only braces change the depth. -/
theorem depthAfter_cons_of_ne {c : Char} (ho : c ≠ '{') (hc : c ≠ '}') (d : Nat) (s : List Char) :
    depthAfter d (c :: s) = depthAfter d s := by
  rw [depthAfter.eq_def]
  simp only [if_neg ho, if_neg hc]

/-- The depth behind two texts is found by reading one after the other. -/
theorem depthAfter_append (d : Nat) (u v : List Char) :
    depthAfter d (u ++ v) = (depthAfter d u).bind fun e => depthAfter e v := by
  induction u generalizing d with
  | nil => rfl
  | cons c u ih =>
      rw [List.cons_append]
      by_cases ho : c = '{'
      · subst ho; exact ih (d + 1)
      by_cases hc : c = '}'
      · subst hc
        cases d with
        | zero => rfl
        | succ e => exact ih e
      · rw [depthAfter_cons_of_ne ho hc, depthAfter_cons_of_ne ho hc]
        exact ih d

/-- A text without braces leaves the depth as it is. -/
theorem depthAfter_of_plain {s : List Char} (h : ∀ c ∈ s, c ≠ '{' ∧ c ≠ '}') (d : Nat) :
    depthAfter d s = some d := by
  induction s with
  | nil => rfl
  | cons c s ih =>
      obtain ⟨ho, hc⟩ := h c List.mem_cons_self
      rw [depthAfter_cons_of_ne ho hc]
      exact ih fun x hx => h x (List.mem_cons_of_mem c hx)

/-- Blanks are no braces. -/
theorem plain_of_blank {s : List Char} (h : ∀ c ∈ s, isBlank c = true) :
    ∀ c ∈ s, c ≠ '{' ∧ c ≠ '}' := by
  intro c hc
  constructor <;> rintro rfl <;> cases h _ hc

/-- Text without braces can be left out at the beginning. -/
theorem depthAfter_plain_append {u : List Char} (h : ∀ c ∈ u, c ≠ '{' ∧ c ≠ '}') (d : Nat)
    (v : List Char) : depthAfter d (u ++ v) = depthAfter d v := by
  rw [depthAfter_append, depthAfter_of_plain h]
  rfl

theorem depthAfter_append_plain {v : List Char} (h : ∀ c ∈ v, c ≠ '{' ∧ c ≠ '}') (d : Nat)
    (u : List Char) : depthAfter d (u ++ v) = depthAfter d u := by
  rw [depthAfter_append]
  cases depthAfter d u with
  | none => rfl
  | some e => exact depthAfter_of_plain h e

/-- Braces that are open already do not matter to a text that needs none. -/
theorem depthAfter_add {s : List Char} {d e : Nat} (h : depthAfter d s = some e) (k : Nat) :
    depthAfter (d + k) s = some (e + k) := by
  induction s generalizing d with
  | nil => cases h; rfl
  | cons c s ih =>
      by_cases ho : c = '{'
      · subst ho
        rw [depthAfter_open] at h ⊢
        rw [Nat.add_right_comm]
        exact ih h
      by_cases hc : c = '}'
      · subst hc
        cases d with
        | zero => cases h
        | succ d =>
            rw [depthAfter_close] at h
            rw [Nat.add_right_comm, depthAfter_close]
            exact ih h
      · rw [depthAfter_cons_of_ne ho hc] at h ⊢
        exact ih h

/-! ### Balanced texts -/

/-- A balanced text leaves any depth as it is. -/
theorem Balanced.depthAfter {s : List Char} (h : Balanced s) (d : Nat) :
    depthAfter d s = some d := by
  have := depthAfter_add h d
  rwa [Nat.zero_add] at this

/-- A text without braces is balanced. -/
theorem balanced_of_plain {s : List Char} (h : ∀ c ∈ s, c ≠ '{' ∧ c ≠ '}') : Balanced s :=
  depthAfter_of_plain h 0

/-- Two balanced texts are balanced together. -/
theorem Balanced.append {u v : List Char} (hu : Balanced u) (hv : Balanced v) :
    Balanced (u ++ v) := by
  rw [Balanced, depthAfter_append, hu]
  exact hv

/-- A balanced text in braces is balanced. -/
theorem Balanced.braces {s : List Char} (h : Balanced s) : Balanced ('{' :: (s ++ ['}'])) := by
  rw [Balanced, depthAfter_open, depthAfter_append, h.depthAfter]
  rfl

theorem balanced_flatMap {α : Type} {f : α → List Char} {l : List α}
    (h : ∀ a ∈ l, Balanced (f a)) : Balanced (l.flatMap f) := by
  induction l with
  | nil => rfl
  | cons a l ih =>
      rw [List.flatMap_cons]
      exact (h a List.mem_cons_self).append (ih fun x hx => h x (List.mem_cons_of_mem a hx))

/-- **A closing brace does not cut a balanced text**: what stands in front of the brace is balanced,
so the text is inside it or behind the brace. -/
theorem Balanced.inside_or_behind {b x t u v : List Char} (hb : Balanced b) (hx : Balanced x)
    (h : b ++ '}' :: t = u ++ (x ++ v)) :
    (∃ z, b = u ++ (x ++ z)) ∨ ∃ z, t = z ++ (x ++ v) := by
  rcases List.append_eq_append_iff.1 h with ⟨w, rfl, hw⟩ | ⟨w, rfl, hw⟩
  · cases w with
    | cons c w => exact .inr ⟨w, (List.cons.inj hw).2⟩
    | nil =>
        cases x with
        | nil => exact .inl ⟨[], by simp⟩
        | cons c x => obtain ⟨rfl, -⟩ := List.cons.inj hw; cases hx
  · rcases List.append_eq_append_iff.1 hw with ⟨y, rfl, -⟩ | ⟨y, rfl, hy⟩
    · exact .inl ⟨y, rfl⟩
    · cases y with
      | nil => exact .inl ⟨[], by simp⟩
      | cons c y =>
          -- the brace would close more than `b` and `x` together opened
          obtain ⟨rfl, -⟩ := List.cons.inj hy
          rw [Balanced, depthAfter_append, Option.bind_eq_some_iff] at hb
          obtain ⟨d, -, hd⟩ := hb
          have := hx.depthAfter d
          rw [depthAfter_append, hd] at this
          cases this

/-! ### The body of a block -/

/-- What is no brace belongs to the body. -/
theorem body?_cons_of_ne {c : Char} (ho : c ≠ '{') (hc : c ≠ '}') (d : Nat) (s : List Char) :
    body? d (c :: s) = (body? d s).map fun (b, t) => (c :: b, t) := by
  rw [body?.eq_def]
  simp only [if_neg ho, if_neg hc]

/-- A body that starts with `c`, from what the rest of it is. -/
theorem map_cons_body?_eq_some_iff {c : Char} {d : Nat} {s b t : List Char}
    (ih : ∀ b', body? d s = some (b', t) ↔ s = b' ++ '}' :: t ∧ Css.depthAfter d b' = some 0) :
    ((body? d s).map fun (b, t) => (c :: b, t)) = some (b, t) ↔
      ∃ b', b = c :: b' ∧ s = b' ++ '}' :: t ∧ Css.depthAfter d b' = some 0 := by
  rw [Option.map_eq_some_iff]
  constructor
  · rintro ⟨⟨b', t'⟩, hb, he⟩
    cases he
    exact ⟨b', rfl, (ih b').1 hb⟩
  · rintro ⟨b', rfl, hb⟩
    exact ⟨(b', t), (ih b').2 hb, rfl⟩

/-- **The body of a block** is the text before the first brace that closes more than it opened. -/
theorem body?_eq_some_iff {d : Nat} {s b t : List Char} :
    body? d s = some (b, t) ↔ s = b ++ '}' :: t ∧ Css.depthAfter d b = some 0 := by
  induction s generalizing d b with
  | nil => simp [body?]
  | cons c s ih =>
      -- one brace deeper, one less deep or at the end, or a character of the body
      by_cases ho : c = '{'
      · subst ho
        refine (map_cons_body?_eq_some_iff fun _ => ih).trans ?_
        constructor
        · rintro ⟨b', rfl, rfl, hd⟩; exact ⟨rfl, hd⟩
        · rintro ⟨hs, hd⟩
          cases b with
          | nil => cases hs
          | cons x b' => obtain ⟨rfl, rfl⟩ := List.cons.inj hs; exact ⟨b', rfl, rfl, hd⟩
      by_cases hc : c = '}'
      · subst hc
        cases d with
        | zero =>
            constructor
            · rintro h; cases h; exact ⟨rfl, rfl⟩
            · rintro ⟨hs, hd⟩
              cases b with
              | nil => cases hs; rfl
              | cons x b' => obtain ⟨rfl, -⟩ := List.cons.inj hs; cases hd
        | succ d =>
            refine (map_cons_body?_eq_some_iff fun _ => ih).trans ?_
            constructor
            · rintro ⟨b', rfl, rfl, hd⟩; exact ⟨rfl, hd⟩
            · rintro ⟨hs, hd⟩
              cases b with
              | nil => cases hd
              | cons x b' => obtain ⟨rfl, rfl⟩ := List.cons.inj hs; exact ⟨b', rfl, rfl, hd⟩
      · rw [body?_cons_of_ne ho hc, map_cons_body?_eq_some_iff fun _ => ih]
        constructor
        · rintro ⟨b', rfl, rfl, hd⟩
          exact ⟨rfl, by rwa [depthAfter_cons_of_ne ho hc]⟩
        · rintro ⟨hs, hd⟩
          cases b with
          | nil => cases hs; exact absurd rfl hc
          | cons x b' =>
              obtain ⟨rfl, rfl⟩ := List.cons.inj hs
              exact ⟨b', rfl, rfl, by rwa [depthAfter_cons_of_ne ho hc] at hd⟩

/-- A balanced text before a closing brace is read as a body. -/
theorem body?_of_balanced {b : List Char} (h : Balanced b) (t : List Char) :
    body? 0 (b ++ '}' :: t) = some (b, t) :=
  body?_eq_some_iff.2 ⟨rfl, h⟩

/-- A body is closed exactly when a brace closes that was never opened. -/
theorem isSome_body?_iff {d : Nat} {s : List Char} :
    (body? d s).isSome ↔ depthAfter d s = none := by
  induction s generalizing d with
  | nil => simp [body?]
  | cons c s ih =>
      by_cases ho : c = '{'
      · subst ho
        rw [depthAfter_open, ← ih]
        simp [body?]
      by_cases hc : c = '}'
      · subst hc
        cases d with
        | zero => simp [body?]
        | succ d =>
            rw [depthAfter_close, ← ih]
            simp [body?]
      · rw [depthAfter_cons_of_ne ho hc, ← ih, body?_cons_of_ne ho hc, Option.isSome_map]

end Restyle.Css
