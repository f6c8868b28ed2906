import Restyle.Css.Rgb
import Restyle.Proofs.Css.Edit
import Restyle.Proofs.Css.Scan

/-!
# Colours with commas

A `SpacedCall` is a call `rgb(R G B)` or `rgb(R G B / A)` with the white space between its parts.

* `RgbCall.read?_eq_some_iff`: the search finds just these calls, and each whole.
* `read?_append_r`: nothing is read across the letter `r`, and a call starts with its only one.  So
  what stands before a call has no influence on it, and the call none on what stands before it.
* `not_hasSpacedCall_run`: no spaced call is left, also none that a written call makes together with
  the text around it.
* `fixRgb_apply_calls`: a call is written with commas, the texts around it as they would be alone; a
  document stays as it is exactly when it has no spaced call; and a second run changes nothing.
-/

namespace Restyle.Css

/-- A call whose parts stand apart by white space, with that white space. -/
structure SpacedCall extends RgbCall where
  w₀ : List Char
  w₁ : List Char
  w₂ : List Char
  w₃ : List Char
  w₄ : List Char
  w₅ : List Char
  red_digits : red ≠ [] ∧ ∀ c ∈ red, c.isDigit = true
  green_digits : green ≠ [] ∧ ∀ c ∈ green, c.isDigit = true
  blue_digits : blue ≠ [] ∧ ∀ c ∈ blue, c.isDigit = true
  alpha_chars : ∀ a ∈ alpha, a ≠ [] ∧ ∀ c ∈ a, RgbCall.isAlphaChar c = true
  blank₀ : ∀ c ∈ w₀, isBlank c = true
  blank₁ : w₁ ≠ [] ∧ ∀ c ∈ w₁, isBlank c = true
  blank₂ : w₂ ≠ [] ∧ ∀ c ∈ w₂, isBlank c = true
  blank₃ : ∀ c ∈ w₃, isBlank c = true
  blank₄ : ∀ c ∈ w₄, isBlank c = true
  blank₅ : ∀ c ∈ w₅, isBlank c = true

namespace SpacedCall

/-- The opacity behind its slash, when there is one. -/
def alphaText (c : SpacedCall) : List Char :=
  match c.alpha with
  | none => []
  | some a => c.w₃ ++ '/' :: c.w₄ ++ a

def text (c : SpacedCall) : List Char :=
  ['r', 'g', 'b', '('] ++ c.w₀ ++ c.red ++ c.w₁ ++ c.green ++ c.w₂ ++ c.blue ++ c.alphaText ++ c.w₅ ++ [')']

/-- The same call with commas between its parts, and without an opacity of `1`. -/
def commaText (c : SpacedCall) : List Char :=
  ['r', 'g', 'b', '('] ++
    [','].intercalate ([c.red, c.green, c.blue] ++ c.alpha.toList.filter (· ≠ ['1'])) ++ [')']

end SpacedCall

/-- A call whose parts stand apart by white space occurs in a text. -/
def HasSpacedCall (s : List Char) : Prop :=
  ∃ (u : List Char) (call : SpacedCall) (v : List Char), s = u ++ call.text ++ v

namespace RgbCall

/-! ### Reading the parts of a call -/

theorem isDigit_of_isBlank {c : Char} (h : isBlank c = true) : c.isDigit = false := by
  simp only [isBlank, Bool.or_eq_true, Bool.and_eq_true, decide_eq_true_eq, beq_iff_eq] at h
  simp only [Char.isDigit, Bool.and_eq_false_iff, decide_eq_false_iff_not, ge_iff_le,
    UInt32.le_iff_toNat_le]
  have hn : c.val.toNat = c.toNat := rfl
  have h₀ : '0'.val.toNat = 48 := rfl
  have h₉ : '9'.val.toNat = 57 := rfl
  omega

theorem isAlphaChar_of_isBlank {c : Char} (h : isBlank c = true) : isAlphaChar c = false := by
  have hp : c ≠ '%' := by rintro rfl; cases h
  have hd : c ≠ '.' := by rintro rfl; cases h
  simp [isAlphaChar, isDigit_of_isBlank h, hp, hd]

theorem isBlank_of_isAlphaChar {c : Char} (h : isAlphaChar c = true) : isBlank c = false := by
  cases hb : isBlank c with
  | false => rfl
  | true => rw [isAlphaChar_of_isBlank hb] at h; cases h

theorem isAlphaChar_of_isDigit {c : Char} (h : c.isDigit = true) : isAlphaChar c = true := by
  simp [isAlphaChar, h]

/-- What stands behind white space that may be there. -/
theorem head?_blank_append {P : Char → Prop} {w t : List Char} {x : Char}
    (hw : ∀ c ∈ w, isBlank c = true) (hblank : ∀ c, isBlank c = true → P c) (hx : P x) :
    ∀ c ∈ (w ++ x :: t).head?, P c := by
  intro c hc
  cases w with
  | nil => cases hc; exact hx
  | cons d w => cases hc; exact hblank c (hw c List.mem_cons_self)

/-- Blanks are skipped up to the first character of a value. -/
theorem skipBlank_append_ne_nil {p : Char → Bool} (hp : ∀ c, p c = true → isBlank c = false)
    {w u t : List Char} (hw : ∀ c ∈ w, isBlank c = true) (hu : u ≠ [] ∧ ∀ c ∈ u, p c = true) :
    skipBlank (w ++ (u ++ t)) = u ++ t := by
  obtain ⟨c, u, rfl⟩ := List.exists_cons_of_ne_nil hu.1
  exact skipBlank_append_cons hw (hp c (hu.2 c List.mem_cons_self)) _

theorem isBlank_of_isDigit (c : Char) (h : c.isDigit = true) : isBlank c = false :=
  isBlank_of_isAlphaChar (isAlphaChar_of_isDigit h)

theorem channel?_append {ds t : List Char} (hd : ds ≠ [] ∧ ∀ c ∈ ds, c.isDigit = true)
    (ht : ∀ c ∈ t.head?, c.isDigit = false) : channel? (ds ++ t) = some (ds, t) := by
  unfold channel?
  rw [takeWhile_append_of_stop hd.2 ht, dropWhile_append_of_stop hd.2 ht]
  obtain ⟨c, ds, rfl⟩ := List.exists_cons_of_ne_nil hd.1
  rfl

/-- A further channel has blanks before it. -/
theorem nextChannel?_append {w ds t : List Char} (hw : w ≠ [] ∧ ∀ c ∈ w, isBlank c = true)
    (hd : ds ≠ [] ∧ ∀ c ∈ ds, c.isDigit = true) (ht : ∀ c ∈ t.head?, c.isDigit = false) :
    nextChannel? (w ++ (ds ++ t)) = some (ds, t) := by
  obtain ⟨c, w, rfl⟩ := List.exists_cons_of_ne_nil hw.1
  have hskip : skipBlank (w ++ (ds ++ t)) = ds ++ t :=
    skipBlank_append_ne_nil isBlank_of_isDigit (fun x hx => hw.2 x (List.mem_cons_of_mem c hx)) hd
  rw [List.cons_append, nextChannel?, if_pos (hw.2 c List.mem_cons_self), hskip, channel?_append hd ht]

/-- An alpha value stands behind a slash, with blanks around it. -/
theorem alpha?_append {w w' a t : List Char} (hw : ∀ c ∈ w, isBlank c = true)
    (hw' : ∀ c ∈ w', isBlank c = true) (ha : a ≠ [] ∧ ∀ c ∈ a, isAlphaChar c = true)
    (ht : ∀ c ∈ t.head?, isAlphaChar c = false) :
    alpha? (w ++ '/' :: (w' ++ (a ++ t))) = some (a, t) := by
  have hskip : skipBlank (w' ++ (a ++ t)) = a ++ t :=
    skipBlank_append_ne_nil (fun _ => isBlank_of_isAlphaChar) hw' ha
  unfold alpha?
  rw [skipBlank_append_cons hw (by decide)]
  simp only [after?, if_true, Option.bind_eq_bind, Option.bind_some, hskip,
    takeWhile_append_of_stop ha.2 ht, dropWhile_append_of_stop ha.2 ht]
  obtain ⟨c, a, rfl⟩ := List.exists_cons_of_ne_nil ha.1
  rfl

/-- Before the closing parenthesis there is no alpha value. -/
theorem alpha?_eq_none {w t : List Char} (hw : ∀ c ∈ w, isBlank c = true) :
    alpha? (w ++ ')' :: t) = none := by
  unfold alpha?
  rw [skipBlank_append_cons hw (by decide)]
  rfl

/-- What was read as a channel is digits. -/
theorem exists_of_channel? {s ds t : List Char} (h : channel? s = some (ds, t)) :
    s = ds ++ t ∧ ds ≠ [] ∧ ∀ c ∈ ds, c.isDigit = true := by
  unfold channel? at h
  split at h
  · cases h
  · next hne =>
      cases h
      exact ⟨List.takeWhile_append_dropWhile.symm, hne, fun c => List.mem_takeWhile_imp⟩

/-- What was read as a further channel has blanks before it. -/
theorem exists_of_nextChannel? {s ds t : List Char} (h : nextChannel? s = some (ds, t)) :
    ∃ w, (w ≠ [] ∧ ∀ c ∈ w, isBlank c = true) ∧ s = w ++ (ds ++ t) ∧
      ds ≠ [] ∧ ∀ c ∈ ds, c.isDigit = true := by
  unfold nextChannel? at h
  split at h
  · next c u =>
      split at h
      · next hc =>
          obtain ⟨hu, hds⟩ := exists_of_channel? h
          obtain ⟨w, he, hw⟩ := exists_blank_append_skipBlank u
          refine ⟨c :: w, ⟨List.cons_ne_nil c w, fun x hx => ?_⟩, ?_, hds⟩
          · rcases List.mem_cons.1 hx with rfl | hx
            · exact hc
            · exact hw x hx
          · rw [← hu, List.cons_append, ← he]
      · cases h
  · cases h

/-- What was read as an alpha value stands behind a slash. -/
theorem exists_of_alpha? {s a t : List Char} (h : alpha? s = some (a, t)) :
    ∃ w w', (∀ c ∈ w, isBlank c = true) ∧ (∀ c ∈ w', isBlank c = true) ∧
      s = w ++ '/' :: (w' ++ (a ++ t)) ∧ a ≠ [] ∧ ∀ c ∈ a, isAlphaChar c = true := by
  unfold alpha? at h
  obtain ⟨u, hu, h⟩ := Option.bind_eq_some_iff.1 h
  rw [after?_eq_some_iff, List.singleton_append] at hu
  obtain ⟨w, he, hw⟩ := exists_blank_append_skipBlank s
  obtain ⟨w', he', hw'⟩ := exists_blank_append_skipBlank u
  split at h
  · cases h
  · next hne =>
      cases h
      refine ⟨w, w', hw, hw', ?_, hne, fun c => List.mem_takeWhile_imp⟩
      rw [List.takeWhile_append_dropWhile, ← he', ← hu, ← he]

/-! ### Reading a call -/

theorem toList_rgb : "rgb(".toList = ['r', 'g', 'b', '('] :=
  rfl

/-- What stands behind the last channel of a call. -/
theorem head?_alphaText (c : SpacedCall) (t : List Char) :
    ∀ x ∈ (c.alphaText ++ (c.w₅ ++ ')' :: t)).head?, x.isDigit = false := by
  unfold SpacedCall.alphaText
  split
  · exact head?_blank_append c.blank₅ (fun _ => isDigit_of_isBlank) (by decide)
  · rw [List.append_assoc, List.append_assoc]
    exact head?_blank_append c.blank₃ (fun _ => isDigit_of_isBlank) (by decide)

/-- **A call is read wherever it stands.** -/
theorem read?_text_append (c : SpacedCall) (t : List Char) :
    read? (c.text ++ t) = some (c.toRgbCall, t) := by
  have gap : ∀ {w : List Char} (u : List Char), (w ≠ [] ∧ ∀ x ∈ w, isBlank x = true) →
      ∀ x ∈ (w ++ u).head?, x.isDigit = false := fun u hw => by
    obtain ⟨x, w, rfl⟩ := List.exists_cons_of_ne_nil hw.1
    intro y hy
    cases hy
    exact isDigit_of_isBlank (hw.2 x List.mem_cons_self)
  have htext : c.text ++ t = ['r', 'g', 'b', '('] ++ (c.w₀ ++ (c.red ++ (c.w₁ ++ (c.green ++
      (c.w₂ ++ (c.blue ++ (c.alphaText ++ (c.w₅ ++ ')' :: t)))))))) := by
    simp only [SpacedCall.text, List.append_assoc, List.singleton_append]
  have hclose : after? [')'] (skipBlank (c.w₅ ++ ')' :: t)) = some t := by
    rw [skipBlank_append_cons c.blank₅ (by decide)]
    rfl
  rw [htext, read?, toList_rgb, after?_eq_some_iff.2 rfl]
  simp only [Option.bind_eq_bind, Option.bind_some]
  rw [skipBlank_append_ne_nil isBlank_of_isDigit c.blank₀ c.red_digits,
    channel?_append c.red_digits (gap _ c.blank₁)]
  simp only [Option.bind_some, nextChannel?_append c.blank₁ c.green_digits (gap _ c.blank₂),
    nextChannel?_append c.blank₂ c.blue_digits (head?_alphaText c t)]
  cases ha : c.alpha with
  | none =>
      have hnil : c.alphaText = [] := by rw [SpacedCall.alphaText, ha]
      simp only [hnil, List.nil_append, alpha?_eq_none c.blank₅, hclose]
      rw [← ha]
      rfl
  | some a =>
      have hsome : alpha? (c.alphaText ++ (c.w₅ ++ ')' :: t)) = some (a, c.w₅ ++ ')' :: t) := by
        rw [SpacedCall.alphaText, ha]
        simpa using alpha?_append c.blank₃ c.blank₄ (c.alpha_chars a ha)
          (head?_blank_append c.blank₅ (fun _ => isAlphaChar_of_isBlank) (x := ')') (t := t) (by decide))
      simp only [hsome, hclose]
      rw [← ha]
      rfl

/-- **Whatever is read is a call.** -/
theorem exists_of_read? {s t : List Char} {r : RgbCall} (h : read? s = some (r, t)) :
    ∃ c : SpacedCall, c.toRgbCall = r ∧ s = c.text ++ t := by
  unfold read? at h
  simp only [Option.bind_eq_bind, Option.bind_eq_some_iff] at h
  obtain ⟨s₀, hs, ⟨red, s₁⟩, hred, ⟨green, s₂⟩, hgreen, ⟨blue, s₃⟩, hblue, s₄, hclose, he⟩ := h
  rw [after?_eq_some_iff, toList_rgb] at hs
  dsimp only at hgreen hblue hclose he
  obtain ⟨w₀, he₀, hw₀⟩ := exists_blank_append_skipBlank s₀
  obtain ⟨hs₁, hred⟩ := exists_of_channel? hred
  obtain ⟨w₁, hw₁, hs₂, hgreen⟩ := exists_of_nextChannel? hgreen
  obtain ⟨w₂, hw₂, hs₃, hblue⟩ := exists_of_nextChannel? hblue
  -- the two forms differ only in what stands between the last channel and the end
  have build : ∀ (alpha : Option (List Char)) (w₃ w₄ s' : List Char),
      (∀ a ∈ alpha, a ≠ [] ∧ ∀ c ∈ a, isAlphaChar c = true) → (∀ c ∈ w₃, isBlank c = true) →
      (∀ c ∈ w₄, isBlank c = true) →
      s₃ = alpha.elim [] (fun a => w₃ ++ '/' :: w₄ ++ a) ++ s' →
      after? [')'] (skipBlank s') = some t →
      ∃ c : SpacedCall, c.toRgbCall = ⟨red, green, blue, alpha⟩ ∧ s = c.text ++ t := by
    intro alpha w₃ w₄ s' halpha hw₃ hw₄ hs₄ hclose
    rw [after?_eq_some_iff] at hclose
    obtain ⟨w₅, he₅, hw₅⟩ := exists_blank_append_skipBlank s'
    refine ⟨⟨⟨red, green, blue, alpha⟩, w₀, w₁, w₂, w₃, w₄, w₅, hred, hgreen, hblue, halpha, hw₀, hw₁,
      hw₂, hw₃, hw₄, hw₅⟩, rfl, ?_⟩
    rw [hs, he₀, hs₁, hs₂, hs₃, hs₄, he₅, hclose]
    cases alpha with
    | none => simp only [SpacedCall.text, SpacedCall.alphaText, List.append_assoc, Option.elim]
    | some a => simp only [SpacedCall.text, SpacedCall.alphaText, List.append_assoc, Option.elim]
  cases ha : alpha? s₃ with
  | none =>
      simp only [ha] at hclose he
      cases he
      exact build none [] [] s₃ (by simp) blank_nil blank_nil rfl hclose
  | some r =>
      obtain ⟨a, s'⟩ := r
      simp only [ha] at hclose he
      cases he
      obtain ⟨w₃, w₄, hw₃, hw₄, hs₄, halpha⟩ := exists_of_alpha? ha
      exact build (some a) w₃ w₄ s' (fun x hx => by cases hx; exact halpha) hw₃ hw₄ (by simp [hs₄]) hclose

/-- **A call is read** exactly where one with blanks between its values is written. -/
theorem read?_eq_some_iff {s t : List Char} {r : RgbCall} :
    read? s = some (r, t) ↔ ∃ c : SpacedCall, c.toRgbCall = r ∧ s = c.text ++ t := by
  refine ⟨exists_of_read?, ?_⟩
  rintro ⟨c, rfl, rfl⟩
  exact read?_text_append c t

/-- A call begins with its name. -/
theorem read?_of_ne {c : Char} (h : c ≠ 'r') (s : List Char) : read? (c :: s) = none := by
  rw [read?, toList_rgb, after?, if_neg (Ne.symm h)]
  rfl

end RgbCall

/-! ### The letter that starts a call -/

namespace SpacedCall

/-- No part of a call holds the first letter of its name. -/
theorem not_mem_of_blank {w : List Char} (hw : ∀ c ∈ w, isBlank c = true) : 'r' ∉ w :=
  fun h => by cases hw 'r' h

theorem not_mem_of_digits {ds : List Char} (hd : ds ≠ [] ∧ ∀ c ∈ ds, c.isDigit = true) : 'r' ∉ ds :=
  fun h => by cases hd.2 'r' h

theorem not_mem_of_alpha {a : List Char} (ha : a ≠ [] ∧ ∀ c ∈ a, RgbCall.isAlphaChar c = true) :
    'r' ∉ a :=
  fun h => by cases ha.2 'r' h

/-- Only the first character of a call is the letter `r`. -/
theorem exists_text (c : SpacedCall) : ∃ m, c.text = 'r' :: m ∧ 'r' ∉ m := by
  have halpha : 'r' ∉ c.alphaText := by
    unfold alphaText
    split
    · exact List.not_mem_nil
    · next a ha =>
        simp [not_mem_of_blank c.blank₃, not_mem_of_blank c.blank₄, not_mem_of_alpha (c.alpha_chars a ha)]
  refine ⟨['g', 'b', '('] ++ c.w₀ ++ c.red ++ c.w₁ ++ c.green ++ c.w₂ ++ c.blue ++ c.alphaText ++
    c.w₅ ++ [')'], rfl, ?_⟩
  simp [not_mem_of_blank c.blank₀, not_mem_of_blank c.blank₁.2, not_mem_of_blank c.blank₂.2,
    not_mem_of_blank c.blank₅, not_mem_of_digits c.red_digits, not_mem_of_digits c.green_digits,
    not_mem_of_digits c.blue_digits, halpha]

/-- With commas, a call goes on behind its first channel with one. -/
theorem exists_commaText (c : SpacedCall) :
    ∃ m, c.commaText = 'r' :: 'g' :: 'b' :: '(' :: (c.red ++ ',' :: m) ∧ 'r' ∉ m := by
  have hgreen := not_mem_of_digits c.green_digits
  have hblue := not_mem_of_digits c.blue_digits
  unfold commaText
  cases ha : c.alpha with
  | none =>
      refine ⟨c.green ++ ',' :: (c.blue ++ [')']), by simp [List.intercalate], ?_⟩
      simp [hgreen, hblue]
  | some a =>
      by_cases hone : a = ['1']
      · refine ⟨c.green ++ ',' :: (c.blue ++ [')']), by simp [hone, List.intercalate], ?_⟩
        simp [hgreen, hblue]
      · refine ⟨c.green ++ ',' :: (c.blue ++ ',' :: (a ++ [')'])), by simp [hone, List.intercalate], ?_⟩
        simp [hgreen, hblue, not_mem_of_alpha (c.alpha_chars a ha)]

end SpacedCall

/-! ### Calls and the text around them -/

/-- **No match straddles the start of a call**: nothing is read across the letter `r`. -/
theorem read?_append_r (c : Char) (s t : List Char) :
    RgbCall.read? (c :: (s ++ 'r' :: t)) =
      (RgbCall.read? (c :: s)).map fun r => (r.1, r.2 ++ 'r' :: t) := by
  cases hs : RgbCall.read? (c :: s) with
  | some r =>
      obtain ⟨call, hcall, he⟩ := RgbCall.read?_eq_some_iff.1 hs
      refine RgbCall.read?_eq_some_iff.2 ⟨call, hcall, ?_⟩
      rw [← List.cons_append, he, List.append_assoc]
  | none =>
      cases ht : RgbCall.read? (c :: (s ++ 'r' :: t)) with
      | none => rfl
      | some r =>
          obtain ⟨call, hcall, he⟩ := RgbCall.read?_eq_some_iff.1 ht
          obtain ⟨m, hm, hr⟩ := call.exists_text
          rw [hm, List.cons_append, List.cons.injEq] at he
          obtain ⟨rfl, he⟩ := he
          rcases List.append_eq_append_iff.1 he with ⟨z, hz, hrest⟩ | ⟨z, hz, hrest⟩
          · -- the call reaches beyond `s`, so it has a second `r`, or it ends with `s`
            cases z with
            | nil =>
                have : RgbCall.read? ('r' :: s) = some (call.toRgbCall, []) :=
                  RgbCall.read?_eq_some_iff.2 ⟨call, rfl, by rw [hm, hz, List.append_nil, List.append_nil]⟩
                rw [this] at hs
                cases hs
            | cons d z =>
                obtain ⟨rfl, -⟩ := List.cons.inj hrest
                exact absurd (by simp [hz]) hr
          · have : RgbCall.read? ('r' :: s) = some (call.toRgbCall, z) :=
              RgbCall.read?_eq_some_iff.2 ⟨call, rfl, by rw [hm, hz]; rfl⟩
            rw [this] at hs
            cases hs

theorem pieces_append_r (s t : List Char) :
    RgbCall.read?.pieces (s ++ 'r' :: t) = RgbCall.read?.pieces s ++ RgbCall.read?.pieces ('r' :: t) :=
  Pattern.pieces_append (fun c u => read?_append_r c u t) s

/-- Calls before the first letter of the name are fixed apart from those behind it. -/
theorem run_fixRgb_append_r (s t : List Char) :
    fixRgb.run (s ++ 'r' :: t) = fixRgb.run s ++ fixRgb.run ('r' :: t) := by
  rw [fixRgb, Pattern.run_replace, pieces_append_r, List.flatMap_append, Pattern.run_replace,
    Pattern.run_replace]

/-- A call is written with commas. -/
theorem SpacedCall.write_eq_commaText (c : SpacedCall) : c.write = c.commaText := by
  unfold RgbCall.write SpacedCall.commaText
  rw [RgbCall.toList_rgb]
  cases c.alpha with
  | none => simp [List.intercalate]
  | some a =>
      by_cases ha : a = ['1']
      · simp [ha, List.intercalate]
      · simp [ha, List.intercalate]

/-- **A call is written with commas**, and the texts around it as they would be alone. -/
theorem run_fixRgb_append (u : List Char) (c : SpacedCall) (v : List Char) :
    fixRgb.run (u ++ c.text ++ v) = fixRgb.run u ++ c.commaText ++ fixRgb.run v := by
  obtain ⟨m, hm, -⟩ := c.exists_text
  have hcall : fixRgb.run (c.text ++ v) = c.commaText ++ fixRgb.run v := by
    rw [fixRgb, Pattern.run_replace, Pattern.pieces_append_of_some (by rw [hm]; simp)
      (RgbCall.read?_text_append c v), List.flatMap_cons, Pattern.run_replace]
    exact congrArg (· ++ _) c.write_eq_commaText
  rw [List.append_assoc, List.append_assoc, ← hcall, hm, List.cons_append, run_fixRgb_append_r]

/-! ### Texts without such calls -/

/-- Something is found exactly where a call occurs. -/
theorem findAll_read?_eq_nil_iff {s : List Char} :
    RgbCall.read?.findAll s = [] ↔ ¬ HasSpacedCall s := by
  rw [Pattern.findAll_eq_nil_iff]
  constructor
  · rintro h ⟨u, call, v, rfl⟩
    obtain ⟨m, hm, -⟩ := call.exists_text
    have hnone := h u 'r' (m ++ v) (by rw [hm, List.append_assoc, List.cons_append])
    rw [← List.cons_append, ← hm, RgbCall.read?_text_append] at hnone
    cases hnone
  · intro h u c v he
    cases hr : RgbCall.read? (c :: v) with
    | none => rfl
    | some r =>
        obtain ⟨call, -, hc⟩ := RgbCall.read?_eq_some_iff.1 hr
        exact absurd ⟨u, call, r.2, by rw [he, hc, List.append_assoc]⟩ h

/-- Nothing is fixed if there is no call with blanks. -/
theorem fixRgb_eq_none_iff {s : List Char} : fixRgb s = none ↔ ¬ HasSpacedCall s := by
  rw [← findAll_read?_eq_nil_iff, ← List.isEmpty_iff, fixRgb, Pattern.replace]
  cases (RgbCall.read?.findAll s).isEmpty <;> simp

namespace SpacedCall

/-- A call with commas is none of those that are found. -/
theorem read?_commaText_append (c : SpacedCall) (t : List Char) :
    RgbCall.read? (c.commaText ++ t) = none := by
  obtain ⟨m, hm, -⟩ := c.exists_commaText
  have hskip : skipBlank (c.red ++ ',' :: (m ++ t)) = c.red ++ ',' :: (m ++ t) :=
    RgbCall.skipBlank_append_ne_nil RgbCall.isBlank_of_isDigit (w := []) blank_nil c.red_digits
  have htext : c.commaText ++ t = ['r', 'g', 'b', '('] ++ (c.red ++ ',' :: (m ++ t)) := by
    simp [hm]
  rw [htext, RgbCall.read?, RgbCall.toList_rgb, after?_eq_some_iff.2 rfl]
  simp only [Option.bind_eq_bind, Option.bind_some]
  rw [hskip, RgbCall.channel?_append c.red_digits fun x hx => by cases hx; decide]
  rfl

/-- A call with commas is not read again. -/
theorem findAll_commaText_append (c : SpacedCall) (t : List Char) :
    RgbCall.read?.findAll (c.commaText ++ t) = RgbCall.read?.findAll t := by
  refine Pattern.findAll_append_of_none fun x d y he => ?_
  obtain ⟨m, hm, hr⟩ := c.exists_commaText
  cases x with
  | nil =>
      rw [← List.cons_append, ← List.nil_append (d :: y), ← he, c.read?_commaText_append]
  | cons e x =>
      refine RgbCall.read?_of_ne ?_ _
      rintro rfl
      rw [hm] at he
      have hmem : 'r' ∈ 'g' :: 'b' :: '(' :: (c.red ++ ',' :: m) := by
        rw [(List.cons.inj he).2]
        simp
      simp [not_mem_of_digits c.red_digits, hr] at hmem

end SpacedCall

/-- Behind the letter `r` the search starts anew. -/
theorem findAll_append_r (s t : List Char) :
    RgbCall.read?.findAll (s ++ 'r' :: t) =
      RgbCall.read?.findAll s ++ RgbCall.read?.findAll ('r' :: t) :=
  Pattern.findAll_append (fun c u => read?_append_r c u t) s

/-- **No spaced call is left**, by induction on the text: a call parts it into two shorter ones. -/
theorem not_hasSpacedCall_run (s : List Char) : ¬ HasSpacedCall (fixRgb.run s) := by
  induction hlen : s.length using Nat.strongRecOn generalizing s with
  | ind len ih =>
      by_cases h : HasSpacedCall s
      · obtain ⟨u, c, v, rfl⟩ := h
        obtain ⟨m, hm, -⟩ := c.exists_text
        obtain ⟨m', hm', -⟩ := c.exists_commaText
        have hparts : u.length < len ∧ v.length < len := by
          simp only [List.length_append, hm, List.length_cons] at hlen
          omega
        have hu := ih u.length hparts.1 u rfl
        have hv := ih v.length hparts.2 v rfl
        rw [← findAll_read?_eq_nil_iff] at hu hv ⊢
        have hsplit : RgbCall.read?.findAll (fixRgb.run u ++ (c.commaText ++ fixRgb.run v)) =
            RgbCall.read?.findAll (fixRgb.run u) ++
              RgbCall.read?.findAll (c.commaText ++ fixRgb.run v) := by
          rw [hm', List.cons_append, findAll_append_r]
        rw [run_fixRgb_append, List.append_assoc, hsplit, hu, c.findAll_commaText_append, hv,
          List.nil_append]
      · rw [Edit.run, fixRgb_eq_none_iff.2 h]
        exact h

/-! ### Documents -/

/-- A document is left alone exactly when it has no spaced call. -/
theorem fixRgb_apply_eq_self_iff {doc : Bytes} :
    fixRgb.apply doc = doc ↔ ¬ HasSpacedCall (Utf8.codePoints doc) := by
  constructor
  · intro h hcall
    have hrun := not_hasSpacedCall_run (Utf8.codePoints doc)
    rw [← Edit.codePoints_apply, h] at hrun
    exact hrun hcall
  · intro h
    exact Edit.apply_of_none (fixRgb_eq_none_iff.2 h)

/-- **Fixing calls a second time changes nothing.** -/
theorem fixRgb_apply_apply (doc : Bytes) : fixRgb.apply (fixRgb.apply doc) = fixRgb.apply doc :=
  Edit.apply_apply (fun s => by
    rw [Edit.run, fixRgb_eq_none_iff.2 (not_hasSpacedCall_run s)]
    rfl) doc

/-- **Every spaced call is written with commas, and nothing else changes.** -/
theorem fixRgb_apply_calls (u : List Char) (call : SpacedCall) (v : List Char) (doc : Bytes) :
    fixRgb.apply (Utf8.encode (u ++ call.text ++ v)) =
      fixRgb.apply (Utf8.encode u) ++ Utf8.encode call.commaText ++ fixRgb.apply (Utf8.encode v) ∧
    (fixRgb.apply doc = doc ↔ ¬ HasSpacedCall (Utf8.codePoints doc)) ∧
    fixRgb.apply (fixRgb.apply doc) = fixRgb.apply doc := by
  refine ⟨?_, fixRgb_apply_eq_self_iff, fixRgb_apply_apply doc⟩
  rw [Edit.apply_encode, Edit.apply_encode, Edit.apply_encode, run_fixRgb_append]
  simp only [Utf8.encode, List.flatMap_append]

/-- A call with all its white space. -/
def looseCall : SpacedCall where
  red := "10".toList
  green := "20".toList
  blue := "30".toList
  alpha := some ".5".toList
  w₀ := " ".toList
  w₁ := " ".toList
  w₂ := "\n\t".toList
  w₃ := " ".toList
  w₄ := []
  w₅ := " ".toList
  red_digits := ⟨by decide, List.all_eq_true.1 (by decide)⟩
  green_digits := ⟨by decide, List.all_eq_true.1 (by decide)⟩
  blue_digits := ⟨by decide, List.all_eq_true.1 (by decide)⟩
  alpha_chars := fun a ha => by
    cases ha
    exact ⟨by decide, List.all_eq_true.1 (by decide)⟩
  blank₀ := List.all_eq_true.1 (by decide)
  blank₁ := ⟨by decide, List.all_eq_true.1 (by decide)⟩
  blank₂ := ⟨by decide, List.all_eq_true.1 (by decide)⟩
  blank₃ := List.all_eq_true.1 (by decide)
  blank₄ := blank_nil
  blank₅ := List.all_eq_true.1 (by decide)

/-- A call between the two halves of another. -/
theorem fixRgb_apply_calls_halves :
    fixRgb.apply (Utf8.encode "rgb(1 rgb( 10 20\n\t30 /.5 ) 2 3)".toList) =
      Utf8.encode "rgb(1 rgb(10,20,30,.5) 2 3)".toList := by
  have htext : "rgb(1 rgb( 10 20\n\t30 /.5 ) 2 3)".toList =
      "rgb(1 ".toList ++ looseCall.text ++ " 2 3)".toList := by decide
  rw [htext, (fixRgb_apply_calls _ looseCall _ []).1]
  decide

end Restyle.Css
