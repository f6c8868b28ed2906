import Restyle.Css.Edit
import Restyle.Proofs.Text.Utf8

/-!
# Edits as functions on texts

An edit says whether it writes a text anew; `Edit.run` forgets that and keeps the text it leaves.
The statements here let a property of documents be proved on texts:

* `Edit.codePoints_apply`: the code points of an edited document are the edited code points, also
  when the document holds stray bytes.
* `Edit.apply_apply`: an edit that leaves its own results alone, as texts, leaves its own results
  alone as documents.

A search for a pattern is taken apart at the places where it holds (`Pattern.pieces_append_of_some`),
over the texts in which it does not (`Pattern.pieces_append_of_none`), and before a text of which the
pattern sees nothing (`Pattern.pieces_append`).
-/

namespace Restyle.Css

namespace Edit

/-! ### The text that an edit leaves -/

/-- Two edits are made one after the other. -/
theorem run_andThen (e f : Edit) (s : List Char) : (e.andThen f).run s = f.run (e.run s) := by
  unfold run andThen
  cases e s with
  | none => rfl
  | some t => rfl

theorem run_sequence_cons (e : Edit) (es : List Edit) (s : List Char) :
    (sequence (e :: es)).run s = (sequence es).run (e.run s) :=
  run_andThen e (sequence es) s

/-- An edit that writes `f s`, and is silent only where `f` changes nothing. -/
theorem run_whenever {found : List Char → Bool} {f : List Char → List Char}
    (h : ∀ s, found s = false → f s = s) (s : List Char) : (whenever found f).run s = f s := by
  unfold run whenever
  cases hs : found s with
  | false => exact (h s hs).symm
  | true => rfl

/-- A change is run as the function it is made of. -/
theorem run_changing (f : List Char → List Char) (s : List Char) : (changing f).run s = f s :=
  run_whenever (fun s hs => by simpa using hs) s

/-! ### From texts to documents -/

/-- A document is left as it is where an edit changes nothing. -/
theorem apply_of_none {e : Edit} {doc : Bytes} (h : e (Utf8.codePoints doc) = none) :
    e.apply doc = doc := by
  rw [apply, h]

/-- A document becomes the text of an edit that changes something. -/
theorem apply_of_some {e : Edit} {doc : Bytes} {text : List Char}
    (h : e (Utf8.codePoints doc) = some text) : e.apply doc = Utf8.encode text := by
  rw [apply, h]

/-- **An edit works on code points.** -/
theorem codePoints_apply (e : Edit) (doc : Bytes) :
    Utf8.codePoints (e.apply doc) = e.run (Utf8.codePoints doc) := by
  unfold apply run
  cases e (Utf8.codePoints doc) with
  | none => rfl
  | some text => exact Utf8.codePoints_encode text

/-- The bytes of a text become those of the edited text. -/
theorem apply_encode (e : Edit) (text : List Char) :
    e.apply (Utf8.encode text) = Utf8.encode (e.run text) := by
  unfold apply run
  rw [Utf8.codePoints_encode]
  cases e text with
  | none => rfl
  | some t => rfl

/-- A document that an edit writes anew is the text written. -/
theorem apply_of_run_eq {e : Edit} {doc : Bytes}
    (h : e.run (Utf8.codePoints doc) = Utf8.codePoints doc)
    (hdoc : Utf8.encode (Utf8.codePoints doc) = doc) : e.apply doc = doc := by
  unfold apply
  unfold run at h
  cases he : e (Utf8.codePoints doc) with
  | none => rfl
  | some text =>
      rw [he] at h
      exact (congrArg Utf8.encode h).trans hdoc

/-- **What leaves its own texts alone leaves its own documents alone.** -/
theorem apply_apply {e : Edit} (h : ∀ s, e.run (e.run s) = e.run s) (doc : Bytes) :
    e.apply (e.apply doc) = e.apply doc := by
  cases he : e (Utf8.codePoints doc) with
  | none =>
      -- nothing was found, so the second run sees the very same document
      rw [apply_of_none he, apply_of_none he]
  | some text =>
      have ht : e.run (Utf8.codePoints doc) = text := by rw [run, he]; rfl
      rw [apply_of_some he]
      refine apply_of_run_eq ?_ ?_
      · rw [Utf8.codePoints_encode, ← ht, h]
      · rw [Utf8.codePoints_encode]

end Edit

/-! ### Where a pattern holds -/

namespace Pattern

variable {α : Type}

/-- Where nothing matches, matches are looked for behind the character. -/
theorem findAll_cons_of_none {p : Pattern α} {c : Char} {s : List Char} (h : p (c :: s) = none) :
    p.findAll (c :: s) = p.findAll s := by
  simp only [findAll, pieces, piecesFrom, h]
  rfl

/-- A pattern finds nothing exactly when it holds at no place. -/
theorem findAll_eq_nil_iff {p : Pattern α} {s : List Char} :
    p.findAll s = [] ↔ ∀ u c v, s = u ++ c :: v → p (c :: v) = none := by
  induction s with
  | nil => simp [findAll, pieces, piecesFrom]
  | cons c s ih =>
      cases hp : p (c :: s) with
      | none =>
          rw [findAll_cons_of_none hp, ih]
          constructor
          · intro h u d v he
            cases u with
            | nil => cases he; exact hp
            | cons x u => cases he; exact h u d v rfl
          · intro h u d v he
            exact h (c :: u) d v (by rw [he]; rfl)
      | some r =>
          constructor
          · intro h
            simp [findAll, pieces, piecesFrom, hp, Piece.found?] at h
          · intro h
            rw [h [] c s rfl] at hp
            cases hp

/-- Nothing is cut if nothing matches at any place. -/
theorem cut_eq_none_iff {p : Pattern α} {s : List Char} :
    p.cut s = none ↔ ∀ u c v, s = u ++ c :: v → p (c :: v) = none := by
  rw [← findAll_eq_nil_iff, ← List.isEmpty_iff]
  unfold cut replace
  cases (p.findAll s).isEmpty <;> simp

/-! ### Cutting a text piece by piece -/

/-- Pieces are those behind what has been passed. -/
theorem piecesFrom_append (p : Pattern α) (u v : List Char) :
    p.piecesFrom u.length (u ++ v) = p.pieces v := by
  induction u with
  | nil => rfl
  | cons c u ih => exact ih

/-- Where the pattern holds, the search goes on behind what it took. -/
theorem pieces_append_of_some {p : Pattern α} {a : α} {m rest : List Char} (hm : m ≠ [])
    (h : p (m ++ rest) = some (a, rest)) : p.pieces (m ++ rest) = .found a :: p.pieces rest := by
  obtain ⟨c, m, rfl⟩ := List.exists_cons_of_ne_nil hm
  rw [List.cons_append] at h ⊢
  simp only [pieces, piecesFrom, h]
  rw [List.length_append, Nat.add_sub_cancel, piecesFrom_append]
  rfl

/-- A text at no place of which the pattern holds is passed over. -/
theorem pieces_append_of_none {p : Pattern α} {w t : List Char}
    (h : ∀ x c y, w = x ++ c :: y → p (c :: (y ++ t)) = none) :
    p.pieces (w ++ t) = w.map .other ++ p.pieces t := by
  induction w with
  | nil => rfl
  | cons c w ih =>
      have hc : p (c :: (w ++ t)) = none := h [] c w rfl
      have hw := ih fun x d y he => h (c :: x) d y (by rw [he]; rfl)
      rw [List.cons_append, pieces, piecesFrom]
      simp only [hc]
      exact congrArg (.other c :: ·) hw

theorem flatMap_text_other (write : α → List Char) (w : List Char) :
    (w.map Piece.other).flatMap (Piece.text write) = w := by
  induction w with
  | nil => rfl
  | cons c w ih => exact congrArg (c :: ·) ih

/-- **A replacement writes its pieces**, also when it finds nothing. -/
theorem run_replace (p : Pattern α) (write : α → List Char) (s : List Char) :
    (p.replace write).run s = (p.pieces s).flatMap (Piece.text write) := by
  unfold Edit.run replace
  split
  · next h =>
      rw [List.isEmpty_iff, findAll_eq_nil_iff] at h
      have := pieces_append_of_none (t := []) fun x c y he => (List.append_nil y).symm ▸ h x c y he
      rw [List.append_nil] at this
      rw [this, List.flatMap_append, flatMap_text_other]
      exact (List.append_nil s).symm
  · rfl

/-- A match at the beginning is cut. -/
theorem run_cut_append_of_some {p : Pattern α} {a : α} {m rest : List Char} (hm : m ≠ [])
    (h : p (m ++ rest) = some (a, rest)) : p.cut.run (m ++ rest) = p.cut.run rest := by
  rw [cut, run_replace, pieces_append_of_some hm h, run_replace]
  rfl

/-- Text in which nothing matches stays. -/
theorem run_cut_append_of_none {p : Pattern α} {w t : List Char}
    (h : ∀ x c y, w = x ++ c :: y → p (c :: (y ++ t)) = none) :
    p.cut.run (w ++ t) = w ++ p.cut.run t := by
  rw [cut, run_replace, pieces_append_of_none h, List.flatMap_append, flatMap_text_other,
    run_replace]

/-- A match at the beginning is the first one found. -/
theorem findAll_append_of_some {p : Pattern α} {a : α} {m rest : List Char} (hm : m ≠ [])
    (h : p (m ++ rest) = some (a, rest)) : p.findAll (m ++ rest) = a :: p.findAll rest := by
  rw [findAll, pieces_append_of_some hm h]
  rfl

/-- Nothing is found in text where nothing matches. -/
theorem findAll_append_of_none {p : Pattern α} {w t : List Char}
    (h : ∀ x c y, w = x ++ c :: y → p (c :: (y ++ t)) = none) :
    p.findAll (w ++ t) = p.findAll t := by
  have hother : (w.map .other : List (Piece α)).filterMap Piece.found? = [] :=
    List.filterMap_eq_nil_iff.2 fun x hx => by
      obtain ⟨c, -, rfl⟩ := List.mem_map.1 hx
      rfl
  rw [findAll, pieces_append_of_none h, List.filterMap_append, hother]
  rfl

/-- A pattern that sees nothing of `t` cuts a text before `t` as if it stood alone. -/
theorem pieces_append {p : Pattern α} {t : List Char}
    (h : ∀ c s, p (c :: (s ++ t)) = (p (c :: s)).map fun r => (r.1, r.2 ++ t)) (s : List Char) :
    p.pieces (s ++ t) = p.pieces s ++ p.pieces t := by
  suffices H : ∀ (s : List Char) (skip : Nat), skip ≤ s.length →
      p.piecesFrom skip (s ++ t) = p.piecesFrom skip s ++ p.pieces t from H s 0 (Nat.zero_le _)
  intro s
  induction s with
  | nil =>
      intro skip hskip
      obtain rfl : skip = 0 := by simpa using hskip
      rfl
  | cons c s ih =>
      intro skip hskip
      cases skip with
      | succ k => exact ih k (Nat.le_of_succ_le_succ hskip)
      | zero =>
          simp only [List.cons_append, piecesFrom, h]
          cases p (c :: s) with
          | none => simp [ih 0 (Nat.zero_le _)]
          | some r =>
              have hlen : (s ++ t).length - (r.2 ++ t).length = s.length - r.2.length := by
                rw [List.length_append, List.length_append, Nat.add_sub_add_right]
              simp only [Option.map_some, hlen, ih _ (Nat.sub_le _ _), List.cons_append]

/-- Matches are those of two texts if none of them depends on what stands behind the first. -/
theorem findAll_append {p : Pattern α} {t : List Char}
    (h : ∀ c s, p (c :: (s ++ t)) = (p (c :: s)).map fun r => (r.1, r.2 ++ t)) (s : List Char) :
    p.findAll (s ++ t) = p.findAll s ++ p.findAll t := by
  rw [findAll, pieces_append h, List.filterMap_append]
  rfl

/-- What is found is found at some place. -/
theorem exists_of_mem_findAll {p : Pattern α} {a : α} {s : List Char} (h : a ∈ p.findAll s) :
    ∃ v rest, v <:+ s ∧ p v = some (a, rest) := by
  suffices H : ∀ (s : List Char) (skip : Nat), .found a ∈ p.piecesFrom skip s →
      ∃ v rest, v <:+ s ∧ p v = some (a, rest) by
    obtain ⟨x, hx, he⟩ := List.mem_filterMap.1 h
    cases x with
    | other c => cases he
    | found b => cases he; exact H s 0 hx
  intro s
  induction s with
  | nil => intro skip hm; cases hm
  | cons c s ih =>
      have later : ∀ skip, .found a ∈ p.piecesFrom skip s →
          ∃ v rest, v <:+ c :: s ∧ p v = some (a, rest) := fun skip hm => by
        obtain ⟨v, rest, hv, hp⟩ := ih skip hm
        exact ⟨v, rest, hv.trans (List.suffix_cons c s), hp⟩
      intro skip hm
      unfold piecesFrom at hm
      split at hm
      · exact later _ hm
      · split at hm
        · next b rest hp =>
            rcases List.mem_cons.1 hm with he | hm
            · cases he
              exact ⟨c :: s, rest, List.suffix_rfl, hp⟩
            · exact later _ hm
        · rcases List.mem_cons.1 hm with he | hm
          · cases he
          · exact later _ hm

end Pattern

end Restyle.Css
