import Restyle.Proofs.Yaml.Source

/-!
# Plain scalars read back

A text that may be written plain is read back from its line, whatever the next line is, as long as that
one is not indented further (`plain?_line`).  A key is read up to its colon (`plain?_colon`).
-/

namespace Restyle.Yaml

open Printer

namespace Folding

variable {f : Folding}

/-- Text with gaps in it, on one line. -/
def addPlain (f : Folding) (cs : List Char) : Folding :=
  cs.foldl (fun f c => if isGap c then f.addGap c else f.addChars [c]) f

/-- Plain characters are added as they are. -/
theorem joined_addPlain (hf : f.breaks = none) (cs : List Char) :
    (f.addPlain cs).breaks = none ∧ (f.addPlain cs).joined = cs.reverse ++ f.joined := by
  induction cs generalizing f with
  | nil => exact ⟨hf, rfl⟩
  | cons c cs ih =>
      rw [addPlain, List.foldl_cons, ← addPlain]
      split
      · have hgap : (f.addGap c).breaks = none := by rw [addGap_of_none hf]; exact hf
        obtain ⟨hnone, hjoined⟩ := ih hgap
        refine ⟨hnone, ?_⟩
        rw [hjoined, joined_of_none hgap, joined_of_none hf, addGap_of_none hf]
        simp
      · obtain ⟨hnone, hjoined⟩ := ih (f := f.addChars [c]) rfl
        refine ⟨hnone, ?_⟩
        rw [hjoined, joined_of_none (f := f.addChars [c]) rfl]
        simp [addChars]

/-- A text that does not end with a gap leaves none open. -/
theorem text_addPlain (hf : f.breaks = none) {cs : List Char} {c : Char} (hc : isGap c = false) :
    (f.addPlain (cs ++ [c])).text = c :: cs.reverse ++ f.joined := by
  have hlast : f.addPlain (cs ++ [c]) = (f.addPlain cs).addChars [c] := by
    simp [addPlain, hc]
  rw [hlast, addChars, (joined_addPlain hf cs).2]
  rfl

end Folding

/-- What is not cut at the beginning is not cut later. -/
theorem cutsLater_of_cutsPlain {s : List Char} (h : cutsPlain s = false) : cutsLater false s = false := by
  cases s with
  | nil => rfl
  | cons c t =>
      simp only [cutsPlain, Bool.or_eq_false_iff] at h
      obtain ⟨-, ⟨-, hmark⟩, hlater⟩ := h
      rw [cutsLater, hlater]
      by_cases hc : c = ':'
      · subst hc
        simpa using hmark
      · simp [hc]

theorem startsBlank_append {s tail : List Char} (hs : ∀ c ∈ s, endsLine c = false)
    (h : gapFollows s = false) : startsBlank (s ++ tail) = false := by
  cases s with
  | nil => cases h
  | cons c s =>
      change isGap c = false at h
      change (isGap c || isBreak c) = false
      rw [h, isBreak_eq_false (hs c List.mem_cons_self)]
      rfl

/-- **Inside a plain scalar**: text on one line is taken character by character. -/
theorem plainFrom_append {indent : Int} {f : Folding} (hf : f.breaks = none) {p : Pos} {cs tail : List Char}
    (hcuts : cutsLater f.inGap cs = false) (hcs : ∀ c ∈ cs, endsLine c = false)
    (hcolumn : (f.inGap = false ∧ ∀ c ∈ cs, isGap c = false) ∨ (indent ≤ p.column ∧ 0 < p.column)) :
    plainFrom false indent f p (cs ++ tail) =
      plainFrom false indent (f.addPlain cs) (p.along cs) tail := by
  induction cs generalizing f p with
  | nil => rfl
  | cons c cs ih =>
      have hrest : ∀ x ∈ cs, endsLine x = false := fun x hx => hcs x (List.mem_cons_of_mem c hx)
      have hbreak := isBreak_eq_false (hcs c List.mem_cons_self)
      have hnext : indent ≤ p.column ∧ 0 < p.column →
          indent ≤ (p.next c).column ∧ 0 < (p.next c).column := by
        rw [Pos.next_of_not_break hbreak]
        dsimp only
        omega
      rw [cutsLater, Bool.or_eq_false_iff, Bool.or_eq_false_iff] at hcuts
      obtain ⟨⟨hcolon, hhash⟩, hlater⟩ := hcuts
      rw [hcs c List.mem_cons_self, Bool.or_false] at hlater
      rw [List.cons_append, plainFrom, Folding.addPlain, List.foldl_cons, ← Folding.addPlain]
      -- a gap is kept apart; any other character must not end the scalar
      by_cases hgap : isGap c = true
      · have hnone : (f.addGap c).breaks = none := by rw [Folding.addGap_of_none hf]; exact hf
        have hin : (f.addGap c).inGap = true := by
          simp [Folding.inGap, Folding.addGap_of_none hf]
        rw [if_pos hgap, if_pos hgap, hf, if_neg (by simp)]
        refine ih hnone (by rwa [hin, ← hgap]) hrest (.inr (hnext ?_))
        exact hcolumn.resolve_left fun h => by simp [h.2 c List.mem_cons_self] at hgap
      · rw [Bool.not_eq_true] at hgap
        have hplain : endsPlain false (c :: (cs ++ tail)) = false := by
          by_cases hc : c = ':'
          · subst hc
            exact startsBlank_append hrest (by simpa using hcolon)
          · unfold endsPlain
            split
            · next h => exact absurd (List.cons.inj h).1 hc
            · rfl
            · next h => cases h
        have hgoes : (f.inGap && ((!false && decide ((p.column : Int) < indent))
            || (p.column == 0 && startsDocumentMark (c :: (cs ++ tail))) || c == '#')) = false := by
          rcases hcolumn with ⟨hin, -⟩ | ⟨hle, hpos⟩
          · rw [hin]
            rfl
          · rw [Bool.and_comm] at hhash
            simp only [Bool.and_eq_false_iff] at hhash ⊢
            rcases hhash with hin | hc
            · exact .inl hin
            · refine .inr ?_
              simp [hc, Int.not_lt.2 hle, Nat.ne_of_gt hpos]
        rw [hgap, hbreak, hgoes, hplain]
        refine ih (f := f.addChars [c]) rfl (by rwa [hgap] at hlater) hrest ?_
        exact hcolumn.imp (fun h => ⟨rfl, fun x hx => h.2 x (List.mem_cons_of_mem c hx)⟩) hnext

/-- At the end of its line a plain scalar is over if the next one is not indented further. -/
theorem plainFrom_lineEnd {indent : Int} {f : Folding} (hf : f.breaks = none) {p : Pos} {n : Nat}
    {body : List Char} (hn : (n : Int) < indent) (hbody : Rests body) :
    plainFrom false indent f p ('\n' :: (spaces n ++ body)) =
      some (f.text.reverse, ⟨(p.next '\n').along (spaces n), body⟩, true) := by
  -- by induction on the spaces that are left: they are less than the indentation
  have hspaces : ∀ {m : Nat} {g : Folding} {q : Pos}, g.breaks.isSome = true → q.column + m = n →
      plainFrom false indent g q (spaces m ++ body) =
        some (g.text.reverse, ⟨q.along (spaces m), body⟩, true) := by
    intro m
    induction m with
    | zero =>
        intro g q hg hq
        cases body with
        | nil =>
            change some _ = some _
            rw [hg]
            rfl
        | cons c body =>
            obtain ⟨hgap, hbreak, -⟩ := isRest_spec (hbody c rfl)
            have hin : g.inGap = true := by simp [Folding.inGap, hg]
            have hcol : decide ((q.column : Int) < indent) = true := by
              rw [decide_eq_true_eq]
              omega
            change plainFrom false indent g q (c :: body) = _
            rw [plainFrom, hgap, hbreak, hin, hcol]
            simp [hg, spaces]
    | succ m ih =>
        intro g q hg hq
        have hgap : g.addGap ' ' = g := by
          obtain ⟨b, hb⟩ := Option.isSome_iff_exists.1 hg
          simp [Folding.addGap, hb]
        change plainFrom false indent g q (' ' :: (spaces m ++ body)) = _
        rw [plainFrom]
        change plainFrom false indent (g.addGap ' ') (q.next ' ') (spaces m ++ body) = _
        rw [hgap]
        refine ih hg ?_
        rw [Pos.next_of_not_break (by decide)]
        dsimp only
        omega
  have hbreaks : f.addBreak '\n' = { f with gaps := [], breaks := some (['\n'], []) } := by
    simp [Folding.addBreak, hf]
  change plainFrom false indent (f.addBreak '\n') (p.next '\n') (spaces n ++ body) = _
  rw [hbreaks]
  refine hspaces rfl ?_
  rw [Pos.column_next_break (by decide), Nat.zero_add]

/-- What a text has to be like to be written plainly. -/
theorem allowsPlain_spec {s : List Char} (h : allowsPlain s = true) :
    edgeIs isSpace s = false ∧ (∀ c ∈ s, endsLine c = false) ∧ '\t' ∉ s ∧ hasSpecial s = false ∧
      cutsPlain s = false := by
  simpa [allowsPlain, and_assoc] using h

/-- **A plain text is read back** from its line. -/
theorem plain?_line {indent : Int} {p : Pos} {s : List Char} (hne : s ≠ []) (hs : allowsPlain s = true)
    (hcolumn : indent ≤ p.column ∧ 0 < p.column) {n : Nat} {body : List Char} (hn : (n : Int) < indent)
    (hbody : Rests body) :
    plain? false indent ⟨p, s ++ '\n' :: (spaces n ++ body)⟩ =
      some (s, ⟨((p.along s).next '\n').along (spaces n), body⟩, true) := by
  obtain ⟨hedge, hends, htab, -, hcuts⟩ := allowsPlain_spec hs
  change plainFrom false indent {} p (s ++ '\n' :: (spaces n ++ body)) = _
  rw [plainFrom_append (f := {}) rfl (cutsLater_of_cutsPlain hcuts) hends (.inr hcolumn),
    plainFrom_lineEnd (Folding.joined_addPlain rfl s).1 hn hbody]
  obtain ⟨s, c, rfl⟩ := (List.eq_nil_or_concat s).resolve_left hne
  rw [List.concat_eq_append] at *
  have hgap : isGap c = false := by
    simp only [edgeIs, List.getLast?_concat, Bool.or_eq_false_iff] at hedge
    have htab : c ≠ '\t' := fun h => htab (by simp [h])
    simpa [isGap, isSpace, htab] using hedge.2
  rw [Folding.text_addPlain rfl hgap]
  simp [Folding.joined]

theorem cutsLater_of_no_mark {s : List Char} (hs : ∀ c ∈ s, c ≠ ':' ∧ c ≠ '#') (afterBlank : Bool) :
    cutsLater afterBlank s = false := by
  induction s generalizing afterBlank with
  | nil => rfl
  | cons c s ih =>
      obtain ⟨hcolon, hhash⟩ := hs c List.mem_cons_self
      rw [cutsLater, ih fun x hx => hs x (List.mem_cons_of_mem c hx)]
      simp [hcolon, hhash]

/-- A word before a colon is read up to the colon. -/
theorem plain?_colon (indent : Int) (p : Pos) {s : List Char} (hne : s ≠ [])
    (hs : ∀ c ∈ s, isNameChar c = true) {rest : List Char} (hrest : startsBlank rest = true) :
    plain? false indent ⟨p, s ++ ':' :: rest⟩ = some (s, ⟨p.along s, ':' :: rest⟩, false) := by
  have other : ∀ c ∈ s, ∀ x : Char, isNameChar x = false → c ≠ x := by
    rintro c hc _ hx rfl
    rw [hs c hc] at hx
    cases hx
  have hgap : ∀ c ∈ s, isGap c = false := fun c hc => by
    simp [isGap, other c hc ' ' (by decide), other c hc '\t' (by decide)]
  have hends : ∀ c ∈ s, endsLine c = false := fun c hc => by
    simp [endsLine, isBreak, other c hc '\n' (by decide), other c hc '\r' (by decide),
      other c hc '\u2028' (by decide), other c hc '\u2029' (by decide), other c hc '\u0085' (by decide)]
  have hcuts := cutsLater_of_no_mark
    (fun c hc => ⟨other c hc ':' (by decide), other c hc '#' (by decide)⟩) false
  change plainFrom false indent {} p (s ++ ':' :: rest) = _
  rw [plainFrom_append (f := {}) rfl hcuts hends (.inl ⟨rfl, hgap⟩), plainFrom]
  have hnone := (Folding.joined_addPlain (f := {}) rfl s).1
  have hplain : endsPlain false (':' :: rest) = true := hrest
  rw [hplain, hnone]
  obtain ⟨s, c, rfl⟩ := (List.eq_nil_or_concat s).resolve_left hne
  rw [List.concat_eq_append] at *
  rw [Folding.text_addPlain rfl (hgap c (by simp))]
  simp [Folding.joined, isGap, isBreak]

end Restyle.Yaml
