import Mathlib.Data.List.Infix
import Restyle.Proofs.Css.Edit
import Restyle.Proofs.Css.Survey

/-!
# What combining keeps

Combining moves text: what stands outside the blocks comes first, the own texts of the blocks are
trimmed and go to the groups of their keys.  A header whose key was met before is not written again,
and neither are its braces; all else is written once.

* `InHeader c s`: the character stands in a header, read at any place of the text.
* `exists_header_of_mem_survey`: the key of every block, at any depth, is read off a header that
  stands in the whole text.

`count_combineQueries`: a character that is neither white space nor a closing brace, and stands in no
header, is there as often after combining as before, however the braces of the document stand.
-/

namespace Restyle.Css

/-- The character stands in what is read as the header of a query at some place of the text. -/
def InHeader (c : Char) (s : List Char) : Prop :=
  ∃ v ∈ s.tails, ∃ r ∈ query? v, c ∈ v.take (v.length - r.2.length)

instance (c : Char) (s : List Char) : Decidable (InHeader c s) :=
  inferInstanceAs (Decidable (∃ v ∈ s.tails, _))

/-- A header that is written before a brace is read there, and the brace with it. -/
theorem inHeader_of_written {c : Char} {s : List Char} {h : HeaderText}
    (hs : h.text ++ ['{'] <:+: s) (hc : c ∈ h.text ++ ['{']) : InHeader c s := by
  obtain ⟨u, t, rfl⟩ := hs
  have hq : query? (h.text ++ '{' :: t) = some (h.query, t) := query?_eq_some_iff.2 ⟨h, rfl, rfl⟩
  refine ⟨h.text ++ '{' :: t, ?_, (h.query, t), hq, ?_⟩
  · rw [List.mem_tails]
    exact ⟨u, by simp⟩
  · rw [List.append_cons, List.length_append, Nat.add_sub_cancel, List.take_left]
    exact hc

/-! ### The headers of the blocks -/

/-- **Every block has its header in the whole text**, also a block inside another. -/
theorem exists_header_of_mem_survey {s : List Char} {e : Group} (he : e ∈ (survey s).2) :
    ∃ h : HeaderText, h.key = e.key ∧ h.text ++ ['{'] <:+: s := by
  induction s using survey_induction with
  | quiet s hs => rw [survey_of_quiet hs] at he; cases he
  | block w h body rest hq hb ihb ihr =>
      have hbody : body <:+: w ++ (h.block body ++ rest) :=
        ⟨w ++ (h.text ++ ['{']), '}' :: rest, by simp [HeaderText.block]⟩
      have hrest : skipBlank rest <:+: w ++ (h.block body ++ rest) :=
        (((List.dropWhile_suffix _).trans (List.suffix_append _ _)).trans
          (List.suffix_append _ _)).isInfix
      rw [survey_block hq hb] at he
      rcases List.mem_cons.1 he with rfl | he
      · exact ⟨h, rfl, w, body ++ '}' :: rest, by simp [HeaderText.block]⟩
      rcases List.mem_append.1 he with he | he
      · obtain ⟨h', hk, hs⟩ := ihb he
        exact ⟨h', hk, hs.trans hbody⟩
      · obtain ⟨h', hk, hs⟩ := ihr he
        exact ⟨h', hk, hs.trans hrest⟩

/-! ### Counting -/

section Count

variable {c : Char}

/-- What a written group adds to its content. -/
def Group.frame (g : Group) : List Char :=
  '@' :: g.key ++ ['{', '}']

/-- A character that is not in its frame is in a group as often as in its content. -/
theorem Group.count_write_of_frame (hc : isBlank c = false) {g : Group} (hg : c ∉ g.frame) :
    g.write.count c = g.content.count c := by
  have hzero : g.frame.count c = 0 := List.count_eq_zero.2 hg
  rw [frame, List.count_append, ← List.singleton_append (l := ['}']), List.count_append] at hzero
  rw [Group.count_write hc]
  omega

/-- **Grouping keeps every character that stands in no frame**: one key or many, each text goes to
a group whole. -/
theorem count_collect_of_frame (hc : isBlank c = false) (gs : List Group) {es : List Group}
    (he : ∀ e ∈ es, c ∉ e.frame) :
    ((collect gs es).flatMap Group.write).count c =
      (gs.flatMap Group.write).count c + (es.flatMap Group.write).count c := by
  induction es generalizing gs with
  | nil => rfl
  | cons e es ih =>
      have hwrite := Group.count_write_of_frame hc (he e List.mem_cons_self)
      have hadd := count_addToGroup hc e.key e.content gs
      rw [collect_cons, ih _ fun x hx => he x (List.mem_cons_of_mem e hx), hadd, List.flatMap_cons,
        List.count_append]
      split
      · omega
      · exact Nat.add_assoc _ _ _

/-- What stands in no header stands in no frame. -/
theorem not_mem_frame_of_mem_survey {s : List Char} (hclose : c ≠ '}') (hh : ¬ InHeader c s)
    {e : Group} (he : e ∈ (survey s).2) : c ∉ e.frame := by
  obtain ⟨h, hk, hs⟩ := exists_header_of_mem_survey he
  have hfree : c ∉ h.text ++ ['{'] := fun hm => hh (inHeader_of_written hs hm)
  rw [List.mem_append, not_or] at hfree
  -- the key is the header without its white space
  have hkey : c ∉ '@' :: h.key := by
    simp only [HeaderText.text, HeaderText.key, HeaderText.query, Query.key, List.mem_cons,
      List.mem_append] at hfree ⊢
    tauto
  rw [Group.frame, ← hk, List.mem_append, not_or]
  refine ⟨hkey, ?_⟩
  rw [List.mem_cons, List.mem_singleton, not_or]
  exact ⟨fun h => hfree.2 (List.mem_singleton.2 h), hclose⟩

end Count

/-- **Combining loses and repeats nothing** but headers, closing braces and white space, whether or
not the braces of the document are balanced. -/
theorem count_combineQueries {c : Char} (hblank : isBlank c = false) (hclose : c ≠ '}') {doc : Bytes}
    (hheader : ¬ InHeader c (Utf8.codePoints doc)) :
    (Utf8.codePoints (combineQueries.apply doc)).count c = (Utf8.codePoints doc).count c := by
  have hcollect := count_collect_of_frame hblank [] fun e he =>
    not_mem_frame_of_mem_survey hclose hheader he
  calc (Utf8.codePoints (combineQueries.apply doc)).count c
      = (combined (Utf8.codePoints doc)).1.count c := by
        rw [combineQueries.codePoints_apply]
        rfl
    _ = (laidOut (Utf8.codePoints doc)).count c := by
        rw [combined_eq, ← collect_nil, List.count_append, hcollect, List.flatMap_nil,
          List.count_nil, Nat.zero_add, laidOut, List.count_append]
    _ = (Utf8.codePoints doc).count c := count_laidOut hblank _

/-- A brace that closes nothing, a block twice, one of them inside another, and a header that is
never closed. -/
def brokenSheet : List Char :=
  ("x \x7d @media (a) \x7b x @container (b) \x7b x \x7d x \x7d x " ++
    "@media (a) \x7bx\x7d @media (c) \x7b x").toList

theorem count_combineQueries_brokenSheet :
    isBlank 'x' = false ∧ 'x' ≠ '}' ∧ ¬ InHeader 'x' (Utf8.codePoints (Utf8.encode brokenSheet)) ∧
      (Utf8.codePoints (combineQueries.apply (Utf8.encode brokenSheet))).count 'x' = 7 := by
  have hheader : ¬ InHeader 'x' (Utf8.codePoints (Utf8.encode brokenSheet)) := by
    rw [Utf8.codePoints_encode]
    decide
  refine ⟨rfl, by decide, hheader, ?_⟩
  rw [count_combineQueries rfl (by decide) hheader, Utf8.codePoints_encode]
  decide

end Restyle.Css
