import Restyle.Proofs.Css.Block
import Restyle.Proofs.Css.Groups
import Restyle.Proofs.Text.Blank

/-!
# The blocks of a text, at any depth

`survey s` reads a text once: what stands outside its blocks, and the blocks at any depth in the
order in which they open, each with its key and its own text.  The own text of a block is what stands
outside the blocks in its body.

* `survey_induction`: a property of texts holds when it holds of texts without a block, and of a text
  with a block when it holds of the first block's body and of what follows the block.
* `combined_eq`: the combined text is what stands outside the blocks, and the blocks grouped.
-/

namespace Restyle.Css

/-- The key of the query that the header states. -/
def HeaderText.key (h : HeaderText) : List Char :=
  h.query.key

/-- What stands outside the blocks of a text, and the blocks with their own texts. -/
def survey (s : List Char) : List Char × List Group :=
  match _h : nextBlock? query? s with
  | none => (s, [])
  | some b =>
    let inner := survey b.body
    let behind := survey (skipBlank b.after)
    (b.before ++ behind.1, ⟨b.header.key, trim inner.1⟩ :: (inner.2 ++ behind.2))
termination_by s.length
decreasing_by
  · have := length_nextBlock?_lt query?_shrinks _h
    omega
  · have := length_nextBlock?_lt query?_shrinks _h
    have := length_skipBlank_le b.after
    omega

/-! ### Reading block by block -/

/-- The next block is the one behind quiet text. -/
theorem nextBlock?_query_block {w body rest : List Char} {h : HeaderText}
    (hq : Quiet query? w (h.block body ++ rest)) (hb : Balanced body) :
    nextBlock? query? (w ++ (h.block body ++ rest)) = some ⟨w, h.query, body, rest⟩ := by
  refine nextBlock?_eq_some_iff.2 ⟨_, body ++ '}' :: rest, rfl, hq, ?_, ?_, body?_of_balanced hb rest⟩
  · simp [HeaderText.block]
  · rw [h.block_append]
    exact query?_eq_some_iff.2 ⟨h, rfl, rfl⟩

theorem survey_of_none {s : List Char} (h : nextBlock? query? s = none) : survey s = (s, []) := by
  rw [survey.eq_def]
  split
  · rfl
  · next b hb =>
      rw [h] at hb
      cases hb

/-- Nothing is found in quiet text. -/
theorem survey_of_quiet {s : List Char} (h : Quiet query? s []) : survey s = (s, []) :=
  survey_of_none (nextBlock?_eq_none_iff.2 h)

/-- The survey takes the next block, and goes on inside and behind it. -/
theorem survey_of_found {s : List Char} {b : Block Query} (h : nextBlock? query? s = some b) :
    survey s = (b.before ++ (survey (skipBlank b.after)).1,
      ⟨b.header.key, trim (survey b.body).1⟩ ::
        ((survey b.body).2 ++ (survey (skipBlank b.after)).2)) := by
  rw [survey.eq_def]
  split
  · next hn =>
      rw [h] at hn
      cases hn
  · next b' hb =>
      rw [h] at hb
      cases hb
      rfl

/-- **One block**: its entry, those inside it and those behind it. -/
theorem survey_block {w body rest : List Char} {h : HeaderText}
    (hq : Quiet query? w (h.block body ++ rest)) (hb : Balanced body) :
    survey (w ++ (h.block body ++ rest)) =
      (w ++ (survey (skipBlank rest)).1,
        ⟨h.key, trim (survey body).1⟩ :: ((survey body).2 ++ (survey (skipBlank rest)).2)) :=
  survey_of_found (nextBlock?_query_block hq hb)

/-- Each block is one entry. -/
theorem length_survey_block {w body rest : List Char} {h : HeaderText}
    (hq : Quiet query? w (h.block body ++ rest)) (hb : Balanced body) :
    (survey (w ++ (h.block body ++ rest))).2.length =
      1 + (survey body).2.length + (survey (skipBlank rest)).2.length := by
  simp only [survey_block hq hb, List.length_cons, List.length_append]
  omega

/-- A text has no block, or it has a first one. -/
theorem quiet_or_block (s : List Char) : Quiet query? s [] ∨
    ∃ (w : List Char) (h : HeaderText) (body rest : List Char),
      Quiet query? w (h.block body ++ rest) ∧ Balanced body ∧ s = w ++ (h.block body ++ rest) := by
  cases hs : nextBlock? query? s with
  | none => exact .inl (nextBlock?_eq_none_iff.1 hs)
  | some b =>
      obtain ⟨u, t, rfl, hq, -, hh, hb⟩ := nextBlock?_eq_some_iff.1 hs
      obtain ⟨h, -, rfl⟩ := query?_eq_some_iff.1 hh
      obtain ⟨rfl, hbal⟩ := body?_eq_some_iff.1 hb
      rw [← h.block_append] at hq ⊢
      exact .inr ⟨b.before, h, b.body, b.after, hq, hbal, rfl⟩

/-- Induction along the survey: a text is quiet, or a block behind quiet text. -/
theorem survey_induction {P : List Char → Prop}
    (quiet : ∀ s, Quiet query? s [] → P s)
    (block : ∀ (w : List Char) (h : HeaderText) (body rest : List Char),
      Quiet query? w (h.block body ++ rest) → Balanced body → P body → P (skipBlank rest) →
        P (w ++ (h.block body ++ rest)))
    (s : List Char) : P s := by
  rcases quiet_or_block s with hs | ⟨w, h, body, rest, hq, hb, hs⟩
  · exact quiet s hs
  · have hbody : body.length < s.length := by
      rw [hs]
      simp only [HeaderText.block, List.length_append, List.length_cons]
      omega
    have hrest : (skipBlank rest).length < s.length := by
      have := length_skipBlank_le rest
      rw [hs]
      simp only [HeaderText.block, List.length_append, List.length_cons]
      omega
    rw [hs]
    exact block w h body rest hq hb (survey_induction quiet block body)
      (survey_induction quiet block (skipBlank rest))
termination_by s.length

/-- Where nothing is found the text is quiet. -/
theorem quiet_of_survey {s : List Char} (h : (survey s).2 = []) : Quiet query? s [] := by
  rcases quiet_or_block s with hs | ⟨w, hd, body, rest, hq, hb, rfl⟩
  · exact hs
  · rw [survey_block hq hb] at h
    cases h

/-! ### Gathering -/

/-- **Gathering adds the blocks of the text**, at any depth, to the groups. -/
theorem gather_eq (s : List Char) (gs : List Group) :
    gather s gs = ((survey s).1, collect gs (survey s).2) := by
  induction s using survey_induction generalizing gs with
  | quiet s hs =>
      rw [survey_of_quiet hs, gather.eq_def]
      split
      · rfl
      · next b hb =>
          rw [nextBlock?_eq_none_iff.2 hs] at hb
          cases hb
  | block w h body rest hq hb ihb ihr =>
      rw [survey_block hq hb, gather.eq_def]
      split
      · next hn =>
          rw [nextBlock?_query_block hq hb] at hn
          cases hn
      · next b hs =>
          rw [nextBlock?_query_block hq hb] at hs
          cases hs
          simp only [ihb, ihr, addToGroup_addToGroup, joinLines_nil_left]
          rw [collect_cons, collect_append]
          exact congrArg (fun gs => (w ++ _, collect gs _)) (collect_collect _ (survey body).2)

/-- Combining is grouping the entries of the survey. -/
theorem combined_eq (s : List Char) :
    combined s = ((survey s).1 ++ (grouped (survey s).2).flatMap Group.write,
      grouped (survey s).2) := by
  rw [combined, gather_eq, collect_nil]

/-! ### Nothing is lost -/

/-- What stands outside the blocks, and then the blocks, one after another. -/
def laidOut (s : List Char) : List Char :=
  (survey s).1 ++ (survey s).2.flatMap Group.write

section Count

variable {c : Char}

/-- Skipping blanks loses nothing else. -/
theorem count_skipBlank (hc : isBlank c = false) (s : List Char) :
    (skipBlank s).count c = s.count c := by
  obtain ⟨u, hs, hu⟩ := exists_blank_append_skipBlank s
  conv => rhs; rw [hs]
  rw [List.count_append, count_of_blank hc hu, Nat.zero_add]

theorem HeaderText.count_text (hc : isBlank c = false) (h : HeaderText) :
    h.text.count c = ('@' :: h.key).count c := by
  simp only [text, key, query, Query.key, List.count_cons, List.count_append,
    count_of_blank hc h.gap_blank, count_of_blank hc h.behind_blank, List.count_nil]
  omega

/-- **Every character that is not white space is laid out as often as it stands in the text.** -/
theorem count_laidOut (hc : isBlank c = false) (s : List Char) :
    (laidOut s).count c = s.count c := by
  induction s using survey_induction with
  | quiet s hs => rw [laidOut, survey_of_quiet hs, List.flatMap_nil, List.append_nil]
  | block w h body rest hq hb ihb ihr =>
      rw [laidOut, List.count_append] at ihb ihr
      rw [count_skipBlank hc] at ihr
      rw [laidOut, survey_block hq hb]
      have hblock : (h.block body).count c =
          ('@' :: h.key).count c + ['{'].count c + body.count c + ['}'].count c := by
        simp only [HeaderText.block, List.count_append, h.count_text hc, List.count_cons,
          List.count_nil]
        omega
      simp only [List.flatMap_cons, List.flatMap_append, List.count_append, Group.count_write hc,
        count_trim hc, hblock]
      omega

end Count

/-! ### Braces -/

/-- The white space in a header holds no brace. -/
theorem HeaderText.depthAfter_text (h : HeaderText) (d : Nat) :
    depthAfter d h.text = depthAfter d h.key := by
  rw [text, key, query, Query.key, depthAfter_cons_of_ne (by decide) (by decide),
    depthAfter_plain_append h.kind.name_plain, depthAfter_plain_append h.kind.name_plain,
    depthAfter_plain_append (plain_of_blank h.gap_blank), List.cons_append,
    depthAfter_cons_of_ne (by decide) (by decide), depthAfter_cons_of_ne (by decide) (by decide),
    depthAfter_append_plain, depthAfter_append_plain]
  · intro c hc
    rw [List.mem_singleton.1 hc]
    decide
  · intro c hc
    rcases List.mem_cons.1 hc with rfl | hc
    · decide
    · exact plain_of_blank h.behind_blank c hc

theorem depthAfter_skipBlank (d : Nat) (s : List Char) :
    depthAfter d (skipBlank s) = depthAfter d s := by
  obtain ⟨u, hs, hu⟩ := exists_blank_append_skipBlank s
  conv => rhs; rw [hs]
  rw [depthAfter_plain_append (plain_of_blank hu)]

/-- A block is balanced if its key and its body are. -/
theorem HeaderText.balanced_block {h : HeaderText} (hk : Balanced h.key) {body : List Char}
    (hb : Balanced body) : Balanced (h.block body) :=
  Balanced.append ((h.depthAfter_text 0).trans hk) hb.braces

/-- Blocks with balanced conditions can be left out when braces are counted. -/
theorem depthAfter_survey {s : List Char} (hk : ∀ e ∈ (survey s).2, Balanced e.key) (d : Nat) :
    depthAfter d (survey s).1 = depthAfter d s := by
  induction s using survey_induction generalizing d with
  | quiet s hs => rw [survey_of_quiet hs]
  | block w h body rest hq hb ihb ihr =>
      rw [survey_block hq hb] at hk ⊢
      have hrest : ∀ e ∈ (survey (skipBlank rest)).2, Balanced e.key := fun e he =>
        hk e (List.mem_cons_of_mem _ (List.mem_append_right _ he))
      have hblock : Balanced (h.block body) :=
        HeaderText.balanced_block (hk _ List.mem_cons_self) hb
      rw [depthAfter_append, depthAfter_append]
      congr 1
      funext e
      rw [ihr hrest, depthAfter_append, hblock.depthAfter, depthAfter_skipBlank]
      rfl

/-- Trimming keeps the balance. -/
theorem Balanced.trim {s : List Char} (h : Balanced s) : Balanced (trim s) := by
  obtain ⟨u, v, hs, hu, hv⟩ := exists_trim s
  rwa [hs, Balanced, depthAfter_plain_append (plain_of_blank hu),
    depthAfter_append_plain (plain_of_blank hv)] at h

/-- **What a block of a text is**: a header and a balanced body, whose blocks are blocks of the text
too. -/
theorem exists_of_mem_survey {s : List Char} {e : Group} (he : e ∈ (survey s).2) :
    ∃ (h : HeaderText) (body : List Char), Balanced body ∧
      e = ⟨h.key, Restyle.trim (survey body).1⟩ ∧ ∀ e' ∈ (survey body).2, e' ∈ (survey s).2 := by
  induction s using survey_induction with
  | quiet s hs => rw [survey_of_quiet hs] at he; cases he
  | block w h body rest hq hb ihb ihr =>
      rw [survey_block hq hb] at he ⊢
      rcases List.mem_cons.1 he with rfl | he
      · exact ⟨h, body, hb, rfl, fun e' h' => List.mem_cons_of_mem _ (List.mem_append_left _ h')⟩
      rcases List.mem_append.1 he with he | he
      · obtain ⟨h', body', hb', rfl, hsub⟩ := ihb he
        exact ⟨h', body', hb', rfl, fun e' h' =>
          List.mem_cons_of_mem _ (List.mem_append_left _ (hsub e' h'))⟩
      · obtain ⟨h', body', hb', rfl, hsub⟩ := ihr he
        exact ⟨h', body', hb', rfl, fun e' h' =>
          List.mem_cons_of_mem _ (List.mem_append_right _ (hsub e' h'))⟩

/-- With balanced conditions the own text of a block is balanced. -/
theorem balanced_content {s : List Char} (hk : ∀ e ∈ (survey s).2, Balanced e.key) {e : Group}
    (he : e ∈ (survey s).2) : Balanced e.content := by
  obtain ⟨h, body, hb, rfl, hsub⟩ := exists_of_mem_survey he
  exact Balanced.trim ((depthAfter_survey (fun e' h' => hk e' (hsub e' h')) 0).trans hb)

end Restyle.Css
