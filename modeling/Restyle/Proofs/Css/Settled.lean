import Restyle.Proofs.Css.Edit
import Restyle.Proofs.Css.QueryTree
import Restyle.Proofs.Css.Survey
import Restyle.Proofs.Text.Utf8

/-!
# Combining what is combined

A second run of the combiner is meant to change nothing.  But a first run takes blocks out of the
text around them and writes them behind it, so that headers can arise which were none before: from
two ends that come together, or from an open parenthesis that finds its end in a written header.

* A text is *respelled* when no key is found in it twice and the blocks that are found in it, laid
  out behind what stands outside them, spell the text again.
* It is *settled* when it ends with written groups, no block opens before the first of them, and the
  texts of the groups are trimmed, balanced and without blocks.

`combineQueries_apply_apply_iff`: a second run changes nothing exactly when the first has made a
respelled text, and with balanced conditions exactly when it has made a settled one.
-/

namespace Restyle.Css

/-! ### Written groups -/

namespace HeaderText

/-- The header without white space, as it is written. -/
def tighten (h : HeaderText) : HeaderText :=
  tight h.kind h.inner ⟨h.inner_ne_nil, h.inner_open⟩

/-- A header without blanks is its key. -/
theorem text_tighten (h : HeaderText) : h.tighten.text = '@' :: h.key := by
  simp [tighten, tight, text, key, query, Query.key]

theorem key_tighten (h : HeaderText) : h.tighten.key = h.key := rfl

end HeaderText

/-- A written group is a block and the line break behind it. -/
theorem Group.write_append {g : Group} {h : HeaderText} (hk : h.key = g.key) (t : List Char) :
    g.write ++ t = h.tighten.block ('\n' :: (g.content ++ ['\n'])) ++ '\n' :: t := by
  rw [h.tighten.block_append, h.text_tighten, hk]
  simp [Group.write]

/-- Groups are written as blocks with their content on lines of its own. -/
theorem flatMap_write_cons {g : Group} {h : HeaderText} (hk : h.key = g.key) (gs : List Group)
    (t : List Char) : (g :: gs).flatMap Group.write ++ t =
      h.tighten.block ('\n' :: (g.content ++ ['\n'])) ++ '\n' :: (gs.flatMap Group.write ++ t) := by
  rw [List.flatMap_cons, List.append_assoc, Group.write_append hk]

/-- White space ends before a written group. -/
theorem skipBlank_append_write (x : List Char) (g : Group) (gs : List Group) (t : List Char) :
    skipBlank (x ++ ((g :: gs).flatMap Group.write ++ t)) =
      skipBlank x ++ ((g :: gs).flatMap Group.write ++ t) :=
  skipBlank_append_of_not_blank (fun c hc => by cases hc; rfl) x

theorem skipBlank_break_write (gs : List Group) :
    skipBlank ('\n' :: gs.flatMap Group.write) = gs.flatMap Group.write := by
  cases gs with
  | nil => rfl
  | cons g gs =>
      have := skipBlank_append_write ['\n'] g gs []
      rwa [List.append_nil] at this

/-- Line ends make no difference to the balance. -/
theorem balanced_line {s : List Char} : Balanced ('\n' :: (s ++ ['\n'])) ↔ Balanced s := by
  rw [Balanced, depthAfter_cons_of_ne (by decide) (by decide), depthAfter_append_plain]
  · exact Iff.rfl
  · intro c hc
    rw [List.mem_singleton.1 hc]
    decide

theorem trim_line (s : List Char) : trim ('\n' :: (s ++ ['\n'])) = trim s := by
  have hblank : ∀ c ∈ ['\n'], isBlank c = true := fun c hc => by
    rw [List.mem_singleton.1 hc]; rfl
  rw [← List.singleton_append, trim_blank_append hblank, trim_append_blank hblank]

/-- What the text of a group is in a settled text. -/
structure Group.Flat (g : Group) : Prop where
  keyed : ∃ h : HeaderText, h.key = g.key
  trimmed : trim g.content = g.content
  balanced : Balanced g.content
  quiet : Quiet query? g.content []

/-- No key is found twice, and the blocks laid out spell the text again. -/
def Respelled (s : List Char) : Prop :=
  ((survey s).2.map Group.key).Nodup ∧ laidOut s = s

/-- The text ends with written groups, which are the blocks that are found in it. -/
def Settled (s : List Char) : Prop :=
  ∃ (rest : List Char) (gs : List Group), s = rest ++ gs.flatMap Group.write ∧
    Quiet query? rest (gs.flatMap Group.write) ∧ (gs.map Group.key).Nodup ∧ ∀ g ∈ gs, g.Flat

/-! ### A fixed text is respelled -/

/-- A text stays as it is if it is spelled as what it comes to. -/
theorem combined_eq_self_iff {s : List Char} : (combined s).1 = s ↔ Respelled s := by
  rw [combined_eq, ← collect_nil]
  constructor
  · intro h
    have hcount := congrArg (List.count '@') h
    rw [← count_laidOut rfl s, laidOut, List.count_append, List.count_append] at hcount
    have hes : collect [] (survey s).2 = (survey s).2 := by
      refine (collect_count [] _).2 ?_
      rw [List.flatMap_nil, List.count_nil]
      omega
    refine ⟨?_, ?_⟩
    · rw [← hes]
      exact nodup_keys_collect (show (([] : List Group).map Group.key).Nodup from List.nodup_nil) _
    · rwa [hes] at h
  · rintro ⟨hn, hs⟩
    rw [collect_of_nodup (by exact hn)]
    exact hs

/-! ### A settled text is respelled -/

/-- The first block of a settled text is the first group. -/
theorem survey_write {w : List Char} {g : Group} (hg : g.Flat) {gs : List Group}
    (hw : Quiet query? w ((g :: gs).flatMap Group.write)) :
    survey (w ++ (g :: gs).flatMap Group.write) =
      (w ++ (survey (gs.flatMap Group.write)).1, g :: (survey (gs.flatMap Group.write)).2) := by
  obtain ⟨h, hk⟩ := hg.keyed
  rw [List.flatMap_cons, Group.write_append hk] at hw ⊢
  rw [survey_block hw (balanced_line.2 hg.balanced), survey_of_quiet (quiet_line_iff.2 hg.quiet),
    skipBlank_break_write, trim_line, hg.trimmed, h.key_tighten, hk]
  rfl

/-- The survey of a settled text finds its groups. -/
theorem survey_of_settled {rest : List Char} {gs : List Group} (hg : ∀ g ∈ gs, g.Flat)
    (hq : Quiet query? rest (gs.flatMap Group.write)) :
    survey (rest ++ gs.flatMap Group.write) = (rest, gs) := by
  induction gs generalizing rest with
  | nil =>
      rw [List.flatMap_nil, List.append_nil]
      exact survey_of_quiet hq
  | cons g gs ih =>
      have hgs : survey ([] ++ gs.flatMap Group.write) = ([], gs) :=
        ih (fun g hm => hg g (List.mem_cons_of_mem _ hm)) trivial
      rw [List.nil_append] at hgs
      rw [survey_write (hg g List.mem_cons_self) hq, hgs, List.append_nil]

/-- A settled text is spelled as what it comes to. -/
theorem Settled.respelled {s : List Char} (h : Settled s) : Respelled s := by
  obtain ⟨rest, gs, rfl, hq, hn, hg⟩ := h
  rw [Respelled, laidOut, survey_of_settled hg hq]
  exact ⟨hn, rfl⟩

/-! ### A header before a written one -/

namespace HeaderText

theorem key_eq (h : HeaderText) : h.key = (h.kind.name ++ '(' :: h.inner) ++ [')'] := by
  simp [key, query, Query.key]

/-- A second sign in a header stands in its condition. -/
theorem sign_inside {h : HeaderText} {u w : List Char} (hu : u ≠ []) (he : h.text = u ++ '@' :: w) :
    ∃ i j, h.inner = i ++ '@' :: j ∧ w = j ++ ')' :: h.behind := by
  cases u with
  | nil => exact absurd rfl hu
  | cons d u =>
      have hl : '@' ∉ h.kind.name ++ (h.gap ++ ['(']) := by
        simp only [List.mem_append, not_or, List.mem_singleton]
        refine ⟨h.kind.at_not_mem_name, fun hm => ?_, by decide⟩
        cases h.gap_blank _ hm
      have hr : '@' ∉ ')' :: h.behind := by
        rw [List.mem_cons, not_or]
        refine ⟨by decide, fun hm => ?_⟩
        cases h.behind_blank _ hm
      have ht : h.kind.name ++ (h.gap ++ '(' :: (h.inner ++ ')' :: h.behind)) = u ++ '@' :: w :=
        (List.cons.inj he).2
      exact exists_between hl hr (by rw [← ht]; simp)

/-- A written header is read from any place inside it up to the same brace. -/
theorem key_inside {h : HeaderText} {j g a b : List Char} (hj : ')' ∉ j)
    (hg : ∀ c ∈ g, isBlank c = true) (he : h.key ++ '{' :: b = j ++ ')' :: (g ++ '{' :: a)) :
    j = h.kind.name ++ '(' :: h.inner ∧ a = b := by
  have hk : ')' ∉ h.kind.name ++ '(' :: h.inner := by
    rw [List.mem_append, List.mem_cons]
    rintro (hm | hm | hm)
    · exact h.kind.close_not_mem_name hm
    · cases hm
    · exact h.inner_open hm
  have hup : upTo? ')' (h.key ++ '{' :: b) = some (h.kind.name ++ '(' :: h.inner, '{' :: b) := by
    rw [h.key_eq, List.append_assoc]
    exact upTo?_append hk _
  rw [he, upTo?_append hj] at hup
  obtain ⟨hname, hb⟩ := Prod.mk.inj (Option.some.inj hup)
  refine ⟨hname, ?_⟩
  cases g with
  | nil => exact (List.cons.inj hb).2
  | cons c g =>
      obtain ⟨rfl, -⟩ := List.cons.inj hb
      cases hg _ List.mem_cons_self

/-- **Where a header ends that starts before a written one**: before it, or at its very brace.  Then
it has the written condition inside its own. -/
theorem ends_before_or_with {h h' : HeaderText} {u a b : List Char}
    (he : h.text ++ '{' :: a = u ++ '@' :: (h'.key ++ '{' :: b)) :
    (∃ v, u = h.text ++ '{' :: v ∧ a = v ++ '@' :: (h'.key ++ '{' :: b)) ∨
      a = b ∧ (u = [] ∨ h'.key.length < h.key.length) := by
  rcases List.append_eq_append_iff.1 he with ⟨_ | ⟨c, w⟩, hu, hw⟩ | ⟨_ | ⟨c, w⟩, ht, hw⟩
  · cases hw
  · obtain ⟨rfl, ha⟩ := List.cons.inj hw
    exact .inl ⟨w, hu, ha⟩
  · cases hw
  obtain ⟨rfl, (hk : h'.key ++ '{' :: b = w ++ '{' :: a)⟩ := List.cons.inj hw
  by_cases hu : u = []
  · -- both headers start at the same sign
    subst hu
    have hq : query? (h.text ++ '{' :: a) = some (h.query, a) :=
      query?_eq_some_iff.2 ⟨h, rfl, rfl⟩
    have hq' : query? (h.text ++ '{' :: a) = some (h'.tighten.query, b) :=
      query?_eq_some_iff.2 ⟨h'.tighten, rfl, by rw [he, h'.text_tighten]; rfl⟩
    rw [hq] at hq'
    exact .inr ⟨(Prod.mk.inj (Option.some.inj hq')).2, .inl rfl⟩
  · obtain ⟨i, j, hi, rfl⟩ := sign_inside hu ht
    rw [List.append_assoc, List.cons_append] at hk
    have hj : ')' ∉ j := fun hm => h.inner_open (by rw [hi]; simp [hm])
    obtain ⟨rfl, hab⟩ := key_inside hj h.behind_blank hk
    refine .inr ⟨hab, .inr ?_⟩
    rw [h.key_eq, h'.key_eq, hi]
    simp only [List.length_append, List.length_cons, List.length_nil]
    omega

end HeaderText

/-! ### Counting blocks -/

/-- What is known of a group that is found: it has a key, and its braces are balanced. -/
structure Group.Whole (g : Group) : Prop where
  keyed : ∃ h : HeaderText, h.key = g.key
  balanced_key : Balanced g.key
  balanced_content : Balanced g.content

/-- A whole group is balanced. -/
theorem Group.Whole.balanced_write {g : Group} (hg : g.Whole) : Balanced g.write := by
  obtain ⟨h, hk⟩ := hg.keyed
  have hline : Balanced ('\n' :: (g.content ++ ['\n'])) := balanced_line.2 hg.balanced_content
  have hblock : Balanced (h.tighten.block ('\n' :: (g.content ++ ['\n']))) :=
    HeaderText.balanced_block (by rw [h.key_tighten, hk]; exact hg.balanced_key) hline
  have := Group.write_append hk []
  rw [List.append_nil] at this
  rw [this]
  exact hblock.append rfl

/-- A query opens where a whole group is written. -/
theorem Group.Whole.opens_write {g : Group} (hg : g.Whole) (gs : List Group) (t : List Char) :
    Opens query? ((g :: gs).flatMap Group.write ++ t) := by
  obtain ⟨h, hk⟩ := hg.keyed
  exact opens_query_iff.2
    ⟨h.tighten, _, _, balanced_line.2 hg.balanced_content, flatMap_write_cons hk gs t⟩

/-- **The first block of a text that holds written groups**: it ends before them, it holds them, or
it is the first of them, perhaps with a longer header. -/
theorem firstBlock_cases {w body rest u v : List Char} {h : HeaderText} {g : Group}
    {gs : List Group} (hq : Quiet query? w (h.block body ++ rest)) (hb : Balanced body)
    (hg : ∀ g' ∈ g :: gs, g'.Whole)
    (hs : w ++ (h.block body ++ rest) = u ++ ((g :: gs).flatMap Group.write ++ v)) :
    (∃ x y, body = x ++ ((g :: gs).flatMap Group.write ++ y)) ∨
    (∃ x, rest = x ++ ((g :: gs).flatMap Group.write ++ v)) ∨
    (body = '\n' :: (g.content ++ ['\n']) ∧ rest = '\n' :: (gs.flatMap Group.write ++ v) ∧
      (u = w ∨ g.key.length < h.key.length)) := by
  have hwhole := hg g List.mem_cons_self
  obtain ⟨h', hk⟩ := hwhole.keyed
  have hline := balanced_line.2 hwhole.balanced_content
  have hwrite := flatMap_write_cons hk gs v
  obtain ⟨z, rfl, hz⟩ := hq.exists_of_opens hs (hwhole.opens_write gs v)
  have hz' := hz
  rw [hwrite, h.block_append, h'.tighten.block_append, h'.text_tighten, List.cons_append] at hz'
  rcases HeaderText.ends_before_or_with hz' with ⟨x, rfl, hx⟩ | ⟨hx, hlen⟩
  · have hbal : Balanced ((g :: gs).flatMap Group.write) :=
      balanced_flatMap fun g' hm => (hg g' hm).balanced_write
    rw [← List.cons_append, ← h'.text_tighten, ← h'.tighten.block_append, ← hwrite] at hx
    rcases hb.inside_or_behind hbal hx with ⟨y, hy⟩ | hy
    · exact .inl ⟨x, y, hy⟩
    · exact .inr (.inl hy)
  · have hbody := body?_of_balanced hb rest
    rw [hx, body?_of_balanced hline] at hbody
    obtain ⟨rfl, rfl⟩ := Prod.mk.inj (Option.some.inj hbody)
    refine .inr (.inr ⟨rfl, rfl, ?_⟩)
    rw [← hk]
    exact hlen.imp_left fun hz => by rw [hz, List.append_nil]

/-- **Written groups are found again**, or as many other blocks. -/
theorem length_le_length_survey {s u v : List Char} {gs : List Group} (hg : ∀ g ∈ gs, g.Whole)
    (hs : s = u ++ (gs.flatMap Group.write ++ v)) : gs.length ≤ (survey s).2.length := by
  induction s using survey_induction generalizing u v gs with
  | quiet s hq =>
      cases gs with
      | nil => exact Nat.zero_le _
      | cons g gs =>
          obtain ⟨z, -, hz⟩ := hq.exists_of_opens ((List.append_nil s).trans hs)
            ((hg g List.mem_cons_self).opens_write gs v)
          cases z <;> cases hz
  | block w h body rest hq hb ihb ihr =>
      cases gs with
      | nil => exact Nat.zero_le _
      | cons g gs =>
          rw [length_survey_block hq hb, List.length_cons]
          rcases firstBlock_cases hq hb hg hs with ⟨x, y, hx⟩ | ⟨x, hx⟩ | ⟨-, hx, -⟩
          · have := ihb hg hx
            rw [List.length_cons] at this
            omega
          · have := ihr hg (by rw [hx, skipBlank_append_write])
            rw [List.length_cons] at this
            omega
          · have hgs : ∀ g' ∈ gs, g'.Whole := fun g' hm => hg g' (List.mem_cons_of_mem g hm)
            cases gs with
            | nil => rw [List.length_nil]; omega
            | cons g' gs =>
                have := ihr hgs (by rw [hx, ← List.singleton_append, skipBlank_append_write])
                omega

/-! ### A respelled text is settled -/

/-- The groups that end a text are found in it as they are written, when just they are found and the
rest stands outside them. -/
theorem flat_of_survey_eq {rest : List Char} {gs : List Group} (hg : ∀ g ∈ gs, g.Whole)
    (ht : ∀ g ∈ gs, trim g.content = g.content)
    (hs : survey (rest ++ gs.flatMap Group.write) = (rest, gs)) :
    Quiet query? rest (gs.flatMap Group.write) ∧ ∀ g ∈ gs, g.Flat := by
  induction gs generalizing rest with
  | nil =>
      rw [List.flatMap_nil, List.append_nil] at hs
      exact ⟨quiet_of_survey (by rw [hs]), fun g hm => by cases hm⟩
  | cons g gs ih =>
      have hgs : ∀ g' ∈ gs, g'.Whole := fun g' hm => hg g' (List.mem_cons_of_mem g hm)
      rcases quiet_or_block (rest ++ (g :: gs).flatMap Group.write) with
        hq | ⟨w, h, body, after, hq, hb, he⟩
      · rw [survey_of_quiet hq] at hs
        cases congrArg Prod.snd hs
      have hlen : (survey (rest ++ (g :: gs).flatMap Group.write)).2.length = (g :: gs).length := by
        rw [hs]
      rw [he, length_survey_block hq hb] at hlen
      rw [he, survey_block hq hb] at hs
      obtain ⟨hrest, hfound⟩ := Prod.mk.inj hs
      obtain ⟨hkey, hfound⟩ := List.cons.inj hfound
      rw [← List.append_nil (List.flatMap _ _)] at he
      rcases firstBlock_cases hq hb hg he.symm with ⟨x, y, hx⟩ | ⟨x, hx⟩ | ⟨rfl, rfl, hw⟩
      · -- the groups would be found again, inside the first block or behind it
        have := length_le_length_survey hg hx
        omega
      · have := length_le_length_survey hg (show skipBlank after = _ by
          rw [hx, skipBlank_append_write])
        omega
      · obtain rfl : rest = w := hw.resolve_right (by rw [← hkey]; exact Nat.lt_irrefl _)
        rw [List.append_nil, skipBlank_break_write] at hrest hfound
        have hle : gs.length ≤ (survey (gs.flatMap Group.write)).2.length :=
          length_le_length_survey hgs (show _ = [] ++ (_ ++ []) by rw [List.append_nil]; rfl)
        have hinner : (survey ('\n' :: (g.content ++ ['\n']))).2 = [] := by
          have := congrArg List.length hfound
          rw [List.length_append] at this
          rw [← List.length_eq_zero_iff]
          omega
        rw [hinner, List.nil_append] at hfound
        have hsurvey : survey ([] ++ gs.flatMap Group.write) = ([], gs) :=
          Prod.ext (List.append_right_eq_self.1 hrest) hfound
        obtain ⟨-, hflat⟩ := ih hgs (fun g' hm => ht g' (List.mem_cons_of_mem g hm)) hsurvey
        rw [List.append_nil] at he
        refine ⟨by rw [List.append_cancel_left he]; simpa using hq, fun g' hm => ?_⟩
        rcases List.mem_cons.1 hm with rfl | hm
        · have hwhole := hg g' List.mem_cons_self
          exact ⟨hwhole.keyed, ht g' List.mem_cons_self, hwhole.balanced_content,
            quiet_line_iff.1 (quiet_of_survey hinner)⟩
        · exact hflat g' hm

/-- A text that is spelled as what it comes to is settled, if keys are balanced. -/
theorem Respelled.settled {s : List Char} (hs : Respelled s)
    (hk : ∀ g ∈ (survey s).2, Balanced g.key) : Settled s := by
  obtain ⟨hn, hl⟩ := hs
  have hwhole : ∀ g ∈ (survey s).2, g.Whole := fun g hm => by
    obtain ⟨h, body, -, hg, -⟩ := exists_of_mem_survey hm
    exact ⟨⟨h, by rw [hg]⟩, hk g hm, balanced_content hk hm⟩
  have htrim : ∀ g ∈ (survey s).2, trim g.content = g.content := fun g hm => by
    obtain ⟨h, body, -, rfl, -⟩ := exists_of_mem_survey hm
    exact trim_trim _
  have hagain : survey ((survey s).1 ++ (survey s).2.flatMap Group.write) = survey s :=
    congrArg survey hl
  obtain ⟨hq, hflat⟩ := flat_of_survey_eq hwhole htrim hagain
  exact ⟨_, _, hl.symm, hq, hn, hflat⟩

/-! ### The second run -/

/-- A document is combined as text. -/
theorem codePoints_combineQueries (doc : Bytes) :
    Utf8.codePoints (combineQueries.apply doc) = (combined (Utf8.codePoints doc)).1 :=
  combineQueries.codePoints_apply doc

/-- **When a second run changes nothing.**  The first run has to leave a respelled text.  When the
braces of the conditions in it are balanced, that is a settled one: no block opens but those which
the run has written, and none opens inside them. -/
theorem combineQueries_apply_apply_iff (doc : Bytes) :
    (combineQueries.apply (combineQueries.apply doc) = combineQueries.apply doc ↔
      Respelled (Utf8.codePoints (combineQueries.apply doc))) ∧
    ((∀ g ∈ (survey (Utf8.codePoints (combineQueries.apply doc))).2, Balanced g.key) →
      (combineQueries.apply (combineQueries.apply doc) = combineQueries.apply doc ↔
        Settled (Utf8.codePoints (combineQueries.apply doc)))) := by
  have hrespelled : combineQueries.apply (combineQueries.apply doc) = combineQueries.apply doc ↔
      Respelled (Utf8.codePoints (combineQueries.apply doc)) := by
    rw [← combined_eq_self_iff]
    constructor
    · intro h
      have hread := congrArg Utf8.codePoints h
      rwa [codePoints_combineQueries] at hread
    · intro h
      refine Edit.apply_of_run_eq h ?_
      rw [codePoints_combineQueries]
      rfl
  exact ⟨hrespelled, fun hk => hrespelled.trans ⟨fun h => h.settled hk, Settled.respelled⟩⟩

/-- The two groups that `nestedTree` is combined into. -/
def nestedGroups : List Group :=
  [⟨"media(a)".toList, "q {} r {}\nt {}".toList⟩, ⟨"container(b)".toList, []⟩]

theorem flat_nestedGroups : ∀ g ∈ nestedGroups, g.Flat := by
  intro g hg
  rcases List.mem_cons.1 hg with rfl | hg
  · exact ⟨⟨.tight .media ['a'], rfl⟩, by decide, by decide,
      (Stretch.plain "q {} r {}\nt {}".toList).quiet fun c hc => by cases hc⟩
  · obtain rfl := List.mem_singleton.1 hg
    exact ⟨⟨.tight .container ['b'], rfl⟩, rfl, rfl, trivial⟩

theorem codePoints_combineQueries_nestedTree :
    Utf8.codePoints (combineQueries.apply (Utf8.encode nestedTree.text)) =
      "p {}\ns {} u {}".toList ++ nestedGroups.flatMap Group.write := by
  rw [codePoints_combineQueries, Utf8.codePoints_encode, combined_eq,
    (QueryTree.survey_text closed_nestedTree).1]
  decide

theorem combineQueries_apply_apply_nestedTree :
    (∀ g ∈ (survey (Utf8.codePoints (combineQueries.apply (Utf8.encode nestedTree.text)))).2,
      Balanced g.key) ∧
    combineQueries.apply (combineQueries.apply (Utf8.encode nestedTree.text)) =
      combineQueries.apply (Utf8.encode nestedTree.text) := by
  have hread := codePoints_combineQueries_nestedTree
  have hq : Quiet query? "p {}\ns {} u {}".toList (nestedGroups.flatMap Group.write) :=
    (Stretch.plain "p {}\ns {} u {}".toList).quiet fun c hc => by cases hc; rfl
  have hkeys : ∀ g ∈ (survey (Utf8.codePoints
      (combineQueries.apply (Utf8.encode nestedTree.text)))).2, Balanced g.key := by
    rw [hread, survey_of_settled flat_nestedGroups hq]
    intro g hg
    rcases List.mem_cons.1 hg with rfl | hg
    · decide
    · obtain rfl := List.mem_singleton.1 hg
      decide
  refine ⟨hkeys, ((combineQueries_apply_apply_iff _).2 hkeys).2 ?_⟩
  exact ⟨_, _, hread, hq, by decide, flat_nestedGroups⟩

/-- A string that holds the start of a header, behind a block. -/
def openString : List Char :=
  "@media (b) \x7b p {} \x7d\n.x \x7b content: \"@media (\" \x7d".toList

/-- Behind `openString` the first run writes the end that its header has lacked, and the second run
takes the white space out of it. -/
theorem combineQueries_apply_apply_openString :
    Utf8.codePoints (combineQueries.apply (Utf8.encode openString)) =
      ".x \x7b content: \"@media (\" \x7d@media(b)\x7b\np {}\n\x7d\n".toList ∧
    Utf8.codePoints (combineQueries.apply (combineQueries.apply (Utf8.encode openString))) =
      ".x \x7b content: \"@media(\" \x7d@media(b)\x7b\np {}\n\x7d\n".toList ∧
    combineQueries.apply (combineQueries.apply (Utf8.encode openString)) ≠
      combineQueries.apply (Utf8.encode openString) := by
  have hfirst : Utf8.codePoints (combineQueries.apply (Utf8.encode openString)) =
      ".x \x7b content: \"@media (\" \x7d@media(b)\x7b\np {}\n\x7d\n".toList := by
    have hb : nextBlock? query? openString = some ⟨[], ⟨.media, "(b)".toList⟩, " p {} ".toList,
        "\n.x \x7b content: \"@media (\" \x7d".toList⟩ := rfl
    rw [codePoints_combineQueries, Utf8.codePoints_encode, combined_eq, survey_of_found hb]
    simp only
    rw [survey_of_none (show nextBlock? query? " p {} ".toList = none from rfl),
      survey_of_none (show nextBlock? query?
        (skipBlank "\n.x \x7b content: \"@media (\" \x7d".toList) = none from rfl)]
    decide
  have hsecond : Utf8.codePoints (combineQueries.apply (combineQueries.apply
      (Utf8.encode openString))) =
      ".x \x7b content: \"@media(\" \x7d@media(b)\x7b\np {}\n\x7d\n".toList := by
    have hb : nextBlock? query?
        ".x \x7b content: \"@media (\" \x7d@media(b)\x7b\np {}\n\x7d\n".toList =
      some ⟨".x \x7b content: \"".toList, ⟨.media, "(\" \x7d@media(b)".toList⟩,
        "\np {}\n".toList, "\n".toList⟩ := rfl
    rw [codePoints_combineQueries, hfirst, combined_eq, survey_of_found hb]
    simp only
    rw [survey_of_none (show nextBlock? query? "\np {}\n".toList = none from rfl),
      survey_of_none (show nextBlock? query? (skipBlank "\n".toList) = none from rfl)]
    decide
  refine ⟨hfirst, hsecond, fun h => ?_⟩
  rw [h, hfirst] at hsecond
  revert hsecond
  decide

end Restyle.Css
