import Restyle.Proofs.Css.Block
import Restyle.Proofs.Css.Edit

/-!
# A text without its queries

A `BlockRow` is a text taken apart at query blocks: gaps, and between any two of them a block.  It is
*exact* when no block opens in a gap.  Every text is the text of an exact row (`exists_exact`), and
removal leaves the gaps of it (`withoutQueries_text`).

* `removeQueries_apply_row`: where no gap names a query, the gaps are what is left.
* `removeQueries_balanced_iff`: what is left of a balanced text has as many braces open as closing
  ones stood in the headers, so it is balanced exactly when none did.
* `removeQueries_apply_apply_iff`: a second run finds something exactly when the gaps on the two
  sides of a removed block spell a query together.

The last two rest on one count: a block closes the braces of its header and no others
(`AnyBlock.depthAfter_text`), so what is left never has fewer of them open than the text had
(`BlockRow.depthAfter_residue`).
-/

namespace Restyle.Css

/-! ### Blocks -/

/-- A query block as removal reads it. -/
@[ext] structure AnyBlock where
  kind : QueryKind
  /-- The text between the name and the brace. -/
  lead : List Char
  body : List Char
  lead_ne_nil : lead ≠ []
  lead_open : '{' ∉ lead
  balanced : Balanced body

namespace AnyBlock

def text (b : AnyBlock) : List Char :=
  '@' :: (b.kind.name ++ (b.lead ++ '{' :: (b.body ++ ['}'])))

theorem text_append (b : AnyBlock) (s : List Char) :
    b.text ++ s = '@' :: (b.kind.name ++ (b.lead ++ '{' :: (b.body ++ '}' :: s))) := by
  simp [text]

end AnyBlock

/-- A header is a kind and something up to the brace. -/
theorem anyHeader?_eq_some_iff {s t : List Char} {k : QueryKind} :
    anyHeader? s = some (k, t) ↔
      ∃ lead, lead ≠ [] ∧ '{' ∉ lead ∧ s = '@' :: (k.name ++ (lead ++ '{' :: t)) := by
  constructor
  · intro h
    unfold anyHeader? at h
    split at h
    · cases h
    · next kind u hk =>
        split at h
        · next c cs rest hu =>
            cases h
            obtain ⟨rfl, ho⟩ := upTo?_eq_some_iff.1 hu
            exact ⟨c :: cs, List.cons_ne_nil c cs, ho, queryKind?_eq_some_iff.1 hk⟩
        · cases h
  · rintro ⟨lead, hne, ho, rfl⟩
    obtain ⟨c, cs, rfl⟩ := List.exists_cons_of_ne_nil hne
    have hk := queryKind?_eq_some_iff.2 (rfl : '@' :: (k.name ++ (c :: cs ++ '{' :: t)) = _)
    simp only [anyHeader?, hk, upTo?_append ho]

/-- A block opens where one is written. -/
theorem opens_any_iff {s : List Char} :
    Opens anyHeader? s ↔ ∃ (b : AnyBlock) (rest : List Char), s = b.text ++ rest := by
  constructor
  · rintro ⟨k, t, hk, hb⟩
    obtain ⟨⟨body, rest⟩, hb⟩ := Option.isSome_iff_exists.1 hb
    obtain ⟨lead, hne, ho, rfl⟩ := anyHeader?_eq_some_iff.1 hk
    obtain ⟨rfl, hbal⟩ := body?_eq_some_iff.1 hb
    exact ⟨⟨k, lead, body, hne, ho, hbal⟩, rest,
      (AnyBlock.text_append ⟨k, lead, body, hne, ho, hbal⟩ rest).symm⟩
  · rintro ⟨b, rest, rfl⟩
    refine ⟨b.kind, b.body ++ '}' :: rest, ?_, by rw [body?_of_balanced b.balanced]; rfl⟩
    exact anyHeader?_eq_some_iff.2 ⟨b.lead, b.lead_ne_nil, b.lead_open, b.text_append rest⟩

/-! ### Rows of blocks -/

/-- A text taken apart at blocks. -/
inductive BlockRow where
  | last (gap : List Char)
  | block (gap : List Char) (b : AnyBlock) (rest : BlockRow)

namespace BlockRow

def text : BlockRow → List Char
  | last gap => gap
  | block gap b rest => gap ++ (b.text ++ rest.text)

/-- What is left without the blocks. -/
def residue : BlockRow → List Char
  | last gap => gap
  | block gap _ rest => gap ++ rest.residue

def gaps : BlockRow → List (List Char)
  | last gap => [gap]
  | block gap _ rest => gap :: rest.gaps

def blocks : BlockRow → List AnyBlock
  | last _ => []
  | block _ b rest => b :: rest.blocks

/-- No block opens in a gap. -/
def Exact : BlockRow → Prop
  | last gap => Quiet anyHeader? gap []
  | block gap b rest => Quiet anyHeader? gap (b.text ++ rest.text) ∧ rest.Exact

/-- **The first block of an exact row is the first of its text.** -/
theorem nextBlock?_text {gap : List Char} {b : AnyBlock} {rest : BlockRow}
    (h : Quiet anyHeader? gap (b.text ++ rest.text)) :
    nextBlock? anyHeader? (block gap b rest).text = some ⟨gap, b.kind, b.body, rest.text⟩ := by
  refine nextBlock?_eq_some_iff.2
    ⟨b.text ++ rest.text, b.body ++ '}' :: rest.text, rfl, h, by simp [AnyBlock.text], ?_, ?_⟩
  · exact anyHeader?_eq_some_iff.2 ⟨b.lead, b.lead_ne_nil, b.lead_open, b.text_append _⟩
  · exact body?_of_balanced b.balanced _

/-- **Removal leaves the gaps.** -/
theorem withoutQueries_text {r : BlockRow} (h : r.Exact) :
    withoutQueries r.text = (r.residue, r.blocks.length) := by
  induction r with
  | last gap =>
      rw [withoutQueries]
      split
      · rfl
      · next b hb =>
          rw [text, nextBlock?_eq_none_iff.2 h] at hb
          cases hb
  | block gap b rest ih =>
      rw [withoutQueries]
      split
      · next hb =>
          rw [nextBlock?_text h.1] at hb
          cases hb
      · next b' hb =>
          rw [nextBlock?_text h.1] at hb
          cases hb
          rw [ih h.2]
          rfl

/-- **Every text is taken apart at its blocks.** -/
theorem exists_exact (s : List Char) : ∃ r : BlockRow, r.text = s ∧ r.Exact := by
  induction hn : s.length using Nat.strong_induction_on generalizing s with
  | _ n ih =>
      cases hb : nextBlock? anyHeader? s with
      | none => exact ⟨last s, rfl, nextBlock?_eq_none_iff.1 hb⟩
      | some b =>
          have hlt := length_nextBlock?_lt anyHeader?_shrinks hb
          obtain ⟨u, t, rfl, hq, -, hh, ht⟩ := nextBlock?_eq_some_iff.1 hb
          obtain ⟨lead, hne, ho, rfl⟩ := anyHeader?_eq_some_iff.1 hh
          obtain ⟨rfl, hbal⟩ := body?_eq_some_iff.1 ht
          obtain ⟨rest, hrest, hexact⟩ := ih b.after.length (by omega) b.after rfl
          have htext := AnyBlock.text_append ⟨b.header, lead, b.body, hne, ho, hbal⟩ rest.text
          rw [hrest] at htext
          refine ⟨block b.before ⟨b.header, lead, b.body, hne, ho, hbal⟩ rest, ?_, ?_, hexact⟩
          · rw [text, hrest, htext]
          · rw [hrest, htext]
            exact hq

/-- **A text is taken apart in one way only.** -/
theorem Exact.unique {r r' : BlockRow} (h : r.Exact) (h' : r'.Exact) (he : r.text = r'.text) :
    r = r' := by
  induction r generalizing r' with
  | last gap =>
      cases r' with
      | last gap' => exact congrArg last he
      | block gap' b' rest' =>
          have := nextBlock?_text h'.1
          rw [← he, text, nextBlock?_eq_none_iff.2 h] at this
          cases this
  | block gap b rest ih =>
      have hb := nextBlock?_text h.1
      cases r' with
      | last gap' =>
          rw [he, text, nextBlock?_eq_none_iff.2 h'] at hb
          cases hb
      | block gap' b' rest' =>
          rw [he, nextBlock?_text h'.1] at hb
          obtain ⟨rfl, hkind, hbody, hrest⟩ := Block.mk.inj (Option.some.inj hb)
          have htext : b.text ++ rest.text = b'.text ++ rest'.text := List.append_cancel_left he
          rw [b.text_append, b'.text_append, hkind, hbody, hrest] at htext
          have hlead := List.append_cancel_right
            (List.append_cancel_left (List.cons.inj htext).2)
          rw [AnyBlock.ext hkind.symm hlead hbody.symm, ih h.2 h'.2 hrest.symm]

/-- Every block takes something with it. -/
theorem length_residue_le (r : BlockRow) : r.residue.length + r.blocks.length ≤ r.text.length := by
  induction r with
  | last gap => exact Nat.le_refl _
  | block gap b rest ih =>
      have hb : 0 < b.text.length := by simp [AnyBlock.text]
      simp only [residue, blocks, text, List.length_append, List.length_cons]
      omega

theorem residue_of_blocks_eq_nil {r : BlockRow} (h : r.blocks = []) : r.residue = r.text := by
  cases r with
  | last gap => rfl
  | block gap b rest => cases h

/-! ### From texts to documents -/

/-- **What removal makes of a document.**  Nothing is written when there is no block. -/
theorem removeQueries_apply {r : BlockRow} (h : r.Exact) {doc : Bytes}
    (hdoc : Utf8.codePoints doc = r.text) :
    removeQueries.apply doc = if r.blocks = [] then doc else Utf8.encode r.residue := by
  rw [Edit.apply, hdoc, removeQueries, withoutQueries_text h]
  cases r.blocks <;> rfl

/-- **What is left of a document** is what its row has between the blocks. -/
theorem codePoints_removeQueries {r : BlockRow} (h : r.Exact) {doc : Bytes}
    (hdoc : Utf8.codePoints doc = r.text) :
    Utf8.codePoints (removeQueries.apply doc) = r.residue := by
  rw [removeQueries_apply h hdoc]
  split
  · next hb => rw [hdoc, residue_of_blocks_eq_nil hb]
  · exact Utf8.codePoints_encode r.residue

end BlockRow

/-! ### Gaps that name no query -/

theorem BlockRow.exact_of_unnamed {r : BlockRow} (h : ∀ gap ∈ r.gaps, Unnamed gap) : r.Exact := by
  have named : ∀ {s : List Char} {r : QueryKind × List Char}, anyHeader? s = some r →
      ∃ (k : QueryKind) (t : List Char), s = '@' :: (k.name ++ t) := fun {s r} hs => by
    obtain ⟨lead, -, -, he⟩ := anyHeader?_eq_some_iff.1 (show anyHeader? s = some (r.1, r.2) from hs)
    exact ⟨r.1, _, he⟩
  induction r with
  | last gap => exact (h gap List.mem_cons_self).quiet named fun c hc => by cases hc
  | block gap b rest ih =>
      refine ⟨(h gap List.mem_cons_self).quiet named fun c hc => ?_,
        ih fun g hg => h g (List.mem_cons_of_mem gap hg)⟩
      exact (Option.some.inj hc).symm

/-- **Removal takes the query blocks and nothing else.**  The blocks may stand one behind the other
or inside rules, their bodies may hold anything whose braces are balanced, and the text around them
need not be balanced. -/
theorem removeQueries_apply_row {r : BlockRow} (hgaps : ∀ gap ∈ r.gaps, Unnamed gap) {doc : Bytes}
    (hdoc : Utf8.codePoints doc = r.text) :
    Utf8.codePoints (removeQueries.apply doc) = r.residue ∧
      removeQueries.apply doc = if r.blocks = [] then doc else Utf8.encode r.residue :=
  have hexact := BlockRow.exact_of_unnamed hgaps
  ⟨BlockRow.codePoints_removeQueries hexact hdoc, BlockRow.removeQueries_apply hexact hdoc⟩

/-- A block in a rule that is left open, one that holds blocks and strings, one right behind it, and
a brace that closes nothing. -/
def looseRow : BlockRow :=
  .block "p \x7b @medi ".toList
    ⟨.media, " (a) \x7d, b ".toList, "q {} @media x\x7b@container y{}\x7d".toList,
      by decide, by decide, by decide⟩
    (.block [] ⟨.container, "-z".toList, "r: \"@media\"".toList, by decide, by decide, by decide⟩
      (.last "a {} \x7d \x7d".toList))

theorem removeQueries_apply_looseRow :
    (∀ gap ∈ looseRow.gaps, Unnamed gap) ∧
      Utf8.codePoints (Utf8.encode looseRow.text) = looseRow.text ∧
      removeQueries.apply (Utf8.encode looseRow.text) =
        Utf8.encode "p \x7b @medi a {} \x7d \x7d".toList := by
  have hgaps : ∀ gap ∈ looseRow.gaps, Unnamed gap := by decide
  have hread := Utf8.codePoints_encode looseRow.text
  refine ⟨hgaps, hread, ?_⟩
  rw [(removeQueries_apply_row hgaps hread).2, if_neg (by simp [looseRow, BlockRow.blocks])]
  exact congrArg Utf8.encode (by decide)

/-! ### Braces -/

/-- A text that opens no brace closes as many as it holds. -/
theorem depthAfter_of_no_open {s : List Char} (h : '{' ∉ s) {d e : Nat}
    (hd : depthAfter d s = some e) : d = e + s.count '}' := by
  induction s generalizing d with
  | nil => cases hd; rfl
  | cons c s ih =>
      rw [List.mem_cons, not_or] at h
      by_cases hc : c = '}'
      · subst hc
        cases d with
        | zero => cases hd
        | succ d =>
            have := ih h.2 hd
            rw [List.count_cons_self]
            omega
      · rw [depthAfter_cons_of_ne (Ne.symm h.1) hc] at hd
        rw [List.count_cons_of_ne hc]
        exact ih h.2 hd

/-- **A block closes the braces of its header** and no others. -/
theorem AnyBlock.depthAfter_text (b : AnyBlock) {d e : Nat} (h : depthAfter d b.text = some e) :
    d = e + b.lead.count '}' := by
  have htext : b.text = ('@' :: b.kind.name) ++ (b.lead ++ '{' :: (b.body ++ ['}'])) := rfl
  have hname : ∀ c ∈ '@' :: b.kind.name, c ≠ '{' ∧ c ≠ '}' := by
    intro c hc
    rcases List.mem_cons.1 hc with rfl | hc
    · decide
    · exact b.kind.name_plain c hc
  rw [htext, depthAfter_plain_append hname, depthAfter_append] at h
  obtain ⟨x, hx, hbody⟩ := Option.bind_eq_some_iff.1 h
  rw [b.balanced.braces.depthAfter] at hbody
  cases hbody
  exact depthAfter_of_no_open b.lead_open hx

namespace BlockRow

/-- The number of closing braces in the headers. -/
def strays : BlockRow → Nat
  | last _ => 0
  | block _ b rest => b.lead.count '}' + rest.strays

/-- **The braces that the headers closed stay open.** -/
theorem depthAfter_residue {r : BlockRow} {d e : Nat} (h : depthAfter d r.text = some e) :
    depthAfter d r.residue = some (e + r.strays) := by
  induction r generalizing d with
  | last gap => exact h
  | block gap b rest ih =>
      rw [text, depthAfter_append] at h
      obtain ⟨x, hgap, h⟩ := Option.bind_eq_some_iff.1 h
      rw [depthAfter_append] at h
      obtain ⟨y, hb, hrest⟩ := Option.bind_eq_some_iff.1 h
      have hstrays : e + rest.strays + b.lead.count '}' = e + (block gap b rest).strays := by
        rw [strays]
        omega
      rw [residue, depthAfter_append, hgap, Option.bind_some, b.depthAfter_text hb, ← hstrays]
      exact depthAfter_add (ih hrest) _

/-- Nothing strays if no header holds a closing brace. -/
theorem strays_eq_zero_iff {r : BlockRow} : r.strays = 0 ↔ ∀ b ∈ r.blocks, '}' ∉ b.lead := by
  induction r with
  | last gap => simp [strays, blocks]
  | block gap b rest ih =>
      rw [strays, Nat.add_eq_zero_iff, List.count_eq_zero, ih, blocks, List.forall_mem_cons]

end BlockRow

/-- **When removal keeps braces balanced.**  Of a balanced document it leaves as many braces open as
closing ones stood in the headers that it has removed, so the result is balanced exactly when there
was none. -/
theorem removeQueries_balanced_iff {doc : Bytes} (hdoc : Balanced (Utf8.codePoints doc)) :
    ∃ r : BlockRow, r.text = Utf8.codePoints doc ∧ r.Exact ∧
      depthAfter 0 (Utf8.codePoints (removeQueries.apply doc)) = some r.strays ∧
      (Balanced (Utf8.codePoints (removeQueries.apply doc)) ↔ ∀ b ∈ r.blocks, '}' ∉ b.lead) := by
  obtain ⟨r, htext, hexact⟩ := BlockRow.exists_exact (Utf8.codePoints doc)
  rw [← htext] at hdoc
  have hdepth : depthAfter 0 r.residue = some r.strays := by
    rw [BlockRow.depthAfter_residue hdoc, Nat.zero_add]
  rw [BlockRow.codePoints_removeQueries hexact htext.symm]
  refine ⟨r, htext, hexact, hdepth, ?_⟩
  rw [Balanced, hdepth, Option.some.injEq]
  exact BlockRow.strays_eq_zero_iff

/-- Blocks inside a rule and behind it, whose bodies name queries again. -/
def calmRow : BlockRow :=
  .block "p \x7b q: r; ".toList
    ⟨.media, " (a)".toList, "@container b\x7bs {}\x7d".toList, by decide, by decide, by decide⟩
    (.block " \x7d ".toList ⟨.container, " c ".toList, [], by decide, by decide, by decide⟩
      (.last " t {}".toList))

theorem removeQueries_balanced_calmRow :
    Balanced (Utf8.codePoints (Utf8.encode calmRow.text)) ∧
      Balanced (Utf8.codePoints (removeQueries.apply (Utf8.encode calmRow.text))) := by
  have hread := Utf8.codePoints_encode calmRow.text
  have hbalanced : Balanced (Utf8.codePoints (Utf8.encode calmRow.text)) := by
    rw [hread]
    decide
  obtain ⟨r, htext, hexact, -, hiff⟩ := removeQueries_balanced_iff hbalanced
  obtain rfl : r = calmRow :=
    hexact.unique (BlockRow.exact_of_unnamed (by decide)) (htext.trans hread)
  exact ⟨hbalanced, hiff.2 (by decide)⟩

/-- A value that holds the name of a query, and a rule behind it. -/
def valueRow : BlockRow :=
  .block ".a \x7b content: \"".toList
    ⟨.media, "\" \x7d .b ".toList, " c: d ".toList, by decide, by decide, by decide⟩ (.last [])

theorem exact_valueRow : valueRow.Exact :=
  BlockRow.exact_of_unnamed (by decide)

/-- Of `valueRow` the brace of the first rule goes, and the whole second rule. -/
theorem removeQueries_unbalances_valueRow :
    Balanced (Utf8.codePoints (Utf8.encode valueRow.text)) ∧
      removeQueries.apply (Utf8.encode valueRow.text) =
        Utf8.encode ".a \x7b content: \"".toList ∧
      ¬ Balanced (Utf8.codePoints (removeQueries.apply (Utf8.encode valueRow.text))) := by
  have hread := Utf8.codePoints_encode valueRow.text
  have hleft : valueRow.residue = ".a \x7b content: \"".toList := by decide
  refine ⟨by rw [hread]; decide, ?_, ?_⟩
  · rw [BlockRow.removeQueries_apply exact_valueRow hread,
      if_neg (by simp [valueRow, BlockRow.blocks]), hleft]
  · rw [BlockRow.codePoints_removeQueries exact_valueRow hread, hleft]
    decide

/-! ### What a second run finds -/

namespace BlockRow

/-- On the two sides of a block stand a beginning and the end of a query's name, and the query opens
a block when they come together. -/
def Joins : BlockRow → Prop
  | last _ => False
  | block gap _ rest =>
    (∃ (k : QueryKind) (u v w : List Char), gap = u ++ v ∧ v ≠ [] ∧ w ≠ [] ∧
      '@' :: k.name = v ++ w ∧ w <+: rest.residue ∧ Opens anyHeader? (v ++ rest.residue)) ∨
    rest.Joins

/-- **A query that is named before a block** and opens one without it has opened one with it: its
header ran up to the brace of the block, or ended before it, and then a body that is closed without
the blocks is closed with them. -/
theorem opens_of_named {k : QueryKind} {s : List Char} {b : AnyBlock} {rest : BlockRow}
    (h : Opens anyHeader? ('@' :: (k.name ++ (s ++ rest.residue)))) :
    Opens anyHeader? ('@' :: (k.name ++ (s ++ (b.text ++ rest.text)))) := by
  by_cases hs : '{' ∈ s
  · obtain ⟨k', t, hk, hbody⟩ := h
    obtain ⟨lead, hne, ho, he⟩ := anyHeader?_eq_some_iff.1 hk
    have hkind := queryKind?_eq_some_iff.2 he
    rw [queryKind?_eq_some_iff.2 rfl] at hkind
    obtain ⟨rfl, hlead⟩ := Prod.mk.inj (Option.some.inj hkind)
    obtain ⟨x, y, rfl, hx⟩ := List.eq_append_cons_of_mem hs
    rw [List.append_assoc, List.cons_append] at hlead
    have hup := upTo?_append hx (y ++ rest.residue)
    rw [hlead, upTo?_append ho] at hup
    obtain ⟨rfl, rfl⟩ := Prod.mk.inj (Option.some.inj hup)
    refine ⟨k, y ++ (b.text ++ rest.text), ?_, isSome_body?_iff.2 ?_⟩
    · exact anyHeader?_eq_some_iff.2 ⟨lead, hne, ho, by simp⟩
    · cases hd : depthAfter 0 (y ++ (b.text ++ rest.text)) with
      | none => rfl
      | some e =>
          have := depthAfter_residue (r := block y b rest) hd
          rw [residue, isSome_body?_iff.1 hbody] at this
          cases this
  · have hname : '{' ∉ b.kind.name := fun hm => (b.kind.name_plain _ hm).1 rfl
    refine opens_any_iff.2
      ⟨⟨k, s ++ '@' :: (b.kind.name ++ b.lead), b.body, by simp, ?_, b.balanced⟩, rest.text, ?_⟩
    · simp [hs, hname, b.lead_open]
    · rw [b.text_append, AnyBlock.text_append]
      simp

/-- **What is left is quiet** exactly when nothing comes together. -/
theorem quiet_residue_iff {r : BlockRow} (h : r.Exact) :
    Quiet anyHeader? r.residue [] ↔ ¬ r.Joins := by
  induction r with
  | last gap => exact iff_of_true h id
  | block gap b rest ih =>
      rw [residue, quiet_append, List.append_nil, ih h.2, Joins, not_or]
      refine and_congr_left' ⟨?_, fun hno => quiet_iff.2 fun u c v he hopen => ?_⟩
      · rintro hq ⟨k, u, v, w, rfl, hv, -, -, -, hopen⟩
        obtain ⟨c, v, rfl⟩ := List.exists_cons_of_ne_nil hv
        exact hq.not_opens hopen
      · have hbefore := quiet_iff.1 h.1 u c v he
        obtain ⟨b', after, hb'⟩ := opens_any_iff.1 hopen
        rw [b'.text_append] at hb'
        obtain ⟨rfl, hname⟩ := List.cons.inj hb'
        have named : ∀ s, v = b'.kind.name ++ s → False := by
          rintro s rfl
          rw [List.append_assoc] at hopen hbefore
          exact hbefore (opens_of_named hopen)
        rcases List.append_eq_append_iff.1 hname with ⟨w, hw, hrest⟩ | ⟨s, hs, -⟩
        · by_cases hnil : w = []
          · subst hnil
            exact named [] (by rw [hw, List.append_nil, List.append_nil])
          · exact hno ⟨b'.kind, u, '@' :: v, w, he, List.cons_ne_nil _ _, hnil, by rw [hw]; rfl,
              ⟨_, hrest.symm⟩, hopen⟩
        · exact named s hs

end BlockRow

/-- **When a second run changes nothing**: when no block opens in what the first run leaves.  That is
so exactly when on the two sides of no removed block a name comes together that opens one. -/
theorem removeQueries_apply_apply_iff (doc : Bytes) :
    (removeQueries.apply (removeQueries.apply doc) = removeQueries.apply doc ↔
      Quiet anyHeader? (Utf8.codePoints (removeQueries.apply doc)) []) ∧
    ∃ r : BlockRow, r.text = Utf8.codePoints doc ∧ r.Exact ∧
      (removeQueries.apply (removeQueries.apply doc) = removeQueries.apply doc ↔ ¬ r.Joins) := by
  have hagain : removeQueries.apply (removeQueries.apply doc) = removeQueries.apply doc ↔
      Quiet anyHeader? (Utf8.codePoints (removeQueries.apply doc)) [] := by
    constructor
    · intro h
      obtain ⟨r, htext, hexact⟩ :=
        BlockRow.exists_exact (Utf8.codePoints (removeQueries.apply doc))
      have hleft := BlockRow.codePoints_removeQueries hexact htext.symm
      have hlength := r.length_residue_le
      rw [h, ← htext] at hleft
      rw [← hleft] at hlength
      cases r with
      | last gap => exact htext ▸ hexact
      | block gap b rest =>
          rw [BlockRow.blocks, List.length_cons] at hlength
          omega
    · intro h
      exact BlockRow.removeQueries_apply (r := .last _) h rfl
  obtain ⟨r, htext, hexact⟩ := BlockRow.exists_exact (Utf8.codePoints doc)
  refine ⟨hagain, r, htext, hexact, hagain.trans ?_⟩
  rw [BlockRow.codePoints_removeQueries hexact htext.symm]
  exact BlockRow.quiet_residue_iff hexact

/-- A name with a block inside it. -/
def splitRow : BlockRow :=
  .block "p {}@me".toList ⟨.media, " a".toList, [], by decide, by decide, by decide⟩
    (.last "dia b{} q {}".toList)

/-- What is left of `splitRow`. -/
def joinedRow : BlockRow :=
  .block "p {}".toList ⟨.media, " b".toList, [], by decide, by decide, by decide⟩
    (.last " q {}".toList)

/-- Of `splitRow` the first run leaves a query block, which the second run removes. -/
theorem removeQueries_apply_apply_splitRow :
    Utf8.codePoints (removeQueries.apply (Utf8.encode splitRow.text)) = "p {}@media b{} q {}".toList ∧
    Utf8.codePoints (removeQueries.apply (removeQueries.apply (Utf8.encode splitRow.text))) =
      "p {} q {}".toList ∧
    removeQueries.apply (removeQueries.apply (Utf8.encode splitRow.text)) ≠
      removeQueries.apply (Utf8.encode splitRow.text) := by
  have hsplit : splitRow.Exact := BlockRow.exact_of_unnamed (by decide)
  have hjoined : joinedRow.Exact := BlockRow.exact_of_unnamed (by decide)
  have hfirst : Utf8.codePoints (removeQueries.apply (Utf8.encode splitRow.text)) =
      joinedRow.text := by
    rw [BlockRow.codePoints_removeQueries hsplit (Utf8.codePoints_encode _)]
    decide
  have hsecond := BlockRow.codePoints_removeQueries hjoined hfirst
  refine ⟨hfirst.trans (by decide), hsecond.trans (by decide), fun h => ?_⟩
  rw [h, hfirst] at hsecond
  revert hsecond
  decide

end Restyle.Css
