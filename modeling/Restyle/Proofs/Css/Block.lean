import Mathlib.Data.List.Infix
import Restyle.Proofs.Css.Balance
import Restyle.Proofs.Css.Scan

/-!
# Where blocks stand

`Opens header s` says that a block starts the text `s`: its header is read and its body is closed.
`Quiet header w t` says that none opens in `w` when `t` follows it.  With these,
`nextBlock?_eq_some_iff` and `nextBlock?_eq_none_iff` say what the search for the first block
answers.

A `HeaderText` is the header of a query as it is written: the kind, white space, a condition in
parentheses, white space.  `query?_eq_some_iff`: a query is read exactly where a header text is
followed by a brace.
-/

namespace Restyle.Css

/-! ### The first block -/

section FirstBlock

variable {η : Type} {header : Pattern η}

/-- A block starts the text. -/
def Opens (header : Pattern η) (s : List Char) : Prop :=
  ∃ h t, header s = some (h, t) ∧ (body? 0 t).isSome

/-- No block opens in a text when another text follows it. -/
def Quiet (header : Pattern η) : List Char → List Char → Prop
  | [], _ => True
  | c :: w, t => ¬ Opens header (c :: (w ++ t)) ∧ Quiet header w t

/-- Nothing opens in two texts if nothing does in either of them, the first being read with the second behind
it. -/
theorem quiet_append {u w t : List Char} :
    Quiet header (u ++ w) t ↔ Quiet header u (w ++ t) ∧ Quiet header w t := by
  induction u with
  | nil => exact ⟨fun h => ⟨trivial, h⟩, fun h => h.2⟩
  | cons c u ih =>
      rw [List.cons_append, Quiet, Quiet, ih, List.append_assoc, and_assoc]

theorem Quiet.not_opens {u w t : List Char} {c : Char} (h : Quiet header (u ++ c :: w) t) :
    ¬ Opens header (c :: (w ++ t)) :=
  (quiet_append.1 h).2.1

/-- Nothing opens in a text if nothing does at any place of it. -/
theorem quiet_iff {w t : List Char} :
    Quiet header w t ↔ ∀ u c v, w = u ++ c :: v → ¬ Opens header (c :: (v ++ t)) := by
  refine ⟨fun h u c v he => (he ▸ h).not_opens, fun h => ?_⟩
  induction w with
  | nil => trivial
  | cons c w ih =>
      exact ⟨h [] c w rfl, ih fun u d v he => h (c :: u) d v (congrArg (c :: ·) he)⟩

/-- A block that opens behind a quiet text opens in what follows it. -/
theorem Quiet.exists_of_opens {w t u v : List Char} (h : Quiet header w t) (he : w ++ t = u ++ v)
    (hv : Opens header v) : ∃ z, u = w ++ z ∧ t = z ++ v := by
  rcases List.append_eq_append_iff.1 he with ⟨z, rfl, rfl⟩ | ⟨z, rfl, rfl⟩
  · exact ⟨z, rfl, rfl⟩
  · cases z with
    | nil => exact ⟨[], by simp, rfl⟩
    | cons c z => exact absurd hv h.not_opens

/-- The block that starts a text is the first. -/
theorem nextBlock?_of_opens {s t body rest : List Char} {h : η} (hs : s ≠ [])
    (hh : header s = some (h, t)) (hb : body? 0 t = some (body, rest)) :
    nextBlock? header s = some ⟨[], h, body, rest⟩ := by
  cases s with
  | nil => exact absurd rfl hs
  | cons c s => simp only [nextBlock?, hh, hb]

/-- Where no block opens, the next one is looked for behind the character. -/
theorem nextBlock?_cons {c : Char} {s : List Char} (h : ¬ Opens header (c :: s)) :
    nextBlock? header (c :: s) =
      (nextBlock? header s).map fun b => { b with before := c :: b.before } := by
  rw [nextBlock?]
  split
  · next hd t hh =>
      split
      · next body rest hb => exact absurd ⟨hd, t, hh, by rw [hb]; rfl⟩ h
      · rfl
  · rfl

/-- **The search passes over a quiet text.** -/
theorem nextBlock?_append {w t : List Char} (h : Quiet header w t) :
    nextBlock? header (w ++ t) =
      (nextBlock? header t).map fun b => { b with before := w ++ b.before } := by
  induction w with
  | nil =>
      rw [List.nil_append]
      cases nextBlock? header t <;> rfl
  | cons c w ih =>
      rw [List.cons_append, nextBlock?_cons h.1, ih h.2, Option.map_map]
      rfl

/-- There is no next block if nothing opens. -/
theorem nextBlock?_eq_none_iff {s : List Char} :
    nextBlock? header s = none ↔ Quiet header s [] := by
  constructor
  · intro h
    induction s with
    | nil => trivial
    | cons c s ih =>
        have hc : ¬ Opens header (c :: s) := by
          rintro ⟨hd, t, hh, hb⟩
          obtain ⟨⟨body, rest⟩, hb⟩ := Option.isSome_iff_exists.1 hb
          rw [nextBlock?_of_opens (List.cons_ne_nil c s) hh hb] at h
          cases h
        rw [nextBlock?_cons hc, Option.map_eq_none_iff] at h
        exact ⟨by rwa [List.append_nil], ih h⟩
  · intro h
    have := nextBlock?_append h
    rwa [List.append_nil] at this

/-- **The first block**: the text before it is quiet. -/
theorem nextBlock?_eq_some_iff {s : List Char} {b : Block η} :
    nextBlock? header s = some b ↔ ∃ u t, s = b.before ++ u ∧ Quiet header b.before u ∧ u ≠ [] ∧
      header u = some (b.header, t) ∧ body? 0 t = some (b.body, b.after) := by
  constructor
  · intro h
    induction s generalizing b with
    | nil => cases h
    | cons c s ih =>
        by_cases hc : Opens header (c :: s)
        · obtain ⟨hd, t, hh, hb⟩ := hc
          obtain ⟨⟨body, rest⟩, hb⟩ := Option.isSome_iff_exists.1 hb
          rw [nextBlock?_of_opens (List.cons_ne_nil c s) hh hb] at h
          cases h
          exact ⟨c :: s, t, rfl, trivial, List.cons_ne_nil c s, hh, hb⟩
        · rw [nextBlock?_cons hc, Option.map_eq_some_iff] at h
          obtain ⟨b', hb', rfl⟩ := h
          obtain ⟨u, t, rfl, hq, hu⟩ := ih hb'
          exact ⟨u, t, rfl, ⟨hc, hq⟩, hu⟩
  · rintro ⟨u, t, rfl, hq, hu, hh, hb⟩
    rw [nextBlock?_append hq, nextBlock?_of_opens hu hh hb, Option.map_some, List.append_nil]

end FirstBlock

/-! ### The header of a query -/

/-- Where a query is named, the sign stands at its start only. -/
theorem QueryKind.at_not_mem_name (k : QueryKind) : '@' ∉ k.name := by
  cases k <;> decide

theorem QueryKind.close_not_mem_name (k : QueryKind) : ')' ∉ k.name := by
  cases k <;> decide

theorem QueryKind.name_plain (k : QueryKind) : ∀ c ∈ k.name, c ≠ '{' ∧ c ≠ '}' := by
  have ho : '{' ∉ k.name := by cases k <;> decide
  have hc : '}' ∉ k.name := by cases k <;> decide
  exact fun c hm => ⟨fun h => ho (h ▸ hm), fun h => hc (h ▸ hm)⟩

/-- A header as it is written, without the brace behind it. -/
structure HeaderText where
  kind : QueryKind
  /-- The white space before the condition. -/
  gap : List Char
  /-- The condition without its parentheses. -/
  inner : List Char
  /-- The white space behind the condition. -/
  behind : List Char
  gap_blank : ∀ c ∈ gap, isBlank c = true
  inner_ne_nil : inner ≠ []
  inner_open : ')' ∉ inner
  behind_blank : ∀ c ∈ behind, isBlank c = true

namespace HeaderText

/-- The header of a condition without white space around it. -/
def tight (kind : QueryKind) (inner : List Char) (h : (inner ≠ [] ∧ ')' ∉ inner) := by decide) :
    HeaderText :=
  ⟨kind, [], inner, [], blank_nil, h.1, h.2, blank_nil⟩

/-- The query that the header states. -/
def query (h : HeaderText) : Query where
  kind := h.kind
  condition := '(' :: h.inner ++ [')']

def text (h : HeaderText) : List Char :=
  '@' :: (h.kind.name ++ (h.gap ++ '(' :: (h.inner ++ ')' :: h.behind)))

/-- The header and a body in braces. -/
def block (h : HeaderText) (body : List Char) : List Char :=
  h.text ++ '{' :: (body ++ ['}'])

theorem block_append (h : HeaderText) (body rest : List Char) :
    h.block body ++ rest = h.text ++ '{' :: (body ++ '}' :: rest) := by
  simp [block]

end HeaderText

/-- A kind is read where its name stands behind an at sign. -/
theorem queryKind?_eq_some_iff {s t : List Char} {k : QueryKind} :
    queryKind? s = some (k, t) ↔ s = '@' :: (k.name ++ t) := by
  have container : ∀ t, after? "@media".toList ('@' :: (QueryKind.container.name ++ t)) = none :=
    fun _ => rfl
  constructor
  · intro h
    unfold queryKind? at h
    split at h
    · next t' ht => cases h; exact after?_eq_some_iff.1 ht
    · obtain ⟨t', ht, he⟩ := Option.map_eq_some_iff.1 h
      cases he; exact after?_eq_some_iff.1 ht
  · rintro rfl
    cases k with
    | media => rfl
    | container =>
        rw [queryKind?, container]
        rfl

/-- No query is named in the text. -/
def Unnamed (s : List Char) : Prop :=
  ∀ k : QueryKind, ¬ '@' :: k.name <:+: s

/-- A query is named exactly where its kind is read. -/
theorem unnamed_iff {s : List Char} : Unnamed s ↔ ∀ v ∈ s.tails, queryKind? v = none := by
  constructor
  · intro h v hv
    cases hk : queryKind? v with
    | none => rfl
    | some r =>
        obtain ⟨k, t⟩ := r
        obtain rfl := queryKind?_eq_some_iff.1 hk
        have hname : '@' :: k.name <+: '@' :: (k.name ++ t) := ⟨t, rfl⟩
        exact absurd (List.infix_iff_prefix_suffix.2 ⟨_, hname, (List.mem_tails _ _).1 hv⟩) (h k)
  · intro h k hk
    obtain ⟨v, ⟨t, rfl⟩, hv⟩ := List.infix_iff_prefix_suffix.1 hk
    have := h _ ((List.mem_tails _ _).2 hv)
    rw [List.cons_append, queryKind?_eq_some_iff.2 rfl] at this
    cases this

instance (s : List Char) : Decidable (Unnamed s) :=
  decidable_of_iff _ unnamed_iff.symm

/-- **No block opens where no query is named**, in a text that ends, or that ends before the next
sign. -/
theorem Unnamed.quiet {η : Type} {header : Pattern η}
    (hh : ∀ {s r}, header s = some r → ∃ (k : QueryKind) (t : List Char), s = '@' :: (k.name ++ t))
    {w t : List Char} (hw : Unnamed w) (ht : ∀ c ∈ t.head?, c = '@') : Quiet header w t := by
  induction w with
  | nil => trivial
  | cons c w ih =>
      refine ⟨?_, ih fun k h => hw k (h.trans (List.suffix_cons c w).isInfix)⟩
      rintro ⟨hd, u, hu, -⟩
      obtain ⟨k, v, he⟩ := hh hu
      obtain ⟨rfl, hn⟩ := List.cons.inj he
      rcases List.append_eq_append_iff.1 hn with ⟨x, hx, ht'⟩ | ⟨x, rfl, -⟩
      · -- the name would run into the text behind
        cases x with
        | nil =>
            rw [List.append_nil] at hx
            exact hw k (hx ▸ List.infix_rfl)
        | cons d x =>
            obtain rfl : d = '@' := ht d (by rw [ht']; rfl)
            exact k.at_not_mem_name (by rw [hx]; simp)
      · exact hw k (List.prefix_append ('@' :: k.name) x).isInfix

/-- **A query is read where its header is written** before a brace. -/
theorem query?_eq_some_iff {s t : List Char} {q : Query} :
    query? s = some (q, t) ↔ ∃ h : HeaderText, h.query = q ∧ s = h.text ++ '{' :: t := by
  constructor
  · intro h
    unfold query? at h
    split at h
    · cases h
    · next kind u hk =>
        split at h
        · next c cs v hp =>
            obtain ⟨rest, hr, he⟩ := Option.map_eq_some_iff.1 h
            cases he
            obtain ⟨w, hw, hv⟩ := Option.bind_eq_some_iff.1 hp
            -- the white space that is skipped is that of the header
            obtain ⟨gap, hgap, hgb⟩ := exists_blank_append_skipBlank u
            obtain ⟨behind, hbeh, hbb⟩ := exists_blank_append_skipBlank v
            rw [after?_eq_some_iff] at hw hr
            obtain ⟨rfl, ho⟩ := upTo?_eq_some_iff.1 hv
            refine ⟨⟨kind, gap, c :: cs, behind, hgb, List.cons_ne_nil c cs, ho, hbb⟩, rfl, ?_⟩
            rw [queryKind?_eq_some_iff.1 hk, hgap, hw, hbeh, hr]
            simp [HeaderText.text]
        · cases h
  · rintro ⟨h, rfl, rfl⟩
    obtain ⟨kind, gap, inner, behind, hgb, hne, ho, hbb⟩ := h
    have hs : HeaderText.text ⟨kind, gap, inner, behind, hgb, hne, ho, hbb⟩ ++ '{' :: t =
        '@' :: (kind.name ++ (gap ++ '(' :: (inner ++ ')' :: (behind ++ '{' :: t)))) := by
      simp [HeaderText.text]
    have hp : parens? (gap ++ '(' :: (inner ++ ')' :: (behind ++ '{' :: t))) =
        some (inner, behind ++ '{' :: t) := by
      rw [parens?, skipBlank_append hgb, skipBlank_cons_of_not_blank (by decide)]
      exact upTo?_append ho _
    have hb : after? ['{'] (skipBlank (behind ++ '{' :: t)) = some t := by
      rw [skipBlank_append hbb, skipBlank_cons_of_not_blank (by decide)]
      rfl
    obtain ⟨c, cs, rfl⟩ := List.exists_cons_of_ne_nil hne
    unfold query?
    rw [hs, queryKind?_eq_some_iff.2 rfl]
    dsimp only
    rw [hp]
    dsimp only
    rw [hb]
    rfl

/-- **A query opens** where a header and a balanced body in braces stand. -/
theorem opens_query_iff {s : List Char} :
    Opens query? s ↔ ∃ (h : HeaderText) (body rest : List Char),
      Balanced body ∧ s = h.block body ++ rest := by
  constructor
  · rintro ⟨q, t, hq, hb⟩
    obtain ⟨⟨body, rest⟩, hb⟩ := Option.isSome_iff_exists.1 hb
    obtain ⟨h, -, rfl⟩ := query?_eq_some_iff.1 hq
    obtain ⟨rfl, hbal⟩ := body?_eq_some_iff.1 hb
    exact ⟨h, body, rest, hbal, (h.block_append body rest).symm⟩
  · rintro ⟨h, body, rest, hb, rfl⟩
    rw [h.block_append]
    exact ⟨h.query, _, query?_eq_some_iff.2 ⟨h, rfl, rfl⟩, by rw [body?_of_balanced hb]; rfl⟩

/-- A query opens only at an at sign. -/
theorem not_opens_query_cons {c : Char} (hc : c ≠ '@') (s : List Char) :
    ¬ Opens query? (c :: s) := by
  rw [opens_query_iff]
  rintro ⟨h, body, rest, -, he⟩
  exact hc (List.cons.inj he).1

/-- What opens a query still does so with more text behind it. -/
theorem Opens.append {s : List Char} (h : Opens query? s) (t : List Char) :
    Opens query? (s ++ t) := by
  obtain ⟨hd, body, rest, hb, rfl⟩ := opens_query_iff.1 h
  exact opens_query_iff.2 ⟨hd, body, rest ++ t, hb, List.append_assoc _ _ _⟩

/-- No block needs the white space behind it. -/
theorem Opens.of_append_break {s : List Char} (h : Opens query? (s ++ ['\n'])) :
    Opens query? s := by
  obtain ⟨hd, body, rest, hb, he⟩ := opens_query_iff.1 h
  rcases List.eq_nil_or_concat rest with rfl | ⟨rest, c, rfl⟩
  · rw [List.append_nil, HeaderText.block, ← List.cons_append, ← List.append_assoc] at he
    cases (List.append_inj' he rfl).2
  · rw [List.concat_eq_append, ← List.append_assoc] at he
    exact opens_query_iff.2 ⟨hd, body, rest, hb, (List.append_inj' he rfl).1⟩

/-- A text on a line of its own is quiet exactly when it is quiet alone. -/
theorem quiet_line_iff {s : List Char} :
    Quiet query? ('\n' :: (s ++ ['\n'])) [] ↔ Quiet query? s [] := by
  have hlast : Quiet query? ['\n'] [] := ⟨not_opens_query_cons (by decide) _, trivial⟩
  have hbreak : Quiet query? s ['\n'] ↔ Quiet query? s [] := by
    induction s with
    | nil => exact Iff.rfl
    | cons c s ih =>
        rw [Quiet, Quiet, ih, List.append_nil]
        refine and_congr_left' (not_congr ⟨fun h => ?_, fun h => h.append ['\n']⟩)
        exact Opens.of_append_break h
  rw [Quiet, quiet_append]
  exact ⟨fun h => hbreak.1 h.2.1,
    fun h => ⟨not_opens_query_cons (by decide) _, hbreak.2 h, hlast⟩⟩

end Restyle.Css
