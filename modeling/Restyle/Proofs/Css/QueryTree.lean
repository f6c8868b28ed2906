import Restyle.Proofs.Css.Edit
import Restyle.Proofs.Css.Survey
import Restyle.Proofs.Text.Utf8

/-!
# Combining a tree of queries

A `QueryTree` is a text with its query blocks marked: stretches in which no query is named, and
between any two of them a block, whose body is again such a text.

* `QueryTree.own` is what a level says by itself: its stretches, each of them that follows a block
  without the white space it starts with.
* `QueryTree.blocks` lists the blocks of all levels in the order in which they open, each with its
  key and the trimmed own text of its body.

`combineQueries_apply_tree`: the combined document is the own text of the tree and its blocks,
grouped by their keys.
-/

namespace Restyle.Css

/-! ### Texts that name no query -/

/-- A stretch of text in which no query is named. -/
structure Stretch where
  text : List Char
  no_media : ¬ "@media".toList <:+: text
  no_container : ¬ "@container".toList <:+: text

/-- A text without the sign names no query. -/
def Stretch.plain (s : List Char) (h : '@' ∉ s := by decide) : Stretch where
  text := s
  no_media hs := h (hs.subset List.mem_cons_self)
  no_container hs := h (hs.subset List.mem_cons_self)

theorem Stretch.unnamed (s : Stretch) : Unnamed s.text
  | .media => s.no_media
  | .container => s.no_container

/-- Without the white space at the start. -/
def Stretch.stripped (s : Stretch) : Stretch where
  text := skipBlank s.text
  no_media h := s.no_media (h.trans (List.dropWhile_suffix _).isInfix)
  no_container h := s.no_container (h.trans (List.dropWhile_suffix _).isInfix)

/-- **No block opens in a stretch** that ends, or that ends before the next sign. -/
theorem Stretch.quiet (s : Stretch) {t : List Char} (ht : ∀ c ∈ t.head?, c = '@') :
    Quiet query? s.text t := by
  refine s.unnamed.quiet (fun {u r} hq => ?_) ht
  obtain ⟨h, -, he⟩ := query?_eq_some_iff.1 (show query? u = some (r.1, r.2) from hq)
  rw [HeaderText.text, List.cons_append, List.append_assoc] at he
  exact ⟨h.kind, _, he⟩

/-! ### Trees -/

/-- A text with its query blocks marked. -/
inductive QueryTree where
  | stretch (s : Stretch)
  | block (before : Stretch) (header : HeaderText) (body rest : QueryTree)

namespace QueryTree

def text : QueryTree → List Char
  | stretch s => s.text
  | block before h body rest => before.text ++ (h.block body.text ++ rest.text)

/-- The braces of every body are balanced. -/
def Closed : QueryTree → Prop
  | stretch _ => True
  | block _ _ body rest => Balanced body.text ∧ body.Closed ∧ rest.Closed

/-- The stretches of the level, those inside its blocks left out. -/
def stretches : QueryTree → List Stretch
  | stretch s => [s]
  | block before _ _ rest => before :: rest.stretches

/-- The stretches of the level in one, without the white space behind the blocks. -/
def own (t : QueryTree) : List Char :=
  match t.stretches with
  | [] => []
  | s :: behind => s.text ++ behind.flatMap fun s => skipBlank s.text

/-- The blocks of all levels in the order in which they open, with their own texts. -/
def blocks : QueryTree → List Group
  | stretch _ => []
  | block _ h body rest => ⟨h.key, trim body.own⟩ :: (body.blocks ++ rest.blocks)

/-- The tree without the white space at its start. -/
def stripped : QueryTree → QueryTree
  | stretch s => stretch s.stripped
  | block before h body rest => block before.stripped h body rest

/-- Blanks before a tree are part of its first stretch. -/
theorem skipBlank_text (t : QueryTree) : skipBlank t.text = t.stripped.text := by
  cases t with
  | stretch s => rfl
  | block before h body rest =>
      refine skipBlank_append_of_not_blank ?_ before.text
      intro c hc
      obtain rfl : '@' = c := by simpa [HeaderText.block, HeaderText.text] using hc
      rfl

theorem own_stripped (t : QueryTree) :
    t.stripped.own = t.stretches.flatMap fun s => skipBlank s.text := by
  cases t with
  | stretch s => simp [stripped, own, stretches, Stretch.stripped]
  | block before h body rest => rfl

/-- What is outside of all blocks. -/
theorem own_block (before : Stretch) (h : HeaderText) (body rest : QueryTree) :
    (block before h body rest).own = before.text ++ rest.stripped.own := by
  rw [own_stripped]
  rfl

/-- **The search reads the tree.**  White space at the start of a tree changes none of its blocks. -/
theorem survey_text {t : QueryTree} (ht : t.Closed) :
    survey t.text = (t.own, t.blocks) ∧ survey t.stripped.text = (t.stripped.own, t.blocks) := by
  induction t with
  | stretch s =>
      have hs : ∀ s : Stretch, survey s.text = ((stretch s).own, []) := fun s => by
        rw [survey_of_quiet (s.quiet (fun c hc => by cases hc))]
        exact congrArg (·, []) (List.append_nil s.text).symm
      exact ⟨hs s, hs s.stripped⟩
  | block before h body rest ihb ihr =>
      obtain ⟨hb, hbody, hrest⟩ := ht
      have hs : ∀ before : Stretch, survey (block before h body rest).text =
          ((block before h body rest).own, (block before h body rest).blocks) := fun before => by
        have hq : Quiet query? before.text (h.block body.text ++ rest.text) :=
          before.quiet fun c hc => by
            simpa [HeaderText.block, HeaderText.text, eq_comm] using hc
        rw [text, survey_block hq hb, skipBlank_text, (ihb hbody).1, (ihr hrest).2, own_block]
        rfl
      exact ⟨hs before, hs before.stripped⟩

end QueryTree

/-- **Combining flattens the tree of queries.**  First what the top level says by itself, then one
block for each key in the order in which the keys are first met, with the own texts of its blocks,
in order. -/
theorem combineQueries_apply_tree {t : QueryTree} (ht : t.Closed) {doc : Bytes}
    (hdoc : Utf8.codePoints doc = t.text) :
    combineQueries.apply doc =
      Utf8.encode (t.own ++ (grouped t.blocks).flatMap Group.write) := by
  rw [Edit.apply, hdoc, combineQueries, combined_eq, (QueryTree.survey_text ht).1]

/-- A block inside another, a key that is met twice, and a block without a text of its own. -/
def nestedTree : QueryTree :=
  let a : HeaderText := { HeaderText.tight .media ['a'] with
    gap := [' '], gap_blank := List.all_eq_true.1 rfl }
  let b : HeaderText := .tight .container ['b']
  .block (.plain "p {}\n".toList) a
    (.block (.plain " q {} ".toList) b (.stretch (.plain " ".toList))
      (.stretch (.plain " r {} ".toList)))
    (.block (.plain "\n  s {} ".toList) a (.stretch (.plain "t {}".toList))
      (.stretch (.plain " u {}".toList)))

theorem closed_nestedTree : nestedTree.Closed := by
  simp only [nestedTree, QueryTree.Closed]
  decide

theorem combineQueries_apply_nestedTree :
    nestedTree.Closed ∧ Utf8.codePoints (Utf8.encode nestedTree.text) = nestedTree.text ∧
      combineQueries.apply (Utf8.encode nestedTree.text) = Utf8.encode
        ("p {}\ns {} u {}@media(a)\x7b\nq {} r {}\nt {}\n\x7d\n".toList ++
          "@container(b)\x7b\n\n\x7d\n".toList) := by
  have read := Utf8.codePoints_encode nestedTree.text
  refine ⟨closed_nestedTree, read,
    (combineQueries_apply_tree closed_nestedTree read).trans (congrArg Utf8.encode ?_)⟩
  decide

end Restyle.Css
