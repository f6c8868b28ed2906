import Restyle.Proofs.Css.Minify

/-!
# The rounds of the comment loop

A round cuts the comments that stand in a document, and rounds are repeated until one changes nothing
(`Settles`).  A round may make a document longer, since it writes every stray byte as a character of
three; but it takes at least four code points for each comment (`Pattern.length_cut_add_le`).  So the
rounds come to an end (`exists_settles`), and they end where `dropComments` does.

`commentLoop_ends` says this of every byte string, with a bound on the number of rounds, and that
neither the loop nor the passes behind it leave an opening mark with a closing one behind it.
-/

namespace Restyle.Css

/-! ### What a cut takes -/

namespace Pattern

variable {α : Type} {p : Pattern α} {k : Nat}

/-- Wherever the pattern holds, it takes at least `k` characters. -/
def Takes (p : Pattern α) (k : Nat) : Prop :=
  ∀ s a rest, p s = some (a, rest) → rest.length + k ≤ s.length

/-- Each match takes its characters out of those that are not passed over. -/
theorem length_texts_piecesFrom (hp : p.Takes k) (skip : Nat) (s : List Char) :
    ((p.piecesFrom skip s).flatMap (Piece.text fun _ => [])).length +
      k * ((p.piecesFrom skip s).filterMap Piece.found?).length ≤ s.length - skip := by
  induction s generalizing skip with
  | nil => simp [piecesFrom]
  | cons c s ih =>
      cases skip with
      | succ skip =>
          rw [piecesFrom, List.length_cons, Nat.add_sub_add_right]
          exact ih skip
      | zero =>
          rw [piecesFrom]
          cases hc : p (c :: s) with
          | none =>
              have hrest := ih 0
              simp only [List.flatMap_cons, List.filterMap_cons, Piece.text, Piece.found?,
                List.length_append, List.length_cons, List.length_nil]
              omega
          | some r =>
              obtain ⟨a, rest⟩ := r
              have htakes := hp _ a rest hc
              have hrest := ih (s.length - rest.length)
              rw [List.length_cons] at htakes
              simp only [List.flatMap_cons, List.filterMap_cons, Piece.text, Piece.found?,
                List.nil_append, List.length_cons, Nat.mul_succ]
              omega

theorem length_cut_add_le (hp : p.Takes k) {s t : List Char} (h : p.cut s = some t) :
    t.length + k ≤ s.length := by
  have hle := length_texts_piecesFrom hp 0 s
  unfold cut replace at h
  split at h
  · cases h
  · next hne =>
      obtain ⟨a, l, hfound⟩ := List.exists_cons_of_ne_nil (mt List.isEmpty_iff.2 hne)
      cases h
      simp only [pieces, findAll] at hfound ⊢
      rw [hfound, List.length_cons, Nat.mul_succ] at hle
      omega

end Pattern

theorem comment?_takes : comment?.Takes 4 := by
  intro s a rest h
  unfold comment? at h
  split at h
  · obtain ⟨t, ht, he⟩ := Option.map_eq_some_iff.1 h
    cases he
    obtain ⟨v, rfl⟩ := exists_of_afterCommentEnd? ht
    simp only [List.length_cons, List.length_append]
    omega
  · cases h

/-! ### One round -/

/-- Repeating `round` until it changes nothing ends: from `doc` at `result`, after `n` rounds that
changed something. -/
inductive Settles (round : Bytes → Bytes) : Nat → Bytes → Bytes → Prop where
  | rest {doc : Bytes} (h : round doc = doc) : Settles round 0 doc doc
  | more {n : Nat} {doc result : Bytes} (h : round doc ≠ doc)
      (t : Settles round n (round doc) result) : Settles round (n + 1) doc result

theorem Settles.unique {round : Bytes → Bytes} {m n : Nat} {doc r r' : Bytes}
    (h : Settles round m doc r) (h' : Settles round n doc r') : m = n ∧ r = r' := by
  induction h generalizing n with
  | rest h =>
      cases h' with
      | rest => exact ⟨rfl, rfl⟩
      | more hne => exact absurd h hne
  | more hne _ ih =>
      cases h' with
      | rest h => exact absurd h hne
      | more _ t =>
          obtain ⟨rfl, rfl⟩ := ih t
          exact ⟨rfl, rfl⟩

/-- **A round that cuts something leaves fewer code points**, and so another document. -/
theorem length_apply_cut {doc : Bytes} {text : List Char}
    (h : comment?.cut (Utf8.codePoints doc) = some text) :
    (Utf8.codePoints (comment?.cut.apply doc)).length + 4 ≤ (Utf8.codePoints doc).length := by
  rw [Edit.apply_of_some h, Utf8.codePoints_encode]
  exact Pattern.length_cut_add_le comment?_takes h

/-- The loop ends at the same document after a round as before it. -/
theorem dropComments_apply_cut (doc : Bytes) :
    dropComments.apply (comment?.cut.apply doc) = dropComments.apply doc := by
  cases h : comment?.cut (Utf8.codePoints doc) with
  | none => rw [Edit.apply_of_none h]
  | some text =>
      have hloop : dropComments (Utf8.codePoints doc) = some (withoutComments text) := by
        rw [dropComments, h]
        rfl
      rw [Edit.apply_of_some h, Edit.apply_encode, run_dropComments, Edit.apply_of_some hloop]

/-! ### All rounds -/

/-- **The rounds end where `dropComments` does**, by induction on the code points that are left. -/
theorem exists_settles (doc : Bytes) :
    ∃ n, Settles comment?.cut.apply n doc (dropComments.apply doc) ∧
      4 * n + (Utf8.codePoints (dropComments.apply doc)).length ≤ (Utf8.codePoints doc).length := by
  induction hlen : (Utf8.codePoints doc).length using Nat.strongRecOn generalizing doc with
  | ind len ih =>
      cases h : comment?.cut (Utf8.codePoints doc) with
      | none =>
          have hloop : dropComments (Utf8.codePoints doc) = none := by
            rw [dropComments, h]
            rfl
          rw [Edit.apply_of_none hloop]
          exact ⟨0, .rest (Edit.apply_of_none h), by omega⟩
      | some text =>
          have hround := length_apply_cut h
          obtain ⟨n, hn, hbound⟩ := ih _ (by omega) (comment?.cut.apply doc) rfl
          rw [dropComments_apply_cut] at hn hbound
          refine ⟨n + 1, .more (fun he => ?_) hn, by omega⟩
          rw [he] at hround
          omega

/-! ### Comments in a document -/

/-- A comment opens at byte `i` and, behind its opening mark, closes at byte `j`. -/
structure CommentAt (doc : Bytes) (i j : Nat) : Prop where
  opens : ("/*" : Bytes) <+: doc.drop i
  closes : ("*/" : Bytes) <+: doc.drop j
  apart : i + 2 ≤ j

/-- **A comment among the bytes is one among the code points**: its marks are bytes below 128, which
no stray byte before them takes along. -/
theorem CommentAt.hasComment {doc : Bytes} {i j : Nat} (h : CommentAt doc i j) :
    HasComment (Utf8.codePoints doc) := by
  obtain ⟨⟨u, hu⟩, ⟨w, hw⟩, hle⟩ := h
  obtain ⟨k, rfl⟩ := Nat.exists_eq_add_of_le hle
  have hclose : u.drop k = 0x2A :: 0x2F :: w := by
    rw [Nat.add_assoc, Nat.add_comm 2 k, ← List.drop_drop, ← hu] at hw
    exact hw.symm
  have hdoc : doc = doc.take i ++ 0x2F :: ([] ++ 0x2A :: (u.take k ++ 0x2A :: ([] ++ 0x2F :: w))) := by
    calc doc = doc.take i ++ (("/*" : Bytes) ++ u) := by rw [hu, List.take_append_drop]
      _ = doc.take i ++ (("/*" : Bytes) ++ (u.take k ++ 0x2A :: 0x2F :: w)) := by
          rw [← hclose, List.take_append_drop]
  refine ⟨Utf8.codePoints (doc.take i), Utf8.codePoints (u.take k), Utf8.codePoints w, ?_⟩
  conv_lhs => rw [hdoc]
  rw [Utf8.codePoints_append (by decide), Utf8.codePoints_append (by decide),
    Utf8.codePoints_append (by decide), Utf8.codePoints_append (by decide)]
  rfl

/-- **The comment loop ends and misses nothing**, whatever the bytes of the document.  It ends after
a fixed number of rounds, at most one for every four code points that it takes away.  No comment
stands in what it leaves, and none in the minified document. -/
theorem commentLoop_ends (doc : Bytes) :
    (∃ n, (∀ m result, Settles comment?.cut.apply m doc result ↔
        m = n ∧ result = dropComments.apply doc) ∧
      4 * n + (Utf8.codePoints (dropComments.apply doc)).length ≤ (Utf8.codePoints doc).length) ∧
    (∀ i j, ¬ CommentAt (dropComments.apply doc) i j) ∧
    ∀ i j, ¬ CommentAt (minify.apply doc) i j := by
  refine ⟨?_, fun i j h => ?_, fun i j h => ?_⟩
  · obtain ⟨n, hn, hbound⟩ := exists_settles doc
    refine ⟨n, fun m result => ⟨fun h => h.unique hn, ?_⟩, hbound⟩
    rintro ⟨rfl, rfl⟩
    exact hn
  · have hcomment := h.hasComment
    rw [Edit.codePoints_apply, run_dropComments] at hcomment
    exact not_hasComment_withoutComments _ hcomment
  · have hcomment := h.hasComment
    rw [Edit.codePoints_apply] at hcomment
    exact (minified_run _).noComment hcomment

/-- A round that cuts four bytes of seven leaves nine. -/
example : (comment?.cut.apply [0xFF, 0xFF, 0xFF, 0x2F, 0x2A, 0x2A, 0x2F]).length = 9 := by decide

end Restyle.Css
