import Mathlib.Order.Bounds.Defs
import Restyle.Proofs.Css.Removal

/-!
# The place of the first block

A search for a block answers with pieces of the text.  Here the answer is told by places: a header
starts at `start`, its brace stands at `brace`, and that brace is closed at `close`, the first place
where the braces counted from `brace` come back to zero (`ClosesAt`).

`nextBlock_first`: for both kinds of header, a search from any offset finds a block exactly when one
starts at or behind the offset, and what it finds is the first of them, cut out at these places.

The count of braces meets the search in `closedBy_iff`: the body that `body?` reads ends where the
count first comes back.  The rest turns places into the pieces of which `nextBlock?_eq_some_iff`
speaks.
-/

namespace Restyle.Css

/-! ### Counting braces -/

/-- The braces that a text opens, less those that it closes. -/
def surplus (s : List Char) : Int :=
  s.count '{' - s.count '}'

theorem surplus_cons (c : Char) (s : List Char) : surplus (c :: s) = surplus [c] + surplus s := by
  rw [← List.singleton_append]
  simp only [surplus, List.count_append]
  omega

theorem surplus_of_plain {c : Char} (ho : c ≠ '{') (hc : c ≠ '}') : surplus [c] = 0 := by
  simp [surplus, ho, hc]

/-- With `d` braces open before the text, none is open behind its first `k` characters, and behind
fewer of them some are. -/
structure ClosedBy (d : Int) (s : List Char) (k : Nat) : Prop where
  le : k ≤ s.length
  zero : d + surplus (s.take k) = 0
  first : ∀ i < k, d + surplus (s.take i) ≠ 0

theorem closedBy_zero_iff {s : List Char} {k : Nat} : ClosedBy 0 s k ↔ k = 0 := by
  constructor
  · intro h
    by_contra hk
    exact h.first 0 (Nat.pos_of_ne_zero hk) rfl
  · rintro rfl
    exact ⟨Nat.zero_le _, rfl, fun i hi => absurd hi (Nat.not_lt_zero i)⟩

/-- One character moves the count. -/
theorem closedBy_cons_iff {d : Int} (hd : d ≠ 0) {c : Char} {s : List Char} {k : Nat} :
    ClosedBy d (c :: s) k ↔ ∃ j, k = j + 1 ∧ ClosedBy (d + surplus [c]) s j := by
  have hstep : ∀ i, d + surplus ((c :: s).take (i + 1)) = d + surplus [c] + surplus (s.take i) :=
    fun i => by rw [List.take_succ_cons, surplus_cons, Int.add_assoc]
  constructor
  · rintro ⟨hle, hzero, hfirst⟩
    cases k with
    | zero => exact absurd (by simpa [surplus] using hzero) hd
    | succ j =>
        refine ⟨j, rfl, Nat.le_of_succ_le_succ hle, by rw [← hstep, hzero], fun i hi => ?_⟩
        rw [← hstep]
        exact hfirst (i + 1) (Nat.succ_lt_succ hi)
  · rintro ⟨j, rfl, hle, hzero, hfirst⟩
    refine ⟨Nat.succ_le_succ hle, by rw [hstep, hzero], fun i hi => ?_⟩
    cases i with
    | zero => simpa [surplus] using hd
    | succ i =>
        rw [hstep]
        exact hfirst i (Nat.lt_of_succ_lt_succ hi)

/-- Where a character belongs to the body, the body of the rest is one shorter. -/
theorem exists_map_cons_body?_iff {c : Char} {d k : Nat} {s : List Char} :
    (∃ b rest, ((body? d s).map fun (b, t) => (c :: b, t)) = some (b, rest) ∧ k = b.length + 1) ↔
      ∃ j, k = j + 1 ∧ ∃ b rest, body? d s = some (b, rest) ∧ j = b.length + 1 := by
  constructor
  · rintro ⟨b, rest, hb, rfl⟩
    obtain ⟨⟨b', rest'⟩, hb', he⟩ := Option.map_eq_some_iff.1 hb
    cases he
    exact ⟨b'.length + 1, rfl, b', rest, hb', rfl⟩
  · rintro ⟨j, rfl, b, rest, hb, rfl⟩
    exact ⟨c :: b, rest, by rw [hb]; rfl, rfl⟩

/-- **A body is read up to where the count first comes back to zero**, by induction on the text. -/
theorem closedBy_iff {d : Nat} {s : List Char} {k : Nat} :
    ClosedBy (d + 1) s k ↔ ∃ b rest, body? d s = some (b, rest) ∧ k = b.length + 1 := by
  induction s generalizing d k with
  | nil =>
      constructor
      · rintro ⟨hle, hzero, -⟩
        obtain rfl : k = 0 := Nat.le_zero.1 hle
        simp [surplus] at hzero
        omega
      · rintro ⟨b, rest, h, -⟩
        cases h
  | cons c s ih =>
      rw [closedBy_cons_iff (by omega)]
      by_cases ho : c = '{'
      · subst ho
        refine Iff.trans ?_ (exists_map_cons_body?_iff (d := d + 1)).symm
        exact exists_congr fun j => and_congr_right' ih
      by_cases hc : c = '}'
      · subst hc
        cases d with
        | zero =>
            -- the brace closes the last one open, and the body is empty
            have hzero : ((0 : Nat) : Int) + 1 + surplus ['}'] = 0 := rfl
            simp only [hzero, closedBy_zero_iff]
            constructor
            · rintro ⟨j, rfl, rfl⟩
              exact ⟨[], s, rfl, rfl⟩
            · rintro ⟨b, rest, hb, rfl⟩
              cases hb
              exact ⟨0, rfl, rfl⟩
        | succ d =>
            have hdown : ((d + 1 : Nat) : Int) + 1 + surplus ['}'] = d + 1 := by
              rw [show surplus ['}'] = -1 from rfl]
              omega
            rw [hdown]
            refine Iff.trans ?_ (exists_map_cons_body?_iff (d := d)).symm
            exact exists_congr fun j => and_congr_right' ih
      · rw [surplus_of_plain ho hc, Int.add_zero, body?_cons_of_ne ho hc, exists_map_cons_body?_iff]
        exact exists_congr fun j => and_congr_right' ih

/-! ### Places in a text -/

/-- The depth of braces at place `i`, counted from the brace at place `brace`. -/
def depthAt (text : List Char) (brace i : Nat) : Int :=
  surplus (text.extract brace (i + 1))

/-- The brace at place `brace` is closed at place `close`, where its depth first comes back to
zero. -/
structure ClosesAt (text : List Char) (brace close : Nat) : Prop where
  le : brace ≤ close
  lt : close < text.length
  zero : depthAt text brace close = 0
  first : ∀ i, brace ≤ i → i < close → depthAt text brace i ≠ 0

/-- The depth behind a brace, by what stands between. -/
theorem depthAt_add {text t : List Char} {brace : Nat} (h : text.drop brace = '{' :: t) (k : Nat) :
    depthAt text brace (brace + k) = 1 + surplus (t.take k) := by
  rw [depthAt, List.extract, h, Nat.add_assoc, Nat.add_sub_cancel_left, List.take_succ_cons,
    surplus_cons]
  rfl

/-- A block closes where the text behind its brace does. -/
theorem closesAt_add_iff {text t : List Char} {brace k : Nat} (h : text.drop brace = '{' :: t) :
    ClosesAt text brace (brace + k) ↔ ClosedBy 1 t k := by
  have hlen : text.length - brace = t.length + 1 := by
    rw [← List.length_drop, h, List.length_cons]
  constructor
  · rintro ⟨-, hlt, hzero, hfirst⟩
    refine ⟨by omega, by rwa [depthAt_add h] at hzero, fun i hi => ?_⟩
    rw [← depthAt_add h]
    exact hfirst (brace + i) (Nat.le_add_right _ _) (Nat.add_lt_add_left hi _)
  · rintro ⟨hle, hzero, hfirst⟩
    refine ⟨Nat.le_add_right _ _, by omega, by rwa [depthAt_add h], fun i hi hik => ?_⟩
    obtain ⟨j, rfl⟩ := Nat.exists_eq_add_of_le hi
    rw [depthAt_add h]
    exact hfirst j (Nat.lt_of_add_lt_add_left hik)

/-- **A brace is closed where the body behind it ends.** -/
theorem closesAt_iff {text t : List Char} {brace close : Nat} (h : text.drop brace = '{' :: t) :
    ClosesAt text brace close ↔
      ∃ b rest, body? 0 t = some (b, rest) ∧ close = brace + 1 + b.length := by
  constructor
  · intro hc
    obtain ⟨k, rfl⟩ := Nat.exists_eq_add_of_le hc.le
    obtain ⟨b, rest, hb, rfl⟩ := (closedBy_iff (d := 0)).1 ((closesAt_add_iff h).1 hc)
    exact ⟨b, rest, hb, by omega⟩
  · rintro ⟨b, rest, hb, rfl⟩
    rw [Nat.add_assoc, Nat.add_comm 1]
    exact (closesAt_add_iff h).2 ((closedBy_iff (d := 0)).2 ⟨b, rest, hb, rfl⟩)

theorem drop_add_length {text u v : List Char} {i : Nat} (h : text.drop i = u ++ v) :
    text.drop (i + u.length) = v := by
  rw [← List.drop_drop, h, List.drop_left]

theorem extract_add_length {text u v : List Char} {i : Nat} (h : text.drop i = u ++ v) :
    text.extract i (i + u.length) = u := by
  rw [List.extract, h, Nat.add_sub_cancel_left, List.take_left]

section Places

variable {η : Type} {header : Pattern η} {IsHeader : η → List Char → Prop} {text : List Char}

/-- A header that states `h` starts at place `start`, and its brace stands at place `brace`. -/
structure HeaderAt (IsHeader : η → List Char → Prop) (text : List Char) (start brace : Nat) (h : η) :
    Prop where
  le : start ≤ brace
  spelled : IsHeader h (text.extract start brace)
  opens : text[brace]? = some '{'

/-- A block starts at place `start`: a header whose brace is closed. -/
def BlockAt (IsHeader : η → List Char → Prop) (text : List Char) (start : Nat) : Prop :=
  ∃ h brace close, HeaderAt IsHeader text start brace h ∧ ClosesAt text brace close

/-- The pattern reads the headers of a kind, each with the brace behind it. -/
def ReadsHeader (header : Pattern η) (IsHeader : η → List Char → Prop) : Prop :=
  ∀ s h t, header s = some (h, t) ↔ ∃ w, IsHeader h w ∧ s = w ++ '{' :: t

/-- A header at its place is a header in front of its brace. -/
theorem headerAt_iff {start brace : Nat} {h : η} :
    HeaderAt IsHeader text start brace h ↔
      ∃ w t, IsHeader h w ∧ text.drop start = w ++ '{' :: t ∧ brace = start + w.length := by
  constructor
  · rintro ⟨hle, hw, hopen⟩
    obtain ⟨n, rfl⟩ := Nat.exists_eq_add_of_le hle
    obtain ⟨hlt, hget⟩ := List.getElem?_eq_some_iff.1 hopen
    rw [List.extract, Nat.add_sub_cancel_left] at hw
    refine ⟨_, text.drop (start + n + 1), hw, ?_, ?_⟩
    · rw [← hget, List.getElem_cons_drop, ← List.drop_drop, List.take_append_drop]
    · rw [List.length_take, List.length_drop, Nat.min_eq_left (by omega)]
  · rintro ⟨w, t, hw, ht, rfl⟩
    refine ⟨Nat.le_add_right _ _, ?_, ?_⟩
    · rwa [extract_add_length ht]
    · rw [← List.getElem?_drop, ht, List.getElem?_append_right (Nat.le_refl _), Nat.sub_self]
      rfl

/-- **A block starts at a place exactly when one opens the text from there on.** -/
theorem blockAt_iff (hr : ReadsHeader header IsHeader) {start : Nat} :
    BlockAt IsHeader text start ↔ Opens header (text.drop start) := by
  constructor
  · rintro ⟨h, brace, close, hh, hc⟩
    obtain ⟨w, t, hw, ht, rfl⟩ := headerAt_iff.1 hh
    obtain ⟨b, rest, hb, -⟩ := (closesAt_iff (drop_add_length ht)).1 hc
    exact ⟨h, t, (hr _ h t).2 ⟨w, hw, ht⟩, by rw [hb]; rfl⟩
  · rintro ⟨h, t, hh, hb⟩
    obtain ⟨w, hw, ht⟩ := (hr _ h t).1 hh
    obtain ⟨⟨b, rest⟩, hb⟩ := Option.isSome_iff_exists.1 hb
    exact ⟨h, _, _, headerAt_iff.2 ⟨w, t, hw, ht, rfl⟩,
      (closesAt_iff (drop_add_length ht)).2 ⟨b, rest, hb, rfl⟩⟩

/-- A block begins within the text. -/
theorem BlockAt.lt_length {start : Nat} (h : BlockAt IsHeader text start) : start < text.length := by
  obtain ⟨_, brace, close, hh, hc⟩ := h
  exact Nat.lt_of_le_of_lt (Nat.le_trans hh.le hc.le) hc.lt

/-- In a quiet text nothing opens at any offset. -/
theorem Quiet.not_opens_drop {w t : List Char} (h : Quiet header w t) {i : Nat} (hi : i < w.length) :
    ¬ Opens header ((w ++ t).drop i) := by
  induction w generalizing i with
  | nil => cases hi
  | cons c w ih =>
      cases i with
      | zero => exact h.1
      | succ i => exact ih h.2 (Nat.lt_of_succ_lt_succ hi)

/-! ### The first block from an offset on -/

/-- The block is the first that starts at or behind the offset `from_`: it starts at `start`, its
brace stands at `brace` and is closed at `close`, and its texts are those between these places. -/
structure Block.FirstFrom (IsHeader : η → List Char → Prop) (text : List Char) (from_ : Nat)
    (b : Block η) (start brace close : Nat) : Prop where
  least : IsLeast {s | from_ ≤ s ∧ BlockAt IsHeader text s} start
  header : HeaderAt IsHeader text start brace b.header
  closes : ClosesAt text brace close
  before : b.before = text.extract from_ start
  body : b.body = text.extract (brace + 1) close
  balanced : Balanced b.body
  after : b.after = text.drop (close + 1)
  bounds : from_ ≤ start ∧ start < close + 1 ∧ close + 1 ≤ text.length

/-- A search from an offset finds a block exactly when there is one, and then the first. -/
structure FindsFirst (header : Pattern η) (IsHeader : η → List Char → Prop) (text : List Char)
    (from_ : Nat) : Prop where
  isSome_iff : (nextBlock? header (text.drop from_)).isSome ↔
    ∃ s, from_ ≤ s ∧ BlockAt IsHeader text s
  first : ∀ b ∈ nextBlock? header (text.drop from_),
    ∃ start brace close, b.FirstFrom IsHeader text from_ start brace close

/-- **What is found is the first block.** -/
theorem exists_firstFrom (hr : ReadsHeader header IsHeader) {from_ : Nat} {b : Block η}
    (h : nextBlock? header (text.drop from_) = some b) :
    ∃ start brace close, b.FirstFrom IsHeader text from_ start brace close := by
  obtain ⟨u, t, hu, hquiet, -, hh, hb⟩ := nextBlock?_eq_some_iff.1 h
  obtain ⟨w, hw, rfl⟩ := (hr u _ t).1 hh
  obtain ⟨rfl, hbal⟩ := body?_eq_some_iff.1 hb
  -- the text from each of the places on
  have hstart := drop_add_length hu
  have hbrace := drop_add_length hstart
  have hbody := drop_add_length (u := ['{']) hbrace
  have hclose := drop_add_length hbody
  have hheader := headerAt_iff.2 ⟨w, _, hw, hstart, rfl⟩
  have hcloses := (closesAt_iff hbrace).2 ⟨b.body, b.after, hb, rfl⟩
  refine ⟨_, _, _, ⟨⟨Nat.le_add_right _ _, _, _, _, hheader, hcloses⟩, ?_⟩, hheader, hcloses,
    (extract_add_length hu).symm, (extract_add_length hbody).symm, hbal,
    (drop_add_length (u := ['}']) hclose).symm, Nat.le_add_right _ _, ?_, hcloses.lt⟩
  · rintro s ⟨hs, hblock⟩
    by_contra hlt
    obtain ⟨i, rfl⟩ := Nat.exists_eq_add_of_le hs
    refine hquiet.not_opens_drop (i := i) (by omega) ?_
    rw [← hu, List.drop_drop]
    exact (blockAt_iff hr).1 hblock
  · exact Nat.lt_succ_of_le (Nat.le_trans hheader.le hcloses.le)

/-- **A search finds a block where there is one.** -/
theorem findsFirst (hr : ReadsHeader header IsHeader) (text : List Char) (from_ : Nat) :
    FindsFirst header IsHeader text from_ := by
  refine ⟨⟨fun h => ?_, ?_⟩, fun b hb => exists_firstFrom hr hb⟩
  · obtain ⟨b, hb⟩ := Option.isSome_iff_exists.1 h
    obtain ⟨start, _, _, hfirst⟩ := exists_firstFrom hr hb
    exact ⟨start, hfirst.least.1⟩
  · rintro ⟨s, hs, hblock⟩
    rw [Option.isSome_iff_ne_none, ne_eq, nextBlock?_eq_none_iff]
    intro hquiet
    have hlt := hblock.lt_length
    obtain ⟨i, rfl⟩ := Nat.exists_eq_add_of_le hs
    refine hquiet.not_opens_drop (i := i) (by rw [List.length_drop]; omega) ?_
    rw [List.append_nil, List.drop_drop]
    exact (blockAt_iff hr).1 hblock

end Places

/-! ### The two kinds of header -/

/-- A kind and a condition in parentheses, which is not empty. -/
def QueryHeader (q : Query) (w : List Char) : Prop :=
  ∃ h : HeaderText, h.query = q ∧ w = h.text

/-- A kind and any text without a brace, which is not empty. -/
def AnyHeader (k : QueryKind) (w : List Char) : Prop :=
  ∃ lead, lead ≠ [] ∧ '{' ∉ lead ∧ w = '@' :: (k.name ++ lead)

theorem readsHeader_query? : ReadsHeader query? QueryHeader := by
  intro s q t
  rw [query?_eq_some_iff]
  constructor
  · rintro ⟨h, hq, rfl⟩
    exact ⟨h.text, ⟨h, hq, rfl⟩, rfl⟩
  · rintro ⟨w, ⟨h, hq, rfl⟩, rfl⟩
    exact ⟨h, hq, rfl⟩

theorem readsHeader_anyHeader? : ReadsHeader anyHeader? AnyHeader := by
  intro s k t
  rw [anyHeader?_eq_some_iff]
  constructor
  · rintro ⟨lead, hne, ho, rfl⟩
    exact ⟨_, ⟨lead, hne, ho, rfl⟩, by simp⟩
  · rintro ⟨w, ⟨lead, hne, ho, rfl⟩, rfl⟩
    exact ⟨lead, hne, ho, by simp⟩

/-- **A search finds the first block**, for both kinds of header, in every text and from every
offset. -/
theorem nextBlock_first (text : List Char) (from_ : Nat) :
    FindsFirst query? QueryHeader text from_ ∧ FindsFirst anyHeader? AnyHeader text from_ :=
  ⟨findsFirst readsHeader_query? text from_, findsFirst readsHeader_anyHeader? text from_⟩

/-- A header whose brace is never closed is passed over, and a block in its place is found. -/
example : (nextBlock? query? "@media (a)\x7b@media (b)\x7bx\x7b\x7d\x7d y".toList).map
    (fun b => (b.before.length, b.body, b.after)) =
      some (11, "x\x7b\x7d".toList, " y".toList) := by decide

end Restyle.Css
