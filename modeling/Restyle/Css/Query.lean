import Restyle.Css.Edit

/-!
# Query blocks

A query block is a header and a body in braces that close.  `nextBlock?` finds the first one in a
text; headers differ between the steps, so it takes the pattern that reads them.  `removeQueries`
cuts every block.
-/

namespace Restyle.Css

inductive QueryKind where
  | media
  | container
  deriving Repr, DecidableEq

def QueryKind.name : QueryKind → List Char
  | .media => "media".toList
  | .container => "container".toList

/-- The sign and the name that start a query. -/
def queryKind? (s : List Char) : Option (QueryKind × List Char) :=
  match after? "@media".toList s with
  | some t => some (.media, t)
  | none => (after? "@container".toList s).map fun t => (.container, t)

/-- The text before the closing brace of a body, and the text after it.  `depth` counts the braces
that were opened in the body and are open still. -/
def body? (depth : Nat) : List Char → Option (List Char × List Char)
  | [] => none
  | c :: s =>
    if c = '{' then (body? (depth + 1) s).map fun (b, t) => (c :: b, t)
    else if c = '}' then
      match depth with
      | 0 => some ([], s)
      | d + 1 => (body? d s).map fun (b, t) => (c :: b, t)
    else (body? depth s).map fun (b, t) => (c :: b, t)

/-- A block found in a text. -/
structure Block (η : Type) where
  /-- The text before the block. -/
  before : List Char
  header : η
  body : List Char
  /-- The text after the block. -/
  after : List Char

/-- The first block whose header is read by `header` and whose body is closed. -/
def nextBlock? {η : Type} (header : Pattern η) : List Char → Option (Block η)
  | [] => none
  | c :: s =>
    match header (c :: s) with
    | some (h, t) =>
      match body? 0 t with
      | some (body, rest) => some ⟨[], h, body, rest⟩
      | none => (nextBlock? header s).map fun b => { b with before := c :: b.before }
    | none => (nextBlock? header s).map fun b => { b with before := c :: b.before }

/-! ### Headers -/

/-- Any query: whatever stands before the brace, if it is not empty. -/
def anyHeader? : Pattern QueryKind := fun s =>
  match queryKind? s with
  | none => none
  | some (kind, t) =>
    match upTo? '{' t with
    | some (_ :: _, rest) => some (kind, rest)
    | _ => none

/-- A kind and a condition in parentheses. -/
structure Query where
  kind : QueryKind
  condition : List Char
  deriving Repr, DecidableEq

/-- The inner text of parentheses behind white space, and the text after them. -/
def parens? (s : List Char) : Option (List Char × List Char) :=
  (after? ['('] (skipBlank s)).bind (upTo? ')')

/-- A query with one condition in parentheses, which is not empty. -/
def query? : Pattern Query := fun s =>
  match queryKind? s with
  | none => none
  | some (kind, t) =>
    match parens? t with
    | some (c :: cs, u) =>
      (after? ['{'] (skipBlank u)).map fun rest => (⟨kind, '(' :: c :: cs ++ [')']⟩, rest)
    | _ => none

/-! ### A block is shorter than its text -/

theorem length_body?_lt {s b t : List Char} {depth : Nat} (h : body? depth s = some (b, t)) :
    b.length + t.length < s.length := by
  induction s generalizing depth b t with
  | nil => cases h
  | cons c s ih =>
    unfold body? at h
    split at h
    · obtain ⟨⟨b', t'⟩, hb, he⟩ := Option.map_eq_some_iff.1 h
      have := ih hb
      cases he; simp; omega
    · split at h
      · split at h
        · cases h; simp
        · obtain ⟨⟨b', t'⟩, hb, he⟩ := Option.map_eq_some_iff.1 h
          have := ih hb
          cases he; simp; omega
      · obtain ⟨⟨b', t'⟩, hb, he⟩ := Option.map_eq_some_iff.1 h
        have := ih hb
        cases he; simp; omega

/-- A pattern takes nothing that is not there. -/
def Pattern.Shrinks {α : Type} (p : Pattern α) : Prop :=
  ∀ {s a t}, p s = some (a, t) → t.length ≤ s.length

theorem length_nextBlock?_lt {η : Type} {header : Pattern η} (hs : header.Shrinks) {s : List Char}
    {b : Block η} (h : nextBlock? header s = some b) :
    b.before.length + b.body.length + b.after.length < s.length := by
  induction s generalizing b with
  | nil => cases h
  | cons c s ih =>
    unfold nextBlock? at h
    split at h
    · next hd t hh =>
      split at h
      · next body rest hb =>
        have h1 := length_body?_lt hb
        have h2 := hs hh
        cases h
        simp at h2 ⊢; omega
      · obtain ⟨b', hb, he⟩ := Option.map_eq_some_iff.1 h
        have := ih hb
        cases he; simp; omega
    · obtain ⟨b', hb, he⟩ := Option.map_eq_some_iff.1 h
      have := ih hb
      cases he; simp; omega

theorem length_after?_le {p s t : List Char} (h : after? p s = some t) : t.length ≤ s.length := by
  induction p generalizing s with
  | nil => cases h; exact Nat.le_refl _
  | cons a p ih =>
    cases s with
    | nil => cases h
    | cons c s =>
      unfold after? at h
      split at h
      · exact Nat.le_succ_of_le (ih h)
      · cases h

theorem length_skipBlank_le (s : List Char) : (skipBlank s).length ≤ s.length :=
  (List.dropWhile_sublist isBlank).length_le

theorem length_queryKind?_le {s t : List Char} {k : QueryKind} (h : queryKind? s = some (k, t)) :
    t.length ≤ s.length := by
  unfold queryKind? at h
  split at h
  · next ht => cases h; exact length_after?_le ht
  · obtain ⟨u, hu, he⟩ := Option.map_eq_some_iff.1 h
    cases he; exact length_after?_le hu

theorem length_upTo?_lt {mark : Char} {s a b : List Char} (h : upTo? mark s = some (a, b)) :
    a.length + b.length < s.length := by
  induction s generalizing a with
  | nil => cases h
  | cons c s ih =>
    unfold upTo? at h
    split at h
    · cases h; simp
    · obtain ⟨⟨a', b'⟩, hb, he⟩ := Option.map_eq_some_iff.1 h
      cases he
      have := ih hb
      simp; omega

theorem length_parens?_le {s a b : List Char} (h : parens? s = some (a, b)) :
    b.length ≤ s.length := by
  obtain ⟨u, hu, hb⟩ := Option.bind_eq_some_iff.1 h
  have h1 := length_skipBlank_le s
  have h2 := length_after?_le hu
  have h3 := length_upTo?_lt hb
  omega

theorem anyHeader?_shrinks : anyHeader?.Shrinks := by
  intro s a t h
  unfold anyHeader? at h
  split at h
  · cases h
  · next hk =>
    have h1 := length_queryKind?_le hk
    split at h
    · next hu =>
      have h2 := length_upTo?_lt hu
      cases h
      omega
    · cases h

theorem query?_shrinks : query?.Shrinks := by
  intro s a t h
  unfold query? at h
  split at h
  · cases h
  · next hk =>
    have h1 := length_queryKind?_le hk
    split at h
    · next u hp =>
      have h2 := length_parens?_le hp
      have h3 := length_skipBlank_le u
      obtain ⟨v, hv, he⟩ := Option.map_eq_some_iff.1 h
      have h4 := length_after?_le hv
      cases he
      omega
    · cases h

/-! ### Removal -/

/-- The text without its query blocks, and their number. -/
def withoutQueries (s : List Char) : List Char × Nat :=
  match _h : nextBlock? anyHeader? s with
  | none => (s, 0)
  | some b =>
    let (rest, count) := withoutQueries b.after
    (b.before ++ rest, count + 1)
termination_by s.length
decreasing_by
  have := length_nextBlock?_lt anyHeader?_shrinks _h
  omega

/-- Cuts every query block with all that is nested in it. -/
def removeQueries : Edit := fun s =>
  match withoutQueries s with
  | (_, 0) => none
  | (rest, _ + 1) => some rest

end Restyle.Css
