import Restyle.Css.Edit

/-!
# Minification

Comments go first.  Cutting one may put a slash and a star side by side, so this repeats until no
comment is left.  Then eight passes, each run once, drop white space around punctuation, and the
semicolons before a closing brace.
-/

namespace Restyle.Css

/-! ### Cutting makes a text shorter -/

theorem Pattern.length_pieces_le {α : Type} (p : Pattern α) (skip : Nat) (s : List Char) :
    (p.piecesFrom skip s).length ≤ s.length := by
  induction s generalizing skip with
  | nil => simp [piecesFrom]
  | cons c s ih =>
    unfold piecesFrom
    split
    · exact Nat.le_succ_of_le (ih _)
    · split <;> simp [ih]

theorem Piece.length_texts {α : Type} (l : List (Piece α)) :
    (l.flatMap (Piece.text fun _ => [])).length + (l.filterMap Piece.found?).length = l.length := by
  induction l with
  | nil => rfl
  | cons x l ih => cases x <;> simp [Piece.text, Piece.found?, List.filterMap_cons] at ih ⊢ <;> omega

theorem Pattern.length_cut_lt {α : Type} {p : Pattern α} {s t : List Char}
    (h : p.cut s = some t) : t.length < s.length := by
  unfold cut replace at h
  split at h
  · cases h
  · next hne =>
    have hpos := List.length_pos_iff.2 (mt List.isEmpty_iff.2 hne)
    have hle := p.length_pieces_le 0 s
    have hk := Piece.length_texts (p.pieces s)
    cases h
    simp only [pieces, findAll] at hk hpos ⊢
    omega

/-! ### Comments -/

/-- The text after the first `*/`. -/
def afterCommentEnd? : List Char → Option (List Char)
  | [] => none
  | '*' :: '/' :: s => some s
  | _ :: s => afterCommentEnd? s

/-- A comment at the start of a text. -/
def comment? : Pattern Unit
  | '/' :: '*' :: s => (afterCommentEnd? s).map fun rest => ((), rest)
  | _ => none

/-- Cuts comments until none is left. -/
def withoutComments (s : List Char) : List Char :=
  match _h : comment?.cut s with
  | none => s
  | some t => withoutComments t
termination_by s.length
decreasing_by exact Pattern.length_cut_lt _h

/-- Drops every comment, also those that appear when another goes. -/
def dropComments : Edit := fun s =>
  (comment?.cut s).map withoutComments

/-! ### White space -/

/-- Drops the white space behind every `mark`; `behind` says that only dropped white space stands
since the last one. -/
def dropBlankAfter (mark : Char) (behind : Bool) : List Char → List Char
  | [] => []
  | c :: s =>
    if behind && isBlank c then dropBlankAfter mark true s
    else c :: dropBlankAfter mark (c == mark) s

/-- Drops the characters of a class that stand directly before a `mark`. -/
def dropBefore (drop : Char → Bool) (mark : Char) (s : List Char) : List Char :=
  s.foldr (fun c t => if drop c && t.head? == some mark then t else c :: t) []

/-- A closing parenthesis is followed, but for white space, by an opening brace. -/
def opensAfter (c : Char) (s : List Char) : Bool :=
  c == ')' && (skipBlank s).head? == some '{'

def hasOpenAfterClose : List Char → Bool
  | [] => false
  | c :: s => opensAfter c s || hasOpenAfterClose s

/-- Drops the white space between a closing parenthesis and an opening brace; `inside` says that
such a gap has begun. -/
def joinOpenAfterClose (inside : Bool) : List Char → List Char
  | [] => []
  | c :: s =>
    if inside && isBlank c then joinOpenAfterClose true s
    else c :: joinOpenAfterClose (opensAfter c s) s

/-- The passes over white space, in the order they run. -/
def blankPasses : List Edit :=
  [.changing (dropBlankAfter ';' false),
   .changing (dropBlankAfter ':' false),
   .whenever hasOpenAfterClose (joinOpenAfterClose false),
   .changing (dropBefore isBlank '('),
   .changing (dropBlankAfter '{' false),
   .changing (dropBlankAfter '}' false),
   .whenever (·.contains '{') (dropBefore isBlank '{'),
   .whenever (·.contains '}') (dropBefore (fun c => c == ';' || isBlank c) '}')]

/-- Drops comments and the white space around punctuation. -/
def minify : Edit :=
  dropComments.andThen (Edit.sequence blankPasses)

end Restyle.Css
