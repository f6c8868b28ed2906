import Restyle.Proofs.Yaml.Source

/-!
# Literal scalars read back

The lines of a literal scalar are indented, but for the empty ones, and the next line that is indented
less ends it.  The header of a text that begins with a line end has no line of its own: that line end is
read as the end of the header, and is lost.  A tab at the very start is taken for indentation, which
is a fault.

* `block?_literal`: a literal scalar is read back, up to a line end at its start.
* `block?_literal_tab`: one that begins with a tab is not read.
-/

namespace Restyle.Yaml

open Printer

/-- Among written characters both say the same. -/
theorem endsLine_eq_isBreak {c : Char} (h : isWritten c = true) : endsLine c = isBreak c := by
  obtain ⟨-, hr, hn⟩ := isWritten_spec h
  rw [endsLine, beq_eq_false_iff_ne.2 hr, beq_eq_false_iff_ne.2 hn, Bool.or_false, Bool.or_false]

/-- There are three characters that break a line. -/
theorem break_cases {b : Char} (h : isBreak b = true) : b = '\n' ∨ b = '\u2028' ∨ b = '\u2029' := by
  simpa [isBreak, or_assoc] using h

/-! ### Indented lines -/

section

variable {indent : Nat}

theorem indented_break {b : Char} (hb : isBreak b = true) (lineStart : Bool) (s : List Char) :
    indented indent lineStart (b :: s) = b :: indented indent true s := by
  have hends : endsLine b = true := by simp [endsLine, hb]
  simp [indented, hends]

/-- A line is indented at its start only. -/
theorem indented_line {line : List Char} (hline : ∀ c ∈ line, endsLine c = false) (s : List Char) :
    indented indent false (line ++ s) = line ++ indented indent false s := by
  induction line with
  | nil => rfl
  | cons c line ih =>
      rw [List.cons_append, indented, hline c List.mem_cons_self,
        ih fun x hx => hline x (List.mem_cons_of_mem c hx)]
      rfl

/-- The first character of a line gets the indentation. -/
theorem indented_start {c : Char} (hc : endsLine c = false) (s : List Char) :
    indented indent true (c :: s) = spaces indent ++ indented indent false (c :: s) := by
  simp [indented, hc, spaces]

theorem indented_append_feed (lineStart : Bool) (s : List Char) :
    indented indent lineStart (s ++ ['\n']) = indented indent lineStart s ++ ['\n'] := by
  induction s generalizing lineStart with
  | nil => rfl
  | cons c s ih =>
      rw [List.cons_append, indented, indented, ih, ih]
      split <;> simp

end

/-- How many spaces come first, of so many characters. -/
theorem length_takeWhile_spaces {n m : Nat} (hn : n ≤ m) {rest : List Char}
    (hrest : n = m ∨ Cursor.StopsAt (· == ' ') rest) :
    (((spaces n ++ rest).take m).takeWhile (· == ' ')).length = n := by
  have hspaces : ∀ c ∈ spaces n, (c == ' ') = true := fun c hc => by simp [eq_space_of_mem hc]
  rw [List.take_append, List.take_of_length_le (by simpa using hn), length_spaces]
  rw [Cursor.takeWhile_stops hspaces, length_spaces]
  rcases hrest with rfl | hrest
  · intro c hc
    simp at hc
  · intro c hc
    refine hrest c ?_
    cases rest with
    | nil => simp at hc
    | cons x rest =>
        cases hm : m - n with
        | zero => simp [hm] at hc
        | succ k => simpa [hm] using hc

/-! ### Lines -/

variable {indent n : Nat} {next : List Char}

/-- Where the reading of a block stands when the line ends before a line are read: before a text of which
this is left, or at the next line that is indented less. -/
inductive AtLine (indent n : Nat) (next : List Char) : List Char → Cursor → Prop where
  | past {p : Pos} (hp : p.column = n) : AtLine indent n next [] ⟨p, next⟩
  | line {p : Pos} {c : Char} {v : List Char} (hc : isBreak c = false) (hp : p.column = indent) :
      AtLine indent n next (c :: v) ⟨p, indented indent false (c :: v) ++ (spaces n ++ next)⟩

/-- Behind the indentation, which is so many spaces, a block goes on or ends. -/
theorem blockBreaks_stop {indent m fuel deepest : Nat} {breaks rest : List Char} {p : Pos}
    (hm : (((spaces m ++ rest).take (if indent == 0 then (spaces m ++ rest).length
      else indent - p.column)).takeWhile (· == ' ')).length = m)
    (hrest : ∀ c ∈ rest.head?, isBreak c = false ∧ (c ≠ '\t' ∨ indent ≠ 0 ∧ indent ≤ p.column + m)) :
    blockBreaks indent (fuel + 1) deepest breaks ⟨p, spaces m ++ rest⟩ =
      some (max deepest (p.column + m), breaks, ⟨p.along (spaces m), rest⟩) := by
  have hskip : Cursor.skip m ⟨p, spaces m ++ rest⟩ = ⟨p.along (spaces m), rest⟩ := by
    have := Cursor.skip_append (p := p) (s := spaces m) (r := rest)
    rwa [length_spaces] at this
  simp only [blockBreaks, hm, hskip, column_along_spaces]
  cases rest with
  | nil => rfl
  | cons c rest =>
      obtain ⟨hbreak, htab⟩ := hrest c rfl
      have hwithin : ((indent == 0 || decide (p.column + m < indent)) && c == '\t') = false := by
        rcases htab with htab | ⟨hne, hle⟩
        · simp [htab]
        · simp [hne, Nat.not_lt.2 hle]
      simp only [hwithin, hbreak, Bool.false_eq_true, if_false]

/-- A break is passed and kept. -/
theorem blockBreaks_break {indent fuel deepest : Nat} {breaks rest : List Char} {p : Pos} {b : Char}
    (hb : isBreak b = true) :
    blockBreaks indent (fuel + 1) deepest breaks ⟨p, b :: rest⟩ =
      blockBreaks indent fuel (max deepest p.column) (b :: breaks) ⟨p.next b, rest⟩ := by
  have hspace : b ≠ ' ' ∧ b ≠ '\t' := by
    rcases break_cases hb with rfl | rfl | rfl <;> decide
  have hnone : ∀ m, (((b :: rest).take m).takeWhile (· == ' ')).length = 0 := by
    intro m
    cases m <;> simp [hspace.1]
  simp [blockBreaks, hnone, hb, hspace.2]

/-- **Line ends before a line.** -/
theorem blockBreaks_indented (hindent : n < indent) (hnext : Rests next) {u : List Char}
    (hu : ∀ c ∈ u, isWritten c = true) (fuel deepest : Nat) (breaks : List Char) {p : Pos}
    (hp : p.column = 0) (hfuel : u.length < fuel) :
    ∃ deepest' bs v k, u = bs ++ v ∧ (∀ c ∈ bs, isBreak c = true) ∧ AtLine indent n next v k ∧
      blockBreaks indent fuel deepest breaks ⟨p, indented indent true u ++ (spaces n ++ next)⟩ =
        some (deepest', bs.reverse ++ breaks, k) := by
  have hne : (indent == 0) = false := beq_eq_false_iff_ne.2 (by omega)
  induction u generalizing fuel deepest breaks p with
  | nil =>
      obtain ⟨fuel, rfl⟩ := Nat.exists_eq_add_one.2 (Nat.zero_lt_of_lt hfuel)
      have hstop : Cursor.StopsAt (· == ' ') next := by
        intro c hc
        have := (isRest_spec (hnext c hc)).1
        simp only [isGap, Bool.or_eq_false_iff] at this
        exact this.1
      -- nothing of the text is left: the line of what follows is less indented
      refine ⟨_, [], [], _, rfl, by simp, .past ?_, blockBreaks_stop (m := n) ?_ fun c hc => ?_⟩
      · simp [hp]
      · rw [hne, hp, if_neg Bool.false_ne_true, Nat.sub_zero]
        exact length_takeWhile_spaces (Nat.le_of_lt hindent) (.inr hstop)
      · obtain ⟨hgap, hbreak, -⟩ := isRest_spec (hnext c hc)
        refine ⟨hbreak, .inl ?_⟩
        rintro rfl
        cases hgap
  | cons c u ih =>
      obtain ⟨fuel, rfl⟩ := Nat.exists_eq_add_one.2 (Nat.zero_lt_of_lt hfuel)
      by_cases hc : isBreak c = true
      · obtain ⟨deepest', bs, v, k, rfl, hbs, hk, hrun⟩ :=
          ih (fun x hx => hu x (List.mem_cons_of_mem c hx)) fuel (max deepest p.column) (c :: breaks)
            (Pos.column_next_break hc) (Nat.lt_of_succ_lt_succ hfuel)
        refine ⟨deepest', c :: bs, v, k, rfl, ?_, hk, ?_⟩
        · simpa [hc] using hbs
        · rw [indented_break hc, List.cons_append, blockBreaks_break hc, hrun]
          simp
      · -- the first line that is not empty stops the search at its indentation
        rw [Bool.not_eq_true] at hc
        have hends : endsLine c = false := by
          rw [endsLine_eq_isBreak (hu c List.mem_cons_self), hc]
        rw [indented_start hends, List.append_assoc]
        refine ⟨_, [], c :: u, _, rfl, by simp, .line hc ?_, blockBreaks_stop (m := indent) ?_ fun x hx => ?_⟩
        · simp [hp]
        · rw [hne, hp, if_neg Bool.false_ne_true, Nat.sub_zero]
          exact length_takeWhile_spaces (Nat.le_refl indent) (.inl rfl)
        · have hx' : x = c := by
            have : indented indent false (c :: u) = c :: indented indent false u := by simp [indented, hends]
            rw [this] at hx
            exact (Option.some.inj hx).symm
          rw [hx']
          exact ⟨hc, .inr ⟨by omega, by omega⟩⟩

theorem length_le_indented (indent : Nat) (lineStart : Bool) (s : List Char) :
    s.length ≤ (indented indent lineStart s).length := by
  induction s generalizing lineStart with
  | nil => exact Nat.zero_le _
  | cons c s ih =>
      rw [indented]
      split
      · exact Nat.succ_le_succ (ih true)
      · rw [List.length_append, List.length_cons, List.length_cons]
        exact Nat.le_trans (Nat.succ_le_succ (ih false)) (Nat.le_add_left _ _)

/-- A text that ends with a line end, or none, has a first line. -/
theorem exists_line {v : List Char} (hne : v ≠ []) (hend : ∀ c ∈ v.getLast?, isBreak c = true) :
    ∃ line b u, v = line ++ b :: u ∧ (∀ c ∈ line, isBreak c = false) ∧ isBreak b = true := by
  induction v with
  | nil => exact absurd rfl hne
  | cons c v ih =>
      by_cases hc : isBreak c = true
      · exact ⟨[], c, v, rfl, by simp, hc⟩
      · cases v with
        | nil => exact absurd (hend c rfl) hc
        | cons d v =>
            obtain ⟨line, b, u, hv, hline, hb⟩ := ih (List.cons_ne_nil d v) (by simpa using hend)
            refine ⟨c :: line, b, u, by rw [hv]; rfl, ?_, hb⟩
            simpa [hc] using hline

/-- There is no less to read than to be read back. -/
theorem AtLine.length_le {v : List Char} {k : Cursor} (h : AtLine indent n next v k) :
    v.length ≤ k.rest.length := by
  cases h with
  | past => exact Nat.zero_le _
  | @line p c v =>
      rw [List.length_append]
      exact Nat.le_trans (length_le_indented indent false (c :: v)) (Nat.le_add_right _ _)

/-- **The lines of a literal scalar**, with the line ends between and behind them. -/
theorem blockLines_indented (hindent : n < indent) (hnext : Rests next) {v : List Char} {k : Cursor}
    (hk : AtLine indent n next v k) (hv : ∀ c ∈ v, isWritten c = true)
    (hend : ∀ c ∈ v.getLast?, isBreak c = true) {fuel : Nat} (hfuel : v.length < fuel)
    (text lead more : List Char) (spaced : Bool) :
    ∃ text' lead' more' p', blockLines true indent fuel text lead more spaced k =
        some (text', lead', more', ⟨p', next⟩) ∧ p'.column = n ∧
      more' ++ (lead' ++ text') = v.reverse ++ (more ++ (lead ++ text)) ∧
      (v ≠ [] → (∃ b, lead' = [b] ∧ isBreak b = true) ∧ ∀ c ∈ more', isBreak c = true) ∧
      (v = [] → text' = text ∧ lead' = lead ∧ more' = more) := by
  induction hlen : v.length using Nat.strongRecOn generalizing v k fuel text lead more spaced with
  | ind len ih =>
      obtain ⟨fuel, rfl⟩ := Nat.exists_eq_add_one.2 (Nat.zero_lt_of_lt hfuel)
      cases hk with
      | @past p hp =>
          refine ⟨text, lead, more, p, ?_, hp, rfl, fun h => absurd rfl h, fun _ => ⟨rfl, rfl, rfl⟩⟩
          have hcol : (p.column == indent) = false := beq_eq_false_iff_ne.2 (by omega)
          simp only [blockLines, hcol, Bool.false_and, Bool.false_eq_true, if_false]
      | @line p c w hc hp =>
          -- the line is taken up to its end, and then the empty lines behind it
          obtain ⟨line, b, u, hw, hline, hb⟩ := exists_line (List.cons_ne_nil c w) hend
          rw [hw] at hv hend hfuel hlen ⊢
          have hwritten : ∀ x ∈ u, isWritten x = true := fun x hx => hv x (by simp [hx])
          have hends : ∀ x ∈ line, endsLine x = false := fun x hx => by
            rw [endsLine_eq_isBreak (hv x (by simp [hx])), hline x hx]
          have hrest : indented indent false (line ++ b :: u) ++ (spaces n ++ next) =
              line ++ b :: (indented indent true u ++ (spaces n ++ next)) := by
            rw [indented_line hends, indented_break hb]
            simp
          have hbreaks := length_le_indented indent true u
          obtain ⟨deepest, bs, v', k', rfl, hbs, hk', hrun⟩ := blockBreaks_indented hindent hnext
            hwritten ((b :: (indented indent true u ++ (spaces n ++ next))).length + 1) 0 []
            (p := (p.along line).next b) (Pos.column_next_break hb)
            (by simp only [List.length_cons, List.length_append]; omega)
          have hlast : ∀ x ∈ v'.getLast?, isBreak x = true := by
            intro x hx
            refine hend x ?_
            rw [← List.cons_append, ← List.append_assoc, List.getLast?_append, Option.mem_def.1 hx]
            rfl
          simp only [List.length_append, List.length_cons] at hfuel hlen
          obtain ⟨text', lead', more', p', hlines, hcolumn, heq, hsome, hnone⟩ := ih v'.length (by omega)
            hk' (fun x hx => hwritten x (by simp [hx])) hlast (show v'.length < fuel by omega)
            (line.reverse ++ (more ++ lead ++ text)) [b] (bs.reverse ++ [])
            (startsBlank (line ++ b :: (indented indent true (bs ++ v') ++ (spaces n ++ next)))) rfl
          have hstop : Cursor.StopsAt (!isBreak ·) (b :: (indented indent true (bs ++ v') ++ (spaces n ++ next))) := by
            intro x hx
            obtain rfl := Option.some.inj hx
            simp [hb]
          have htake := Cursor.takeWhile_append (p := p) (s := line) (fun x hx => by simp [hline x hx]) hstop
          -- at the last line nothing is left, and `b` is what leads
          have hsome' : (∃ b, lead' = [b] ∧ isBreak b = true) ∧ ∀ c ∈ more', isBreak c = true := by
            by_cases hnil : v' = []
            · obtain ⟨-, rfl, rfl⟩ := hnone hnil
              exact ⟨⟨b, rfl, hb⟩, by simpa using hbs⟩
            · exact hsome hnil
          refine ⟨text', lead', more', p', ?_, hcolumn, ?_, fun _ => hsome', fun h => absurd h (by simp)⟩
          · rw [hrest]
            simp only [List.length_cons, List.length_append, length_spaces] at hrun
            simp only [blockLines, hp, htake]
            simpa [hrun] using hlines
          · rw [heq]
            simp

/-! ### Headers -/

/-- The header says how far the text is indented. -/
def hinted (s : List Char) : Bool :=
  s.head?.any fun c => isSpace c || endsLine c

/-- Which line ends at its end belong to a text. -/
def Chomping.of (s : List Char) : Chomping :=
  match s.reverse with
  | [] => .strip
  | [c] => if endsLine c then .keep else .strip
  | c :: d :: _ => if !endsLine c then .strip else if endsLine d then .keep else .clip

/-- The sign for what is done with the last line ends. -/
def Chomping.mark : Chomping → List Char
  | .clip => []
  | .strip => ['-']
  | .keep => ['+']

/-- A header has a hint if it needs one, and the sign for the last line ends. -/
theorem literalHeader_eq (s : List Char) :
    literalHeader s = '|' :: ((if hinted s then ['4'] else []) ++ (Chomping.of s).mark) := by
  unfold literalHeader Chomping.of hinted
  rcases s.reverse with _ | ⟨c, _ | ⟨d, r⟩⟩
  · rfl
  · cases hc : endsLine c <;> simp [hc, Chomping.mark]
  · cases hc : endsLine c <;> cases hd : endsLine d <;> simp [hc, hd, Chomping.mark]

/-- **A header is read back** from its hint and its sign. -/
theorem blockHeader?_marks (hint : Bool) (c : Chomping) {b : Char} (hb : isBreak b = true) (p : Pos)
    (rest : List Char) :
    blockHeader? ⟨p, (if hint then ['4'] else []) ++ c.mark ++ b :: rest⟩ =
      some (c, if hint then 4 else 0,
        ⟨(p.along ((if hint then ['4'] else []) ++ c.mark)).next b, rest⟩) := by
  rcases break_cases hb with rfl | rfl | rfl <;> cases hint <;> cases c <;> rfl

/-! ### Line ends at the end -/

/-- What is read of a text that is written in literal style. -/
def readLiteral (s : List Char) : List Char :=
  if s.head?.any endsLine then s.tail else s

/-- The line end that is written behind a text that has none. -/
def lastFeed (s : List Char) : List Char :=
  if s.getLast?.any endsLine then [] else ['\n']

/-- The line ends behind the last line are those after the first of them. -/
theorem more_eq_nil {more lead text rest : List Char} {x d b : Char}
    (heq : more ++ (lead ++ text) = x :: d :: rest) (hd : isBreak d = false) (hlead : lead = [b])
    (hb : isBreak b = true) (hmore : ∀ c ∈ more, isBreak c = true) :
    more = [] ∧ lead = [x] ∧ text = d :: rest := by
  subst hlead
  cases more with
  | nil =>
      obtain ⟨rfl, rfl⟩ := List.cons.inj heq
      exact ⟨rfl, rfl, rfl⟩
  | cons m more =>
      have htail : more ++ ([b] ++ text) = d :: rest := (List.cons.inj heq).2
      cases more with
      | nil =>
          obtain rfl := (List.cons.inj htail).1
          rw [hb] at hd
          cases hd
      | cons m' more =>
          obtain rfl := (List.cons.inj htail).1
          rw [hmore m' (by simp)] at hd
          cases hd

/-- The last characters are there still when a line end at the start is lost. -/
theorem reverse_readLiteral {s : List Char} {pre : List Char} {d : Char} (hd : endsLine d = false)
    {rest : List Char} (hs : s.reverse = pre ++ d :: rest) :
    ∃ rest', (readLiteral s).reverse = pre ++ d :: rest' := by
  unfold readLiteral
  split
  · next hhead =>
      cases s with
      | nil => cases hhead
      | cons b s =>
          have hb : endsLine b = true := by simpa using hhead
          rw [List.reverse_cons] at hs
          rcases List.eq_nil_or_concat rest with rfl | ⟨rest', x, rfl⟩
          · obtain ⟨-, heq⟩ := List.append_inj' hs rfl
            obtain rfl := List.singleton_inj.1 heq
            rw [hb] at hd
            cases hd
          · rw [List.concat_eq_append, ← List.cons_append, ← List.append_assoc] at hs
            exact ⟨rest', (List.append_inj' hs rfl).1⟩
  · exact ⟨rest, hs⟩

/-- How a text ends: in a line, in one line end behind a line, or in more line ends. -/
theorem Chomping.of_cases {s : List Char} (hne : s ≠ []) :
    (∃ c rest, s.reverse = [] ++ c :: rest ∧ endsLine c = false ∧ lastFeed s = ['\n'] ∧
      Chomping.of s = .strip) ∨
    (∃ c d rest, s.reverse = [c] ++ d :: rest ∧ endsLine d = false ∧ lastFeed s = [] ∧
      Chomping.of s = .clip) ∨
    lastFeed s = [] ∧ Chomping.of s = .keep := by
  unfold lastFeed Chomping.of
  rw [← List.head?_reverse]
  rcases hs : s.reverse with _ | ⟨c, _ | ⟨d, rest⟩⟩
  · exact absurd (List.reverse_eq_nil_iff.1 hs) hne
  · cases hc : endsLine c with
    | false => exact .inl ⟨c, [], rfl, hc, by simp [hc], by simp [hc]⟩
    | true => exact .inr (.inr ⟨by simp [hc], by simp [hc]⟩)
  · cases hc : endsLine c with
    | false => exact .inl ⟨c, d :: rest, rfl, hc, by simp [hc], by simp [hc]⟩
    | true =>
        cases hd : endsLine d with
        | false => exact .inr (.inl ⟨c, d, rest, rfl, hd, by simp [hc], by simp [hc, hd]⟩)
        | true => exact .inr (.inr ⟨by simp [hc], by simp [hc, hd]⟩)

/-- **Chomping** leaves the line ends that belong to the text. -/
theorem chomp_readLiteral {s : List Char} (hne : s ≠ []) {more lead text : List Char}
    (heq : more ++ (lead ++ text) = (readLiteral s ++ lastFeed s).reverse)
    (hends : (∃ c ∈ readLiteral s, endsLine c = false) →
      (∃ b, lead = [b] ∧ isBreak b = true) ∧ ∀ c ∈ more, isBreak c = true) :
    let kept := if Chomping.of s == .strip then text else lead ++ text
    (if Chomping.of s == .keep then more ++ kept else kept).reverse = readLiteral s := by
  have leaves : ∀ {pre rest : List Char} {x d : Char}, (readLiteral s).reverse = pre ++ d :: rest →
      (readLiteral s ++ lastFeed s).reverse = x :: d :: rest → endsLine d = false →
      more = [] ∧ lead = [x] ∧ text = d :: rest := by
    intro pre rest x d hread hrev hd
    have hmem : d ∈ readLiteral s := by
      rw [← List.mem_reverse, hread]
      simp
    obtain ⟨⟨b, hlead, hb⟩, hmore⟩ := hends ⟨d, hmem, hd⟩
    exact more_eq_nil (heq.trans hrev) (isBreak_eq_false hd) hlead hb hmore
  rcases Chomping.of_cases hne with ⟨c, rest, hs, hc, hfeed, hof⟩ | ⟨c, d, rest, hs, hd, hfeed, hof⟩ |
    ⟨hfeed, hof⟩
  · obtain ⟨rest', hread⟩ := reverse_readLiteral hc hs
    obtain ⟨-, -, rfl⟩ := leaves hread (by rw [List.reverse_append, hread, hfeed]; rfl) hc
    rw [hof]
    change ([] ++ c :: rest').reverse = _
    rw [← hread, List.reverse_reverse]
  · obtain ⟨rest', hread⟩ := reverse_readLiteral hd hs
    obtain ⟨-, rfl, rfl⟩ := leaves hread (by rw [List.reverse_append, hread, hfeed]; rfl) hd
    rw [hof]
    change ([c] ++ d :: rest').reverse = _
    rw [← hread, List.reverse_reverse]
  · rw [hof]
    change (more ++ (lead ++ text)).reverse = _
    rw [heq, hfeed, List.append_nil, List.reverse_reverse]

/-! ### The whole scalar -/

/-- What is read back was written. -/
theorem mem_readLiteral {s : List Char} {c : Char} (h : c ∈ readLiteral s) : c ∈ s := by
  unfold readLiteral at h
  split at h
  · exact List.mem_of_mem_tail h
  · exact h

theorem isWritten_of_mem_lastFeed {s : List Char} {c : Char} (h : c ∈ lastFeed s) : isWritten c = true := by
  unfold lastFeed at h
  split at h
  · cases h
  · rw [List.mem_singleton.1 h]
    decide

/-- A literal ends with a line end, if it is not empty. -/
theorem isBreak_getLast {s : List Char} (hs : ∀ c ∈ s, isWritten c = true) :
    ∀ c ∈ (readLiteral s ++ lastFeed s).getLast?, isBreak c = true := by
  intro c hc
  unfold lastFeed at hc
  split at hc
  · next hlast =>
      have hmem : c ∈ s.getLast? := by
        rw [List.append_nil] at hc
        unfold readLiteral at hc
        split at hc
        · cases s with
          | nil => cases hc
          | cons b s =>
              have hlast : s.getLast? = some c := hc
              rw [List.getLast?_cons, hlast]
              rfl
        · exact hc
      rw [Option.mem_def.1 hmem] at hlast
      rw [← endsLine_eq_isBreak (hs c (List.mem_of_getLast? hmem))]
      simpa using hlast
  · rw [List.getLast?_concat] at hc
    obtain rfl := Option.some.inj hc
    decide

/-- **The parts of a literal scalar**: its header, a line end and its lines. -/
theorem literal_eq (indent : Nat) {s : List Char} (hs : ∀ c ∈ s, isWritten c = true) :
    ∃ b, isBreak b = true ∧ literal indent s ++ lastFeed s =
      '|' :: ((if hinted s then ['4'] else []) ++ (Chomping.of s).mark ++
        b :: indented indent true (readLiteral s ++ lastFeed s)) := by
  have hfeed : ∀ r, indented indent true (r ++ lastFeed s) = indented indent true r ++ lastFeed s := by
    intro r
    unfold lastFeed
    split
    · simp
    · exact indented_append_feed true r
  rw [literal, literalHeader_eq, hfeed, readLiteral]
  by_cases hhead : s.head?.any endsLine = true
  · cases s with
    | nil => cases hhead
    | cons b s =>
        have hends : endsLine b = true := by simpa using hhead
        have hb : isBreak b = true := by rwa [← endsLine_eq_isBreak (hs b List.mem_cons_self)]
        exact ⟨b, hb, by simp [indented_break hb, hends]⟩
  · exact ⟨'\n', rfl, by simp [hhead]⟩

/-- Where no hint is given, the first line shows the indentation. -/
theorem blockBreaks_first (indent n : Nat) (next : List Char) {c : Char} (hspace : isSpace c = false)
    (htab : c ≠ '\t') (hc : endsLine c = false) (v : List Char) {p : Pos} (hp : p.column = 0) (fuel : Nat) :
    ∃ k, AtLine indent n next (c :: v) k ∧ blockBreaks 0 (fuel + 1) 0 []
        ⟨p, indented indent true (c :: v) ++ (spaces n ++ next)⟩ = some (indent, [], k) := by
  have hhead : indented indent false (c :: v) = c :: indented indent false v := by simp [indented, hc]
  refine ⟨_, .line (isBreak_eq_false hc) (p := p.along (spaces indent)) (by simp [hp]), ?_⟩
  rw [indented_start hc, List.append_assoc, blockBreaks_stop, hp, Nat.zero_add, Nat.zero_max]
  · rw [hp, hhead]
    refine length_takeWhile_spaces (by simp) (.inr fun x hx => ?_)
    obtain rfl := Option.some.inj hx
    exact hspace
  · intro x hx
    rw [hhead] at hx
    obtain rfl := Option.some.inj hx
    exact ⟨isBreak_eq_false hc, .inl htab⟩

/-- All of its characters can be written. -/
theorem isWritten_literalText {s : List Char} (hs : ∀ c ∈ s, isWritten c = true) :
    ∀ c ∈ readLiteral s ++ lastFeed s, isWritten c = true := by
  intro c hc
  rcases List.mem_append.1 hc with hc | hc
  · exact hs c (mem_readLiteral hc)
  · exact isWritten_of_mem_lastFeed hc

/-- The line ends before the first line of a literal scalar.  Its indentation is given by a hint, or shows
in that line. -/
theorem exists_blockBreaks (hn : n < indent) {s : List Char} (hne : s ≠ [])
    (hs : ∀ c ∈ s, isWritten c = true) (htab : s.head? ≠ some '\t') (hnext : Rests next) {p : Pos}
    (hp : p.column = 0) :
    ∃ deepest bs v k, readLiteral s ++ lastFeed s = bs ++ v ∧ (∀ c ∈ bs, isBreak c = true) ∧
      AtLine indent n next v k ∧ (hinted s = false → deepest = indent) ∧
      blockBreaks (if hinted s then indent else 0)
        ((indented indent true (readLiteral s ++ lastFeed s) ++ (spaces n ++ next)).length + 1) 0 []
        ⟨p, indented indent true (readLiteral s ++ lastFeed s) ++ (spaces n ++ next)⟩ =
        some (deepest, bs.reverse ++ [], k) := by
  cases hh : hinted s with
  | true =>
      have hlen := length_le_indented indent true (readLiteral s ++ lastFeed s)
      obtain ⟨deepest, bs, v, k, hsplit, hbs, hk, hrun⟩ := blockBreaks_indented hn hnext
        (isWritten_literalText hs)
        ((indented indent true (readLiteral s ++ lastFeed s) ++ (spaces n ++ next)).length + 1) 0 []
        hp (by simp only [List.length_append] at hlen ⊢; omega)
      exact ⟨deepest, bs, v, k, hsplit, hbs, hk, (fun h => by cases h), hrun⟩
  | false =>
      obtain ⟨c, s, rfl⟩ := List.exists_cons_of_ne_nil hne
      have hc : isSpace c = false ∧ endsLine c = false := by simpa [hinted] using hh
      have hread : readLiteral (c :: s) = c :: s := by simp [readLiteral, hc.2]
      rw [hread]
      obtain ⟨k, hk, hrun⟩ := blockBreaks_first indent n next hc.1
        (fun h => htab (by rw [h]; rfl)) hc.2 (s ++ lastFeed (c :: s)) hp _
      exact ⟨_, [], _, k, rfl, by simp, hk, fun _ => rfl, hrun⟩

/-- **A literal scalar is read back**, without a line end at its start.  A hint says that it is indented
by four. -/
theorem block?_literal {i : Nat} (hi : n ≤ i) (hindent : i < indent) {s : List Char} (hne : s ≠ [])
    (hhint : hinted s = true → indent = i + 4) (hs : ∀ c ∈ s, isWritten c = true)
    (htab : s.head? ≠ some '\t') (hnext : Rests next) (p : Pos) :
    ∃ p', block? true i ⟨p, literal indent s ++ lastFeed s ++ (spaces n ++ next)⟩ =
        some (readLiteral s, ⟨p', next⟩) ∧ p'.column = n := by
  have hn : n < indent := by omega
  obtain ⟨b, hb, hliteral⟩ := literal_eq indent hs
  have hheader := blockHeader?_marks (hinted s) (Chomping.of s) hb (p.next '|')
    (indented indent true (readLiteral s ++ lastFeed s) ++ (spaces n ++ next))
  obtain ⟨deepest, bs, v, k, hsplit, hbs, hk, hgiven, hbreaks⟩ := exists_blockBreaks hn hne hs htab hnext
    (Pos.column_next_break hb
      (p := (p.next '|').along ((if hinted s then ['4'] else []) ++ (Chomping.of s).mark)))
  obtain ⟨text, lead, more, p', hlines, hcolumn, heq, hsome, -⟩ := blockLines_indented hn hnext hk
    (fun c hc => isWritten_literalText hs c (by simp [hsplit, hc]))
    (fun c hc => isBreak_getLast hs c (by rw [hsplit, List.getLast?_append, Option.mem_def.1 hc]; rfl))
    (Nat.lt_succ_of_le hk.length_le) [] [] (bs.reverse ++ []) false
  have hread : more ++ (lead ++ text) = (readLiteral s ++ lastFeed s).reverse := by
    rw [heq, hsplit]
    simp
  have hchomp := chomp_readLiteral hne hread fun ⟨c, hc, hcends⟩ => by
      refine hsome ?_
      rintro rfl
      have hbreak := hbs c (by rw [← List.append_nil bs, ← hsplit]; simp [hc])
      rw [isBreak_eq_false hcends] at hbreak
      cases hbreak
  -- a hint gives the indentation; without one it is the deepest that was met
  have hincrement : (if (if hinted s then 4 else 0) == 0 then 0
      else (max (i : Int) 0).toNat + if hinted s then 4 else 0) = if hinted s then indent else 0 := by
    cases hh : hinted s with
    | true =>
        rw [hhint hh, if_neg (by decide), if_pos rfl, if_pos rfl]
        omega
    | false => rfl
  have hshown : (if (if hinted s then indent else 0) == 0 then
      max (max deepest ((i : Int) + 1).toNat) 1 else if hinted s then indent else 0) = indent := by
    cases hh : hinted s with
    | true =>
        rw [if_neg (by simp; omega)]
        rfl
    | false =>
        rw [hgiven hh, if_pos (by simp)]
        omega
  refine ⟨p', ?_, hcolumn⟩
  rw [hliteral, block?]
  simp only [List.cons_append, List.append_assoc, Cursor.skip_succ, Cursor.skip_zero] at hheader ⊢
  rw [hheader]
  simp only [Option.bind_eq_bind, Option.bind_some, hincrement]
  rw [hbreaks]
  simp only [Option.bind_some, hshown]
  rw [hlines]
  simp only [Option.bind_some, hchomp]

/-- One that begins with a tab is not read. -/
theorem block?_literal_tab (indent i : Nat) {s : List Char} (htab : s.head? = some '\t') (p : Pos)
    (rest : List Char) :
    block? true i ⟨p, literal indent s ++ rest⟩ = none := by
  obtain ⟨s, rfl⟩ := List.head?_eq_some_iff.1 htab
  have hhead : indented indent true ('\t' :: s) = spaces indent ++ '\t' :: indented indent false s := by
    simp [indented, endsLine, isBreak, spaces]
  have hliteral : literal indent ('\t' :: s) ++ rest = '|' :: ([] ++ (Chomping.of ('\t' :: s)).mark ++
      '\n' :: (spaces indent ++ '\t' :: (indented indent false s ++ rest))) := by
    rw [literal, literalHeader_eq, hhead]
    simp [hinted, endsLine, isBreak, isSpace]
  have hheader := blockHeader?_marks false (Chomping.of ('\t' :: s)) (b := '\n') (by decide) (p.next '|')
    (spaces indent ++ '\t' :: (indented indent false s ++ rest))
  have hspaces : (((spaces indent ++ '\t' :: (indented indent false s ++ rest)).take
      (spaces indent ++ '\t' :: (indented indent false s ++ rest)).length).takeWhile (· == ' ')).length =
      indent := by
    refine length_takeWhile_spaces (by simp) (.inr fun x hx => ?_)
    obtain rfl := Option.some.inj hx
    rfl
  have hskip : ∀ q, Cursor.skip indent ⟨q, spaces indent ++ '\t' :: (indented indent false s ++ rest)⟩ =
      ⟨q.along (spaces indent), '\t' :: (indented indent false s ++ rest)⟩ := by
    intro q
    have := Cursor.skip_append (p := q) (s := spaces indent) (r := '\t' :: (indented indent false s ++ rest))
    rwa [length_spaces] at this
  rw [hliteral, block?, Cursor.skip_succ, Cursor.skip_zero]
  change (blockHeader? ⟨p.next '|', (if false = true then ['4'] else []) ++ _ ++ _⟩).bind _ = none
  rw [hheader]
  simp only [Option.bind_some]
  rw [blockBreaks]
  simp only [beq_self_eq_true, if_true, hspaces, hskip, Bool.true_or, Bool.and_self, Bool.false_eq_true, if_false]
  rfl

end Restyle.Yaml
