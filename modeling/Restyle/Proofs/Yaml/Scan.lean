import Restyle.Proofs.Yaml.Literal
import Restyle.Proofs.Yaml.Plain
import Restyle.Proofs.Yaml.Quoted

/-!
# Tokens of lines

What the scanner finds on the lines of a block: a key, and behind it a scalar, whichever way that is
written.  The end of a block is found only on the next line, from its column, so a line is followed up to
the place where the scanner looks at the next one (`Paused`).  The lines that tokens stand on are left
out.

* `scan_key`: a key, with the start of a mapping if it is the first one.
* `ReadsAs`: what stands behind a key or a hyphen is read as such tokens, whatever the next line is.
-/

namespace Restyle.Yaml

namespace Scanner

/-! ### Steps -/

/-- The scanner at its next token, with all blocks ended that end there. -/
def ready (s : Scanner) : Scanner :=
  let r := skipBlank (s.cursor.rest.length + 1) s
  r.unroll r.column

/-- A run goes on with the next step while there is text. -/
theorem run_of_next {s t : Scanner} {fuel : Nat} (hnext : s.ready.next = some t)
    (hne : s.ready.cursor.rest ≠ []) : run (fuel + 1) s = run fuel t := by
  have hmore : s.ready.cursor.rest.isEmpty = false := by simpa using hne
  simp only [ready] at hnext hmore
  simp only [run, hnext, hmore, Bool.false_eq_true, if_false]

/-- A run ends with the step that finds no more text. -/
theorem run_of_last {s t : Scanner} {fuel : Nat} (hnext : s.ready.next = some t)
    (hnil : s.ready.cursor.rest = []) : run (fuel + 1) s = (t.tokens, false) := by
  have hmore : s.ready.cursor.rest.isEmpty = true := by simpa using hnil
  simp only [ready] at hnext hmore
  simp only [run, hnext, hmore, if_true]

/-- A run ends with the first step that fails. -/
theorem run_of_fault {s : Scanner} {fuel : Nat} (hnext : s.ready.next = none) :
    run (fuel + 1) s = (s.tokens, true) := by
  simp only [ready] at hnext
  simp only [run, hnext]

/-- Steps of the scanner, each of which takes something of the text. -/
inductive Steps : Scanner → Scanner → Prop where
  | refl (s : Scanner) : Steps s s
  | head {s t u : Scanner} (hne : s.ready.cursor.rest ≠ []) (hnext : s.ready.next = some t)
      (hlen : t.cursor.rest.length < s.cursor.rest.length) (h : Steps t u) : Steps s u

/-- A step that leaves less text. -/
theorem Steps.one {s u t : Scanner} (hready : s.ready = u) (hne : u.cursor.rest ≠ []) (hnext : u.next = some t)
    (hlen : t.cursor.rest.length < s.cursor.rest.length) : Steps s t :=
  .head (hready ▸ hne) (hready ▸ hnext) hlen (.refl t)

theorem Steps.trans {s t u : Scanner} (h : Steps s t) (h' : Steps t u) : Steps s u := by
  induction h with
  | refl => exact h'
  | head hne hnext hlen _ ih => exact .head hne hnext hlen (ih h')

/-- **A run goes on from where steps lead.** -/
theorem Steps.run {s t : Scanner} (h : Steps s t) {n : Nat} (hn : s.cursor.rest.length < n) :
    ∃ m, t.cursor.rest.length < m ∧ Scanner.run n s = Scanner.run m t := by
  induction h generalizing n with
  | refl => exact ⟨n, hn, rfl⟩
  | head hne hnext hlen _ ih =>
      obtain ⟨n, rfl⟩ := Nat.exists_eq_add_one.2 (Nat.zero_lt_of_lt hn)
      obtain ⟨m, hm, hrun⟩ := ih (n := n) (by omega)
      exact ⟨m, hm, (run_of_next hnext hne).trans hrun⟩

/-! ### Blocks -/

/-- The columns of the open blocks, and the tokens found, last first.  No key is missing. -/
structure Has (s : Scanner) (indents : List Int) (kinds : List Token.Kind) : Prop where
  indents : s.indent :: s.indents = indents
  kinds : s.tokens.map Token.kind = kinds
  count : s.count = s.tokens.length
  keys : ∃ k, s.keys = [k] ∧ ∀ key ∈ k, key.required = false

variable {s : Scanner} {i : Int} {indents : List Int} {kinds : List Token.Kind}

theorem Has.inFlow (h : s.Has indents kinds) : s.inFlow = false := by
  obtain ⟨k, hk, -⟩ := h.keys
  simp [Scanner.inFlow, hk]

theorem Has.indent (h : s.Has (i :: indents) kinds) : s.indent = i :=
  (List.cons.inj h.indents).1

/-- A token is added to those found. -/
theorem Has.emit (h : s.Has indents kinds) (kind : Token.Kind) (line : Nat) :
    (s.emit kind line).Has indents (kind :: kinds) where
  indents := h.indents
  kinds := congrArg (kind :: ·) h.kinds
  count := congrArg (· + 1) h.count
  keys := h.keys

/-- A block at this column is still open. -/
theorem unroll_of_le (hflow : s.inFlow = false) {column : Int} (hi : s.indent ≤ column) :
    s.unroll column = s := by
  rw [Scanner.unroll, hflow, if_neg Bool.false_ne_true]
  cases s.indents with
  | nil => rfl
  | cons j indents => rw [unrollFrom, if_neg (by omega)]

/-- No block is closed by a deeper column. -/
theorem Has.unroll (h : s.Has (i :: indents) kinds) {column : Int} (hi : i ≤ column) :
    s.unroll column = s :=
  unroll_of_le h.inFlow (h.indent ▸ hi)

/-- One further right is ended. -/
theorem Has.unroll_lt {j : Int} (h : s.Has (i :: j :: indents) kinds) {column : Int} (hi : column < i) :
    ∃ t : Scanner, t.Has (j :: indents) (.blockEnd :: kinds) ∧ t.cursor = s.cursor ∧
      t.keyAllowed = s.keyAllowed ∧ s.unroll column = t.unroll column := by
  obtain ⟨hindent, hrest⟩ := List.cons.inj h.indents
  refine ⟨Scanner.emit { s with indent := j, indents := indents } .blockEnd s.cursor.pos.line,
    ⟨rfl, congrArg (Token.Kind.blockEnd :: ·) h.kinds, congrArg (· + 1) h.count, h.keys⟩, rfl, rfl, ?_⟩
  have hflow := h.inFlow
  rw [Scanner.unroll, hflow, if_neg Bool.false_ne_true, hrest, unrollFrom, if_pos (by rw [hindent]; exact hi)]
  change _ = if s.inFlow then _ else _
  rw [hflow, if_neg Bool.false_ne_true]
  rfl

/-! ### Simple keys -/

theorem with_keys {keys : List (Option SimpleKey)} (h : s.keys = keys) : { s with keys := keys } = s := by
  rw [← h]

theorem Has.dropKey (h : s.Has indents kinds) : s.dropKey = some { s with keys := [none] } := by
  obtain ⟨k, hk, hrequired⟩ := h.keys
  cases k with
  | none => rw [with_keys hk, Scanner.dropKey, hk]
  | some key => simp [Scanner.dropKey, hk, hrequired key rfl]

/-- The place of a key is kept where one may stand. -/
theorem Has.saveKey (h : s.Has indents kinds) (hallowed : s.keyAllowed = true) :
    s.saveKey = some { s with keys := [some ⟨s.indent == s.column, s.count, s.cursor.pos⟩] } := by
  have hflow : Scanner.inFlow { s with keys := [none] } = false := rfl
  rw [Scanner.saveKey, if_pos hallowed, h.dropKey]
  simp [hflow]
  rfl

/-- Behind the start of its block nothing has to be a key. -/
theorem Has.saveKey_inside (h : s.Has indents kinds) (hcolumn : s.indent < s.column) :
    ∃ k, s.saveKey = some { s with keys := [k] } ∧ ∀ key ∈ k, key.required = false := by
  by_cases hallowed : s.keyAllowed = true
  · refine ⟨_, h.saveKey hallowed, fun key hkey => ?_⟩
    obtain rfl := Option.some.inj hkey
    exact beq_eq_false_iff_ne.2 (Int.ne_of_lt hcolumn)
  · obtain ⟨k, hk, hrequired⟩ := h.keys
    refine ⟨k, ?_, hrequired⟩
    rw [Scanner.saveKey, if_neg hallowed, with_keys hk]

/-! ### Between tokens -/

section

variable {n : Nat} {body : List Char} (fuel : Nat)

/-- Spaces are passed up to what rests. -/
theorem skipBlank_spaces (hbody : Rests body) (hrest : s.cursor.rest = spaces n ++ body) :
    skipBlank (fuel + 1) s = { s with cursor := ⟨s.cursor.pos.along (spaces n), body⟩ } := by
  have hmark : ∀ c ∈ (spaces n ++ body).head?, c ≠ '\ufeff' := by
    cases n with
    | zero => exact fun c hc => (isRest_spec (hbody c hc)).2.2.2
    | succ n =>
        intro c hc
        obtain rfl := Option.some.inj hc
        decide
  have hbom : (s.cursor.pos.column == 0 && s.cursor.rest.head? == some '\ufeff') = false := by
    rw [hrest, Bool.and_eq_false_iff]
    refine .inr (beq_eq_false_iff_ne.2 fun h => hmark _ h rfl)
  have hstop : Cursor.StopsAt (fun c => c == ' ' || ((s.inFlow || !s.keyAllowed) && c == '\t')) body := by
    intro c hc
    have hgap := (isRest_spec (hbody c hc)).1
    simp only [isGap, Bool.or_eq_false_iff] at hgap
    simp [hgap.1, hgap.2]
  have hskip : s.cursor.skipWhile (fun c => c == ' ' || ((s.inFlow || !s.keyAllowed) && c == '\t')) =
      ⟨s.cursor.pos.along (spaces n), body⟩ := by
    have := Cursor.skipWhile_append (p := s.cursor.pos) (s := spaces n)
      (fun c hc => by rw [eq_space_of_mem hc]; rfl) hstop
    rwa [← hrest] at this
  have hhash : (body.head? == some '#') = false :=
    beq_eq_false_iff_ne.2 fun h => (isRest_spec (hbody _ h)).2.2.1 rfl
  simp only [skipBlank, hbom, Bool.false_eq_true, if_false, hskip, hhash]
  cases body with
  | nil => rfl
  | cons c body =>
      have hbreak := (isRest_spec (hbody c rfl)).2.1
      simp only [hbreak, Bool.false_eq_true, if_false]

theorem skipBlank_rest (hrest : Rests s.cursor.rest) : skipBlank (fuel + 1) s = s :=
  skipBlank_spaces fuel (n := 0) hrest rfl

/-- A line end and the spaces behind it are passed. -/
theorem skipBlank_feed (hflow : s.inFlow = false) (hbody : Rests body)
    (hrest : s.cursor.rest = '\n' :: (spaces n ++ body)) :
    skipBlank (fuel + 2) s = { s with
      cursor := ⟨(s.cursor.pos.next '\n').along (spaces n), body⟩, keyAllowed := true } := by
  have hskip : s.cursor.skipWhile (fun c => c == ' ' || ((s.inFlow || !s.keyAllowed) && c == '\t')) =
      s.cursor := by
    rw [Cursor.skipWhile, hrest, Cursor.skipWhileFrom]
    simp [← hrest]
  have hbom : (s.cursor.rest.head? == some '\ufeff') = false := by rw [hrest]; rfl
  have hhash : (s.cursor.rest.head? == some '#') = false := by rw [hrest]; rfl
  have hone : s.cursor.skip 1 = ⟨s.cursor.pos.next '\n', spaces n ++ body⟩ := by
    rw [← Cursor.skip_zero ⟨s.cursor.pos.next '\n', _⟩, ← Cursor.skip_succ, ← hrest]
  rw [skipBlank]
  simp only [hbom, Bool.and_false, Bool.false_eq_true, if_false, hskip, hhash]
  simp only [hrest, hone]
  rw [if_pos (by decide), hflow, Bool.not_false, Bool.or_true, skipBlank_spaces fuel (n := n) hbody rfl]

end

/-- The scanner is about to look at the next line, at this column: no token of it is found yet, but all
blocks that end before it may count as ended. -/
def Paused (s : Scanner) (body : List Char) (column : Nat) (indents : List Int)
    (kinds : List Token.Kind) : Prop :=
  body.length ≤ s.cursor.rest.length ∧ ∃ u : Scanner, s.ready = u.unroll column ∧ u.Has indents kinds ∧
    u.cursor.rest = body ∧ u.cursor.pos.column = column ∧ u.keyAllowed = true

section

variable {column : Nat} {body : List Char}

/-- A shallower column closes a block. -/
theorem Paused.close {j : Int} (h : s.Paused body column (i :: j :: indents) kinds)
    (hi : (column : Int) < i) : s.Paused body column (j :: indents) (.blockEnd :: kinds) := by
  obtain ⟨hlen, u, hready, hu, hrest, hcolumn, hallowed⟩ := h
  obtain ⟨v, hv, hcursor, hkeys, hunroll⟩ := hu.unroll_lt hi
  exact ⟨hlen, v, hready.trans hunroll, hv, hcursor ▸ hrest, hcursor ▸ hcolumn, hkeys.trans hallowed⟩

theorem Has.paused_rest (h : s.Has indents kinds) (hbody : Rests body) (hrest : s.cursor.rest = body)
    (hcolumn : s.cursor.pos.column = column) (hallowed : s.keyAllowed = true) :
    s.Paused body column indents kinds := by
  refine ⟨Nat.le_of_eq (congrArg List.length hrest).symm, s, ?_, h, hrest, hcolumn, hallowed⟩
  simp only [ready, skipBlank_rest _ (hrest ▸ hbody), Scanner.column, hcolumn]

/-- Behind a line end the scanner pauses before the next token. -/
theorem Has.paused_feed (h : s.Has indents kinds) (hbody : Rests body)
    (hrest : s.cursor.rest = '\n' :: (spaces column ++ body)) : s.Paused body column indents kinds := by
  obtain ⟨fuel, hfuel⟩ : ∃ fuel, s.cursor.rest.length + 1 = fuel + 2 := by
    rw [hrest]
    exact ⟨_, rfl⟩
  have hskip := skipBlank_feed fuel h.inFlow hbody hrest
  have hcolumn : ((s.cursor.pos.next '\n').along (spaces column)).column = column := by
    rw [column_along_spaces, Pos.column_next_break (by decide), Nat.zero_add]
  refine ⟨?_, { s with cursor := ⟨(s.cursor.pos.next '\n').along (spaces column), body⟩, keyAllowed := true },
    ?_, ⟨h.indents, h.kinds, h.count, h.keys⟩, rfl, hcolumn, rfl⟩
  · rw [hrest]
    simp only [List.length_cons, List.length_append]
    omega
  · simp only [ready, hfuel, hskip, Scanner.column]
    rw [hcolumn]

end

/-! ### Plain scalars and keys -/

/-- With this a plain scalar begins in a block. -/
def BeginsPlain (c : Char) (rest : List Char) : Prop :=
  (isIndicator c = false ∧ isGap c = false ∧ isBreak c = false) ∨
    ((c = '-' ∨ c = '?' ∨ c = ':') ∧ startsBlank rest = false)

/-- What begins plainly is read as a plain scalar. -/
theorem next_plain {c : Char} {rest : List Char} (hflow : s.inFlow = false) (hrest : s.cursor.rest = c :: rest)
    (hmark : s.cursor.pos.column = 0 → startsDocumentMark (c :: rest) = false) (hc : BeginsPlain c rest) :
    s.next = s.plainScalar := by
  have hdoc : (s.cursor.pos.column == 0 && startsDocumentMark (c :: rest)) = false := by
    by_cases h : s.cursor.pos.column = 0
    · rw [hmark h, Bool.and_false]
    · simp [h]
  -- the first character is none of those that begin another kind of token
  have hother : ∀ x ∈ ['%', '[', ']', '{', '}', ',', '*', '&', '!', '|', '>', '\'', '"'], (c == x) = false := by
    intro x hx
    have hmark : isIndicator x = true ∧ x ≠ '-' ∧ x ≠ '?' ∧ x ≠ ':' := by
      revert x
      exact List.all_iff_forall_prop.1 (by decide)
    refine beq_eq_false_iff_ne.2 ?_
    rintro rfl
    rcases hc with ⟨hind, -⟩ | ⟨rfl | rfl | rfl, -⟩
    · rw [hmark.1] at hind
      cases hind
    · exact hmark.2.1 rfl
    · exact hmark.2.2.1 rfl
    · exact hmark.2.2.2 rfl
  have hmarks : (c == '-' && startsBlank rest) = false ∧ (c == '?' && startsBlank rest) = false ∧
      (c == ':' && startsBlank rest) = false := by
    rcases hc with ⟨hind, -⟩ | ⟨-, hblank⟩
    · have hne : ∀ x : Char, isIndicator x = true → (c == x) = false := by
        intro x hx
        refine beq_eq_false_iff_ne.2 ?_
        rintro rfl
        rw [hx] at hind
        cases hind
      simp [hne '-' (by decide), hne '?' (by decide), hne ':' (by decide)]
    · simp [hblank]
  have hplain : startsPlain false (c :: rest) = true := by
    rcases hc with ⟨hind, hgap, hbreak⟩ | ⟨rfl | rfl | rfl, hblank⟩
    · simp [startsPlain, hind, hgap, hbreak]
    · cases rest with
      | nil => cases hblank
      | cons d rest =>
          change (isGap d || isBreak d) = false at hblank
          rw [Bool.or_eq_false_iff] at hblank
          simp [startsPlain, hblank.1]
    · simp [startsPlain, hblank]
    · simp [startsPlain, hblank]
  simp only [next, hrest, hflow, Bool.false_or, hdoc, hmarks, hplain, hother '%' (by decide), hother '[' (by decide),
    hother ']' (by decide), hother '{' (by decide), hother '}' (by decide), hother ',' (by decide),
    hother '*' (by decide), hother '&' (by decide), hother '!' (by decide), hother '|' (by decide),
    hother '>' (by decide), hother '\'' (by decide), hother '"' (by decide), Bool.and_false, Bool.false_and,
    Bool.false_eq_true, if_false, if_true]

/-- A letter or an underscore. -/
def isKeyChar (c : Char) : Bool :=
  c.isAlpha || c == '_'

/-- A name that can be a key. -/
structure IsKey (name : List Char) : Prop where
  ne_nil : name ≠ []
  chars : ∀ c ∈ name, isKeyChar c = true
  length_le : name.length ≤ 1024

instance (name : List Char) : Decidable (IsKey name) :=
  decidable_of_iff (name ≠ [] ∧ name.all isKeyChar = true ∧ name.length ≤ 1024)
    ⟨fun h => ⟨h.1, List.all_eq_true.1 h.2.1, h.2.2⟩,
      fun h => ⟨h.ne_nil, List.all_eq_true.2 h.chars, h.length_le⟩⟩

theorem ne_of_isKeyChar {c : Char} (h : isKeyChar c = true) {x : Char} (hx : isKeyChar x = false) : c ≠ x := by
  rintro rfl
  rw [h] at hx
  cases hx

/-- What a character of a key is not. -/
theorem isKeyChar_spec {c : Char} (h : isKeyChar c = true) : isNameChar c = true ∧ isRest c = true ∧
    isGap c = false ∧ isBreak c = false ∧ isIndicator c = false := by
  have hgap : isGap c = false := by
    simp [isGap, ne_of_isKeyChar h (by decide : isKeyChar ' ' = false),
      ne_of_isKeyChar h (by decide : isKeyChar '\t' = false)]
  have hbreak : isBreak c = false := by
    simp only [isBreak, Bool.or_eq_false_iff, beq_eq_false_iff_ne]
    exact ⟨⟨ne_of_isKeyChar h (by decide), ne_of_isKeyChar h (by decide)⟩, ne_of_isKeyChar h (by decide)⟩
  refine ⟨?_, ?_, hgap, hbreak, ?_⟩
  · simp only [isKeyChar, isNameChar, Char.isAlphanum, Bool.or_eq_true] at h ⊢
    rcases h with h | h
    · exact .inl (.inl (.inl h))
    · exact .inr h
  · rw [isRest, hgap, hbreak, beq_eq_false_iff_ne.2 (ne_of_isKeyChar h (by decide : isKeyChar '#' = false)),
      beq_eq_false_iff_ne.2 (ne_of_isKeyChar h (by decide : isKeyChar '\ufeff' = false))]
    rfl
  · rw [isIndicator, Bool.eq_false_iff, Ne, List.contains_iff_mem]
    intro hmem
    have hno : ∀ x ∈ "-?:,[]\x7b\x7d#&*!|>'\"%@\x60".toList, isKeyChar x = false :=
      List.all_iff_forall_prop.1 (by decide)
    rw [hno c hmem] at h
    cases h

/-- A block is open at a column, or begins there. -/
inductive Opens (start : Token.Kind) (column : Int) :
    List Int → List Token.Kind → List Int → List Token.Kind → Prop where
  | same {outer : List Int} {found : List Token.Kind} :
      Opens start column (column :: outer) found (column :: outer) found
  | deeper {j : Int} {outer : List Int} {found : List Token.Kind} (h : j < column) :
      Opens start column (j :: outer) found (column :: j :: outer) (start :: found)

/-- Opening a block leaves its column on top. -/
theorem Opens.head {start : Token.Kind} {column : Int} {indents indents' : List Int} {kinds kinds' : List Token.Kind}
    (h : Opens start column indents kinds indents' kinds') :
    (∃ i rest, indents = i :: rest ∧ i ≤ column) ∧ ∃ rest, indents' = column :: rest := by
  cases h with
  | same => exact ⟨⟨_, _, rfl, Int.le_refl _⟩, _, rfl⟩
  | deeper h => exact ⟨⟨_, _, rfl, Int.le_of_lt h⟩, _, rfl⟩

/-- A key that may begin here was put in front of its scalar, with the start of a mapping. -/
theorem colon_of_key {u : Scanner} {column : Nat} {indents' : List Int} {kinds' : List Token.Kind}
    (hu : u.Has indents kinds) (hcolumn : u.cursor.pos.column = column)
    (hopens : Opens .blockMappingStart column indents kinds indents' kinds') {p : Pos}
    (hline : p.line = u.cursor.pos.line) (hindex : p.index ≤ u.cursor.pos.index + 1024) (name rest : List Char)
    (required allowed : Bool) (line : Nat) :
    ∃ t : Scanner, (Scanner.emit { u with
        cursor := ⟨p, ':' :: rest⟩, keys := [some ⟨required, u.count, u.cursor.pos⟩], keyAllowed := allowed }
          (.scalar name .plain) line).colon = some t ∧
      t.Has indents' (.value :: .scalar name .plain :: .key :: kinds') ∧ t.cursor = ⟨p.next ':', rest⟩ := by
  have hfresh : SimpleKey.isStale ⟨required, u.count, u.cursor.pos⟩ p = false := by
    simp [SimpleKey.isStale, hline]
    omega
  have hcount : u.count + 1 - u.count = 1 := by omega
  have hcount' : u.count + 1 + 1 - u.count = 2 := by omega
  simp only [colon, simpleKey?, Scanner.emit, hfresh, Bool.false_eq_true, if_false, Option.bind_eq_bind,
    Option.bind_some, Scanner.insert, hcount, List.take_succ_cons, List.take_zero, List.drop_succ_cons,
    List.drop_zero, List.cons_append, List.nil_append, Scanner.roll, Scanner.inFlow, List.length_singleton,
    Nat.lt_irrefl, decide_false, Bool.not_false, Bool.true_and, decide_eq_true_eq, hcount', hcolumn]
  cases hopens with
  | same =>
      rw [if_neg (by rw [hu.indent]; exact Int.lt_irrefl _)]
      refine ⟨_, rfl, ⟨hu.indents, ?_, ?_, _, rfl, by simp⟩, rfl⟩
      · simp [Scanner.mark, Scanner.emit, hu.kinds]
      · simp [Scanner.mark, Scanner.emit, hu.count]
  | deeper h =>
      rw [if_pos (by rw [hu.indent]; exact h)]
      refine ⟨_, rfl, ⟨congrArg (_ :: ·) hu.indents, ?_, ?_, _, rfl, by simp⟩, rfl⟩
      · simp [Scanner.mark, Scanner.emit, hu.kinds]
      · simp [Scanner.mark, Scanner.emit, hu.count]

/-- The colon behind a key is read next. -/
theorem steps_colon {mid t : Scanner} {p : Pos} {rest : List Char} (hcursor : mid.cursor = ⟨p, ':' :: rest⟩)
    (hflow : mid.inFlow = false) (hindent : mid.indent ≤ mid.column) (hrest : startsBlank rest = true)
    (hcolon : mid.colon = some t) (ht : t.cursor = ⟨p.next ':', rest⟩) : Steps mid t := by
  have hrests : Rests mid.cursor.rest := by
    rw [hcursor]
    exact .cons (by decide)
  have hready : mid.ready = mid := by
    rw [ready, skipBlank_rest _ hrests]
    exact unroll_of_le hflow hindent
  have hnext : mid.next = mid.colon := by
    simp [Scanner.next, hcursor, hflow, hrest, startsDocumentMark_cons]
  refine .one hready (by rw [hcursor]; simp) (hnext.trans hcolon) ?_
  rw [ht, hcursor]
  exact Nat.lt_succ_self _

/-- **A key**, and the start of the mapping if it is the first one in it. -/
theorem scan_key {column : Nat} {name rest : List Char} {indents' : List Int} {kinds' : List Token.Kind}
    (h : s.Paused (name ++ ':' :: rest) column indents kinds) (hname : IsKey name)
    (hopens : Opens .blockMappingStart column indents kinds indents' kinds') (hrest : startsBlank rest = true) :
    ∃ t : Scanner, Steps s t ∧ t.Has indents' (.value :: .scalar name .plain :: .key :: kinds') ∧
      t.cursor.rest = rest ∧ column < t.cursor.pos.column := by
  obtain ⟨hlen, u, hready, hu, hurest, hcolumn, hallowed⟩ := h
  obtain ⟨⟨i, outer, rfl, hi⟩, -⟩ := hopens.head
  rw [hu.unroll hi] at hready
  obtain ⟨c, name', rfl⟩ := List.exists_cons_of_ne_nil hname.ne_nil
  obtain ⟨-, -, hgap, hbreak, hindicator⟩ := isKeyChar_spec (hname.chars c List.mem_cons_self)
  have hmark : startsDocumentMark (c :: (name' ++ ':' :: rest)) = false :=
    startsDocumentMark_cons (ne_of_isKeyChar (hname.chars c List.mem_cons_self) (by decide))
      (ne_of_isKeyChar (hname.chars c List.mem_cons_self) (by decide)) _
  have hplain := plain?_colon (u.indent + 1) u.cursor.pos hname.ne_nil
    (fun x hx => (isKeyChar_spec (hname.chars x hx)).1) hrest
  have hnext := next_plain hu.inFlow hurest (fun _ => hmark) (.inl ⟨hindicator, hgap, hbreak⟩)
  have hcursor : u.cursor = ⟨u.cursor.pos, c :: name' ++ ':' :: rest⟩ := by rw [← hurest]
  have hkey : u.plainScalar = some (Scanner.emit { u with
      cursor := ⟨u.cursor.pos.along (c :: name'), ':' :: rest⟩
      keys := [some ⟨u.indent == u.column, u.count, u.cursor.pos⟩]
      keyAllowed := false } (.scalar (c :: name') .plain) u.cursor.pos.line) := by
    rw [← hcursor] at hplain
    rw [Scanner.plainScalar, hu.saveKey hallowed]
    change (plain? false (u.indent + 1) u.cursor).bind _ = _
    rw [hplain]
    rfl
  have hline : ∀ x ∈ c :: name', isBreak x = false := fun x hx =>
    (isKeyChar_spec (hname.chars x hx)).2.2.2.1
  have halong := Pos.along_of_no_break (p := u.cursor.pos) hline
  obtain ⟨t, hcolon, ht, htcursor⟩ := colon_of_key hu hcolumn hopens (p := u.cursor.pos.along (c :: name'))
    (by rw [halong]) (by rw [halong]; exact Nat.add_le_add_left hname.length_le _) (c :: name') rest
    (u.indent == u.column) false u.cursor.pos.line
  -- the scanner between the name and the colon
  generalize hmid : Scanner.emit _ _ _ = mid at hkey hcolon
  have hmidcursor : mid.cursor = ⟨u.cursor.pos.along (c :: name'), ':' :: rest⟩ := by rw [← hmid]; rfl
  have hmidflow : mid.inFlow = false := by rw [← hmid]; rfl
  have hmidindent : mid.indent ≤ mid.column := by
    have hindent : mid.indent = i := by rw [← hmid]; exact hu.indent
    rw [hindent, Scanner.column, hmidcursor, halong, hcolumn]
    dsimp only
    omega
  have hname : Steps s mid := by
    refine .one hready (by rw [hurest]; simp) (hnext.trans hkey) ?_
    simp only [List.length_append, List.length_cons] at hlen
    rw [hmidcursor, List.length_cons]
    omega
  refine ⟨t, hname.trans (steps_colon hmidcursor hmidflow hmidindent hrest hcolon htcursor), ht,
    by rw [htcursor], ?_⟩
  rw [htcursor, halong, Pos.next_of_not_break (by decide), hcolumn]
  dsimp only
  omega

/-! ### Values -/

/-- **What stands behind a key or a hyphen** is read as these tokens, whatever the next line is, as long as
that one is not indented further than the block. -/
def ReadsAs (parent : Nat) (line : List Char) (read : List Token.Kind) : Prop :=
  ∀ ⦃s : Scanner⦄ ⦃outer : List Int⦄ ⦃found : List Token.Kind⦄ ⦃column : Nat⦄ ⦃body : List Char⦄,
    s.Has (parent :: outer) found → parent < s.cursor.pos.column →
    s.cursor.rest = ' ' :: (line ++ (spaces column ++ body)) → column ≤ parent → Rests body →
    ∃ t : Scanner, Steps s t ∧ t.Paused body column (parent :: outer) (read.reverse ++ found)

section

variable {parent : Nat} {outer : List Int} {found : List Token.Kind}

/-- The scanner at a value: it stands inside of its block. -/
theorem Has.exists_ready (h : s.Has (parent :: outer) found) (hcolumn : parent < s.cursor.pos.column)
    {text : List Char} (hrest : s.cursor.rest = ' ' :: text) (htext : Rests text) :
    ∃ u : Scanner, s.ready = u ∧ u.Has (parent :: outer) found ∧ u.cursor.rest = text ∧
      parent < u.cursor.pos.column := by
  have hskip := skipBlank_spaces s.cursor.rest.length (n := 1) htext hrest
  have hu : Scanner.Has { s with cursor := ⟨s.cursor.pos.along (spaces 1), text⟩ } (parent :: outer) found :=
    ⟨h.indents, h.kinds, h.count, h.keys⟩
  have hnext : parent < (s.cursor.pos.along (spaces 1)).column := by
    rw [column_along_spaces]
    omega
  refine ⟨_, ?_, hu, rfl, hnext⟩
  rw [ready, hskip]
  exact unroll_of_le hu.inFlow (by rw [hu.indent, Scanner.column]; dsimp only; omega)

theorem Has.inside (h : s.Has (parent :: outer) found) (hcolumn : parent < s.cursor.pos.column) :
    s.indent < s.column := by
  rw [h.indent, Scanner.column]
  omega

/-- A plain scalar is added as a token. -/
theorem Has.plainScalar (h : s.Has (parent :: outer) found) (hcolumn : parent < s.cursor.pos.column)
    {text : List Char} {k : Cursor} {broken : Bool}
    (hplain : plain? false ((parent : Int) + 1) s.cursor = some (text, k, broken)) :
    ∃ t : Scanner, s.plainScalar = some t ∧ t.Has (parent :: outer) (.scalar text .plain :: found) ∧
      t.cursor = k ∧ t.keyAllowed = broken := by
  obtain ⟨key, hsave, hrequired⟩ := h.saveKey_inside (h.inside hcolumn)
  have hu : Scanner.Has { s with cursor := k, keys := [key], keyAllowed := broken } (parent :: outer) found :=
    ⟨h.indents, h.kinds, h.count, key, rfl, hrequired⟩
  refine ⟨_, ?_, hu.emit (.scalar text .plain) s.cursor.pos.line, rfl, rfl⟩
  rw [Scanner.plainScalar, hsave]
  change (plain? false (s.indent + 1) s.cursor).bind _ = _
  rw [h.indent, hplain]
  rfl

/-- So is a quoted one, with its style. -/
theorem Has.quotedScalar (h : s.Has (parent :: outer) found) (hcolumn : parent < s.cursor.pos.column)
    (style : ScalarStyle) {text : List Char} {k : Cursor}
    (hquoted : quoted? (style == .doubleQuoted) s.cursor = some (text, k)) :
    ∃ t : Scanner, s.quotedScalar style = some t ∧ t.Has (parent :: outer) (.scalar text style :: found) ∧
      t.cursor = k := by
  obtain ⟨key, hsave, hrequired⟩ := h.saveKey_inside (h.inside hcolumn)
  have hu : Scanner.Has { s with cursor := k, keys := [key], keyAllowed := false } (parent :: outer) found :=
    ⟨h.indents, h.kinds, h.count, key, rfl, hrequired⟩
  refine ⟨_, ?_, hu.emit (.scalar text style) s.cursor.pos.line, rfl⟩
  rw [Scanner.quotedScalar, hsave]
  change (quoted? (style == .doubleQuoted) s.cursor).bind _ = _
  rw [hquoted]
  rfl

theorem Has.blockScalar (h : s.Has (parent :: outer) found) (style : ScalarStyle) {text : List Char} {k : Cursor}
    (hblock : block? (style == .literal) parent s.cursor = some (text, k)) :
    ∃ t : Scanner, s.blockScalar style = some t ∧ t.Has (parent :: outer) (.scalar text style :: found) ∧
      t.cursor = k ∧ t.keyAllowed = true := by
  have hu : Scanner.Has { s with cursor := k, keys := [none], keyAllowed := true } (parent :: outer) found :=
    ⟨h.indents, h.kinds, h.count, none, rfl, by simp⟩
  refine ⟨_, ?_, hu.emit (.scalar text style) s.cursor.pos.line, rfl, rfl⟩
  rw [Scanner.blockScalar, h.dropKey]
  change (block? (style == .literal) s.indent s.cursor).bind _ = _
  rw [h.indent, hblock]
  rfl

/-- What may be written plainly begins plainly. -/
theorem beginsPlain_of_allowsPlain {c : Char} {text : List Char} (h : Printer.allowsPlain (c :: text) = true)
    (rest : List Char) : BeginsPlain c (text ++ '\n' :: rest) ∧ isRest c = true := by
  obtain ⟨hedge, hends, htab, hspecial, hcuts⟩ := allowsPlain_spec h
  have hgap : isGap c = false := by
    have hspace : Printer.isSpace c = false := by
      simp only [Printer.edgeIs, List.head?_cons, Bool.or_eq_false_iff] at hedge
      simpa using hedge.1
    have hc : c ≠ '\t' := fun hc => htab (by simp [hc])
    simp only [Printer.isSpace, beq_eq_false_iff_ne] at hspace
    simp [isGap, hspace, hc]
  have hbreak := isBreak_eq_false (hends c List.mem_cons_self)
  have hbom : c ≠ '\ufeff' := by
    rintro rfl
    have := isShown_of_not_special hspecial (c := '\ufeff') List.mem_cons_self
    revert this
    decide
  simp only [Printer.cutsPlain, Bool.or_eq_false_iff] at hcuts
  obtain ⟨-, ⟨hmarks, hgapped⟩, -⟩ := hcuts
  have hhash : c ≠ '#' := by
    rintro rfl
    revert hmarks
    decide
  refine ⟨?_, by simp [isRest, hgap, hbreak, hhash, hbom]⟩
  -- a mark begins a scalar only when no blank follows it
  by_cases hmark : c = '-' ∨ c = '?' ∨ c = ':'
  · refine .inr ⟨hmark, startsBlank_append (fun x hx => hends x (List.mem_cons_of_mem c hx)) ?_⟩
    rcases hmark with rfl | rfl | rfl <;> simpa using hgapped
  · refine .inl ⟨?_, hgap, hbreak⟩
    rw [not_or, not_or] at hmark
    have hlist : ∀ x ∈ "-?:,[]\x7b\x7d#&*!|>'\"%@\x60".toList, x = '-' ∨ x = '?' ∨ x = ':' ∨
        x ∈ "#,[]\x7b\x7d&*!|>'\"%@\x60".toList := List.all_iff_forall_prop.1 (by decide)
    rw [isIndicator, Bool.eq_false_iff, Ne, List.contains_iff_mem]
    intro hmem
    rcases hlist c hmem with h | h | h | h
    · exact hmark.1 h
    · exact hmark.2.1 h
    · exact hmark.2.2 h
    · rw [List.contains_iff_mem.2 h] at hmarks
      cases hmarks

/-- **A plain line** is read as its scalar. -/
theorem reads_plain {text : List Char} (hne : text ≠ []) (htext : Printer.allowsPlain text = true) :
    ReadsAs parent (text ++ ['\n']) [.scalar text .plain] := by
  intro s outer found column body h hcolumn hrest hle hbody
  obtain ⟨c, tail, rfl⟩ := List.exists_cons_of_ne_nil hne
  rw [List.append_assoc, List.singleton_append] at hrest
  obtain ⟨hbegins, hc⟩ := beginsPlain_of_allowsPlain htext (spaces column ++ body)
  obtain ⟨u, hready, hu, hurest, hin⟩ := h.exists_ready hcolumn hrest (.cons hc)
  have hpos : ((parent : Int) + 1 ≤ u.cursor.pos.column) ∧ 0 < u.cursor.pos.column := by omega
  have hplain := plain?_line hne htext hpos
    (n := column) (by omega) hbody
  rw [← hurest] at hplain
  obtain ⟨t, hscalar, ht, htcursor, hallowed⟩ := hu.plainScalar hin hplain
  have hnext := next_plain hu.inFlow hurest (fun hzero => absurd hzero (Nat.ne_of_gt hpos.2)) hbegins
  refine ⟨t, .one hready (by rw [hurest]; simp) (hnext.trans hscalar) ?_, ?_⟩
  · rw [htcursor, hrest]
    simp only [List.length_cons, List.length_append]
    omega
  · refine ht.paused_rest hbody (by rw [htcursor]) ?_ hallowed
    rw [htcursor, column_along_spaces, Pos.column_next_break (by decide), Nat.zero_add]

/-- A scalar in quotes, which begins with a mark and is read back whatever follows it in the next line. -/
theorem reads_quoted (mark : Char) (style : ScalarStyle) {quote text : List Char} (hmark : isRest mark = true)
    (hnext : ∀ {u : Scanner} {rest : List Char}, u.inFlow = false → u.cursor.rest = mark :: rest →
      u.next = u.quotedScalar style)
    (hquoted : ∀ (p : Pos) (rest : List Char),
      quoted? (style == .doubleQuoted) ⟨p, mark :: quote ++ '\n' :: rest⟩ =
        some (text, ⟨p.along (mark :: quote), '\n' :: rest⟩)) :
    ReadsAs parent (mark :: quote ++ ['\n']) [.scalar text style] := by
  intro s outer found column body h hcolumn hrest hle hbody
  rw [List.append_assoc, List.singleton_append] at hrest
  obtain ⟨u, hready, hu, hurest, hin⟩ := h.exists_ready hcolumn hrest (.cons hmark)
  have hread := hquoted u.cursor.pos (spaces column ++ body)
  rw [← hurest] at hread
  obtain ⟨t, hscalar, ht, htcursor⟩ := hu.quotedScalar hin style hread
  refine ⟨t, .one hready (by rw [hurest]; simp) ((hnext hu.inFlow hurest).trans hscalar) ?_,
    ht.paused_feed hbody (by rw [htcursor])⟩
  rw [htcursor, hrest]
  simp only [List.length_cons, List.length_append]
  omega

/-- **A line in double quotes** is read as its scalar. -/
theorem reads_double (text : List Char) :
    ReadsAs parent (Printer.doubleQuoted text ++ ['\n']) [.scalar text .doubleQuoted] :=
  reads_quoted '"' .doubleQuoted (by decide)
    (fun hflow hrest => by simp [Scanner.next, hrest, startsDocumentMark_cons, hflow])
    fun p rest => quoted?_double p text ('\n' :: rest)

/-- **Lines in single quotes** are read as their scalar. -/
theorem reads_single {indent : Nat} (hindent : 0 < indent) {text : List Char}
    (htext : Printer.allowsSingle text = true) (hfeed : '\n' ∉ text) :
    ReadsAs parent (Printer.singleQuoted indent text ++ ['\n']) [.scalar text .singleQuoted] :=
  reads_quoted '\'' .singleQuoted (by decide)
    (fun hflow hrest => by simp [Scanner.next, hrest, startsDocumentMark_cons, hflow])
    fun p rest => quoted?_single hindent p htext hfeed (by simp)

theorem exists_literal (indent : Nat) (text : List Char) :
    ∃ rest, Printer.literal indent text = '|' :: rest := by
  rw [Printer.literal, literalHeader_eq]
  exact ⟨_, rfl⟩

theorem next_literal {rest : List Char} (hflow : s.inFlow = false) (hrest : s.cursor.rest = '|' :: rest) :
    s.next = s.blockScalar .literal := by
  simp [Scanner.next, hrest, startsDocumentMark_cons, hflow]

/-- **A literal block** is read as its scalar. -/
theorem reads_literal {indent : Nat} (hindent : parent < indent) {text : List Char} (hne : text ≠ [])
    (hhint : hinted text = true → indent = parent + 4) (htext : ∀ c ∈ text, isWritten c = true)
    (htab : text.head? ≠ some '\t') :
    ReadsAs parent (Printer.literal indent text ++ lastFeed text) [.scalar (readLiteral text) .literal] := by
  intro s outer found column body h hcolumn hrest hle hbody
  obtain ⟨more, hmore⟩ := exists_literal indent text
  obtain ⟨u, hready, hu, hurest, hin⟩ := h.exists_ready hcolumn hrest
    (by rw [hmore]; exact .cons (by decide))
  obtain ⟨p', hblock, hp'⟩ := block?_literal hle hindent hne hhint htext htab hbody u.cursor.pos
  rw [← hurest] at hblock
  obtain ⟨t, hscalar, ht, htcursor, hallowed⟩ := hu.blockScalar .literal hblock
  have hnext := next_literal hu.inFlow (hurest.trans (by rw [hmore]; rfl))
  refine ⟨t, .one hready (by rw [hurest, hmore]; simp) (hnext.trans hscalar) ?_,
    ht.paused_rest hbody (by rw [htcursor]) (by rw [htcursor]; exact hp') hallowed⟩
  rw [htcursor, hrest]
  simp only [List.length_cons, List.length_append]
  omega

/-- The tag for bytes is read. -/
theorem tagParts?_binary (p : Pos) (rest : List Char) :
    tagParts? ⟨p, "!!binary".toList ++ ' ' :: rest⟩ =
      some (['!', '!'], "binary".toList, ⟨p.along "!!binary".toList, ' ' :: rest⟩) := by
  rfl

/-- A value under the tag of binary data. -/
theorem ReadsAs.tagged {line : List Char} {read : List Token.Kind} (hline : ReadsAs parent line read) :
    ReadsAs parent ("!!binary ".toList ++ line) (.tag ['!', '!'] "binary".toList :: read) := by
  intro s outer found column body h hcolumn hrest hle hbody
  have hsplit : "!!binary ".toList ++ line ++ (spaces column ++ body) =
      "!!binary".toList ++ ' ' :: (line ++ (spaces column ++ body)) := by simp
  rw [hsplit] at hrest
  obtain ⟨u, hready, hu, hurest, hin⟩ := h.exists_ready hcolumn hrest (.cons (by decide))
  obtain ⟨key, hsave, hrequired⟩ := hu.saveKey_inside (hu.inside hin)
  have hv : Scanner.Has { u with
      cursor := ⟨u.cursor.pos.along "!!binary".toList, ' ' :: (line ++ (spaces column ++ body))⟩
      keys := [key]
      keyAllowed := false } (parent :: outer) found := ⟨hu.indents, hu.kinds, hu.count, key, rfl, hrequired⟩
  have hparts := tagParts?_binary u.cursor.pos (line ++ (spaces column ++ body))
  rw [← hurest] at hparts
  have htag : u.next = some (Scanner.emit { u with
      cursor := ⟨u.cursor.pos.along "!!binary".toList, ' ' :: (line ++ (spaces column ++ body))⟩
      keys := [key]
      keyAllowed := false } (.tag ['!', '!'] "binary".toList) u.cursor.pos.line) := by
    have hnext : u.next = u.tag := by
      simp [Scanner.next, hurest, startsDocumentMark_cons, hu.inFlow]
    rw [hnext, Scanner.tag, hsave]
    change (tagParts? u.cursor).bind _ = _
    rw [hparts]
    rfl
  obtain ⟨t, hsteps, ht⟩ := hline (hv.emit (.tag ['!', '!'] "binary".toList) u.cursor.pos.line)
    (by change parent < (u.cursor.pos.along "!!binary".toList).column
        rw [Pos.along_of_no_break (List.all_iff_forall_prop.1 (by decide))]
        exact Nat.lt_add_right _ hin) rfl hle hbody
  refine ⟨t, (Steps.one hready (by rw [hurest]; simp) htag ?_).trans hsteps, ?_⟩
  · rw [hrest]
    simp [Scanner.emit]
  · simpa using ht

/-- A literal scalar that begins with a tab is a fault. -/
theorem fault_literal {indent : Nat} {text rest : List Char} (htab : text.head? = some '\t')
    (h : s.Has (parent :: outer) found) (hcolumn : parent < s.cursor.pos.column)
    (hrest : s.cursor.rest = ' ' :: (Printer.literal indent text ++ rest)) : s.ready.next = none := by
  obtain ⟨more, hmore⟩ := exists_literal indent text
  obtain ⟨u, hready, hu, hurest, hin⟩ := h.exists_ready hcolumn hrest
    (by rw [hmore]; exact .cons (by decide))
  have hblock := block?_literal_tab indent parent htab u.cursor.pos rest
  rw [← hurest] at hblock
  rw [hready, next_literal hu.inFlow (hurest.trans (by rw [hmore]; rfl)), Scanner.blockScalar, hu.dropKey]
  change (block? true u.indent u.cursor).bind _ = none
  rw [hu.indent, hblock]
  rfl

end

end Scanner

end Restyle.Yaml
