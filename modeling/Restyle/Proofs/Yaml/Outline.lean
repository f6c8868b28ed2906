import Restyle.Proofs.Yaml.Scan

/-!
# Documents in outline

A mapping in block style whose values are scalars, lists of scalars and such mappings again, each level
four columns further right.  `linesOf` writes it, `kindsOf` are its tokens.  A scalar that cannot be read
is a fault, behind which no token is found.

* `scan_entries`: the lines of an outline are read as its tokens.
* `scan_broken`: up to the first scalar that cannot be read.
-/

namespace Restyle.Yaml

open Scanner

/-- A scalar as it is read. -/
structure Content where
  /-- It has the tag of binary data. -/
  binary : Bool := false
  style : ScalarStyle
  text : List Char

/-- The tokens of a scalar. -/
def Content.kinds (c : Content) : List Token.Kind :=
  (if c.binary then [.tag ['!', '!'] "binary".toList] else []) ++ [.scalar c.text c.style]

/-- A scalar with its line, and what is read there, if it can be read. -/
structure Leaf where
  line : List Char
  content : Option Content

/-- A key with a scalar, a list of them, or entries below it. -/
inductive Entry where
  | leaf (name : List Char) (value : Leaf)
  | list (name : List Char) (items : List Leaf)
  | block (name : List Char) (entries : List Entry)

/-! ### Lines and tokens -/

/-- The lines of the items of a list. -/
def itemLines (level : Nat) (items : List Leaf) : List Char :=
  items.flatMap fun l => spaces (4 * level) ++ '-' :: ' ' :: l.line

mutual

/-- The lines of an entry, without the indentation of the first one. -/
def Entry.body (level : Nat) : Entry → List Char
  | .leaf name value => name ++ ':' :: ' ' :: value.line
  | .list name items => name ++ ':' :: '\n' :: itemLines (level + 1) items
  | .block name entries => name ++ ':' :: '\n' :: linesOf (level + 1) entries

/-- The lines of entries. -/
def linesOf (level : Nat) : List Entry → List Char
  | [] => []
  | e :: es => spaces (4 * level) ++ e.body level ++ linesOf level es

end

def Leaf.kinds (l : Leaf) : List Token.Kind :=
  match l.content with
  | some c => c.kinds
  | none => []

def itemKinds (items : List Leaf) : List Token.Kind :=
  items.flatMap fun l => .blockEntry :: l.kinds

/-- The tokens of a key. -/
def keyKinds (name : List Char) : List Token.Kind :=
  [.key, .scalar name .plain, .value]

mutual

def Entry.kinds : Entry → List Token.Kind
  | .leaf name value => keyKinds name ++ value.kinds
  | .list name items => keyKinds name ++ .blockSequenceStart :: itemKinds items ++ [.blockEnd]
  | .block name entries => keyKinds name ++ .blockMappingStart :: kindsOf entries ++ [.blockEnd]

def kindsOf : List Entry → List Token.Kind
  | [] => []
  | e :: es => e.kinds ++ kindsOf es

end

/-! ### Outlines that are written well -/

/-- The scanner finds a fault at a value. -/
def FaultsAt (parent : Nat) (line : List Char) : Prop :=
  ∀ ⦃s : Scanner⦄ ⦃outer : List Int⦄ ⦃found : List Token.Kind⦄ ⦃rest : List Char⦄,
    s.Has (parent :: outer) found → parent < s.cursor.pos.column →
    s.cursor.rest = ' ' :: (line ++ rest) → s.ready.next = none

/-- The line is read as the content says. -/
structure Leaf.Written (parent : Nat) (l : Leaf) : Prop where
  reads : ∀ c, l.content = some c → ReadsAs parent l.line c.kinds
  faults : l.content = none → FaultsAt parent l.line
  chars : ∀ c ∈ l.line, isWritten c = true

/-- A leaf is written well if its line is read as its content. -/
theorem Leaf.written_of_reads {parent : Nat} {line : List Char} {c : Content} (hreads : ReadsAs parent line c.kinds)
    (hchars : ∀ x ∈ line, isWritten x = true) : Leaf.Written parent ⟨line, some c⟩ where
  reads x hx := by
    obtain rfl := Option.some.inj hx
    exact hreads
  faults hnone := by cases hnone
  chars := hchars

mutual

/-- An entry is written well. -/
def Entry.Written (level : Nat) : Entry → Prop
  | .leaf name value => IsKey name ∧ value.Written (4 * level)
  | .list name items => IsKey name ∧ items ≠ [] ∧
      ∀ l ∈ items, l.Written (4 * (level + 1)) ∧ l.content ≠ none
  | .block name entries => IsKey name ∧ entries ≠ [] ∧ WrittenAll (level + 1) entries

/-- Entries are written well. -/
def WrittenAll (level : Nat) : List Entry → Prop
  | [] => True
  | e :: es => e.Written level ∧ WrittenAll level es

end

mutual

/-- All scalars can be read. -/
def Entry.Good : Entry → Prop
  | .leaf _ value => value.content ≠ none
  | .list _ _ => True
  | .block _ entries => GoodAll entries

/-- All scalars can be read. -/
def GoodAll : List Entry → Prop
  | [] => True
  | e :: es => e.Good ∧ GoodAll es

end

/-- **The first scalar that cannot be read**, and the tokens found before it. -/
inductive Breaks : List Entry → List Token.Kind → Prop where
  | leaf {name : List Char} {value : Leaf} {es : List Entry} (hvalue : value.content = none) :
      Breaks (.leaf name value :: es) (keyKinds name)
  | block {name : List Char} {entries es : List Entry} {found : List Token.Kind} (h : Breaks entries found) :
      Breaks (.block name entries :: es) (keyKinds name ++ .blockMappingStart :: found)
  | later {e : Entry} {es : List Entry} {found : List Token.Kind} (hgood : e.Good) (h : Breaks es found) :
      Breaks (e :: es) (e.kinds ++ found)

/-- Entries can be read, or break at the first scalar that cannot. -/
theorem good_or_breaks : ∀ es : List Entry, GoodAll es ∨ ∃ found, Breaks es found
  | [] => .inl trivial
  | e :: es => by
      have hfirst : e.Good ∨ ∃ found, Breaks (e :: es) found := by
        match e with
        | .leaf name value =>
            by_cases hvalue : value.content = none
            · exact .inr ⟨_, .leaf hvalue⟩
            · exact .inl hvalue
        | .list name items => exact .inl trivial
        | .block name entries =>
            rcases good_or_breaks entries with hgood | ⟨found, hfound⟩
            · exact .inl hgood
            · exact .inr ⟨_, .block hfound⟩
      rcases hfirst with hgood | hbreaks
      · rcases good_or_breaks es with hmore | ⟨found, hfound⟩
        · exact .inl ⟨hgood, hmore⟩
        · exact .inr ⟨_, .later hgood hfound⟩
      · exact .inr hbreaks

theorem rests_name {name : List Char} (h : IsKey name) (rest : List Char) : Rests (name ++ rest) := by
  obtain ⟨c, name, rfl⟩ := List.exists_cons_of_ne_nil h.ne_nil
  exact .cons (isKeyChar_spec (h.chars c List.mem_cons_self)).2.1

/-- An entry begins with its key. -/
theorem Entry.Written.rests {level : Nat} {e : Entry} (h : e.Written level) (rest : List Char) :
    Rests (e.body level ++ rest) := by
  cases e with
  | leaf name value | list name items | block name entries =>
      simp only [Entry.Written] at h
      simp only [Entry.body, List.append_assoc]
      exact rests_name h.1 _

/-- Lines that may follow a line of a block at this column. -/
def Continues (column : Nat) (text : List Char) : Prop :=
  ∃ n body, text = spaces n ++ body ∧ n ≤ column ∧ Rests body

/-- What continues a block continues any deeper one. -/
theorem Continues.mono {m n : Nat} {text : List Char} (h : Continues m text) (hle : m ≤ n) : Continues n text := by
  obtain ⟨k, body, htext, hk, hbody⟩ := h
  exact ⟨k, body, htext, Nat.le_trans hk hle, hbody⟩

/-- Items continue the block they are in. -/
theorem continues_items {level : Nat} (items : List Leaf) {next : List Char}
    (hnext : Continues (4 * level) next) :
    Continues (4 * level) (itemLines level items ++ next) := by
  cases items with
  | nil => exact hnext
  | cons l ls =>
      refine ⟨4 * level, '-' :: ' ' :: (l.line ++ (itemLines level ls ++ next)), ?_, Nat.le_refl _,
        .cons (by decide)⟩
      simp [itemLines]

theorem continues_lines {level : Nat} {entries : List Entry} (h : WrittenAll level entries) {next : List Char}
    (hnext : Continues (4 * level) next) : Continues (4 * level) (linesOf level entries ++ next) := by
  cases entries with
  | nil => exact hnext
  | cons e es =>
      simp only [WrittenAll] at h
      refine ⟨4 * level, e.body level ++ (linesOf level es ++ next), ?_, Nat.le_refl _, h.1.rests _⟩
      simp [linesOf]

namespace Scanner

variable {s : Scanner} {indents indents' : List Int} {kinds kinds' : List Token.Kind}

/-! ### Line by line -/

/-- The scanner is about to look at these lines. -/
def AtLines (s : Scanner) (text : List Char) (indents : List Int) (kinds : List Token.Kind) : Prop :=
  ∃ n body, text = spaces n ++ body ∧ Rests body ∧ s.Paused body n indents kinds

theorem spaces_append_inj {n m : Nat} {body next : List Char} (hbody : Rests body) (hnext : Rests next)
    (h : spaces n ++ body = spaces m ++ next) : n = m ∧ body = next := by
  induction n generalizing m with
  | zero =>
      cases m with
      | zero => exact ⟨rfl, h⟩
      | succ m =>
          have := (isRest_spec (hbody ' ' (by rw [show body = _ from h]; rfl))).1
          cases this
  | succ n ih =>
      cases m with
      | zero =>
          have := (isRest_spec (hnext ' ' (by rw [show next = _ from h.symm]; rfl))).1
          cases this
      | succ m =>
          obtain ⟨rfl, rfl⟩ := ih (List.cons.inj h).2
          exact ⟨rfl, rfl⟩

/-- Spaces before an entry are passed. -/
theorem AtLines.paused {n : Nat} {body : List Char} (h : s.AtLines (spaces n ++ body) indents kinds)
    (hbody : Rests body) : s.Paused body n indents kinds := by
  obtain ⟨m, body', htext, hbody', hpaused⟩ := h
  obtain ⟨rfl, rfl⟩ := spaces_append_inj hbody hbody' htext
  exact hpaused

/-- Behind a line the next one is looked for. -/
theorem Has.atLines {text : List Char} {column : Nat} (h : s.Has indents kinds)
    (hrest : s.cursor.rest = '\n' :: text) (htext : Continues column text) : s.AtLines text indents kinds := by
  obtain ⟨n, body, rfl, -, hbody⟩ := htext
  exact ⟨n, body, rfl, hbody, h.paused_feed hbody hrest⟩

/-- A block further right than what follows is ended. -/
theorem AtLines.close {i j : Int} {text : List Char} {column : Nat}
    (h : s.AtLines text (i :: j :: indents) kinds) (htext : Continues column text) (hi : (column : Int) < i) :
    s.AtLines text (j :: indents) (.blockEnd :: kinds) := by
  obtain ⟨n, body, rfl, hn, hbody⟩ := htext
  exact ⟨n, body, rfl, hbody, (h.paused hbody).close (by omega)⟩

/-- The scalar behind a key or a hyphen. -/
theorem ReadsAs.scan {parent : Nat} {line next : List Char} {read : List Token.Kind}
    (hline : ReadsAs parent line read) {outer : List Int} (h : s.Has (parent :: outer) kinds)
    (hcolumn : parent < s.cursor.pos.column) (hrest : s.cursor.rest = ' ' :: (line ++ next))
    (hnext : Continues parent next) :
    ∃ t : Scanner, Steps s t ∧ t.AtLines next (parent :: outer) (read.reverse ++ kinds) := by
  obtain ⟨n, body, rfl, hn, hbody⟩ := hnext
  obtain ⟨t, hsteps, ht⟩ := hline h hcolumn hrest hn hbody
  exact ⟨t, hsteps, n, body, rfl, hbody, ht⟩

/-- **A hyphen**, and the start of the list if it is the first one in it. -/
theorem scan_hyphen {column : Nat} {rest : List Char} (h : s.Paused ('-' :: rest) column indents kinds)
    (hopens : Opens .blockSequenceStart column indents kinds indents' kinds') (hcolumn : 0 < column)
    (hrest : startsBlank rest = true) :
    ∃ t : Scanner, Steps s t ∧ t.Has indents' (.blockEntry :: kinds') ∧ t.cursor.rest = rest ∧
      column < t.cursor.pos.column := by
  obtain ⟨hlen, u, hready, hu, hurest, hucolumn, hallowed⟩ := h
  obtain ⟨⟨i, outer, rfl, hi⟩, -⟩ := hopens.head
  rw [hu.unroll hi] at hready
  have hnext : u.next = u.blockEntry := by
    have hfirst : (u.cursor.pos.column == 0) = false := beq_eq_false_iff_ne.2 (by omega)
    simp [Scanner.next, hurest, hfirst, hrest]
  -- the block is there after `roll`
  obtain ⟨v, hroll, hv, hvcursor⟩ : ∃ v, u.roll u.column u.count .blockSequenceStart u.cursor.pos.line = v ∧
      v.Has indents' kinds' ∧ v.cursor = u.cursor := by
    refine ⟨_, rfl, ?_⟩
    have hflow : u.inFlow = false := hu.inFlow
    rw [Scanner.roll, hflow, Scanner.column, hucolumn, hu.indent]
    cases hopens with
    | same =>
        rw [if_neg (by simp)]
        exact ⟨hu, rfl⟩
    | deeper hlt =>
        rw [if_pos (by simpa using hlt)]
        refine ⟨⟨congrArg (_ :: i :: ·) (List.cons.inj hu.indents).2, ?_, congrArg (· + 1) hu.count |>.trans ?_, hu.keys⟩, rfl⟩
        · simp [Scanner.insert, hu.kinds]
        · simp [Scanner.insert]
  have hmark : u.blockEntry = some ({ v with keys := [none], keyAllowed := true }.mark .blockEntry 1) := by
    rw [Scanner.blockEntry, hu.inFlow, hallowed, hroll]
    simp only [hv.dropKey, Bool.not_true, Bool.and_false, Bool.false_eq_true, if_false]
    rfl
  have hcursor : v.cursor = ⟨u.cursor.pos, '-' :: rest⟩ := by rw [hvcursor, ← hurest]
  refine ⟨_, .one hready (by rw [hurest]; simp) (hnext.trans hmark) ?_, ⟨hv.indents, ?_, ?_, none, rfl, by simp⟩,
    ?_, ?_⟩
  · simp only [Scanner.mark, Scanner.emit, hcursor, Cursor.skip_succ, Cursor.skip_zero]
    exact hlen
  · simp [Scanner.mark, Scanner.emit, hv.kinds]
  · simp [Scanner.mark, Scanner.emit, hv.count]
  · simp only [Scanner.mark, Scanner.emit, hcursor, Cursor.skip_succ, Cursor.skip_zero]
  · simp only [Scanner.mark, Scanner.emit, hcursor, Cursor.skip_succ, Cursor.skip_zero]
    rw [Pos.next_of_not_break (by decide), ← hucolumn]
    exact Nat.lt_succ_self _

/-- **One item** is read as its tokens. -/
theorem scan_item {level : Nat} (hlevel : 0 < level) {next : List Char} (hnext : Continues (4 * level) next)
    {l : Leaf} (hitem : l.Written (4 * level)) (hgood : l.content ≠ none)
    (h : s.AtLines (spaces (4 * level) ++ '-' :: ' ' :: (l.line ++ next)) indents kinds)
    (hopens : Opens .blockSequenceStart (4 * level : Nat) indents kinds indents' kinds') :
    ∃ t : Scanner, Steps s t ∧ t.AtLines next indents' (l.kinds.reverse ++ .blockEntry :: kinds') := by
  obtain ⟨c, hc⟩ := Option.ne_none_iff_exists'.1 hgood
  obtain ⟨-, outer, rfl⟩ := hopens.head
  obtain ⟨t, hsteps, ht, hrest, hcolumn⟩ := scan_hyphen (h.paused (.cons (by decide))) hopens (by omega) rfl
  obtain ⟨u, hsteps', hu⟩ := (hitem.reads c hc).scan ht hcolumn hrest hnext
  exact ⟨u, hsteps.trans hsteps', by simpa [Leaf.kinds, hc] using hu⟩

/-- **The items of a list.** -/
theorem scan_items {level : Nat} (hlevel : 0 < level) {next : List Char} (hnext : Continues (4 * level) next)
    (l : Leaf) (ls : List Leaf)
    (hitems : ∀ x ∈ l :: ls, x.Written (4 * level) ∧ x.content ≠ none)
    (h : s.AtLines (itemLines level (l :: ls) ++ next) indents kinds)
    (hopens : Opens .blockSequenceStart (4 * level : Nat) indents kinds indents' kinds') :
    ∃ t : Scanner, Steps s t ∧ t.AtLines next indents' ((itemKinds (l :: ls)).reverse ++ kinds') := by
  obtain ⟨hitem, hgood⟩ := hitems l List.mem_cons_self
  induction ls generalizing l s indents kinds indents' kinds' with
  | nil =>
      obtain ⟨t, hsteps, ht⟩ := scan_item hlevel hnext hitem hgood (by simpa [itemLines] using h) hopens
      exact ⟨t, hsteps, by simpa [itemKinds] using ht⟩
  | cons l' ls ih =>
      obtain ⟨t, hsteps, ht⟩ := scan_item hlevel (continues_items (l' :: ls) hnext)
        hitem hgood (by simpa [itemLines] using h) hopens
      obtain ⟨-, outer, rfl⟩ := hopens.head
      obtain ⟨hitem', hgood'⟩ := hitems l' (by simp)
      obtain ⟨u, hsteps', hu⟩ := ih l' (fun x hx => hitems x (List.mem_cons_of_mem l hx)) ht .same hitem' hgood'
      exact ⟨u, hsteps.trans hsteps', by simpa [itemKinds] using hu⟩

/-- **A key with its scalar.** -/
theorem scan_leaf {level : Nat} {name next : List Char} {value : Leaf} (hname : IsKey name)
    (hvalue : value.Written (4 * level)) (hgood : value.content ≠ none)
    (h : s.AtLines (spaces (4 * level) ++ (name ++ ':' :: ' ' :: (value.line ++ next))) indents kinds)
    (hopens : Opens .blockMappingStart (4 * level : Nat) indents kinds indents' kinds')
    (hnext : Continues (4 * level) next) :
    ∃ t : Scanner, Steps s t ∧ t.AtLines next indents' (value.kinds.reverse ++ ((keyKinds name).reverse ++ kinds')) := by
  obtain ⟨c, hc⟩ := Option.ne_none_iff_exists'.1 hgood
  obtain ⟨-, outer, rfl⟩ := hopens.head
  obtain ⟨t, hsteps, ht, hrest, hcolumn⟩ := scan_key (h.paused (rests_name hname _)) hname hopens rfl
  obtain ⟨u, hsteps', hu⟩ := (hvalue.reads c hc).scan ht hcolumn hrest hnext
  exact ⟨u, hsteps.trans hsteps', by simpa [Leaf.kinds, hc, keyKinds] using hu⟩

/-- A key above further lines. -/
theorem scan_head {level column : Nat} {name text : List Char} (hname : IsKey name)
    (h : s.AtLines (spaces (4 * level) ++ (name ++ ':' :: '\n' :: text)) indents kinds)
    (hopens : Opens .blockMappingStart (4 * level : Nat) indents kinds indents' kinds')
    (htext : Continues column text) :
    ∃ t : Scanner, Steps s t ∧ t.AtLines text indents' ((keyKinds name).reverse ++ kinds') := by
  obtain ⟨t, hsteps, ht, hrest, -⟩ := scan_key (h.paused (rests_name hname _)) hname hopens rfl
  exact ⟨t, hsteps, ht.atLines hrest htext⟩

/-- **A key with a list.** -/
theorem scan_list {level : Nat} {name next : List Char} {items : List Leaf} (hname : IsKey name)
    (hne : items ≠ []) (hitems : ∀ l ∈ items, l.Written (4 * (level + 1)) ∧ l.content ≠ none)
    (h : s.AtLines (spaces (4 * level) ++ (name ++ ':' :: '\n' :: (itemLines (level + 1) items ++ next)))
      indents kinds)
    (hopens : Opens .blockMappingStart (4 * level : Nat) indents kinds indents' kinds')
    (hnext : Continues (4 * level) next) :
    ∃ t : Scanner, Steps s t ∧ t.AtLines next indents'
      (.blockEnd :: ((itemKinds items).reverse ++ .blockSequenceStart :: ((keyKinds name).reverse ++ kinds'))) := by
  have hdeeper : Continues (4 * (level + 1)) next := hnext.mono (by omega)
  obtain ⟨-, outer, rfl⟩ := hopens.head
  obtain ⟨l, ls, rfl⟩ := List.exists_cons_of_ne_nil hne
  obtain ⟨t, hsteps, ht⟩ := scan_head hname h hopens (continues_items _ hdeeper)
  obtain ⟨u, hsteps', hu⟩ := scan_items level.succ_pos hdeeper l ls hitems ht (.deeper (by omega))
  exact ⟨u, hsteps.trans hsteps', hu.close hnext (by omega)⟩

mutual

/-- **An entry.** -/
theorem scan_entry (e : Entry) (level : Nat) {s : Scanner} {indents indents' : List Int}
    {kinds kinds' : List Token.Kind} {next : List Char} (hwritten : e.Written level) (hgood : e.Good)
    (h : s.AtLines (spaces (4 * level) ++ (e.body level ++ next)) indents kinds)
    (hopens : Opens .blockMappingStart (4 * level : Nat) indents kinds indents' kinds')
    (hnext : Continues (4 * level) next) :
    ∃ t : Scanner, Steps s t ∧ t.AtLines next indents' (e.kinds.reverse ++ kinds') :=
  match e with
  | .leaf name value => by
      simp only [Entry.Written, Entry.Good, Entry.body, List.append_assoc, List.cons_append] at hwritten hgood h
      obtain ⟨t, hsteps, ht⟩ := scan_leaf hwritten.1 hwritten.2 hgood h hopens hnext
      exact ⟨t, hsteps, by simpa [Entry.kinds] using ht⟩
  | .list name items => by
      simp only [Entry.Written, Entry.body, List.append_assoc, List.cons_append] at hwritten h
      obtain ⟨t, hsteps, ht⟩ := scan_list hwritten.1 hwritten.2.1 hwritten.2.2 h hopens hnext
      exact ⟨t, hsteps, by simpa [Entry.kinds] using ht⟩
  | .block name [] => by
      simp only [Entry.Written] at hwritten
      exact absurd rfl hwritten.2.1
  | .block name (e :: es) => by
      simp only [Entry.Written, Entry.Good, Entry.body, List.append_assoc, List.cons_append] at hwritten hgood h
      obtain ⟨hname, -, hentries⟩ := hwritten
      have hdeeper : Continues (4 * (level + 1)) next := hnext.mono (by omega)
      obtain ⟨t, hsteps, ht⟩ := scan_head hname h hopens (continues_lines hentries hdeeper)
      simp only [WrittenAll, GoodAll, linesOf, List.append_assoc] at hentries hgood ht
      obtain ⟨-, outer, rfl⟩ := hopens.head
      obtain ⟨u, hsteps', hu⟩ := scan_entry e (level + 1) hentries.1 hgood.1 ht (.deeper (by omega))
        (continues_lines hentries.2 hdeeper)
      obtain ⟨v, hsteps'', hv⟩ := scan_more es (level + 1) hentries.2 hgood.2 hu hdeeper
      refine ⟨v, (hsteps.trans hsteps').trans hsteps'', ?_⟩
      simpa [Entry.kinds, kindsOf] using hv.close hnext (by omega)

/-- Further entries of a block. -/
theorem scan_more (es : List Entry) (level : Nat) {s : Scanner} {outer : List Int}
    {kinds : List Token.Kind} {next : List Char} (hwritten : WrittenAll level es) (hgood : GoodAll es)
    (h : s.AtLines (linesOf level es ++ next) ((4 * level : Nat) :: outer) kinds)
    (hnext : Continues (4 * level) next) :
    ∃ t : Scanner, Steps s t ∧ t.AtLines next ((4 * level : Nat) :: outer) ((kindsOf es).reverse ++ kinds) :=
  match es with
  | [] => ⟨s, .refl s, h⟩
  | e :: es => by
      simp only [WrittenAll, GoodAll, linesOf, List.append_assoc] at hwritten hgood h
      obtain ⟨t, hsteps, ht⟩ := scan_entry e level hwritten.1 hgood.1 h .same (continues_lines hwritten.2 hnext)
      obtain ⟨u, hsteps', hu⟩ := scan_more es level hwritten.2 hgood.2 ht hnext
      exact ⟨u, hsteps.trans hsteps', by simpa [kindsOf] using hu⟩

end

/-- **Up to the first scalar that cannot be read.** -/
theorem scan_broken {entries : List Entry} {found : List Token.Kind} (hbreaks : Breaks entries found)
    {level : Nat} {next : List Char} (hwritten : WrittenAll level entries)
    (h : s.AtLines (linesOf level entries ++ next) indents kinds)
    (hopens : Opens .blockMappingStart (4 * level : Nat) indents kinds indents' kinds')
    (hnext : Continues (4 * level) next) :
    ∃ t : Scanner, Steps s t ∧ t.tokens.map Token.kind = found.reverse ++ kinds' ∧ t.ready.next = none := by
  induction hbreaks generalizing s indents kinds indents' kinds' level next with
  | @leaf name value es hvalue =>
      simp only [WrittenAll, Entry.Written, linesOf, Entry.body, List.append_assoc, List.cons_append] at hwritten h
      obtain ⟨⟨hname, hwritten⟩, -⟩ := hwritten
      obtain ⟨-, outer, rfl⟩ := hopens.head
      obtain ⟨t, hsteps, ht, hrest, hcolumn⟩ := scan_key (h.paused (rests_name hname _)) hname hopens rfl
      exact ⟨t, hsteps, ht.kinds, hwritten.faults hvalue ht hcolumn hrest⟩
  | @block name entries es found _ ih =>
      simp only [WrittenAll, Entry.Written, linesOf, Entry.body, List.append_assoc, List.cons_append] at hwritten h
      obtain ⟨⟨hname, -, hentries⟩, hes⟩ := hwritten
      have hdeeper : Continues (4 * (level + 1)) (linesOf level es ++ next) :=
        (continues_lines hes hnext).mono (by omega)
      obtain ⟨t, hsteps, ht⟩ := scan_head hname h hopens (continues_lines hentries hdeeper)
      obtain ⟨-, outer, rfl⟩ := hopens.head
      obtain ⟨u, hsteps', hkinds, hfault⟩ := ih hentries ht (.deeper (by omega)) hdeeper
      exact ⟨u, hsteps.trans hsteps', by simpa using hkinds, hfault⟩
  | @later e es found hgood _ ih =>
      simp only [WrittenAll, linesOf, List.append_assoc] at hwritten h
      obtain ⟨t, hsteps, ht⟩ := scan_entry e level hwritten.1 hgood h hopens (continues_lines hwritten.2 hnext)
      obtain ⟨-, outer, rfl⟩ := hopens.head
      obtain ⟨u, hsteps', hkinds, hfault⟩ := ih hwritten.2 ht .same hnext
      exact ⟨u, hsteps.trans hsteps', by simpa using hkinds, hfault⟩

/-! ### The whole stream -/

theorem start_has (text : List Char) : (start text).Has [-1] [.streamStart] :=
  ⟨rfl, rfl, rfl, none, rfl, by simp⟩

/-- Reading starts at the first line. -/
theorem start_atLines {entries : List Entry} (h : WrittenAll 0 entries) :
    (start (linesOf 0 entries)).AtLines (linesOf 0 entries ++ []) [-1] [.streamStart] := by
  have hrests : Rests (linesOf 0 entries) := by
    cases entries with
    | nil => simp [linesOf, Rests]
    | cons e es =>
        simp only [WrittenAll] at h
        exact h.1.rests (linesOf 0 es)
  exact ⟨0, _, List.append_nil _, hrests, (start_has _).paused_rest hrests rfl rfl rfl⟩

theorem continues_nil : Continues (4 * 0) [] :=
  ⟨0, [], rfl, Nat.le_refl 0, by simp [Rests]⟩

/-- At the end of the text the mapping and the stream end. -/
theorem AtLines.last (h : s.AtLines [] [0, -1] kinds) (n : Nat) :
    ∃ ts, run (n + 1) s = (ts, false) ∧ ts.map Token.kind = .streamEnd :: .blockEnd :: kinds := by
  have hpaused : s.Paused [] 0 [0, -1] kinds := AtLines.paused (n := 0) h (by simp [Rests])
  obtain ⟨-, u, hready, hu, hrest, -, -⟩ := hpaused
  rw [hu.unroll (show (0 : Int) ≤ ((0 : Nat) : Int) by decide)] at hready
  obtain ⟨v, hv, hv'⟩ : ∃ v : Scanner, v.Has [0, -1] kinds ∧ u.next = ((v.unroll (-1)).dropKey).bind fun s =>
      some (Scanner.emit { s with keyAllowed := false } .streamEnd s.cursor.pos.line) := by
    refine ⟨{ u with cursor := { u.cursor with pos := { u.cursor.pos with
      line := if u.cursor.pos.column == 0 then u.cursor.pos.line else u.cursor.pos.line + 1
      column := 0 } } }, ⟨hu.indents, hu.kinds, hu.count, hu.keys⟩, ?_⟩
    rw [Scanner.next, hrest]
    rfl
  obtain ⟨w, hw, -, -, hunroll⟩ := hv.unroll_lt (show (-1 : Int) < 0 by decide)
  rw [hunroll, hw.unroll (Int.le_refl _), hw.dropKey] at hv'
  refine ⟨_, run_of_last (hready ▸ hv') (by rw [hready, hrest]), ?_⟩
  simp [Scanner.emit, hw.kinds]

end Scanner

/-- The tokens of a text are those of its run. -/
theorem tokens_of_run {text : List Char} {ts : List Token} {faulty : Bool}
    (h : (start text).run (text.length + 1) = (ts, faulty)) : tokens text = (ts.reverse, faulty) := by
  simp only [tokens, h]

/-- **The tokens of an outline.** -/
theorem tokens_linesOf {entries : List Entry} (hne : entries ≠ []) (hwritten : WrittenAll 0 entries)
    (hgood : GoodAll entries) :
    ∃ ts, tokens (linesOf 0 entries) = (ts, false) ∧ ts.map Token.kind =
      .streamStart :: .blockMappingStart :: (kindsOf entries ++ [.blockEnd, .streamEnd]) := by
  obtain ⟨e, es, rfl⟩ := List.exists_cons_of_ne_nil hne
  have hstart := start_atLines hwritten
  simp only [WrittenAll, GoodAll] at hwritten hgood
  obtain ⟨t, hsteps, ht⟩ := scan_entry e 0 hwritten.1 hgood.1 (by simpa [linesOf] using hstart)
    (.deeper (by decide)) (continues_lines hwritten.2 continues_nil)
  obtain ⟨u, hsteps', hu⟩ := scan_more es 0 hwritten.2 hgood.2 ht continues_nil
  obtain ⟨m, hm, hrun⟩ := (hsteps.trans hsteps').run (Nat.lt_succ_self _)
  obtain ⟨m, rfl⟩ := Nat.exists_eq_add_one.2 (Nat.zero_lt_of_lt hm)
  obtain ⟨ts, hlast, hkinds⟩ := hu.last m
  refine ⟨ts.reverse, tokens_of_run (hrun.trans hlast), ?_⟩
  rw [List.map_reverse, hkinds]
  simp [kindsOf]

/-- **The tokens of an outline with a fault.** -/
theorem tokens_broken {entries : List Entry} (hwritten : WrittenAll 0 entries) {found : List Token.Kind}
    (hbreaks : Breaks entries found) :
    ∃ ts, tokens (linesOf 0 entries) = (ts, true) ∧
      ts.map Token.kind = .streamStart :: .blockMappingStart :: found := by
  obtain ⟨t, hsteps, hkinds, hfault⟩ := scan_broken hbreaks hwritten (start_atLines hwritten)
    (.deeper (by decide)) continues_nil
  obtain ⟨m, hm, hrun⟩ := hsteps.run (Nat.lt_succ_self _)
  obtain ⟨m, rfl⟩ := Nat.exists_eq_add_one.2 (Nat.zero_lt_of_lt hm)
  refine ⟨t.tokens.reverse, tokens_of_run (hrun.trans (run_of_fault hfault)), ?_⟩
  rw [List.map_reverse, hkinds]
  simp

end Restyle.Yaml
