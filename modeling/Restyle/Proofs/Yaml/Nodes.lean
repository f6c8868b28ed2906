import Restyle.Proofs.Yaml.Outline

/-!
# Nodes of an outline

The tokens of an outline are read as a mapping, pair by pair, whatever tokens follow them.  Only the lines
of the nodes are not told by the outline, so the pairs that show it are given by a relation.

* `parse_linesOf`: an outline is read as a mapping that shows it.
* `parse_broken`: one with a scalar that cannot be read is malformed.
-/

namespace Restyle.Yaml

/-! ### Nodes that show an outline -/

/-- The tag of a scalar that holds bytes. -/
def Content.tag? (c : Content) : Option (List Char) :=
  if c.binary then some "!!binary".toList else none

/-- A node has the content of a leaf. -/
def Leaf.Shows (l : Leaf) (n : Node) : Prop :=
  ∃ c line, l.content = some c ∧ n = .scalar line c.tag? c.style c.text

/-- Nodes have the contents of items. -/
def ItemsShow : List Leaf → List Node → Prop
  | [], [] => True
  | l :: ls, n :: ns => l.Shows n ∧ ItemsShow ls ns
  | _, _ => False

/-- A node is a key. -/
def KeyShows (name : List Char) (n : Node) : Prop :=
  ∃ line, n = .scalar line none .plain name

mutual

/-- A key and a value have what an entry says. -/
def Entry.Shows : Entry → Node × Node → Prop
  | .leaf name value, p => KeyShows name p.1 ∧ value.Shows p.2
  | .list name items, p => KeyShows name p.1 ∧ ∃ line ns, p.2 = .sequence line none ns ∧ ItemsShow items ns
  | .block name entries, p =>
      KeyShows name p.1 ∧ ∃ line pairs, p.2 = .mapping line none pairs ∧ AllShow entries pairs

/-- Pairs have what entries say. -/
def AllShow : List Entry → List (Node × Node) → Prop
  | [], pairs => pairs = []
  | e :: es, pairs => ∃ p ps, pairs = p :: ps ∧ e.Shows p ∧ AllShow es ps

end

namespace Reading

/-! ### Steps of the reader -/

/-- A reader that has met no anchor. -/
def reader (ts : List Token) (faulty : Bool) : Reader where
  tokens := ts
  faulty := faulty
  handles := defaultHandles

/-- The token before these can be looked at. -/
def Shown (ts : List Token) (faulty : Bool) : Prop :=
  faulty = false ∨ 2 ≤ ts.length

/-- More tokens before them make no difference. -/
theorem Shown.append {ts : List Token} {faulty : Bool} (h : Shown ts faulty) (us : List Token) :
    Shown (us ++ ts) faulty := by
  refine h.imp id fun h => ?_
  rw [List.length_append]
  exact Nat.le_trans h (Nat.le_add_left _ _)

theorem Shown.cons {ts : List Token} {faulty : Bool} (h : Shown ts faulty) (t : Token) : Shown (t :: ts) faulty :=
  h.append [t]

variable {t u : Token} {ts : List Token} {faulty : Bool}

/-- The next token is looked at. -/
theorem peek_eq {r : Reader} (htokens : r.tokens = t :: ts) (h : Shown ts r.faulty) : peek r = some (t, r) := by
  rw [peek, htokens]
  match ts, h with
  | _ :: _ :: _, _ => rfl
  | [], .inl h | [_], .inl h =>
      simp only [h]
      rfl

theorem peek_reader (h : Shown ts faulty) :
    peek (reader (t :: ts) faulty) = some (t, reader (t :: ts) faulty) :=
  peek_eq rfl h

theorem ahead_reader (h : Shown ts faulty) :
    ahead (reader (t :: ts) faulty) = some (t.kind, reader (t :: ts) faulty) := by
  simp only [ahead, bind, StateT.bind, peek_reader h, Option.bind]
  rfl

theorem pure_apply {α : Type} (a : α) (r : Reader) : (pure a : Reading α) r = some (a, r) :=
  rfl

theorem skip_reader : skip (reader (t :: ts) faulty) = some ((), reader ts faulty) :=
  rfl

/-- A token is passed and the next one looked at. -/
theorem step_reader (h : Shown ts faulty) :
    step (reader (u :: t :: ts) faulty) = some (t.kind, reader (t :: ts) faulty) := by
  simp only [step, bind, StateT.bind, skip_reader, Option.bind, ahead_reader h]

/-- The tag for bytes is a standard one. -/
theorem fullTag_binary : (some <$> fullTag ['!', '!'] "binary".toList) (reader ts faulty) =
    some (some (standardTags ++ "binary".toList), reader ts faulty) :=
  rfl

/-- The token begins a value of an outline. -/
def begins : Token.Kind → Bool
  | .scalar .. | .tag .. | .blockSequenceStart | .blockMappingStart => true
  | _ => false

/-- A token that begins a node is none that does not. -/
theorem beq_of_begins {k l : Token.Kind} (hk : begins k = true) (hl : begins l = false) : (k == l) = false := by
  rw [beq_eq_false_iff_ne]
  rintro rfl
  rw [hk] at hl
  cases hl

section

variable {text : List Char} {style : ScalarStyle}

/-- **A scalar is a node.** -/
theorem node_scalar (h : Shown ts faulty) (hkind : t.kind = .scalar text style) (n : Nat) (block indentless : Bool) :
    node (n + 1) block indentless (reader (t :: ts) faulty) =
      some (.scalar t.line none style text, reader ts faulty) := by
  simp only [node, ahead_reader h, properties, bind, StateT.bind, peek_reader h, Option.bind, hkind, pure_apply,
    drop, skip_reader]
  rfl

/-- A scalar with a tag is a node with that tag. -/
theorem node_tagged (h : Shown ts faulty) (hkind : t.kind = .tag ['!', '!'] "binary".toList)
    (hscalar : u.kind = .scalar text style) (n : Nat) (block indentless : Bool) :
    node (n + 1) block indentless (reader (t :: u :: ts) faulty) =
      some (.scalar t.line (some "!!binary".toList) style text, reader ts faulty) := by
  simp only [node, ahead_reader h, ahead_reader (h.cons u), properties, bind, StateT.bind,
    peek_reader (h.cons u), Option.bind, hkind, hscalar, pure_apply, drop, skip_reader,
    fullTag_binary]
  rfl

end

/-- A scalar. -/
theorem node_leaf {l : Leaf} (hgood : l.content ≠ none) (hkinds : ts.map Token.kind = l.kinds)
    {rest : List Token} (h : Shown rest faulty) (n : Nat) (block indentless : Bool) :
    ∃ node', l.Shows node' ∧ node (n + 1) block indentless (reader (ts ++ rest) faulty) =
      some (node', reader rest faulty) := by
  obtain ⟨c, hc⟩ := Option.ne_none_iff_exists'.1 hgood
  simp only [Leaf.kinds, hc, Content.kinds] at hkinds
  cases hbinary : c.binary with
  | true =>
      rw [hbinary] at hkinds
      obtain ⟨t, ts, rfl, ht, hkinds⟩ := List.map_eq_cons_iff.1 hkinds
      obtain ⟨u, rfl, hu⟩ := List.map_eq_singleton_iff.1 hkinds
      refine ⟨_, ⟨c, t.line, hc, rfl⟩, ?_⟩
      rw [Content.tag?, hbinary]
      exact node_tagged h ht hu n block indentless
  | false =>
      rw [hbinary] at hkinds
      obtain ⟨t, rfl, ht⟩ := List.map_eq_singleton_iff.1 hkinds
      refine ⟨_, ⟨c, t.line, hc, rfl⟩, ?_⟩
      rw [Content.tag?, hbinary]
      exact node_scalar h ht n block indentless

/-- A leaf that can be read begins a node. -/
theorem exists_begins {l : Leaf} (hgood : l.content ≠ none) (hkinds : ts.map Token.kind = l.kinds) :
    ∃ t ts', ts = t :: ts' ∧ begins t.kind = true := by
  obtain ⟨c, hc⟩ := Option.ne_none_iff_exists'.1 hgood
  simp only [Leaf.kinds, hc, Content.kinds] at hkinds
  cases hbinary : c.binary with
  | true | false =>
      rw [hbinary] at hkinds
      obtain ⟨t, ts, rfl, ht, -⟩ := List.map_eq_cons_iff.1 hkinds
      exact ⟨t, ts, rfl, by rw [ht]; rfl⟩

/-- A sequence is a node with its items. -/
theorem node_sequence (h : Shown ts faulty) (hkind : t.kind = .blockSequenceStart) (n : Nat) (indentless : Bool)
    {ns : List Node} {rest : List Token}
    (hitems : blockSequence n (reader ts faulty) = some (ns, reader rest faulty)) :
    node (n + 1) true indentless (reader (t :: ts) faulty) =
      some (.sequence t.line none ns, reader rest faulty) := by
  have hother : (Token.Kind.blockSequenceStart == .blockEntry) = false := by decide
  simp only [node, ahead_reader h, properties, bind, StateT.bind, peek_reader h, Option.bind, hkind, pure_apply,
    drop, skip_reader, hother, Bool.and_false, beq_self_eq_true, Bool.and_self, if_true,
    Bool.false_eq_true, if_false, hitems]
  rfl

/-- A mapping is a node with its pairs. -/
theorem node_mapping (h : Shown ts faulty) (hkind : t.kind = .blockMappingStart) (n : Nat) (indentless : Bool) :
    node (n + 1) true indentless (reader (t :: ts) faulty) = (blockMapping n (reader ts faulty)).bind fun p =>
      moor none (.mapping t.line none p.1) p.2 := by
  have hother : (Token.Kind.blockMappingStart == .blockEntry) = false ∧
      (Token.Kind.blockMappingStart == .blockSequenceStart) = false := by decide
  simp only [node, ahead_reader h, properties, bind, StateT.bind, peek_reader h, Option.bind, hkind, pure_apply,
    drop, skip_reader, hother, Bool.and_false, beq_self_eq_true, Bool.and_self, if_true,
    Bool.false_eq_true, if_false]
  rfl

/-- What begins a node behind a mark is read as one. -/
theorem blockPart_reader (h : Shown ts faulty) (hbegins : begins t.kind = true) (n : Nat) :
    blockPart (n + 1) (reader (u :: t :: ts) faulty) = node n true true (reader (t :: ts) faulty) := by
  simp only [blockPart, bind, StateT.bind, peek_reader (h.cons t), Option.bind, step_reader h,
    beq_of_begins hbegins (show begins .key = false from rfl),
    beq_of_begins hbegins (show begins .value = false from rfl),
    beq_of_begins hbegins (show begins .blockEnd = false from rfl), Bool.or_self, Bool.false_eq_true, if_false]

/-- A sequence ends at its end. -/
theorem blockSequence_end (h : Shown ts faulty) (hkind : t.kind = .blockEnd) (n : Nat) :
    blockSequence (n + 1) (reader (t :: ts) faulty) = some ([], reader ts faulty) := by
  simp only [blockSequence, bind, StateT.bind, ahead_reader h, Option.bind, hkind, skip_reader]
  rfl

/-- A sequence goes on behind each item. -/
theorem blockSequence_item (h : Shown ts faulty) (hkind : u.kind = .blockEntry) (hbegins : begins t.kind = true)
    {n : Nat} {item : Node} {ns : List Node} {rest last : List Token}
    (hitem : node n true false (reader (t :: ts) faulty) = some (item, reader rest faulty))
    (hmore : blockSequence n (reader rest faulty) = some (ns, reader last faulty)) :
    blockSequence (n + 1) (reader (u :: t :: ts) faulty) = some (item :: ns, reader last faulty) := by
  simp only [blockSequence, bind, StateT.bind, ahead_reader (h.cons t), peek_reader (h.cons t), step_reader h,
    Option.bind, hkind, beq_of_begins hbegins (show begins .blockEntry = false from rfl),
    beq_of_begins hbegins (show begins .blockEnd = false from rfl), Bool.or_self, Bool.false_eq_true, if_false,
    hitem, hmore]
  rfl

/-- A mapping ends at its end. -/
theorem blockMapping_end (h : Shown ts faulty) (hkind : t.kind = .blockEnd) (n : Nat) :
    blockMapping (n + 1) (reader (t :: ts) faulty) = some ([], reader ts faulty) := by
  simp only [blockMapping, bind, StateT.bind, ahead_reader h, Option.bind, hkind, skip_reader]
  rfl

/-- **A pair**: the key is a name, the value any node. -/
theorem blockMapping_pair {k a v : Token} {name : List Char} (hkey : k.kind = .key)
    (hname : a.kind = .scalar name .plain) (hvalue : v.kind = .value) (hbegins : begins t.kind = true)
    (h : Shown ts faulty) (n : Nat) :
    blockMapping (n + 3) (reader (k :: a :: v :: t :: ts) faulty) =
      (node (n + 1) true true (reader (t :: ts) faulty)).bind fun p =>
        (blockMapping (n + 2) p.2).bind fun q => some ((.scalar a.line none .plain name, p.1) :: q.1, q.2) := by
  have hv := (h.cons t).cons v
  have hkeypart := blockPart_reader (u := k) hv (show begins a.kind = true by rw [hname]; rfl) (n + 1)
  rw [node_scalar ((h.cons t).cons v) hname n] at hkeypart
  rw [blockMapping]
  simp only [bind, StateT.bind, ahead_reader (hv.cons a), Option.bind, hkey, hkeypart, ahead_reader (h.cons t),
    hvalue, beq_self_eq_true, if_true, blockPart_reader h hbegins]
  rfl

/-! ### The tokens of an outline -/

/-- **The items of a list**, up to its end. -/
theorem read_items {items : List Leaf} (hgood : ∀ l ∈ items, l.content ≠ none)
    (hkinds : ts.map Token.kind = itemKinds items) {last : Token} (hlast : last.kind = .blockEnd)
    {rest : List Token} (h : Shown rest faulty) {n : Nat} (hn : items.length < n) :
    ∃ ns, ItemsShow items ns ∧
      blockSequence n (reader (ts ++ last :: rest) faulty) = some (ns, reader rest faulty) := by
  induction items generalizing ts n with
  | nil =>
      obtain ⟨n, rfl⟩ := Nat.exists_eq_add_one.2 hn
      obtain rfl := List.map_eq_nil_iff.1 hkinds
      exact ⟨[], trivial, blockSequence_end h hlast n⟩
  | cons l ls ih =>
      obtain ⟨n, rfl⟩ := Nat.exists_eq_add_one.2 (Nat.zero_lt_of_lt hn)
      obtain ⟨u, ts, rfl, hu, hkinds⟩ := List.map_eq_cons_iff.1 hkinds
      obtain ⟨as, bs, rfl, has, hbs⟩ := List.map_eq_append_iff.1 hkinds
      obtain ⟨n, rfl⟩ := Nat.exists_eq_add_one.2 (Nat.zero_lt_of_lt (Nat.lt_of_succ_lt_succ hn))
      obtain ⟨ns, hns, hmore⟩ := ih (fun x hx => hgood x (List.mem_cons_of_mem l hx)) hbs
        (Nat.lt_of_succ_lt_succ hn)
      obtain ⟨item, hitem, hread⟩ := node_leaf (hgood l List.mem_cons_self) has ((h.cons last).append bs) n true false
      obtain ⟨t, as, rfl, ht⟩ := exists_begins (hgood l List.mem_cons_self) has
      refine ⟨item :: ns, ⟨hitem, hns⟩, ?_⟩
      simp only [List.cons_append, List.append_assoc] at hread hmore ⊢
      exact blockSequence_item (((h.cons last).append bs).append as) hu ht hread hmore

theorem length_items_le {items : List Leaf} : items.length ≤ (itemKinds items).length := by
  induction items with
  | nil => exact Nat.le_refl 0
  | cons l ls ih =>
      simp only [itemKinds, List.flatMap_cons, List.length_append, List.length_cons] at ih ⊢
      omega

/-- A leaf that can be read has tokens. -/
theorem length_kinds_pos {l : Leaf} (hgood : l.content ≠ none) : 0 < l.kinds.length := by
  obtain ⟨c, hc⟩ := Option.ne_none_iff_exists'.1 hgood
  simp [Leaf.kinds, hc, Content.kinds]

/-- An entry has tokens for its key and its value. -/
theorem four_le_length_kinds {e : Entry} (hgood : e.Good) : 4 ≤ e.kinds.length := by
  cases e with
  | leaf name value =>
      have := length_kinds_pos hgood
      simp only [Entry.kinds, keyKinds, List.length_append, List.length_cons, List.length_nil]
      omega
  | list name items | block name entries =>
      simp only [Entry.kinds, keyKinds, List.length_append, List.length_cons, List.length_nil]
      omega

/-- The tokens of a key. -/
theorem keyKinds_spec {name : List Char} {kinds : List Token.Kind} (h : ts.map Token.kind = keyKinds name ++ kinds) :
    ∃ k a v ts', ts = k :: a :: v :: ts' ∧ k.kind = .key ∧ a.kind = .scalar name .plain ∧ v.kind = .value ∧
      ts'.map Token.kind = kinds := by
  obtain ⟨k, ts, rfl, hk, h⟩ := List.map_eq_cons_iff.1 h
  obtain ⟨a, ts, rfl, ha, h⟩ := List.map_eq_cons_iff.1 h
  obtain ⟨v, ts, rfl, hv, h⟩ := List.map_eq_cons_iff.1 h
  exact ⟨k, a, v, ts, rfl, hk, ha, hv, h⟩

/-- A pair whose value is read. -/
theorem read_pair {k a v : Token} {name : List Char} (hkey : k.kind = .key)
    (hname : a.kind = .scalar name .plain) (hvalue : v.kind = .value) (hbegins : begins t.kind = true)
    (h : Shown ts faulty) {n : Nat} {value : Node} {rest : List Token}
    (hread : node (n + 1) true true (reader (t :: ts) faulty) = some (value, reader rest faulty)) :
    blockMapping (n + 3) (reader (k :: a :: v :: t :: ts) faulty) =
      (blockMapping (n + 2) (reader rest faulty)).bind fun q =>
        some ((.scalar a.line none .plain name, value) :: q.1, q.2) := by
  rw [blockMapping_pair hkey hname hvalue hbegins h, hread]
  rfl

mutual

/-- **An entry is read as a pair that shows it**, if there are as many steps as it has tokens. -/
theorem read_entry (e : Entry) {level : Nat} (hwritten : e.Written level) (hgood : e.Good) {ts rest : List Token}
    {faulty : Bool} (hkinds : ts.map Token.kind = e.kinds) (h : Shown rest faulty) {n : Nat}
    (hn : e.kinds.length ≤ n + 3) :
    ∃ p, e.Shows p ∧ blockMapping (n + 3) (reader (ts ++ rest) faulty) =
      (blockMapping (n + 2) (reader rest faulty)).bind fun q => some (p :: q.1, q.2) :=
  match e with
  | .leaf name value => by
      simp only [Entry.kinds] at hkinds
      obtain ⟨k, a, v, ts, rfl, hk, ha, hv, hkinds⟩ := keyKinds_spec hkinds
      obtain ⟨node', hshows, hread⟩ := node_leaf hgood hkinds h n true true
      obtain ⟨t, ts, rfl, ht⟩ := exists_begins hgood hkinds
      exact ⟨(.scalar a.line none .plain name, node'), ⟨⟨_, rfl⟩, hshows⟩, read_pair hk ha hv ht (h.append ts) hread⟩
  | .list name items => by
      simp only [Entry.kinds, List.append_assoc, List.cons_append] at hkinds
      simp only [Entry.kinds, List.length_append, List.length_cons, keyKinds, List.length_nil] at hn
      simp only [Entry.Written] at hwritten
      obtain ⟨k, a, v, ts, rfl, hk, ha, hv, hkinds⟩ := keyKinds_spec hkinds
      obtain ⟨t, ts, rfl, ht, hkinds⟩ := List.map_eq_cons_iff.1 hkinds
      obtain ⟨ts, last, rfl, hts, hlast⟩ := List.map_eq_append_iff.1 hkinds
      obtain ⟨last, rfl, hend⟩ := List.map_eq_singleton_iff.1 hlast
      have hitems : ∀ l ∈ items, l.content ≠ none := fun l hl => (hwritten.2.2 l hl).2
      have hlen := @length_items_le items
      obtain ⟨ns, hshow, hread⟩ := read_items hitems hts hend h (show items.length < n by omega)
      refine ⟨(.scalar a.line none .plain name, .sequence t.line none ns), ⟨⟨_, rfl⟩, _, ns, rfl, hshow⟩, ?_⟩
      have hnode := node_sequence ((h.cons last).append ts) ht n true hread
      simp only [List.cons_append, List.append_assoc, List.nil_append]
      exact read_pair hk ha hv (by rw [ht]; rfl) ((h.cons last).append ts) hnode
  | .block name entries => by
      simp only [Entry.kinds, List.append_assoc, List.cons_append] at hkinds
      simp only [Entry.kinds, List.length_append, List.length_cons, keyKinds, List.length_nil] at hn
      simp only [Entry.Written] at hwritten
      obtain ⟨k, a, v, ts, rfl, hk, ha, hv, hkinds⟩ := keyKinds_spec hkinds
      obtain ⟨t, ts, rfl, ht, hkinds⟩ := List.map_eq_cons_iff.1 hkinds
      obtain ⟨ts, last, rfl, hts, hlast⟩ := List.map_eq_append_iff.1 hkinds
      obtain ⟨last, rfl, hend⟩ := List.map_eq_singleton_iff.1 hlast
      obtain ⟨pairs, m, hshow, hread⟩ := read_entries entries hwritten.2.2 hgood hts (h.cons last)
        (show (kindsOf entries).length < n by omega)
      refine ⟨(.scalar a.line none .plain name, .mapping t.line none pairs), ⟨⟨_, rfl⟩, _, pairs, rfl, hshow⟩, ?_⟩
      have hnode : node (n + 1) true true (reader (t :: (ts ++ last :: rest)) faulty) =
          some (.mapping t.line none pairs, reader rest faulty) := by
        rw [node_mapping ((h.cons last).append ts) ht, hread, blockMapping_end h hend]
        simp only [Option.bind_some, List.append_nil]
        rfl
      simp only [List.cons_append, List.append_assoc, List.nil_append]
      exact read_pair hk ha hv (by rw [ht]; rfl) ((h.cons last).append ts) hnode

/-- **Entries are read one by one**, and reading goes on behind them. -/
theorem read_entries (es : List Entry) {level : Nat} (hwritten : WrittenAll level es) (hgood : GoodAll es)
    {ts rest : List Token} {faulty : Bool} (hkinds : ts.map Token.kind = kindsOf es) (h : Shown rest faulty)
    {n : Nat} (hn : (kindsOf es).length < n) :
    ∃ pairs m, AllShow es pairs ∧ blockMapping n (reader (ts ++ rest) faulty) =
      (blockMapping (m + 1) (reader rest faulty)).bind fun q => some (pairs ++ q.1, q.2) :=
  match es with
  | [] => by
      obtain ⟨n, rfl⟩ := Nat.exists_eq_add_one.2 (Nat.zero_lt_of_lt hn)
      obtain rfl := List.map_eq_nil_iff.1 hkinds
      refine ⟨[], n, rfl, ?_⟩
      cases hread : blockMapping (n + 1) (reader rest faulty) <;> simp [hread]
  | e :: es => by
      simp only [kindsOf, List.length_append] at hkinds hn
      obtain ⟨as, bs, rfl, has, hbs⟩ := List.map_eq_append_iff.1 hkinds
      have hlen := four_le_length_kinds hgood.1
      obtain ⟨n, rfl⟩ : ∃ n', n = n' + 3 := ⟨n - 3, by omega⟩
      obtain ⟨p, hp, hread⟩ := read_entry e hwritten.1 hgood.1 has (h.append bs) (show e.kinds.length ≤ n + 3 by omega)
      obtain ⟨ps, m, hps, hmore⟩ := read_entries es hwritten.2 hgood.2 hbs h (show (kindsOf es).length < n + 2 by omega)
      refine ⟨p :: ps, m, ⟨p, ps, rfl, hp, hps⟩, ?_⟩
      rw [List.append_assoc, hread, hmore, Option.bind_assoc]
      rfl

end

theorem Breaks.three_le {entries : List Entry} {found : List Token.Kind} (h : Breaks entries found) :
    3 ≤ found.length := by
  cases h with
  | leaf hvalue => exact Nat.le_refl 3
  | block h => simp [keyKinds]
  | later hgood h =>
      have := four_le_length_kinds hgood
      rw [List.length_append]
      omega

/-- Behind a key that is the last thing before a fault nothing can be looked at. -/
theorem blockMapping_cut {k a v : Token} (hkey : k.kind = .key) (n : Nat) :
    blockMapping (n + 2) (reader [k, a, v] true) = none := by
  have hshown : Shown [a, v] true := .inr (Nat.le_refl 2)
  have hpart : blockPart (n + 1) (reader [k, a, v] true) = none := by
    simp only [blockPart, bind, StateT.bind, peek_reader hshown, Option.bind]
    rfl
  rw [blockMapping]
  simp only [bind, StateT.bind, ahead_reader hshown, Option.bind, hkey, hpart]

/-- **A fault is met** before the entries end. -/
theorem read_broken {entries : List Entry} {found : List Token.Kind} (hbreaks : Breaks entries found)
    {level : Nat} (hwritten : WrittenAll level entries) (hkinds : ts.map Token.kind = found) {n : Nat}
    (hn : found.length < n) : blockMapping n (reader ts true) = none := by
  induction hbreaks generalizing level ts n with
  | @leaf name value es hvalue =>
      obtain ⟨n, rfl⟩ : ∃ n', n = n' + 2 := ⟨n - 2, by simp [keyKinds] at hn; omega⟩
      obtain ⟨k, a, v, ts, rfl, hk, -, -, hts⟩ := keyKinds_spec (hkinds.trans (List.append_nil _).symm)
      obtain rfl := List.map_eq_nil_iff.1 hts
      exact blockMapping_cut hk n
  | @block name entries es found hbreaks ih =>
      simp only [WrittenAll, Entry.Written] at hwritten
      obtain ⟨n, rfl⟩ : ∃ n', n = n' + 3 := ⟨n - 3, by simp [keyKinds] at hn; omega⟩
      obtain ⟨k, a, v, ts, rfl, hk, ha, hv, hkinds⟩ := keyKinds_spec hkinds
      obtain ⟨t, ts, rfl, ht, hkinds⟩ := List.map_eq_cons_iff.1 hkinds
      -- the fault is not reached yet
      have hshown : Shown ts true := by
        have := Breaks.three_le hbreaks
        rw [← hkinds, List.length_map] at this
        exact .inr (by omega)
      have hlen : found.length < n := by
        simp only [keyKinds, List.length_append, List.length_cons, List.length_nil] at hn
        omega
      rw [blockMapping_pair hk ha hv (by rw [ht]; rfl) hshown, node_mapping hshown ht,
        ih hwritten.1.2.2 hkinds hlen]
      rfl
  | @later e es found hgood hbreaks ih =>
      simp only [WrittenAll] at hwritten
      obtain ⟨as, bs, rfl, has, hbs⟩ := List.map_eq_append_iff.1 hkinds
      have hlen := four_le_length_kinds hgood
      rw [List.length_append] at hn
      obtain ⟨n, rfl⟩ : ∃ n', n = n' + 3 := ⟨n - 3, by omega⟩
      have hshown : Shown bs true := by
        have := Breaks.three_le hbreaks
        rw [← hbs, List.length_map] at this
        exact .inr (by omega)
      -- the entry is good, and the fault is behind it
      obtain ⟨p, -, hread⟩ := read_entry e hwritten.1 hgood has hshown (show e.kinds.length ≤ n + 3 by omega)
      rw [hread, ih hwritten.2 hbs (show found.length < n + 2 by omega)]
      rfl

/-! ### Documents -/

/-- A stream that begins with a mapping in block style. -/
theorem document_mapping {a b : Token} (hb : b.kind = .blockMappingStart) (h : Shown ts faulty) :
    document { tokens := a :: b :: ts, faulty := faulty } =
      (node (4 * (ts.length + 1) + 8) true false (reader (b :: ts) faulty)).bind fun p =>
        ((discard peek : Reading Unit) p.2).bind fun q => some (some p.1, q.2) := by
  have hskip : skip { tokens := a :: b :: ts, faulty := faulty } = some ((), { tokens := b :: ts, faulty := faulty }) :=
    rfl
  have hget : (get : Reading Reader) { tokens := b :: ts, faulty := faulty } =
      some ({ tokens := b :: ts, faulty := faulty }, { tokens := b :: ts, faulty := faulty }) :=
    rfl
  have hpeek : peek { tokens := b :: ts, faulty := faulty } = some (b, { tokens := b :: ts, faulty := faulty }) :=
    peek_eq rfl h
  have hahead : ahead { tokens := b :: ts, faulty := faulty } =
      some (.blockMappingStart, { tokens := b :: ts, faulty := faulty }) := by
    simp only [ahead, bind, StateT.bind, hpeek, Option.bind, hb]
    rfl
  simp only [document, bind, StateT.bind, hskip, Option.bind, hget, hahead]
  rfl

end Reading

/-! ### The text of an outline -/

theorem isKeyChar_ascii {c : Char} (h : Scanner.isKeyChar c = true) : isWritten c = true ∧ c.toNat < 0x80 := by
  have hrange : 0x41 ≤ c.toNat ∧ c.toNat ≤ 0x7A := by
    delta Scanner.isKeyChar Char.isAlpha Char.isUpper Char.isLower at h
    simp only [Bool.or_eq_true, Bool.and_eq_true, decide_eq_true_eq, beq_iff_eq, ge_iff_le,
      UInt32.le_iff_toNat_le] at h
    rcases h with (h | h) | rfl
    · exact ⟨h.1, Nat.le_trans h.2 (by decide)⟩
    · exact ⟨Nat.le_trans (by decide) h.1, h.2⟩
    · decide
  refine ⟨?_, by omega⟩
  simp only [isWritten, Printer.isShown, Bool.or_eq_true, Bool.and_eq_true, decide_eq_true_eq]
  omega

theorem isWritten_name {name : List Char} (h : Scanner.IsKey name) {rest : List Char}
    (hrest : ∀ c ∈ rest, isWritten c = true) : ∀ c ∈ name ++ ':' :: rest, isWritten c = true := by
  intro c hc
  rcases List.mem_append.1 hc with hc | hc
  · exact (isKeyChar_ascii (h.chars c hc)).1
  · rcases List.mem_cons.1 hc with rfl | hc
    · decide
    · exact hrest c hc

theorem isWritten_spaces {n : Nat} {rest : List Char} (hrest : ∀ c ∈ rest, isWritten c = true) :
    ∀ c ∈ spaces n ++ rest, isWritten c = true := by
  intro c hc
  rcases List.mem_append.1 hc with hc | hc
  · rw [eq_space_of_mem hc]
    decide
  · exact hrest c hc

/-- Items are written with characters that can be. -/
theorem isWritten_itemLines {level : Nat} {items : List Leaf} (h : ∀ l ∈ items, ∀ c ∈ l.line, isWritten c = true) :
    ∀ c ∈ itemLines level items, isWritten c = true := by
  intro c hc
  obtain ⟨l, hl, hc⟩ := List.mem_flatMap.1 hc
  refine isWritten_spaces (fun x hx => ?_) c hc
  rcases List.mem_cons.1 hx with rfl | hx
  · decide
  · rcases List.mem_cons.1 hx with rfl | hx
    · decide
    · exact h l hl x hx

mutual

/-- **Entries are written with characters that can be.** -/
theorem isWritten_body (e : Entry) {level : Nat} (h : e.Written level) : ∀ c ∈ e.body level, isWritten c = true :=
  match e with
  | .leaf name value => isWritten_name h.1 (List.forall_mem_cons.2 ⟨by decide, h.2.chars⟩)
  | .list name items =>
      isWritten_name h.1 (List.forall_mem_cons.2 ⟨by decide, isWritten_itemLines fun l hl => (h.2.2 l hl).1.chars⟩)
  | .block name entries => isWritten_name h.1 (List.forall_mem_cons.2 ⟨by decide, isWritten_linesOf entries h.2.2⟩)

/-- **What is written well can be read as a stream.** -/
theorem isWritten_linesOf (es : List Entry) {level : Nat} (h : WrittenAll level es) :
    ∀ c ∈ linesOf level es, isWritten c = true :=
  match es with
  | [] => by simp [linesOf]
  | e :: es => by
      intro c hc
      simp only [linesOf, List.append_assoc] at hc
      refine isWritten_spaces (fun x hx => ?_) c hc
      rcases List.mem_append.1 hx with hx | hx
      · exact isWritten_body e h.1 x hx
      · exact isWritten_linesOf es h.2 x hx

end

/-- Lines of entries are the text they are written as. -/
theorem source?_linesOf {entries : List Entry} (hne : entries ≠ []) (h : WrittenAll 0 entries) :
    source? (Utf8.encode (linesOf 0 entries)) = some (linesOf 0 entries) := by
  have hwritten := isWritten_linesOf entries h
  obtain ⟨e, es, rfl⟩ := List.exists_cons_of_ne_nil hne
  obtain ⟨c, rest, hc, hlines⟩ : ∃ c rest, Scanner.isKeyChar c = true ∧ linesOf 0 (e :: es) = c :: rest := by
    obtain ⟨name, rest, hname, hbody⟩ : ∃ name rest, Scanner.IsKey name ∧ e.body 0 = name ++ rest := by
      cases e with
      | leaf | list | block => exact ⟨_, _, h.1.1, rfl⟩
    obtain ⟨c, name, rfl⟩ := List.exists_cons_of_ne_nil hname.ne_nil
    refine ⟨c, name ++ rest ++ linesOf 0 es, hname.chars c List.mem_cons_self, ?_⟩
    simp [linesOf, hbody, spaces]
  rw [hlines] at hwritten ⊢
  exact source?_encode (isKeyChar_ascii hc).2 hwritten

open Reading

/-- **An outline is read** as a mapping that shows it. -/
theorem parse_linesOf {entries : List Entry} (hne : entries ≠ []) (hwritten : WrittenAll 0 entries)
    (hgood : GoodAll entries) :
    ∃ line pairs, AllShow entries pairs ∧
      Document.parse (Utf8.encode (linesOf 0 entries)) = .tree (.mapping line none pairs) := by
  obtain ⟨ts, htokens, hkinds⟩ := tokens_linesOf hne hwritten hgood
  obtain ⟨a, ts, rfl, -, hkinds⟩ := List.map_eq_cons_iff.1 hkinds
  obtain ⟨b, ts, rfl, hb, hkinds⟩ := List.map_eq_cons_iff.1 hkinds
  obtain ⟨ts, ends, rfl, hts, hends⟩ := List.map_eq_append_iff.1 hkinds
  obtain ⟨mapEnd, ends, rfl, hmapEnd, hends⟩ := List.map_eq_cons_iff.1 hends
  obtain ⟨streamEnd, rfl, -⟩ := List.map_eq_singleton_iff.1 hends
  have hshown : ∀ us, Shown us false := fun _ => .inl rfl
  have hlen : (kindsOf entries).length = ts.length := by rw [← hts, List.length_map]
  obtain ⟨pairs, m, hpairs, hread⟩ := read_entries entries hwritten hgood hts (hshown [mapEnd, streamEnd])
    (show (kindsOf entries).length < 4 * ((ts ++ [mapEnd, streamEnd]).length + 1) + 7 by
      rw [hlen, List.length_append]; omega)
  refine ⟨b.line, pairs, hpairs, ?_⟩
  have hdocument : document { tokens := a :: b :: (ts ++ [mapEnd, streamEnd]), faulty := false } =
      some (some (.mapping b.line none pairs), reader [streamEnd] false) := by
    rw [document_mapping hb (hshown _), node_mapping (hshown _) hb, hread, blockMapping_end (hshown _) hmapEnd]
    simp only [Option.bind_some, List.append_nil]
    rfl
  rw [Document.parse, source?_linesOf hne hwritten]
  simp only [htokens, StateT.run, hdocument]

/-- **An outline with a fault is malformed.** -/
theorem parse_broken {entries : List Entry} (hwritten : WrittenAll 0 entries) {found : List Token.Kind}
    (hbreaks : Breaks entries found) : Document.parse (Utf8.encode (linesOf 0 entries)) = .malformed := by
  have hne : entries ≠ [] := by cases hbreaks <;> exact List.cons_ne_nil _ _
  obtain ⟨ts, htokens, hkinds⟩ := tokens_broken hwritten hbreaks
  obtain ⟨a, ts, rfl, -, hkinds⟩ := List.map_eq_cons_iff.1 hkinds
  obtain ⟨b, ts, rfl, hb, hkinds⟩ := List.map_eq_cons_iff.1 hkinds
  have hlen : found.length = ts.length := by rw [← hkinds, List.length_map]
  have hshown : Shown ts true := .inr (by have := Breaks.three_le hbreaks; omega)
  have hdocument : document { tokens := a :: b :: ts, faulty := true } = none := by
    rw [document_mapping hb hshown, node_mapping hshown hb, read_broken hbreaks hwritten hkinds (by omega)]
    rfl
  rw [Document.parse, source?_linesOf hne hwritten]
  simp only [htokens, StateT.run, hdocument]

end Restyle.Yaml
