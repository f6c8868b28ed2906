import Restyle.Proofs.Yaml.Values

/-!
# Records of an outline

A mapping whose keys are names of different fields sets these fields one after the other (`Fills`), with
nothing to note (`read_fills`).
-/

namespace Restyle.Yaml

/-- The key of an entry. -/
def Entry.name : Entry → List Char
  | .leaf name _ | .list name _ | .block name _ => name

theorem Entry.Shows.key {e : Entry} {p : Node × Node} (h : e.Shows p) : KeyShows e.name p.1 := by
  cases e with
  | leaf | list | block =>
      simp only [Entry.Shows] at h
      exact h.1

/-- The name is read as text, and merges nothing. -/
structure IsFieldName (name : List Char) : Prop where
  means : meaning true name = .text
  notMerge : isMergeKey name = false

instance (name : List Char) : Decidable (IsFieldName name) :=
  decidable_of_iff (meaning true name = .text ∧ isMergeKey name = false)
    ⟨fun h => ⟨h.1, h.2⟩, fun h => ⟨h.means, h.notMerge⟩⟩

theorem KeyShows.keyOf {name : List Char} {n : Node} (h : KeyShows name n) : Decoding.keyOf n = (0, name) := by
  obtain ⟨line, rfl⟩ := h
  rfl

/-- The name of a field is not the key that merges. -/
theorem KeyShows.isMerge {name : List Char} {n : Node} (h : KeyShows name n) (hname : IsFieldName name) :
    n.isMerge = false := by
  obtain ⟨line, rfl⟩ := h
  exact hname.notMerge

/-- A key is read as its name. -/
theorem KeyShows.text {name : List Char} {n : Node} (h : KeyShows name n) (hname : IsFieldName name)
    (issues : List Issue) : (Decoding.text n).run issues = some (some (Utf8.encode name), issues) := by
  obtain ⟨line, rfl⟩ := h
  refine text_scalar ?_ issues
  simp [scalarMeaning?, hname.means, hname.notMerge]

namespace Record

variable {α : Type} {r : Record α}

/-- The fields have names of their own. -/
def Distinct (r : Record α) : Prop :=
  (r.fields.map Field.name).Nodup

instance (r : Record α) : Decidable r.Distinct :=
  inferInstanceAs (Decidable (r.fields.map Field.name).Nodup)

/-- **A field is found by its name.** -/
theorem Distinct.find? (h : r.Distinct) {f : Field α} (hf : f ∈ r.fields) :
    r.fields.find? (fun g => (g.name : Bytes) == Utf8.encode f.name.toList) = some f := by
  obtain ⟨_, fields⟩ := r
  induction fields with
  | nil => cases hf
  | cons g gs ih =>
      obtain ⟨hg, hgs⟩ := List.nodup_cons.1 h
      rcases List.mem_cons.1 hf with rfl | hf
      · exact List.find?_cons_of_pos (by simp)
      · rw [List.find?_cons_of_neg]
        · exact ih hgs hf
        · rw [beq_iff_eq, Utf8.encode_inj, String.toList_inj]
          exact fun heq => hg (heq ▸ List.mem_map_of_mem hf)

/-- Reading one entry after the other into the field it names. -/
inductive Fills (r : Record α) : α → List Entry → α → Prop where
  | nil (a : α) : Fills r a [] a
  | cons {a b c : α} {e : Entry} {es : List Entry} {f : Field α} (hname : IsFieldName e.name) (hf : f ∈ r.fields)
      (heq : f.name.toList = e.name)
      (hread : ∀ p, e.Shows p → ∀ issues, (f.read a p.2).run issues = some (b, issues)) (h : Fills r b es c) :
      Fills r a (e :: es) c

theorem Fills.of_eq {a b : α} (h : a = b) : Fills r a [] b :=
  h ▸ .nil a

/-- Only names of fields are filled. -/
theorem Fills.isFieldName {a b : α} {entries : List Entry} (h : Fills r a entries b) :
    ∀ e ∈ entries, IsFieldName e.name := by
  induction h with
  | nil => simp
  | cons hname _ _ _ _ ih => exact List.forall_mem_cons.2 ⟨hname, ih⟩

/-- **A pair sets its field.** -/
theorem run_pair {p : Progress α} (htaken : p.taken = none) {key value : Node} {name : List Char}
    (hkey : KeyShows name key) (hname : IsFieldName name) {f : Field α}
    (hfind : r.fields.find? (fun f => (f.name : Bytes) == Utf8.encode name) = some f)
    (hdone : p.done.contains (Utf8.encode name) = false) {b : α} {issues : List Issue}
    (hread : (f.read p.value value).run issues = some (b, issues)) :
    (r.pair p key value).run issues =
      some ({ p with value := b, done := p.done ++ [Utf8.encode name] }, issues) := by
  have htext := hkey.text hname issues
  rw [pair, hkey.isMerge hname, if_neg Bool.false_ne_true]
  simp only [StateT.run, bind, StateT.bind] at htext hread ⊢
  simp only [htext, Option.bind, htaken, Option.map_none, hfind, hdone, Bool.false_eq_true, if_false]
  simp only [StateT.bind, bind, hread, Option.bind]
  rfl

/-- **Pairs set their fields** one after the other. -/
theorem run_pairs (hr : r.Distinct) {a b : α} {entries : List Entry} (h : Fills r a entries b) {pairs : List (Node × Node)}
    (hshow : AllShow entries pairs) (hnames : (entries.map Entry.name).Nodup) (done : List Bytes)
    (hdone : ∀ e ∈ entries, done.contains (Utf8.encode e.name) = false) (issues : List Issue) :
    ∃ done', (pairs.foldlM (fun p q => r.pair p q.1 q.2) { value := a, done := done, taken := none }).run issues =
      some ({ value := b, done := done', taken := none }, issues) := by
  induction h generalizing pairs done with
  | nil a =>
      obtain rfl : pairs = [] := hshow
      exact ⟨done, rfl⟩
  | @cons a b c e es f hname hf heq hread _ ih =>
      obtain ⟨⟨k, v⟩, ps, rfl, hp, hps⟩ := hshow
      rw [List.map_cons, List.nodup_cons] at hnames
      have hpair : (r.pair { value := a, done := done, taken := none } k v).run issues =
          some ({ value := b, done := done ++ [Utf8.encode e.name], taken := none }, issues) :=
        run_pair rfl hp.key hname (heq ▸ hr.find? hf) (hdone e List.mem_cons_self) (hread _ hp issues)
      have hothers : ∀ x ∈ es, (done ++ [Utf8.encode e.name]).contains (Utf8.encode x.name) = false := by
        intro x hx
        have hne : x.name ≠ e.name := fun h => hnames.1 (h ▸ List.mem_map_of_mem hx)
        have hx' := hdone x (List.mem_cons_of_mem e hx)
        simp only [List.contains_eq_mem, decide_eq_false_iff_not, List.mem_append, List.mem_singleton] at hx' ⊢
        rintro (hmem | heq)
        · exact hx' hmem
        · exact hne (Utf8.encode_inj.1 heq)
      obtain ⟨done', hmore⟩ := ih hps hnames.2 _ hothers
      refine ⟨done', ?_⟩
      rw [List.foldlM_cons]
      simp only [StateT.run, bind, StateT.bind] at hpair hmore ⊢
      simp only [hpair, Option.bind, hmore]

theorem AllShow.exists_key {entries : List Entry} {pairs : List (Node × Node)} (hshow : AllShow entries pairs)
    {p : Node × Node} (hp : p ∈ pairs) : ∃ e ∈ entries, KeyShows e.name p.1 := by
  induction entries generalizing pairs with
  | nil =>
      obtain rfl : pairs = [] := hshow
      cases hp
  | cons e es ih =>
      obtain ⟨q, ps, rfl, hq, hps⟩ := hshow
      rcases List.mem_cons.1 hp with rfl | hp
      · exact ⟨e, List.mem_cons_self, hq.key⟩
      · obtain ⟨x, hx, hkey⟩ := ih hps hp
        exact ⟨x, List.mem_cons_of_mem e hx, hkey⟩

/-- No key is repeated if no name is. -/
theorem repeatedKeys_of_nodup {entries : List Entry} {pairs : List (Node × Node)} (hshow : AllShow entries pairs)
    (hnames : (entries.map Entry.name).Nodup) : Decoding.repeatedKeys pairs = [] := by
  induction entries generalizing pairs with
  | nil =>
      obtain rfl : pairs = [] := hshow
      rfl
  | cons e es ih =>
      obtain ⟨⟨k, v⟩, ps, rfl, hp, hps⟩ := hshow
      rw [List.map_cons, List.nodup_cons] at hnames
      have hother : ∀ q ∈ ps, ¬(Decoding.keyOf q.1 == Decoding.keyOf k) = true := by
        intro q hq heq
        obtain ⟨x, hx, hkey⟩ := AllShow.exists_key hps hq
        rw [beq_iff_eq, hkey.keyOf, hp.key.keyOf] at heq
        exact hnames.1 ((Prod.mk.inj heq).2 ▸ List.mem_map_of_mem hx)
      rw [Decoding.repeatedKeys, List.filter_eq_nil_iff.2 hother, ih hps hnames.2]
      rfl

/-- **A mapping fills a record** with its entries. -/
theorem read_fills (hr : r.Distinct) {a b : α} {entries : List Entry} (h : Fills r a entries b)
    (hnames : (entries.map Entry.name).Nodup) {line : Nat} {pairs : List (Node × Node)}
    (hshow : AllShow entries pairs) (depth : Nat) (issues : List Issue) :
    (r.read (depth + 1) a (.mapping line none pairs)).run issues = some (b, issues) := by
  obtain ⟨done, hrun⟩ := run_pairs hr h hshow hnames [] (by simp) issues
  have hmerge : pairs.reverse.find? (·.1.isMerge) = none := by
    rw [List.find?_eq_none]
    intro p hp
    obtain ⟨e, he, hkey⟩ := AllShow.exists_key hshow (List.mem_reverse.1 hp)
    rw [hkey.isMerge (h.isFieldName e he)]
    exact Bool.false_ne_true
  rw [read, readFrom]
  simp only [Decoding.target, pure_bind, repeatedKeys_of_nodup hshow hnames, hmerge]
  simp only [StateT.run, bind, StateT.bind] at hrun ⊢
  rw [hrun]
  rfl

end Record

/-! ### Fields by kind -/

/-- A word on a line of its own. -/
def wordLeaf (word : List Char) : Leaf :=
  ⟨word ++ ['\n'], some { style := .plain, text := word }⟩

/-- A word can be written as it is. -/
theorem wordLeaf_written {word : List Char} (hne : word ≠ []) (h : Printer.allowsPlain word = true) (parent : Nat) :
    (wordLeaf word).Written parent := by
  refine Leaf.written_of_reads (Scanner.reads_plain hne h) fun c hc => ?_
  rcases List.mem_append.1 hc with hc | hc
  · exact isWritten_of_allowsPlain h hc
  · rw [List.mem_singleton.1 hc]
    decide

/-- Items are read back as texts. -/
theorem texts_of_shows {indent : Nat} {vs : List Bytes} {ns : List Node} (h : ItemsShow (vs.map (leafOf indent)) ns)
    (issues : List Issue) : (ns.filterMapM Decoding.text).run issues = some (vs.map readBack, issues) := by
  induction vs generalizing ns with
  | nil =>
      match ns, h with
      | [], _ => rfl
  | cons v vs ih =>
      match ns, h with
      | n :: ns, ⟨hn, hns⟩ =>
          have htext := text_of_shows hn issues
          have hmore := ih hns
          rw [List.filterMapM_cons]
          simp only [StateT.run, bind, StateT.bind] at htext hmore ⊢
          rw [htext]
          simp only [Option.bind, StateT.bind, bind, hmore]
          rfl

namespace Field

variable {α : Type} {name : String} {a : α} {n : Node}

/-- **A text is read** into its field. -/
theorem read_text {indent : Nat} {v : Bytes} (h : (leafOf indent v).Shows n) (set : α → Bytes → α)
    (issues : List Issue) : ((Field.text name set).read a n).run issues = some (set a (readBack v), issues) := by
  have htext := text_of_shows h issues
  simp only [Field.text, StateT.run, bind, StateT.bind] at htext ⊢
  rw [htext]
  rfl

theorem read_texts {indent line : Nat} {vs : List Bytes} {ns : List Node}
    (h : ItemsShow (vs.map (leafOf indent)) ns) (set : α → List Bytes → α) (issues : List Issue) :
    ((Field.texts name set).read a (.sequence line none ns)).run issues =
      some (set a (vs.map readBack), issues) := by
  have htexts := texts_of_shows h issues
  simp only [Field.texts, Decoding.texts, Decoding.target, pure_bind]
  simp only [StateT.run, bind, StateT.bind] at htexts ⊢
  rw [htexts]
  rfl

theorem read_flag {b : Bool} (h : (wordLeaf (if b then "true" else "false").toList).Shows n) (set : α → Bool → α)
    (issues : List Issue) : ((Field.flag name set).read a n).run issues = some (set a b, issues) := by
  obtain ⟨c, line, hc, rfl⟩ := h
  obtain rfl := Option.some.inj hc
  cases b <;> rfl

/-- **Entries are read** into the record they fill. -/
theorem read_record {β : Type} {r : Record β} {depth line : Nat} {pairs : List (Node × Node)} {entries : List Entry}
    {get : α → β} {b : β} (hr : r.Distinct) (hfills : r.Fills (get a) entries b) (hnames : (entries.map Entry.name).Nodup)
    (hshow : AllShow entries pairs) (set : α → β → α) (issues : List Issue) :
    ((Field.record name r (depth + 1) get set).read a (.mapping line none pairs)).run issues =
      some (set a b, issues) := by
  have hread : (r.read (depth + 1) (get a) (.mapping line none pairs)).run issues = some (b, issues) :=
    Record.read_fills hr hfills hnames hshow depth issues
  simp only [Field.record, StateT.run, bind, StateT.bind] at hread ⊢
  rw [hread]
  rfl

end Field

end Restyle.Yaml
