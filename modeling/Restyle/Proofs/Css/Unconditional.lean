import Restyle.Proofs.Css.ClassSheet
import Restyle.Proofs.Css.Declared

/-!
# What merging says without a condition

A `ClassSheet` is a sequence of class rules and queries whose blocks hold class rules.  Merged, it is
a list of declarations, and behind it the queries.  The list is the *unconditional part*.

The first rule of each query stays in it; the rules behind the first one do not.

* `beforeQueries_merged`: the unconditional part is made of the bodies that `taken` names.
* `mergeRules_unconditional_iff`: it is that of the sheet without its queries exactly when those
  bodies declare what the rules outside the queries declare.
-/

namespace Restyle.Css

/-! ### Sheets of class rules and queries -/

/-- A query whose block holds class rules, with the white space before it. -/
structure ClassQuery where
  gap : Blanks
  header : HeaderText
  rules : List ClassRule
  /-- The white space behind the last rule. -/
  tail : Blanks

/-- A rule, or a query with rules in it. -/
inductive ClassItem where
  | rule (r : ClassRule)
  | query (q : ClassQuery)

/-- Rules and queries with blanks behind them. -/
structure ClassSheet where
  items : List ClassItem
  tail : Blanks

namespace ClassItem

def text : ClassItem → List Char
  | rule r => r.text
  | query q => q.gap.1 ++ q.header.block (q.rules.flatMap ClassRule.text ++ q.tail.1)

/-- The item as merging reads it: a query ends with its first rule. -/
def parts : ClassItem → List Part
  | rule r => [.rule r]
  | query ⟨gap, header, [], tail⟩ => [.blank gap, .query header ⟨tail.1, tail.not_mem (by decide)⟩]
  | query ⟨gap, header, r :: rs, tail⟩ =>
    .blank gap :: .query header ⟨r.opening, r.close_not_mem_opening⟩ :: rs.map .rule ++
      [.blank tail, .close]

/-- What is left of the item when queries are deleted. -/
def outside : ClassItem → Part
  | rule r => .rule r
  | query q => .blank q.gap

/-- The bodies that are not behind a condition. -/
def ownBodies : ClassItem → List (List Char)
  | rule r => [r.body]
  | query _ => []

/-- The bodies that merging leaves without a condition when no rule is torn: in a query, all but the
first. -/
def looseBodies : ClassItem → List (List Char)
  | rule r => [r.body]
  | query q => q.rules.tail.map ClassRule.body

theorem textOf_parts (i : ClassItem) : textOf i.parts = i.text := by
  match i with
  | rule r => simp [parts, text, textOf, Part.text]
  | query ⟨gap, header, [], tail⟩ => simp [parts, text, textOf, Part.text]
  | query ⟨gap, header, r :: rs, tail⟩ =>
      have hrules : (rs.map Part.rule).flatMap Part.text = rs.flatMap ClassRule.text := by
        rw [List.flatMap_map]
        rfl
      simp [parts, text, textOf, Part.text, HeaderText.block, ClassRule.text, hrules]

/-- The parts of an item have the bodies that are said loosely. -/
theorem bodies_parts (i : ClassItem) : i.parts.flatMap Part.bodies = i.looseBodies := by
  match i with
  | rule r => rfl
  | query ⟨gap, header, [], tail⟩ => rfl
  | query ⟨gap, header, r :: rs, tail⟩ =>
      have hrules : (rs.map Part.rule).flatMap Part.bodies = rs.map ClassRule.body := by
        rw [List.flatMap_map, List.map_eq_flatMap]
        rfl
      simp [parts, looseBodies, Part.bodies, hrules]

/-- A query with at most one rule keeps it. -/
theorem looseBodies_eq_ownBodies {i : ClassItem}
    (h : ∀ q, i = query q → q.rules.length ≤ 1) : i.looseBodies = i.ownBodies := by
  match i with
  | rule r => rfl
  | query ⟨gap, header, [], tail⟩ => rfl
  | query ⟨gap, header, [r], tail⟩ => rfl
  | query ⟨gap, header, r :: s :: rs, tail⟩ => exact absurd (h _ rfl) (by simp)

end ClassItem

namespace ClassSheet

def text (d : ClassSheet) : List Char :=
  d.items.flatMap ClassItem.text ++ d.tail.1

/-- The sheet as merging reads it. -/
def parts (d : ClassSheet) : List Part :=
  d.items.flatMap ClassItem.parts ++ [.blank d.tail]

/-- The sheet with its queries deleted. -/
def withoutQueries (d : ClassSheet) : List Part :=
  d.items.map ClassItem.outside ++ [.blank d.tail]

/-- The bodies of rules outside of queries. -/
def ownBodies (d : ClassSheet) : List (List Char) :=
  d.items.flatMap ClassItem.ownBodies

/-- The bodies that are said outside of what merging takes for queries. -/
def looseBodies (d : ClassSheet) : List (List Char) :=
  d.items.flatMap ClassItem.looseBodies

/-- The bodies that merging says without a condition. -/
def exposed (d : ClassSheet) : List (List Char) :=
  taken d.parts

theorem textOf_parts (d : ClassSheet) : textOf d.parts = d.text := by
  have hitems : textOf (d.items.flatMap ClassItem.parts) = d.items.flatMap ClassItem.text := by
    rw [textOf, List.flatMap_assoc]
    exact congrArg (List.flatMap · d.items) (funext ClassItem.textOf_parts)
  rw [parts, textOf, List.flatMap_append, ← textOf, hitems, text]
  simp [Part.text]

theorem bodies_parts (d : ClassSheet) : d.parts.flatMap Part.bodies = d.looseBodies := by
  have hitems := congrArg (List.flatMap · d.items) (funext ClassItem.bodies_parts)
  rw [parts, List.flatMap_append, List.flatMap_assoc, looseBodies, ← hitems]
  exact List.append_nil _

/-- **All but the first rule of each query is exposed**, unless a rule leaves a header open. -/
theorem exposed_eq_looseBodies {d : ClassSheet}
    (h : ∀ body ∈ d.looseBodies, beforeOpen? body = none) : d.exposed = d.looseBodies := by
  rw [← bodies_parts] at h ⊢
  exact taken_eq_bodies (.inl h)

/-- A sheet in which no query has more than one rule says loosely only what is its own. -/
theorem looseBodies_eq_ownBodies {d : ClassSheet}
    (h : ∀ q, .query q ∈ d.items → q.rules.length ≤ 1) : d.looseBodies = d.ownBodies :=
  List.flatMap_congr fun _ hi => ClassItem.looseBodies_eq_ownBodies fun q he => h q (he ▸ hi)

theorem query_not_mem_withoutQueries (d : ClassSheet) (hd : HeaderText) (inside : Unclosed) :
    .query hd inside ∉ d.withoutQueries := by
  intro hm
  rcases List.mem_append.1 hm with hm | hm
  · obtain ⟨i, -, hi⟩ := List.mem_map.1 hm
    cases i <;> cases hi
  · cases List.mem_singleton.1 hm

/-- Without its queries a sheet has its own bodies. -/
theorem bodies_withoutQueries (d : ClassSheet) :
    d.withoutQueries.flatMap Part.bodies = d.ownBodies := by
  have hitems : (fun i : ClassItem => i.outside.bodies) = ClassItem.ownBodies := by
    funext i
    cases i <;> rfl
  rw [withoutQueries, List.flatMap_append, List.flatMap_map, hitems]
  exact List.append_nil _

end ClassSheet

/-! ### The unconditional part -/

/-- The text before the first query that starts a line. -/
def beforeQueries : List Char → List Char
  | [] => []
  | c :: s => if c = '\n' ∧ s.head? = some '@' then [] else c :: beforeQueries s

/-- What a merged document says before its first query. -/
def unconditional (doc : Bytes) : Bytes :=
  Utf8.encode (beforeQueries (Utf8.codePoints doc))

/-- A line that is followed by no at sign stays. -/
theorem beforeQueries_line {w t : List Char} (hw : '\n' ∉ w) (ht : t.head? ≠ some '@') :
    beforeQueries (w ++ '\n' :: t) = w ++ '\n' :: beforeQueries t := by
  induction w with
  | nil => rw [List.nil_append, beforeQueries, if_neg fun h => ht h.2, List.nil_append]
  | cons c w ih =>
      rw [List.mem_cons, not_or] at hw
      rw [List.cons_append, beforeQueries, if_neg fun h => hw.1 h.1.symm, ih hw.2, List.cons_append]

theorem head?_lines_append {ds : List Declaration} (hds : ∀ d ∈ ds, d.Legible) {t : List Char}
    (ht : t.head? ≠ some '@') : (ds.flatMap (Declaration.line false) ++ t).head? ≠ some '@' := by
  cases ds with
  | nil => exact ht
  | cons d ds =>
      have hd := hds d List.mem_cons_self
      obtain ⟨c, p, hp⟩ := List.exists_cons_of_ne_nil hd.property_ne_nil
      have hc : isNameChar c = true := hd.property_name c (by simp [hp])
      simp only [List.flatMap_cons, Declaration.line, hp]
      rintro ⟨⟩
      cases hc

/-- Lines of declarations are read over: each breaks at its end only, and the next starts with a
name. -/
theorem beforeQueries_lines {ds : List Declaration} (hds : ∀ d ∈ ds, d.Legible) {t : List Char}
    (ht : t.head? ≠ some '@') :
    beforeQueries (ds.flatMap (Declaration.line false) ++ t) =
      ds.flatMap (Declaration.line false) ++ beforeQueries t := by
  induction ds with
  | nil => rfl
  | cons d ds ih =>
      have hd := hds d List.mem_cons_self
      have hbehind : ∀ e ∈ ds, e.Legible := fun e he => hds e (List.mem_cons_of_mem d he)
      have hbreak : '\n' ∉ d.property ++ ':' :: ' ' :: (d.value ++ [';']) := by
        have hp : '\n' ∉ d.property := fun hm => absurd (hd.property_name _ hm) (by decide)
        have hv : '\n' ∉ d.value := fun hm => absurd (hd.value_ends _ hm) (by decide)
        simp [hp, hv]
      have hline : ∀ u, d.line false ++ u =
          (d.property ++ ':' :: ' ' :: (d.value ++ [';'])) ++ '\n' :: u := fun u => by
        simp [Declaration.line]
      rw [List.flatMap_cons, List.append_assoc, hline,
        beforeQueries_line hbreak (head?_lines_append hbehind ht), ih hbehind, ← hline,
        List.append_assoc]

/-- The header of a query begins with an at sign. -/
theorem head?_header {s : List Char} {q : FlatQuery} (h : q ∈ flatQuery?.findAll s) :
    q.header.head? = some '@' := by
  obtain ⟨v, rest, -, hv⟩ := Pattern.exists_of_mem_findAll h
  obtain ⟨k, gap, inner, behind, -, hheader, -⟩ := exists_of_flatQuery? hv
  rw [hheader]
  rfl

/-- **The unconditional part** is made of the bodies that are found behind the cut. -/
theorem beforeQueries_merged (s : List Char) :
    beforeQueries (merged s).1 =
      extract false (classBody?.findAll (flatQuery?.cut.run s)).flatten := by
  have hqueries : ((flatQuery?.findAll s).flatMap FlatQuery.write).head? ≠ some '@' ∧
      beforeQueries ((flatQuery?.findAll s).flatMap FlatQuery.write) = [] := by
    cases hf : flatQuery?.findAll s with
    | nil => exact ⟨by simp, rfl⟩
    | cons q qs =>
        have hq : q.header.head? = some '@' := head?_header (by rw [hf]; exact List.mem_cons_self)
        rw [List.flatMap_cons, FlatQuery.write]
        refine ⟨by simp, ?_⟩
        simp only [List.cons_append]
        rw [beforeQueries, if_pos ⟨rfl, by simp [hq]⟩]
  unfold merged
  dsimp only
  rw [extract_eq, beforeQueries_lines legible_of_mem_latest hqueries.1, hqueries.2, List.append_nil]

/-- What merging says without condition is an extract of the exposed bodies. -/
theorem unconditional_mergeRules {doc : Bytes} {d : ClassSheet} (hd : Utf8.codePoints doc = d.text) :
    unconditional (mergeRules.apply doc) = Utf8.encode (extract false d.exposed.flatten) := by
  rw [unconditional, mergeRules_apply, Utf8.codePoints_encode, beforeQueries_merged, hd,
    ← d.textOf_parts, findAll_run_cut]
  rfl

/-- **Without its queries** a sheet is merged to the extract of its own bodies. -/
theorem mergeRules_withoutQueries (d : ClassSheet) :
    mergeRules.apply (Utf8.encode (textOf d.withoutQueries)) =
      Utf8.encode (extract false d.ownBodies.flatten) := by
  rw [mergeRules_apply, Utf8.codePoints_encode, merged_of_no_query d.query_not_mem_withoutQueries,
    d.bodies_withoutQueries]

/-- **What merging says without a condition.**  It is what the sheet says without its queries exactly
when the exposed bodies declare what the rules outside the queries declare.  The exposed bodies are
those of all rules but the first of each query, unless a rule leaves a header open; so a query with
at most one rule gives nothing away. -/
theorem mergeRules_unconditional_iff {doc : Bytes} {d : ClassSheet}
    (hd : Utf8.codePoints doc = d.text) :
    (unconditional (mergeRules.apply doc) =
        mergeRules.apply (Utf8.encode (textOf d.withoutQueries)) ↔
      latest (declarations d.exposed.flatten) = latest (declarations d.ownBodies.flatten)) ∧
    ((∀ body ∈ d.looseBodies, beforeOpen? body = none) → d.exposed = d.looseBodies ∧
      ((∀ q, .query q ∈ d.items → q.rules.length ≤ 1) →
        unconditional (mergeRules.apply doc) =
          mergeRules.apply (Utf8.encode (textOf d.withoutQueries)))) := by
  rw [unconditional_mergeRules hd, mergeRules_withoutQueries]
  refine ⟨?_, fun hopen => ⟨ClassSheet.exposed_eq_looseBodies hopen, fun hone => ?_⟩⟩
  · rw [Utf8.encode_inj, extract_eq_extract_iff]
  · rw [ClassSheet.exposed_eq_looseBodies hopen, ClassSheet.looseBodies_eq_ownBodies hone]

/-- A query with one rule between two rules. -/
def narrowSheet : ClassSheet where
  items := [
    .rule (.ofParts [] "a".toList [' '] " b: c; ".toList),
    .query ⟨.ofList ['\n'], .tight .media "x".toList,
      [.ofParts [' '] "a".toList [' '] " b: d; ".toList], .ofList [' ']⟩,
    .rule (.ofParts ['\n'] "e".toList [' '] " f: g; ".toList)]
  tail := .ofList ['\n']

theorem mergeRules_unconditional_narrowSheet :
    Utf8.codePoints (Utf8.encode narrowSheet.text) = narrowSheet.text ∧
    (∀ body ∈ narrowSheet.looseBodies, beforeOpen? body = none) ∧
    (∀ q, .query q ∈ narrowSheet.items → q.rules.length ≤ 1) ∧
    unconditional (mergeRules.apply (Utf8.encode narrowSheet.text)) =
      mergeRules.apply (Utf8.encode (textOf narrowSheet.withoutQueries)) := by
  have hd := Utf8.codePoints_encode narrowSheet.text
  have hopen : ∀ body ∈ narrowSheet.looseBodies, beforeOpen? body = none := by decide
  have hone : ∀ q, .query q ∈ narrowSheet.items → q.rules.length ≤ 1 := by simp [narrowSheet]
  exact ⟨hd, hopen, hone, ((mergeRules_unconditional_iff hd).2 hopen).2 hone⟩

/-- A query with two rules, and nothing outside it. -/
def leakySheet : ClassSheet where
  items := [.query ⟨.ofList [],
    ⟨.media, [' '], "x".toList, [' '], (Blanks.ofList [' ']).2, by decide, by decide,
      (Blanks.ofList [' ']).2⟩,
    [.ofParts [' '] "a".toList [' '] " b: c; ".toList,
      .ofParts [' '] "d".toList [' '] " b: c; ".toList], .ofList [' ']⟩]
  tail := .ofList []

/-- The second rule of the query is said without its condition. -/
theorem mergeRules_exposes_leakySheet :
    Utf8.codePoints (mergeRules.apply (Utf8.encode leakySheet.text)) =
      "b: c;\n\n@media (x) \x7b\n\tb: c;\n\x7d\n".toList ∧
    Utf8.codePoints (mergeRules.apply (Utf8.encode (textOf leakySheet.withoutQueries))) = [] ∧
    unconditional (mergeRules.apply (Utf8.encode leakySheet.text)) ≠
      mergeRules.apply (Utf8.encode (textOf leakySheet.withoutQueries)) := by
  have hmerged : Utf8.codePoints (mergeRules.apply (Utf8.encode leakySheet.text)) =
      "b: c;\n\n@media (x) \x7b\n\tb: c;\n\x7d\n".toList := by
    rw [mergeRules_apply, Utf8.codePoints_encode, Utf8.codePoints_encode]
    decide
  have hwithout : mergeRules.apply (Utf8.encode (textOf leakySheet.withoutQueries)) = [] := by
    rw [mergeRules_withoutQueries]
    decide
  refine ⟨hmerged, by rw [hwithout]; rfl, ?_⟩
  rw [hwithout, unconditional, hmerged]
  decide

end Restyle.Css
