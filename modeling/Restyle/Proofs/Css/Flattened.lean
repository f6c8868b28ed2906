import Restyle.Proofs.Css.ClassSheet
import Restyle.Proofs.Css.Declared

/-!
# Class rules as one list of declarations

Merging joins the bodies of class rules and reads the declarations of the whole.  Nothing is put
between two bodies, so a body that does not end its last declaration runs on into the next one: the
value takes the next declaration in, name and all.

* `RuleBody.append`: the body that two bodies make, and `glued` that of a list.  `text_glued`: it is
  spelled as the bodies are, one behind the other.
* `declarations_text`: a body is read as it was spelled.
* `entries_glued_iff`: every declaration is kept exactly when each is ended before the next one.
* `mergeRules_flattens_iff`: when merging writes the last declaration of each property, over all the
  rules.
-/

namespace Restyle.Css

/-! ### Bodies -/

namespace Declaration

/-- A declaration whose value starts with no white space and holds no brace. -/
structure Plain (d : Declaration) : Prop extends d.Legible where
  value_first : ∀ c ∈ d.value.head?, isBlank c = false
  value_plain : ∀ c ∈ d.value, isBrace c = false

/-- Whether a declaration can be read back. -/
def isPlain (d : Declaration) : Bool :=
  ! d.property.isEmpty && d.property.all isNameChar && ! d.value.isEmpty &&
    d.value.all (fun c => ! endsValue c && ! isBrace c) && d.value.head?.all (! isBlank ·)

theorem plain_of_isPlain {d : Declaration} (h : d.isPlain = true) : d.Plain := by
  simp only [isPlain, Bool.and_eq_true, Bool.not_eq_true', List.isEmpty_eq_false_iff,
    List.all_eq_true, Option.all_eq_true] at h
  obtain ⟨⟨⟨⟨hp, hname⟩, hv⟩, hchars⟩, hfirst⟩ := h
  exact ⟨⟨hp, hname, hv, fun c hc => (hchars c hc).1, .inl hfirst⟩, hfirst,
    fun c hc => (hchars c hc).2⟩

/-- The declaration without white space. -/
def tight (d : Declaration) : List Char :=
  d.property ++ ':' :: d.value

/-- A declaration that is not ended takes in the next one. -/
def takeIn (d e : Declaration) : Declaration where
  property := d.property
  value := d.value ++ e.tight

/-- A declaration that takes in another is written as both. -/
theorem tight_takeIn (d e : Declaration) : (d.takeIn e).tight = d.tight ++ e.tight := by
  simp [tight, takeIn]

/-- A name or a value holds no line break, no semicolon and no brace. -/
theorem Plain.tight_plain {d : Declaration} (h : d.Plain) :
    ∀ c ∈ d.tight, endsValue c = false ∧ isBrace c = false := by
  have hname : ∀ c, isNameChar c = true → endsValue c = false ∧ isBrace c = false := by
    intro c hc
    simp only [endsValue, isBrace, Bool.or_eq_false_iff, beq_eq_false_iff_ne]
    refine ⟨⟨⟨?_, ?_⟩, ?_⟩, ?_, ?_⟩ <;> rintro rfl <;> cases hc
  intro c hc
  rcases List.mem_append.1 hc with hc | hc
  · exact hname c (h.property_name c hc)
  · rcases List.mem_cons.1 hc with rfl | hc
    · decide
    · exact ⟨h.value_ends c hc, h.value_plain c hc⟩

theorem Plain.takeIn {d e : Declaration} (hd : d.Plain) (he : e.Plain) : (d.takeIn e).Plain := by
  have hfirst : ∀ c ∈ (d.value ++ e.tight).head?, isBlank c = false := by
    obtain ⟨x, s, hs⟩ := List.exists_cons_of_ne_nil hd.value_ne_nil
    intro c hc
    refine hd.value_first c ?_
    rw [hs] at hc ⊢
    exact hc
  have hchars : ∀ c ∈ d.value ++ e.tight, endsValue c = false ∧ isBrace c = false := by
    intro c hc
    rcases List.mem_append.1 hc with hc | hc
    · exact ⟨hd.value_ends c hc, hd.value_plain c hc⟩
    · exact he.tight_plain c hc
  exact ⟨⟨hd.property_ne_nil, hd.property_name,
    List.append_ne_nil_of_left_ne_nil hd.value_ne_nil _, fun c hc => (hchars c hc).1, .inl hfirst⟩,
    hfirst, fun c hc => (hchars c hc).2⟩

end Declaration

/-- A body: declarations that are ended by semicolons, and perhaps a last one that is not. -/
structure RuleBody where
  ended : List Declaration
  last? : Option Declaration

namespace RuleBody

/-- All declarations of a body. -/
def entries (b : RuleBody) : List Declaration :=
  b.ended ++ b.last?.toList

def text (b : RuleBody) : List Char :=
  b.ended.flatMap (fun d => d.tight ++ [';']) ++ b.last?.toList.flatMap Declaration.tight

def Plain (b : RuleBody) : Prop :=
  ∀ d ∈ b.entries, d.Plain

/-- The body that is spelled as one body behind the other. -/
def append (a b : RuleBody) : RuleBody :=
  match a.last?, b.ended, b.last? with
  | none, es, last? => ⟨a.ended ++ es, last?⟩
  | some d, e :: es, last? => ⟨a.ended ++ d.takeIn e :: es, last?⟩
  | some d, [], some e => ⟨a.ended, some (d.takeIn e)⟩
  | some _, [], none => a

end RuleBody

/-- The body that is spelled as some bodies one behind the other. -/
def glued (bs : List RuleBody) : RuleBody :=
  bs.foldr RuleBody.append ⟨[], none⟩

/-- Every declaration is ended before the next one. -/
def Separated : List RuleBody → Prop
  | [] => True
  | b :: bs => (b.last? = none ∨ bs.flatMap RuleBody.entries = []) ∧ Separated bs

instance decidableSeparated : (bs : List RuleBody) → Decidable (Separated bs)
  | [] => inferInstanceAs (Decidable True)
  | _ :: bs =>
    have := decidableSeparated bs
    inferInstanceAs (Decidable ((_ ∨ _) ∧ _))

/-! ### Bodies one behind the other -/

namespace RuleBody

/-- Two bodies together are written as one behind the other. -/
theorem text_append (a b : RuleBody) : (a.append b).text = a.text ++ b.text := by
  match a, b with
  | ⟨ds, none⟩, ⟨es, last?⟩ => simp [append, text]
  | ⟨ds, some d⟩, ⟨e :: es, last?⟩ => simp [append, text, Declaration.tight_takeIn]
  | ⟨ds, some d⟩, ⟨[], some e⟩ => simp [append, text, Declaration.tight_takeIn]
  | ⟨ds, some d⟩, ⟨[], none⟩ => simp [append, text]

/-- Two bodies together can be read back if both can. -/
theorem Plain.append {a b : RuleBody} (ha : a.Plain) (hb : b.Plain) : (a.append b).Plain := by
  match a, b with
  | ⟨ds, none⟩, ⟨es, last?⟩ =>
      intro x hx
      simp only [RuleBody.append, entries, List.append_assoc] at hx
      rcases List.mem_append.1 hx with hx | hx
      · exact ha x (by simp [entries, hx])
      · exact hb x hx
  | ⟨ds, some d⟩, ⟨e :: es, last?⟩ =>
      intro x hx
      simp only [RuleBody.append, entries, List.append_assoc, List.cons_append, List.mem_append,
        List.mem_cons] at hx
      rcases hx with hx | rfl | hx
      · exact ha x (by simp [entries, hx])
      · exact (ha d (by simp [entries])).takeIn (hb e (by simp [entries]))
      · exact hb x (List.mem_cons_of_mem e (List.mem_append.2 hx))
  | ⟨ds, some d⟩, ⟨[], some e⟩ =>
      intro x hx
      simp only [RuleBody.append, entries, Option.toList_some, List.mem_append,
        List.mem_singleton] at hx
      rcases hx with hx | rfl
      · exact ha x (by simp [entries, hx])
      · exact (ha d (by simp [entries])).takeIn (hb e (by simp [entries]))
  | ⟨ds, some d⟩, ⟨[], none⟩ => exact ha

/-- There is no brace in a body. -/
theorem Plain.text_plain {b : RuleBody} (h : b.Plain) : ∀ c ∈ b.text, isBrace c = false := by
  intro c hc
  have hentry : ∃ d ∈ b.entries, c ∈ d.tight ++ [';'] := by
    rcases List.mem_append.1 hc with hc | hc
    · obtain ⟨d, hd, hc⟩ := List.mem_flatMap.1 hc
      exact ⟨d, List.mem_append_left _ hd, hc⟩
    · obtain ⟨d, hd, hc⟩ := List.mem_flatMap.1 hc
      exact ⟨d, List.mem_append_right _ hd, List.mem_append_left _ hc⟩
  obtain ⟨d, hd, hc⟩ := hentry
  rcases List.mem_append.1 hc with hc | hc
  · exact ((h d hd).tight_plain c hc).2
  · rw [List.mem_singleton.1 hc]
    decide

/-- Bodies keep their declarations unless the last one of the first is not ended. -/
theorem entries_append {a b : RuleBody} (h : a.last? = none ∨ b.entries = []) :
    (a.append b).entries = a.entries ++ b.entries := by
  match a, b with
  | ⟨ds, none⟩, ⟨es, last?⟩ => simp [append, entries]
  | ⟨ds, some d⟩, ⟨e :: es, last?⟩ => simp [entries] at h
  | ⟨ds, some d⟩, ⟨[], some e⟩ => simp [entries] at h
  | ⟨ds, some d⟩, ⟨[], none⟩ => simp [append, entries]

theorem entries_append_eq_nil_iff {a b : RuleBody} :
    (a.append b).entries = [] ↔ a.entries = [] ∧ b.entries = [] := by
  match a, b with
  | ⟨ds, none⟩, ⟨es, last?⟩ => simp [append, entries]
  | ⟨ds, some d⟩, ⟨e :: es, last?⟩ => simp [append, entries]
  | ⟨ds, some d⟩, ⟨[], some e⟩ => simp [append, entries]
  | ⟨ds, some d⟩, ⟨[], none⟩ => simp [append, entries]

/-- A body that runs on has one declaration less. -/
theorem length_entries_append {a b : RuleBody} (ha : a.last? ≠ none) (hb : b.entries ≠ []) :
    (a.append b).entries.length < a.entries.length + b.entries.length := by
  match a, b with
  | ⟨ds, none⟩, ⟨es, last?⟩ => simp at ha
  | ⟨ds, some d⟩, ⟨e :: es, last?⟩ => simp [append, entries]
  | ⟨ds, some d⟩, ⟨[], some e⟩ => simp [append, entries]
  | ⟨ds, some d⟩, ⟨[], none⟩ => simp [entries] at hb

end RuleBody

theorem glued_cons (b : RuleBody) (bs : List RuleBody) : glued (b :: bs) = b.append (glued bs) :=
  rfl

/-- **Bodies one behind the other** are spelled as one. -/
theorem text_glued (bs : List RuleBody) : (glued bs).text = bs.flatMap RuleBody.text := by
  induction bs with
  | nil => rfl
  | cons b bs ih => rw [glued_cons, RuleBody.text_append, ih, List.flatMap_cons]

/-- Any number of bodies can be read back together. -/
theorem plain_glued {bs : List RuleBody} (h : ∀ b ∈ bs, b.Plain) : (glued bs).Plain := by
  induction bs with
  | nil => exact fun d hd => by cases hd
  | cons b bs ih =>
      exact (h b List.mem_cons_self).append (ih fun c hc => h c (List.mem_cons_of_mem b hc))

theorem entries_glued_eq_nil_iff {bs : List RuleBody} :
    (glued bs).entries = [] ↔ bs.flatMap RuleBody.entries = [] := by
  induction bs with
  | nil => exact Iff.rfl
  | cons b bs ih =>
      rw [glued_cons, RuleBody.entries_append_eq_nil_iff, ih, List.flatMap_cons,
        List.append_eq_nil_iff]

/-- Bodies have at most as many declarations together as apart. -/
theorem length_entries_glued_le (bs : List RuleBody) :
    (glued bs).entries.length ≤ (bs.flatMap RuleBody.entries).length := by
  induction bs with
  | nil => exact Nat.le_refl 0
  | cons b bs ih =>
      rw [glued_cons, List.flatMap_cons, List.length_append]
      refine Nat.le_trans ?_ (Nat.add_le_add_left ih _)
      by_cases h : b.last? = none ∨ (glued bs).entries = []
      · rw [RuleBody.entries_append h, List.length_append]
      · rw [not_or] at h
        exact (RuleBody.length_entries_append h.1 h.2).le

/-- **Every declaration is kept** exactly when each is ended before the next one. -/
theorem entries_glued_iff {bs : List RuleBody} :
    (glued bs).entries = bs.flatMap RuleBody.entries ↔ Separated bs := by
  induction bs with
  | nil => exact iff_of_true rfl trivial
  | cons b bs ih =>
      rw [glued_cons, List.flatMap_cons, Separated, ← ih, ← entries_glued_eq_nil_iff]
      by_cases h : b.last? = none ∨ (glued bs).entries = []
      · rw [RuleBody.entries_append h, List.append_right_inj]
        exact (and_iff_right h).symm
      · -- the body runs on, so a declaration is missing whatever the others do
        refine iff_of_false (fun he => ?_) fun hs => h hs.1
        rw [not_or] at h
        have hlt := RuleBody.length_entries_append h.1 h.2
        have hle := length_entries_glued_le bs
        rw [he, List.length_append] at hlt
        omega

/-! ### Reading a body -/

/-- Declarations that are ended are read one after the other. -/
theorem declarations_ended {ds : List Declaration} (h : ∀ d ∈ ds, d.Plain) (t : List Char) :
    declarations (ds.flatMap (fun d => d.tight ++ [';']) ++ t) = ds ++ declarations t := by
  induction ds with
  | nil => rfl
  | cons d ds ih =>
      have hd := declarations_of_legible (h d List.mem_cons_self).toLegible blank_nil
        (ds.flatMap (fun d => d.tight ++ [';']) ++ t)
      rw [ih fun e he => h e (List.mem_cons_of_mem d he)] at hd
      rw [List.cons_append, ← hd]
      simp [Declaration.tight]

/-- One that is not ended is read alone. -/
theorem declarations_tight {d : Declaration} (h : d.Plain) : declarations d.tight = [d] := by
  have hvalue : value? ([] ++ (d.value ++ [])) = some (d.value, []) :=
    value?_append blank_nil h.value_ne_nil h.value_ends h.value_first fun c hc => by cases hc
  have hread : declaration? (d.tight ++ []) = some (d, []) := by
    have := declaration?_append h.property_ne_nil h.property_name hvalue
    simpa [Declaration.tight] using this
  have hfind := Pattern.findAll_append_of_some (by simp [Declaration.tight]) hread
  rwa [List.append_nil] at hfind

/-- **A body is read as it was spelled.** -/
theorem declarations_text {b : RuleBody} (h : b.Plain) : declarations b.text = b.entries := by
  have hended : ∀ d ∈ b.ended, d.Plain := fun d hd => h d (List.mem_append_left _ hd)
  rw [RuleBody.text, declarations_ended hended, RuleBody.entries]
  cases hl : b.last? with
  | none => rfl
  | some d =>
      have hd : d.Plain := h d (by simp [RuleBody.entries, hl])
      simp [declarations_tight hd]

/-! ### Rules of declarations -/

/-- A class rule that lists declarations, without white space. -/
structure DeclaredRule extends RuleBody where
  name : List Char
  name_ne_nil : name ≠ []
  name_chars : ∀ c ∈ name, isNameChar c = true
  plain : toRuleBody.Plain

namespace DeclaredRule

/-- The rule of a name and a body, when they pass a check. -/
def ofParts (name : List Char) (body : RuleBody)
    (h : (! name.isEmpty && name.all isNameChar && body.entries.all Declaration.isPlain) = true := by
      decide) : DeclaredRule :=
  have h : (name ≠ [] ∧ ∀ c ∈ name, isNameChar c = true) ∧ body.Plain := by
    simp only [Bool.and_eq_true, Bool.not_eq_true', List.isEmpty_eq_false_iff,
      List.all_eq_true] at h
    exact ⟨h.1, fun d hd => Declaration.plain_of_isPlain (h.2 d hd)⟩
  ⟨body, name, h.1.1, h.1.2, h.2⟩

/-- The rule as one of a sheet with class rules. -/
def toClassRule (r : DeclaredRule) : ClassRule where
  gap := ⟨[], blank_nil⟩
  name := r.name
  space := ⟨[], blank_nil⟩
  body := r.toRuleBody.text
  name_ne_nil := r.name_ne_nil
  name_chars := r.name_chars
  body_plain := r.plain.text_plain

/-- The rule as it is written: a point, the name, and the body in braces. -/
def text (r : DeclaredRule) : List Char :=
  '.' :: (r.name ++ '{' :: (r.toRuleBody.text ++ ['}']))

theorem text_toClassRule (r : DeclaredRule) : r.toClassRule.text = r.text := by
  simp [toClassRule, ClassRule.text, ClassRule.opening, ClassRule.selector, text]

end DeclaredRule

/-- The body that the joined bodies of some rules make. -/
def joinedBody (rs : List DeclaredRule) : RuleBody :=
  glued (rs.map DeclaredRule.toRuleBody)

/-- The body of all rules together can be read back. -/
theorem plain_joinedBody (rs : List DeclaredRule) : (joinedBody rs).Plain :=
  plain_glued fun b hb => by
    obtain ⟨r, -, rfl⟩ := List.mem_map.1 hb
    exact r.plain

/-- **The merged text of class rules** lists what their joined bodies declare. -/
theorem mergeRules_apply_rules {doc : Bytes} {rs : List DeclaredRule}
    (hd : Utf8.codePoints doc = rs.flatMap DeclaredRule.text) :
    mergeRules.apply doc =
      Utf8.encode ((latest (joinedBody rs).entries).flatMap (Declaration.line false)) := by
  have htext : rs.flatMap DeclaredRule.text = textOf (rs.map fun r => .rule r.toClassRule) := by
    rw [textOf, List.flatMap_map]
    exact congrArg (List.flatMap · rs) (funext fun r => r.text_toClassRule.symm)
  have hnone : ∀ hd inside, Part.query hd inside ∉ rs.map fun r => .rule r.toClassRule := by
    intro hd inside hm
    obtain ⟨r, -, hr⟩ := List.mem_map.1 hm
    cases hr
  have hbodies : (rs.map fun r => .rule r.toClassRule).flatMap Part.bodies =
      rs.map fun r => r.toRuleBody.text := by
    rw [List.flatMap_map, List.map_eq_flatMap]
    rfl
  have hjoined : (rs.map fun r => r.toRuleBody.text).flatten = (joinedBody rs).text := by
    rw [joinedBody, text_glued, List.flatMap_map, List.flatMap_def]
  rw [mergeRules_apply, hd, htext, merged_of_no_query hnone, hbodies, hjoined, extract_eq,
    declarations_text (plain_joinedBody rs)]

/-- **When merging flattens class rules.**  It writes the last declaration of each property, in the
order in which the properties are first set; not of the declarations of the rules, but of those that
their joined bodies spell.  The two are the same list exactly when every declaration is ended before
the next one. -/
theorem mergeRules_flattens_iff {doc : Bytes} {rs : List DeclaredRule}
    (hd : Utf8.codePoints doc = rs.flatMap DeclaredRule.text) :
    mergeRules.apply doc =
      Utf8.encode ((latest (joinedBody rs).entries).flatMap (Declaration.line false)) ∧
    (mergeRules.apply doc =
        Utf8.encode ((latest (rs.flatMap (·.entries))).flatMap (Declaration.line false)) ↔
      latest (joinedBody rs).entries = latest (rs.flatMap (·.entries))) ∧
    ((joinedBody rs).entries = rs.flatMap (·.entries) ↔
      Separated (rs.map DeclaredRule.toRuleBody)) := by
  have hmerged := mergeRules_apply_rules hd
  refine ⟨hmerged, ?_, ?_⟩
  · have hjoined : ∀ d ∈ latest (joinedBody rs).entries, d.Legible := fun d h =>
      (plain_joinedBody rs d (mem_of_mem_latest h)).toLegible
    have hown : ∀ d ∈ latest (rs.flatMap (·.entries)), d.Legible := fun d h => by
      obtain ⟨r, -, hr⟩ := List.mem_flatMap.1 (mem_of_mem_latest h)
      exact (r.plain d hr).toLegible
    rw [hmerged, Utf8.encode_inj, lines_eq_lines_iff hjoined hown]
  · rw [← entries_glued_iff, List.flatMap_map]
    exact Iff.rfl

/-- The second rule is not ended, and no declaration follows it. -/
def endedRules : List DeclaredRule := [
  .ofParts "a".toList ⟨[⟨"b".toList, "c".toList⟩, ⟨"d".toList, "e".toList⟩], none⟩,
  .ofParts "f".toList ⟨[], some ⟨"b".toList, "g h".toList⟩⟩,
  .ofParts "i".toList ⟨[], none⟩]

theorem mergeRules_flattens_endedRules :
    Utf8.codePoints (Utf8.encode (endedRules.flatMap DeclaredRule.text)) =
      endedRules.flatMap DeclaredRule.text ∧
    Separated (endedRules.map DeclaredRule.toRuleBody) ∧
    mergeRules.apply (Utf8.encode (endedRules.flatMap DeclaredRule.text)) =
      Utf8.encode "b: g h;\nd: e;\n".toList := by
  have hd := Utf8.codePoints_encode (endedRules.flatMap DeclaredRule.text)
  have hsep : Separated (endedRules.map DeclaredRule.toRuleBody) := by decide
  obtain ⟨-, hlines, hkept⟩ := mergeRules_flattens_iff hd
  refine ⟨hd, hsep, (hlines.2 (congrArg latest (hkept.2 hsep))).trans (congrArg _ ?_)⟩
  decide

/-- Two rules, the first of which is not ended. -/
def openRules : List DeclaredRule := [
  .ofParts "a".toList ⟨[], some ⟨"b".toList, "c".toList⟩⟩,
  .ofParts "d".toList ⟨[], some ⟨"e".toList, "f".toList⟩⟩]

/-- The value of the first rule takes in the declaration of the second. -/
theorem mergeRules_runs_on_openRules :
    mergeRules.apply (Utf8.encode (openRules.flatMap DeclaredRule.text)) =
      Utf8.encode "b: ce:f;\n".toList ∧
    mergeRules.apply (Utf8.encode (openRules.flatMap DeclaredRule.text)) ≠
      Utf8.encode ((latest (openRules.flatMap (·.entries))).flatMap (Declaration.line false)) := by
  have hmerged : mergeRules.apply (Utf8.encode (openRules.flatMap DeclaredRule.text)) =
      Utf8.encode "b: ce:f;\n".toList := by
    rw [mergeRules_apply_rules (Utf8.codePoints_encode _)]
    refine congrArg _ ?_
    decide
  refine ⟨hmerged, ?_⟩
  rw [hmerged, Ne, Utf8.encode_inj]
  decide

end Restyle.Css
