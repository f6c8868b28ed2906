import Restyle.Proofs.Css.Declared

/-!
# Extraction and what it has written

A semicolon parts the declarations of a text: none reaches from one side to the other
(`declarations_append`).  Declarations that are set again have no say, whether they are left out
before or after two lists are joined (`latest_append_latest`).  So extraction may be done piece by
piece, and done again, without a change of the result (`extractFrom_append`).
-/

namespace Restyle.Css

/-! ### Properties in the order in which they are first set -/

section EraseDups

variable {α : Type} [BEq α] [LawfulBEq α]

/-- Duplicates can be dropped before or after a choice. -/
theorem filter_eraseDups (p : α → Bool) (l : List α) :
    l.eraseDups.filter p = (l.filter p).eraseDups := by
  match l with
  | [] => rfl
  | a :: l =>
      have ih := filter_eraseDups p (l.filter fun b => !b == a)
      rw [List.eraseDups_cons]
      cases ha : p a with
      | true =>
          rw [List.filter_cons_of_pos ha, List.filter_cons_of_pos ha, List.eraseDups_cons, ih,
            List.filter_filter, List.filter_filter]
          simp only [Bool.and_comm]
      | false =>
          rw [List.filter_cons_of_neg (by simp [ha]), List.filter_cons_of_neg (by simp [ha]), ih,
            List.filter_filter]
          congr 1
          refine List.filter_congr fun b _ => ?_
          by_cases hb : b = a
          · simp [hb, ha]
          · simp [hb]
termination_by l.length
decreasing_by exact Nat.lt_succ_of_le (List.length_filter_le _ _)

theorem eraseDups_eraseDups (l : List α) : l.eraseDups.eraseDups = l.eraseDups := by
  match l with
  | [] => rfl
  | a :: l =>
      have ih := eraseDups_eraseDups (l.filter fun b => !b == a)
      rw [List.eraseDups_cons, List.eraseDups_cons, filter_eraseDups, List.filter_filter]
      simp only [Bool.and_self, ih]
termination_by l.length
decreasing_by exact Nat.lt_succ_of_le (List.length_filter_le _ _)

/-- Duplicates that were dropped in both halves make no difference to the whole. -/
theorem eraseDups_append_eraseDups (l m : List α) :
    (l.eraseDups ++ m.eraseDups).eraseDups = (l ++ m).eraseDups := by
  have hmem : m.eraseDups.removeAll l.eraseDups = m.eraseDups.removeAll l := by
    simp [List.removeAll, List.mem_eraseDups]
  rw [List.eraseDups_append, List.eraseDups_append, eraseDups_eraseDups, hmem]
  simp only [List.removeAll, filter_eraseDups, eraseDups_eraseDups]

theorem nodup_eraseDups (l : List α) : l.eraseDups.Nodup := by
  match l with
  | [] => exact List.nodup_nil
  | a :: l =>
      have ih := nodup_eraseDups (l.filter fun b => !b == a)
      rw [List.eraseDups_cons]
      exact List.nodup_cons.2 ⟨fun h => by simp at h, ih⟩
termination_by l.length
decreasing_by exact Nat.lt_succ_of_le (List.length_filter_le _ _)

end EraseDups

/-- What is found for a property is a declaration of it. -/
theorem property_of_lastOf? {ds : List Declaration} {p : List Char} {d : Declaration}
    (h : lastOf? ds p = some d) : d.property = p := by
  simpa using (List.mem_filter.1 (List.mem_of_getLast? h)).2

/-- A property that is declared has a last declaration. -/
theorem lastOf?_isSome {ds : List Declaration} {p : List Char} (h : p ∈ ds.map Declaration.property) :
    ∃ d, lastOf? ds p = some d := by
  obtain ⟨d, hd, rfl⟩ := List.mem_map.1 h
  have : ds.filter (·.property = d.property) ≠ [] :=
    List.ne_nil_of_mem (List.mem_filter.2 ⟨hd, by simp⟩)
  exact ⟨_, List.getLast?_eq_some_getLast this⟩

/-- The last declaration is that of the second list, or else that of the first. -/
theorem lastOf?_append (ds es : List Declaration) (p : List Char) :
    lastOf? (ds ++ es) p = (lastOf? es p).or (lastOf? ds p) := by
  rw [lastOf?, List.filter_append, List.getLast?_append]
  rfl

/-- **The order of the properties** is that in which they are first set. -/
theorem map_property_latest (ds : List Declaration) :
    (latest ds).map Declaration.property = (ds.map Declaration.property).eraseDups := by
  rw [latest, List.map_filterMap]
  refine Eq.trans (List.filterMap_congr fun p hp => ?_) List.filterMap_some
  obtain ⟨d, hd⟩ := lastOf?_isSome (List.mem_eraseDups.1 hp)
  rw [hd, Option.map_some, property_of_lastOf? hd]

/-- Each of the latest declarations is the last one of its property. -/
theorem lastOf?_of_mem_latest {ds : List Declaration} {d : Declaration} (h : d ∈ latest ds) :
    lastOf? ds d.property = some d := by
  obtain ⟨p, -, hp⟩ := List.mem_filterMap.1 h
  rw [property_of_lastOf? hp, hp]

/-- **The value of a property** is that of its last declaration. -/
theorem lastOf?_latest (ds : List Declaration) (p : List Char) :
    lastOf? (latest ds) p = lastOf? ds p := by
  match ds with
  | [] => rfl
  | d :: ds =>
      have ih := lastOf?_latest (ds.filter (·.property ≠ d.property)) p
      rw [latest_cons]
      have hprop : ((lastOf? ds d.property).getD d).property = d.property := by
        cases h : lastOf? ds d.property with
        | none => rfl
        | some e => exact property_of_lastOf? h
      by_cases h : d.property = p
      · subst h
        have hnone : lastOf? (ds.filter (·.property ≠ d.property)) d.property = none := by
          simp [lastOf?, List.filter_filter]
        have hself := lastOf?_cons_self ((lastOf? ds d.property).getD d)
          (latest (ds.filter (·.property ≠ d.property)))
        rw [hprop, ih, hnone] at hself
        rw [hself, lastOf?_cons_self]
        rfl
      · have hne : ((lastOf? ds d.property).getD d).property ≠ p := fun he => h (hprop ▸ he)
        rw [lastOf?_cons_of_ne hne, ih, lastOf?_filter_ne (Ne.symm h), lastOf?_cons_of_ne h]
termination_by ds.length
decreasing_by exact Nat.lt_succ_of_le (List.length_filter_le _ _)

/-- Declarations that were made distinct before are set to the same effect. -/
theorem latest_append_latest (ds es : List Declaration) :
    latest (latest ds ++ latest es) = latest (ds ++ es) := by
  have hkeys : ((latest ds ++ latest es).map Declaration.property).eraseDups =
      ((ds ++ es).map Declaration.property).eraseDups := by
    rw [List.map_append, map_property_latest, map_property_latest, eraseDups_append_eraseDups,
      List.map_append]
  have hlast : lastOf? (latest ds ++ latest es) = lastOf? (ds ++ es) := by
    funext p
    rw [lastOf?_append, lastOf?_append, lastOf?_latest, lastOf?_latest]
  rw [latest, hkeys, hlast, latest]

/-! ### Texts with a semicolon between them -/

/-- No value reaches behind a semicolon. -/
theorem value?_append_semicolon (s t : List Char) :
    value? (s ++ ';' :: t) = (value? s).map fun r => (r.1, r.2 ++ ';' :: t) := by
  have hskip : skipBlank (s ++ ';' :: t) = skipBlank s ++ ';' :: t :=
    dropWhile_append_cons (by decide) s t
  have htake := takeWhile_append_cons (p := (! endsValue ·)) (c := ';') (by decide) (skipBlank s) t
  have hdrop := dropWhile_append_cons (p := (! endsValue ·)) (c := ';') (by decide) (skipBlank s) t
  unfold value?
  simp only [hskip, htake, hdrop, takeWhile_append_cons (show isBlank ';' = false by decide)]
  split
  · split
    · rfl
    · next c before hb =>
        have hlen : before.length + 1 ≤ s.length := by
          have h₁ := (List.dropWhile_sublist (l := (s.takeWhile isBlank).reverse) endsValue).length_le
          have h₂ := (List.takeWhile_sublist (l := s) isBlank).length_le
          rw [hb, List.length_reverse, List.length_cons] at h₁
          omega
        rw [List.drop_append_of_le_length hlen]
        rfl
  · rfl

/-- No declaration reaches behind a semicolon. -/
theorem declaration?_append_semicolon (s t : List Char) :
    declaration? (s ++ ';' :: t) = (declaration? s).map fun r => (r.1, r.2 ++ ';' :: t) := by
  have hname : isNameChar ';' = false := by decide
  unfold declaration?
  simp only [takeWhile_append_cons hname, dropWhile_append_cons hname]
  split
  · rfl
  · have hskip : skipBlank (s.dropWhile isNameChar ++ ';' :: t) =
        skipBlank (s.dropWhile isNameChar) ++ ';' :: t := dropWhile_append_cons (by decide) _ t
    rw [hskip]
    cases hu : skipBlank (s.dropWhile isNameChar) with
    | nil => rfl
    | cons c u =>
        by_cases hc : ':' = c
        · subst hc
          change (value? (u ++ ';' :: t)).bind _ = ((value? u).bind _).map _
          rw [value?_append_semicolon]
          cases value? u <;> rfl
        · simp [after?, hc]

/-- **A semicolon parts the declarations** of what stands before it from those behind it. -/
theorem declarations_append (s t : List Char) :
    declarations (s ++ ';' :: t) = declarations s ++ declarations t := by
  rw [declarations, Pattern.findAll_append fun c u => declaration?_append_semicolon (c :: u) t]
  exact congrArg (declarations s ++ ·) (declarations_cons_of_not_name (by decide) t)

/-! ### Reading what was extracted -/

/-- Lines of declarations are read whatever stands behind them. -/
theorem declarations_lines_append {ds : List Declaration} (h : ∀ d ∈ ds, d.Legible) (nested : Bool)
    (t : List Char) :
    declarations (ds.flatMap (Declaration.line nested) ++ t) = ds ++ declarations t := by
  induction ds with
  | nil => rfl
  | cons d ds ih =>
      rw [List.flatMap_cons, List.append_assoc, declarations_line (h d List.mem_cons_self),
        ih fun x hx => h x (List.mem_cons_of_mem d hx)]
      rfl

/-- An extract is read back whatever stands behind it. -/
theorem declarations_extract_append (nested : Bool) (s t : List Char) :
    declarations (extract nested s ++ t) = latest (declarations s) ++ declarations t := by
  rw [extract_eq, declarations_lines_append legible_of_mem_latest]

theorem declarations_extract (nested : Bool) (s : List Char) :
    declarations (extract nested s) = latest (declarations s) := by
  rw [extract_eq, declarations_lines legible_of_mem_latest]

/-- Extracts of two texts are extracted as the two texts with a semicolon between them. -/
theorem extract_append_extract (n m k : Bool) (s t : List Char) :
    extract n (extract m s ++ extract k t) = extract n (s ++ ';' :: t) := by
  rw [extract_eq_extract_iff, declarations_extract_append, declarations_extract, declarations_append,
    latest_append_latest]

/-- **To extract twice is to extract once.** -/
theorem extract_extract (n m : Bool) (s : List Char) : extract n (extract m s) = extract n s := by
  have h := latest_append_latest (declarations s) []
  rw [show latest [] = [] from rfl, List.append_nil, List.append_nil] at h
  rw [extract_eq_extract_iff, declarations_extract, h]

/-! ### Documents -/

/-- The declarations of a document, one a line. -/
def extractFrom (nested : Bool) (doc : Bytes) : Bytes :=
  Utf8.encode (extract nested (Utf8.codePoints doc))

/-- Extracts of two documents are extracted as the two with a semicolon between them. -/
theorem extractFrom_append_semicolon (n m k : Bool) (x y : Bytes) :
    extractFrom n (x ++ (";" : Bytes) ++ y) = extractFrom n (extractFrom m x ++ extractFrom k y) := by
  have hsemi : x ++ (";" : Bytes) ++ y = x ++ 59 :: y := List.append_assoc x [59] y
  have hout : extractFrom m x ++ extractFrom k y = Utf8.encode
      (extract m (Utf8.codePoints x) ++ extract k (Utf8.codePoints y)) :=
    List.flatMap_append.symm
  rw [hsemi, hout, extractFrom, extractFrom, Utf8.codePoints_append (by decide),
    Utf8.codePoints_encode, extract_append_extract]
  rfl

/-- **An extract is its own extract**, whether either is nested or not. -/
theorem extractFrom_extractFrom (n m : Bool) (x : Bytes) :
    extractFrom n (extractFrom m x) = extractFrom n x := by
  rw [extractFrom, extractFrom, Utf8.codePoints_encode, extract_extract, extractFrom]

/-- **Extraction may be done piece by piece, and done again.**  What it writes is one line a
property, in the order in which the properties are first set, with the value that is set last. -/
theorem extractFrom_append (n m k : Bool) (x y : Bytes) :
    extractFrom n (x ++ (";" : Bytes) ++ y) = extractFrom n (extractFrom m x ++ extractFrom k y) ∧
    extractFrom n (extractFrom m x) = extractFrom n x ∧
    ∃ ds : List Declaration, extractFrom n x = Utf8.encode (ds.flatMap (Declaration.line n)) ∧
      (∀ d ∈ ds, d.Legible) ∧ (ds.map Declaration.property).Nodup ∧
      ds.map Declaration.property =
        ((declarations (Utf8.codePoints x)).map Declaration.property).eraseDups ∧
      ∀ d ∈ ds, lastOf? (declarations (Utf8.codePoints x)) d.property = some d := by
  refine ⟨extractFrom_append_semicolon n m k x y, extractFrom_extractFrom n m x,
    latest (declarations (Utf8.codePoints x)), ?_, legible_of_mem_latest, ?_,
    map_property_latest _, fun d hd => lastOf?_of_mem_latest hd⟩
  · rw [extractFrom, extract_eq]
  · rw [map_property_latest]
    exact nodup_eraseDups _

end Restyle.Css
