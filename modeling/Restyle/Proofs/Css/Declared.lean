import Mathlib.Data.List.Basic
import Mathlib.Data.List.TakeWhile
import Restyle.Css.Declaration
import Restyle.Proofs.Css.Edit
import Restyle.Proofs.Css.Scan

/-!
# Declarations, written and read

A declaration that is read from a text is *legible*: it has a name, and a value without semicolon
and line break, which starts with white space only when it is that one character.

* `latest ds` is one declaration a property: the last, at the place of the first.  `distinct` makes
  just this list (`distinct_eq_latest`).
* `declarations_lines`: legible declarations, one a line, are read as they were written.  So the
  extracted text of two texts is the same exactly when their declarations are, up to those that are
  set again (`extract_eq_extract_iff`).
-/

namespace Restyle.Css

namespace Declaration

/-- A declaration as it is read from a text. -/
structure Legible (d : Declaration) : Prop where
  property_ne_nil : d.property ≠ []
  property_name : ∀ c ∈ d.property, isNameChar c = true
  value_ne_nil : d.value ≠ []
  value_ends : ∀ c ∈ d.value, endsValue c = false
  value_starts : (∀ c ∈ d.value.head?, isBlank c = false) ∨ ∃ c, d.value = [c]

end Declaration

/-! ### Reading one declaration -/

/-- A declaration begins with a name. -/
theorem declaration?_of_not_name {c : Char} (h : isNameChar c = false) (s : List Char) :
    declaration? (c :: s) = none := by
  unfold declaration?
  rw [List.takeWhile_cons_of_neg (by simp [h])]

/-- Behind a name and a colon, the value is read. -/
theorem declaration?_append {name : List Char} (hne : name ≠ [])
    (hname : ∀ c ∈ name, isNameChar c = true) {u v rest : List Char}
    (hv : value? u = some (v, rest)) :
    declaration? (name ++ ':' :: u) = some (⟨name, v⟩, rest) := by
  have htake : (name ++ ':' :: u).takeWhile isNameChar = name := by
    rw [List.takeWhile_append_of_pos hname, List.takeWhile_cons_of_neg (by decide), List.append_nil]
  have hdrop : (name ++ ':' :: u).dropWhile isNameChar = ':' :: u := by
    rw [List.dropWhile_append_of_pos hname, List.dropWhile_cons_of_neg (by decide)]
  unfold declaration?
  rw [htake, hdrop, skipBlank_cons_of_not_blank (by decide)]
  obtain ⟨c, s, rfl⟩ := List.exists_cons_of_ne_nil hne
  simp [after?, hv]

/-- A value that starts with no white space is read up to what ends it. -/
theorem value?_append {w v rest : List Char} (hw : ∀ c ∈ w, isBlank c = true) (hne : v ≠ [])
    (hv : ∀ c ∈ v, endsValue c = false) (hstart : ∀ c ∈ v.head?, isBlank c = false)
    (hrest : ∀ c ∈ rest.head?, endsValue c = true) : value? (w ++ (v ++ rest)) = some (v, rest) := by
  have hskip : skipBlank (w ++ (v ++ rest)) = v ++ rest := by
    obtain ⟨c, s, rfl⟩ := List.exists_cons_of_ne_nil hne
    rw [skipBlank_append hw, List.cons_append, skipBlank_cons_of_not_blank (hstart c rfl)]
  have hpos : ∀ c ∈ v, (! endsValue c) = true := fun c hc => by rw [hv c hc]; rfl
  have htake : (v ++ rest).takeWhile (! endsValue ·) = v := by
    rw [List.takeWhile_append_of_pos hpos]
    cases rest with
    | nil => simp
    | cons c rest => simp [hrest c rfl]
  have hdrop : (v ++ rest).dropWhile (! endsValue ·) = rest := by
    rw [List.dropWhile_append_of_pos hpos]
    cases rest with
    | nil => rfl
    | cons c rest => simp [hrest c rfl]
  unfold value?
  simp only [hskip, htake, hdrop]

/-- A value that is white space is its last character before a semicolon. -/
theorem value?_blank {w : List Char} (hw : ∀ c ∈ w, isBlank c = true) {c : Char}
    (hc : isBlank c = true) (hv : endsValue c = false) (t : List Char) :
    value? (w ++ ([c] ++ ';' :: t)) = some ([c], ';' :: t) := by
  have hblank : ∀ x ∈ w ++ [c], isBlank x = true := fun x hx => by
    rcases List.mem_append.1 hx with hx | hx
    · exact hw x hx
    · rwa [List.mem_singleton.1 hx]
  rw [← List.append_assoc]
  have hskip : skipBlank ((w ++ [c]) ++ ';' :: t) = ';' :: t := by
    rw [skipBlank_append hblank, skipBlank_cons_of_not_blank (by decide)]
  have htake : ((w ++ [c]) ++ ';' :: t).takeWhile isBlank = w ++ [c] := by
    rw [List.takeWhile_append_of_pos hblank, List.takeWhile_cons_of_neg (by decide), List.append_nil]
  unfold value?
  simp only [hskip, htake]
  rw [List.takeWhile_cons_of_neg (by decide)]
  simp only [List.reverse_append, List.reverse_singleton, List.singleton_append]
  rw [List.dropWhile_cons_of_neg (by simp [hv])]
  simp only [List.length_reverse]
  rw [List.drop_left' (by simp)]

/-- **A legible declaration is read** up to the semicolon behind it. -/
theorem declaration?_of_legible {d : Declaration} (hd : d.Legible) {w : List Char}
    (hw : ∀ c ∈ w, isBlank c = true) (t : List Char) :
    declaration? ((d.property ++ ':' :: (w ++ d.value)) ++ ';' :: t) = some (d, ';' :: t) := by
  have hvalue : value? (w ++ (d.value ++ ';' :: t)) = some (d.value, ';' :: t) := by
    have hsemi : ∀ c ∈ (';' :: t).head?, endsValue c = true := fun c hc => by cases hc; rfl
    rcases hd.value_starts with hs | ⟨c, hs⟩
    · exact value?_append hw hd.value_ne_nil hd.value_ends hs hsemi
    · cases hc : isBlank c with
      | true =>
          rw [hs]
          exact value?_blank hw hc (hd.value_ends c (by simp [hs])) t
      | false =>
          refine value?_append hw hd.value_ne_nil hd.value_ends (fun x hx => ?_) hsemi
          rw [hs] at hx
          cases hx
          exact hc
  have := declaration?_append hd.property_ne_nil hd.property_name hvalue
  simpa using this

/-! ### What is read is legible -/

/-- What is read as a value can be read again. -/
theorem value?_legible {s v rest : List Char} (h : value? s = some (v, rest)) :
    v ≠ [] ∧ (∀ c ∈ v, endsValue c = false) ∧
      ((∀ c ∈ v.head?, isBlank c = false) ∨ ∃ c, v = [c]) := by
  unfold value? at h
  dsimp only at h
  split at h
  · split at h
    · cases h
    · next c before hb =>
        cases h
        have := List.head?_dropWhile_not endsValue (s.takeWhile isBlank).reverse
        rw [hb] at this
        refine ⟨by simp, fun x hx => ?_, .inr ⟨c, rfl⟩⟩
        rw [List.mem_singleton.1 hx]
        simpa using this
  · next hne =>
      cases h
      refine ⟨hne, fun c hc => by simpa using List.mem_takeWhile_imp hc, .inl fun c hc => ?_⟩
      have hskip := List.head?_dropWhile_not isBlank s
      obtain ⟨x, t, ht⟩ := List.exists_cons_of_ne_nil hne
      have hx : (skipBlank s).head? = some x := by
        cases hs : skipBlank s with
        | nil => rw [hs] at ht; cases ht
        | cons y u =>
            rw [hs, List.takeWhile_cons] at ht
            split at ht
            · cases ht; rfl
            · cases ht
      rw [ht] at hc
      cases hc
      rw [skipBlank] at hx
      rwa [hx] at hskip

/-- What is read as a declaration can be read again. -/
theorem legible_of_declaration? {s rest : List Char} {d : Declaration}
    (h : declaration? s = some (d, rest)) : d.Legible := by
  unfold declaration? at h
  split at h
  · cases h
  · next hne =>
      simp only [Option.bind_eq_bind, Option.bind_eq_some_iff] at h
      obtain ⟨t, -, ⟨v, r⟩, hv, he⟩ := h
      cases he
      obtain ⟨hvne, hends, hstart⟩ := value?_legible hv
      exact ⟨hne, fun c hc => List.mem_takeWhile_imp hc, hvne, hends, hstart⟩

/-- **Every declaration of a text is legible.** -/
theorem legible_of_mem_declarations {s : List Char} {d : Declaration} (h : d ∈ declarations s) :
    d.Legible := by
  obtain ⟨v, rest, -, hv⟩ := Pattern.exists_of_mem_findAll h
  exact legible_of_declaration? hv

/-! ### Lines of declarations -/

theorem declarations_cons_of_not_name {c : Char} (h : isNameChar c = false) (s : List Char) :
    declarations (c :: s) = declarations s :=
  Pattern.findAll_cons_of_none (declaration?_of_not_name h s)

/-- A declaration that can be read is, up to its semicolon. -/
theorem declarations_of_legible {d : Declaration} (hd : d.Legible) {w : List Char}
    (hw : ∀ c ∈ w, isBlank c = true) (t : List Char) :
    declarations ((d.property ++ ':' :: (w ++ d.value)) ++ ';' :: t) = d :: declarations t := by
  rw [declarations, Pattern.findAll_append_of_some (by simp) (declaration?_of_legible hd hw t)]
  exact congrArg (d :: ·) (declarations_cons_of_not_name (by decide) t)

/-- A declaration is read back from its line. -/
theorem declarations_line {d : Declaration} (hd : d.Legible) (nested : Bool) (t : List Char) :
    declarations (d.line nested ++ t) = d :: declarations t := by
  have hspace : ∀ c ∈ [' '], isBlank c = true := fun c hc => by rw [List.mem_singleton.1 hc]; rfl
  have hline : declarations ((d.property ++ ':' :: ([' '] ++ d.value)) ++ ';' :: '\n' :: t) =
      d :: declarations t := by
    rw [declarations_of_legible hd hspace]
    exact congrArg (d :: ·) (declarations_cons_of_not_name (by decide) t)
  cases nested with
  | false => simpa [Declaration.line] using hline
  | true =>
      rw [← hline]
      refine Eq.trans ?_ (declarations_cons_of_not_name (c := '\t') (by decide) _)
      simp [Declaration.line]

/-- **Declarations written one a line are read again.** -/
theorem declarations_lines {ds : List Declaration} (h : ∀ d ∈ ds, d.Legible) (nested : Bool) :
    declarations (ds.flatMap (Declaration.line nested)) = ds := by
  induction ds with
  | nil => rfl
  | cons d ds ih =>
      rw [List.flatMap_cons, declarations_line (h d List.mem_cons_self),
        ih fun x hx => h x (List.mem_cons_of_mem d hx)]

/-- Different declarations are written as different lines. -/
theorem lines_eq_lines_iff {ds es : List Declaration} (hd : ∀ d ∈ ds, d.Legible)
    (he : ∀ e ∈ es, e.Legible) {nested : Bool} :
    ds.flatMap (Declaration.line nested) = es.flatMap (Declaration.line nested) ↔ ds = es := by
  refine ⟨fun h => ?_, congrArg _⟩
  have := congrArg declarations h
  rwa [declarations_lines hd, declarations_lines he] at this

/-! ### One declaration a property -/

/-- The last declaration of a property. -/
def lastOf? (ds : List Declaration) (p : List Char) : Option Declaration :=
  (ds.filter (·.property = p)).getLast?

/-- The last declaration of each property, in the order in which the properties are first set. -/
def latest (ds : List Declaration) : List Declaration :=
  (ds.map Declaration.property).eraseDups.filterMap (lastOf? ds)

theorem lastOf?_cons_self (d : Declaration) (ds : List Declaration) :
    lastOf? (d :: ds) d.property = some ((lastOf? ds d.property).getD d) := by
  rw [lastOf?, List.filter_cons_of_pos (by simp), List.getLast?_cons]
  rfl

theorem lastOf?_cons_of_ne {d : Declaration} {p : List Char} (h : d.property ≠ p)
    (ds : List Declaration) : lastOf? (d :: ds) p = lastOf? ds p := by
  rw [lastOf?, List.filter_cons_of_neg (by simpa using h)]
  rfl

/-- Declarations of another property can be left out. -/
theorem lastOf?_filter_ne {p q : List Char} (h : p ≠ q) (ds : List Declaration) :
    lastOf? (ds.filter (·.property ≠ q)) p = lastOf? ds p := by
  rw [lastOf?, List.filter_filter, lastOf?]
  congr 1
  refine List.filter_congr fun e _ => ?_
  by_cases he : e.property = p
  · simp [he, h]
  · simp [he]

/-- The first property of a list takes its last declaration, and the others are set among
themselves. -/
theorem foldl_setProperty_cons (e : Declaration) (es ds : List Declaration) :
    ds.foldl (fun seen d => setProperty d seen) (e :: es) = (lastOf? ds e.property).getD e ::
      (ds.filter (·.property ≠ e.property)).foldl (fun seen d => setProperty d seen) es := by
  induction ds generalizing e es with
  | nil => rfl
  | cons d ds ih =>
      rw [List.foldl_cons, setProperty]
      by_cases h : d.property = e.property
      · rw [if_pos h.symm, ih, ← h, lastOf?_cons_self, List.filter_cons_of_neg (by simp)]
        rfl
      · rw [if_neg (Ne.symm h), ih, lastOf?_cons_of_ne h,
          List.filter_cons_of_pos (by simpa using h)]
        rfl

/-- The first property gets its last value, and is left out from what follows. -/
theorem latest_cons (d : Declaration) (ds : List Declaration) :
    latest (d :: ds) =
      (lastOf? ds d.property).getD d :: latest (ds.filter (·.property ≠ d.property)) := by
  have hkeys : (ds.map Declaration.property).filter (fun p => ! p == d.property) =
      (ds.filter (·.property ≠ d.property)).map Declaration.property := by
    rw [List.filter_map]
    congr 2
    funext e
    by_cases he : e.property = d.property <;> simp [he]
  rw [latest, List.map_cons, List.eraseDups_cons,
    List.filterMap_cons_some (lastOf?_cons_self d ds), hkeys, latest]
  congr 1
  refine List.filterMap_congr fun p hp => ?_
  have hne : p ≠ d.property := by
    obtain ⟨e, he, rfl⟩ := List.mem_map.1 (List.mem_eraseDups.1 hp)
    simpa using (List.mem_filter.1 he).2
  rw [lastOf?_cons_of_ne (Ne.symm hne), lastOf?_filter_ne hne]

/-- **Setting the declarations one after another** leaves the last of each property, at the place of
the first. -/
theorem distinct_eq_latest (ds : List Declaration) : distinct ds = latest ds := by
  match ds with
  | [] => rfl
  | d :: ds =>
      have hrest := distinct_eq_latest (ds.filter (·.property ≠ d.property))
      rw [latest_cons, ← hrest]
      exact foldl_setProperty_cons d [] ds
termination_by ds.length
decreasing_by exact Nat.lt_succ_of_le (List.length_filter_le _ _)

/-- The latest declarations are among those there are. -/
theorem mem_of_mem_latest {ds : List Declaration} {d : Declaration} (h : d ∈ latest ds) :
    d ∈ ds := by
  obtain ⟨p, -, hp⟩ := List.mem_filterMap.1 h
  exact (List.mem_filter.1 (List.mem_of_getLast? hp)).1

/-! ### Extracted texts -/

/-- The extract is the latest declarations, one a line. -/
theorem extract_eq (nested : Bool) (s : List Char) :
    extract nested s = (latest (declarations s)).flatMap (Declaration.line nested) := by
  rw [extract, distinct_eq_latest]

theorem legible_of_mem_latest {s : List Char} :
    ∀ d ∈ latest (declarations s), d.Legible :=
  fun _ hd => legible_of_mem_declarations (mem_of_mem_latest hd)

/-- **An extracted text tells its declarations.** -/
theorem extract_eq_extract_iff {nested : Bool} {s t : List Char} :
    extract nested s = extract nested t ↔ latest (declarations s) = latest (declarations t) := by
  rw [extract_eq, extract_eq, lines_eq_lines_iff legible_of_mem_latest legible_of_mem_latest]

end Restyle.Css
