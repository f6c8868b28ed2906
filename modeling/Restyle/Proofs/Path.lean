import Mathlib.Algebra.GroupWithZero.Nat
import Restyle.Path

/-!
# Paths as lists of components

Cleaning a path takes its parts one after another and keeps a list of components.  Where no part is
`..` that list only grows, so a path that *descends* (it is relative and has no `..`) has the parts
that name something for its components.  Cleaning, joining and going to the parent keep a path
descending (`Descends.clean`, `Descends.join`, `Descends.parent`).

* `components_append`: a path put behind another adds its components.
* `components_ofComponents`: names put together from the root are taken apart again; so are all components
  that cleaning leaves (`Settled`).
* `clean_clean` and `length_clean_le`: a cleaned path is clean, and not longer than it was.
* `parent_concat`: the parent of names from the root has all of them but the last.
* `under dir cs` writes the components `cs` behind a directory; `ofComponents_append` says that this
  is the path of the components of both.
-/

namespace Restyle

/-! ### Cutting at a separator -/

namespace Bytes

variable {sep : UInt8}

/-- There is always a first part. -/
theorem exists_split (sep : UInt8) (s : Bytes) : ∃ part parts, split sep s = part :: parts := by
  refine List.exists_cons_of_ne_nil ?_
  cases s with
  | nil => simp [split]
  | cons b s =>
      rw [split]
      split
      · split <;> simp
      · simp

theorem split_cons_sep (s : Bytes) : split sep (sep :: s) = [] :: split sep s := by
  obtain ⟨part, parts, hs⟩ := exists_split sep s
  simp [split, hs]

/-- What is no separator belongs to the first part. -/
theorem split_cons_of_ne {b : UInt8} (hb : b ≠ sep) {s part : Bytes} {parts : List Bytes}
    (hs : split sep s = part :: parts) : split sep (b :: s) = (b :: part) :: parts := by
  simp [split, hs, hb]

/-- **A separator cuts.** -/
theorem split_append (u v : Bytes) : split sep (u ++ sep :: v) = split sep u ++ split sep v := by
  induction u with
  | nil => exact split_cons_sep v
  | cons b u ih =>
      rw [List.cons_append]
      obtain ⟨part, parts, hu⟩ := exists_split sep u
      rw [hu, List.cons_append] at ih
      by_cases hb : b = sep
      · subst hb
        rw [split_cons_sep, split_cons_sep, ih, hu]
        rfl
      · rw [split_cons_of_ne hb ih, split_cons_of_ne hb hu]
        rfl

/-- Without separator there is one part. -/
theorem split_of_not_mem {s : Bytes} (h : sep ∉ s) : split sep s = [s] := by
  induction s with
  | nil => rfl
  | cons b s ih =>
      rw [List.mem_cons, not_or] at h
      exact split_cons_of_ne (Ne.symm h.1) (ih h.2)

/-- No part holds the separator. -/
theorem not_mem_of_mem_split {s part : Bytes} (h : part ∈ split sep s) : sep ∉ part := by
  induction s generalizing part with
  | nil =>
      obtain rfl := List.mem_singleton.1 h
      exact List.not_mem_nil
  | cons b s ih =>
      obtain ⟨first, parts, hs⟩ := exists_split sep s
      by_cases hb : b = sep
      · subst hb
        rw [split_cons_sep] at h
        rcases List.mem_cons.1 h with rfl | h
        · exact List.not_mem_nil
        · exact ih h
      · rw [split_cons_of_ne hb hs] at h
        rw [hs] at ih
        rcases List.mem_cons.1 h with rfl | h
        · rw [List.mem_cons, not_or]
          exact ⟨Ne.symm hb, ih List.mem_cons_self⟩
        · exact ih (List.mem_cons_of_mem _ h)

/-- Parts that are put together are cut again. -/
theorem split_intercalate {parts : List Bytes} (hne : parts ≠ []) (h : ∀ p ∈ parts, sep ∉ p) :
    split sep (List.intercalate [sep] parts) = parts := by
  induction parts with
  | nil => exact absurd rfl hne
  | cons part parts ih =>
      have hpart : split sep part = [part] := split_of_not_mem (h part List.mem_cons_self)
      by_cases hparts : parts = []
      · rw [hparts, List.intercalate_singleton, hpart]
      · rw [List.intercalate_cons_of_ne_nil hparts, List.append_assoc, List.singleton_append,
          split_append, hpart, ih hparts fun p hp => h p (List.mem_cons_of_mem part hp)]
        rfl

end Bytes

namespace Path

/-! ### Names -/

/-- A component that names something in a directory. -/
structure IsName (c : Bytes) : Prop where
  ne_nil : c ≠ []
  ne_here : c ≠ here
  ne_above : c ≠ above
  no_slash : slash ∉ c

/-- The part is a component of its own, or `..`. -/
def isNamed (part : Bytes) : Bool :=
  !part.isEmpty && part != here

/-- The parts that name something. -/
def names (p : Bytes) : List Bytes :=
  (parts p).filter isNamed

/-- Two paths have the parts of both. -/
theorem parts_append (p q : Bytes) : parts (p ++ slash :: q) = parts p ++ parts q :=
  Bytes.split_append p q

/-- A part is named if it is neither empty nor a dot. -/
theorem isNamed_iff {part : Bytes} : isNamed part = true ↔ part ≠ [] ∧ part ≠ here := by
  simp [isNamed]

/-- The names of a path that goes down only are names. -/
theorem isName_of_mem_names {p c : Bytes} (hp : above ∉ parts p) (hc : c ∈ names p) : IsName c := by
  obtain ⟨hm, hn⟩ := List.mem_filter.1 hc
  obtain ⟨hnil, hhere⟩ := isNamed_iff.1 hn
  exact ⟨hnil, hhere, fun h => hp (h ▸ hm), Bytes.not_mem_of_mem_split hm⟩

theorem filter_isNamed {cs : List Bytes} (h : ∀ c ∈ cs, IsName c) : cs.filter isNamed = cs :=
  List.filter_eq_self.2 fun c hc => isNamed_iff.2 ⟨(h c hc).ne_nil, (h c hc).ne_here⟩

/-- Two paths have the names of both. -/
theorem names_append (p q : Bytes) : names (p ++ slash :: q) = names p ++ names q := by
  rw [names, parts_append, List.filter_append]
  rfl

/-- A name is its only name. -/
theorem names_of_isName {c : Bytes} (h : IsName c) : names c = [c] := by
  rw [names, parts, Bytes.split_of_not_mem h.no_slash]
  exact filter_isNamed fun x hx => List.mem_singleton.1 hx ▸ h

/-! ### Components -/

/-- Parts without `..` are put behind what is there. -/
theorem foldl_settle {rooted : Bool} {ps : List Bytes} (h : above ∉ ps) (done : List Bytes) :
    ps.foldl (settle rooted) done = (ps.filter isNamed).reverse ++ done := by
  induction ps generalizing done with
  | nil => rfl
  | cons part ps ih =>
      rw [List.mem_cons, not_or] at h
      rw [List.foldl_cons, ih h.2]
      cases hn : isNamed part with
      | true =>
          obtain ⟨hnil, hhere⟩ := isNamed_iff.1 hn
          rw [List.filter_cons_of_pos hn, List.reverse_cons, List.append_assoc]
          simp [settle, hnil, hhere, Ne.symm h.1]
      | false =>
          have hskip : settle rooted done part = done := if_pos (by
            rw [isNamed, Bool.and_eq_false_iff, Bool.not_eq_false', bne_eq_false_iff_eq] at hn
            rwa [Bool.or_eq_true, beq_iff_eq])
          rw [List.filter_cons_of_neg (by simp [hn]), hskip]

/-- Components are names where no part goes up. -/
theorem components_eq_names {p : Bytes} (h : above ∉ parts p) : components p = names p := by
  rw [components, foldl_settle h, List.append_nil, List.reverse_reverse, names]

theorem isAbsolute_append {p : Bytes} (hp : p ≠ []) (q : Bytes) :
    isAbsolute (p ++ q) = isAbsolute p := by
  cases p with
  | nil => exact absurd rfl hp
  | cons b p => rfl

/-- **A path put behind another adds its components.** -/
theorem components_append {p q : Bytes} (hp : p ≠ []) (hq : above ∉ parts q) :
    components (p ++ slash :: q) = components p ++ names q := by
  rw [components, isAbsolute_append hp, parts_append, List.foldl_append, foldl_settle hq,
    List.reverse_append, List.reverse_reverse]
  rfl

/-- Components in their final form, the last one first: every `..` stands before all names, and from the
root there is none. -/
inductive Settled (rooted : Bool) : List Bytes → Prop where
  | nil : Settled rooted []
  | above {done : List Bytes} (hrooted : rooted = false) (hall : ∀ c ∈ done, c = above)
      (hdone : Settled rooted done) : Settled rooted (above :: done)
  | name {c : Bytes} {done : List Bytes} (hc : IsName c) (hdone : Settled rooted done) : Settled rooted (c :: done)

namespace Settled

variable {rooted : Bool} {done : List Bytes}

/-- Names are settled. -/
theorem of_names (h : ∀ c ∈ done, IsName c) : Settled rooted done := by
  induction done with
  | nil => exact .nil
  | cons c done ih => exact .name (h c List.mem_cons_self) (ih fun x hx => h x (List.mem_cons_of_mem c hx))

/-- Settled parts of an absolute path are names. -/
theorem isName (h : Settled true done) : ∀ c ∈ done, IsName c := by
  induction h with
  | nil => simp
  | above hrooted => cases hrooted
  | name hc _ ih => exact List.forall_mem_cons.2 ⟨hc, ih⟩

/-- Settled parts are not empty and hold no slash. -/
theorem spec (h : Settled rooted done) : ∀ c ∈ done, c ≠ [] ∧ slash ∉ c := by
  induction h with
  | nil => simp
  | above _ _ _ ih => exact List.forall_mem_cons.2 ⟨by decide, ih⟩
  | name hc _ ih => exact List.forall_mem_cons.2 ⟨⟨hc.ne_nil, hc.no_slash⟩, ih⟩

/-- Settling one more part leaves all settled. -/
theorem settle (h : Settled rooted done) {part : Bytes} (hs : slash ∉ part) :
    Settled rooted (Path.settle rooted done part) := by
  unfold Path.settle
  split
  · exact h
  next hempty =>
    simp only [Bool.or_eq_true, List.isEmpty_iff, beq_iff_eq, not_or] at hempty
    split
    · cases h with
      | nil =>
          cases rooted with
          | true => exact .nil
          | false => exact .above rfl (by simp) .nil
      | above hrooted hall hdone =>
          exact .above hrooted (List.forall_mem_cons.2 ⟨rfl, hall⟩) (.above hrooted hall hdone)
      | name hc hdone =>
          -- a name is taken back
          simp only [beq_iff_eq, hc.ne_above, if_false]
          exact hdone
    · next habove => exact .name ⟨hempty.1, hempty.2, by simpa using habove, hs⟩ h

/-- Settling any number of parts does. -/
theorem foldl (h : Settled rooted done) {ps : List Bytes} (hs : ∀ part ∈ ps, slash ∉ part) :
    Settled rooted (ps.foldl (Path.settle rooted) done) := by
  induction ps generalizing done with
  | nil => exact h
  | cons part ps ih =>
      exact ih (h.settle (hs part List.mem_cons_self)) fun c hc => hs c (List.mem_cons_of_mem part hc)

/-- What is final stays as it is. -/
theorem foldl_reverse (h : Settled rooted done) : done.reverse.foldl (Path.settle rooted) [] = done := by
  induction h with
  | nil => rfl
  | @above done hrooted hall _ ih =>
      rw [List.reverse_cons, List.foldl_append, ih, hrooted]
      cases done with
      | nil => rfl
      | cons c done =>
          obtain rfl := hall c List.mem_cons_self
          rfl
  | name hc _ ih =>
      rw [List.reverse_cons, List.foldl_append, ih]
      simp [Path.settle, hc.ne_nil, hc.ne_here, hc.ne_above]

end Settled

/-- **The components of a path are settled.** -/
theorem settled_components (p : Bytes) : Settled (isAbsolute p) (components p).reverse := by
  rw [components, List.reverse_reverse]
  exact Settled.nil.foldl fun c hc => Bytes.not_mem_of_mem_split hc

/-- **An absolute path has names only**: no `..` is left. -/
theorem isName_of_mem_components {p : Bytes} (hp : isAbsolute p = true) {c : Bytes}
    (hc : c ∈ components p) : IsName c :=
  (hp ▸ settled_components p).isName c (List.mem_reverse.2 hc)

/-! ### From the root -/

/-- Slashes stand before the parts as well as between them. -/
theorem intercalate_slash (c : Bytes) (cs : List Bytes) :
    slash :: List.intercalate [slash] (c :: cs) = (c :: cs).flatMap (slash :: ·) := by
  induction cs generalizing c with
  | nil => simp
  | cons d cs ih =>
      rw [List.intercalate_cons_cons, List.append_assoc, List.singleton_append, ih,
        List.flatMap_cons]
      rfl

/-- The components, each behind a slash; the root has none. -/
theorem ofComponents_true (cs : List Bytes) :
    ofComponents true cs = if cs = [] then [slash] else cs.flatMap (slash :: ·) := by
  cases cs with
  | nil => rfl
  | cons c cs => exact intercalate_slash c cs

theorem isAbsolute_intercalate {cs : List Bytes} (h : ∀ c ∈ cs, c ≠ [] ∧ slash ∉ c) :
    isAbsolute (List.intercalate [slash] cs) = false := by
  cases cs with
  | nil => rfl
  | cons c cs =>
      -- it starts with its first part
      obtain ⟨hne, hs⟩ := h c List.mem_cons_self
      obtain ⟨b, c, rfl⟩ := List.exists_cons_of_ne_nil hne
      have hb : b ≠ slash := fun h => hs (by simp [h])
      cases cs <;> simpa [isAbsolute, List.intercalate] using hb

namespace Settled

variable {rooted : Bool} {cs : List Bytes}

/-- A path is absolute as it was asked to be. -/
theorem isAbsolute_ofComponents (h : Settled rooted cs.reverse) : isAbsolute (ofComponents rooted cs) = rooted := by
  cases rooted with
  | true => rfl
  | false =>
      rw [ofComponents, if_neg (by simp)]
      split
      · rfl
      · exact isAbsolute_intercalate fun c hc => h.spec c (List.mem_reverse.2 hc)

/-- **Components put together are taken apart again.** -/
theorem components_ofComponents (h : Settled rooted cs.reverse) : components (ofComponents rooted cs) = cs := by
  have hspec : ∀ c ∈ cs, c ≠ [] ∧ slash ∉ c := fun c hc => h.spec c (List.mem_reverse.2 hc)
  have hrun : cs.foldl (Path.settle rooted) [] = cs.reverse := by
    simpa using h.foldl_reverse
  rw [components, h.isAbsolute_ofComponents]
  by_cases hnil : cs = []
  · subst hnil
    cases rooted <;> rfl
  · have hparts : parts (List.intercalate [slash] cs) = cs :=
      Bytes.split_intercalate hnil fun c hc => (hspec c hc).2
    cases rooted with
    | true =>
        change (List.foldl _ [] (Bytes.split slash (slash :: _))).reverse = cs
        rw [Bytes.split_cons_sep, List.foldl_cons]
        change (List.foldl _ [] (parts _)).reverse = cs
        rw [hparts, hrun, List.reverse_reverse]
    | false =>
        rw [ofComponents, if_neg (by simp), if_neg (by simpa using hnil), hparts, hrun, List.reverse_reverse]

end Settled

theorem components_ofComponents {cs : List Bytes} (h : ∀ c ∈ cs, IsName c) :
    components (ofComponents true cs) = cs := by
  have hsettled : Settled true cs.reverse := .of_names (by simpa using h)
  exact hsettled.components_ofComponents

/-- A path of names is clean. -/
theorem clean_ofComponents {cs : List Bytes} (h : ∀ c ∈ cs, IsName c) :
    clean (ofComponents true cs) = ofComponents true cs := by
  have habs : isAbsolute (ofComponents true cs) = true := rfl
  rw [clean, habs, components_ofComponents h]

theorem parts_ofComponents {cs : List Bytes} (hcs : ∀ c ∈ cs, IsName c) (hne : cs ≠ []) :
    parts (ofComponents true cs) = [] :: cs := by
  change Bytes.split slash (slash :: _) = _
  rw [Bytes.split_cons_sep, Bytes.split_intercalate hne fun c hc => (hcs c hc).no_slash]

theorem ofComponents_concat (cs : List Bytes) (c : Bytes) :
    ofComponents true (cs ++ [c]) = cs.flatMap (slash :: ·) ++ slash :: c := by
  rw [ofComponents_true, if_neg (by simp)]
  simp

/-- The last name of a path is what follows its last slash. -/
theorem dropWhile_reverse_concat (u : Bytes) {c : Bytes} (hc : slash ∉ c) :
    (u ++ slash :: c).reverse.dropWhile (· != slash) = slash :: u.reverse := by
  have hall : ∀ b ∈ c.reverse, (b != slash) = true := by
    intro b hb
    rw [bne_iff_ne]
    rintro rfl
    exact hc (List.mem_reverse.1 hb)
  rw [List.reverse_append, List.reverse_cons, List.append_assoc, List.dropWhile_append_of_pos hall]
  rfl

/-- A name at the end has no slash behind it. -/
theorem dropWhile_slash_concat (u : Bytes) {c : Bytes} (hc : IsName c) :
    (u ++ slash :: c).reverse.dropWhile (· == slash) = (u ++ slash :: c).reverse := by
  rcases List.eq_nil_or_concat c with rfl | ⟨c, b, rfl⟩
  · exact absurd rfl hc.ne_nil
  · have hb : b ≠ slash := by
      rintro rfl
      exact hc.no_slash (by simp)
    simp [List.dropWhile_cons_of_neg, hb]

/-- **The parent of names from the root** has all of them but the last. -/
theorem parent_concat {cs : List Bytes} (hcs : ∀ c ∈ cs, IsName c) {c : Bytes} (hc : IsName c) :
    parent (ofComponents true (cs ++ [c])) = ofComponents true cs := by
  rw [ofComponents_concat, parent, dropWhile_reverse_concat _ hc.no_slash, List.reverse_cons,
    List.reverse_reverse]
  by_cases hnil : cs = []
  · subst hnil
    decide
  · have hflat : cs.flatMap (slash :: ·) = ofComponents true cs := by
      rw [ofComponents_true, if_neg hnil]
    have hne : ofComponents true cs ≠ [] := List.cons_ne_nil _ _
    rw [hflat, clean, isAbsolute_append hne, components_append hne (by decide),
      components_ofComponents hcs]
    simp [show isAbsolute (ofComponents true cs) = true from rfl, show names [] = [] from rfl]

/-- The parent of names from the root is such a path again. -/
theorem exists_parent {cs : List Bytes} (hcs : ∀ c ∈ cs, IsName c) :
    ∃ cs', (∀ c ∈ cs', IsName c) ∧ parent (ofComponents true cs) = ofComponents true cs' := by
  rcases List.eq_nil_or_concat cs with rfl | ⟨cs, c, rfl⟩
  · exact ⟨[], hcs, by decide⟩
  · rw [List.concat_eq_append] at *
    have hcs' : ∀ x ∈ cs, IsName x := fun x hx => hcs x (by simp [hx])
    exact ⟨cs, hcs', parent_concat hcs' (hcs c (by simp))⟩

/-- What is joined to an absolute path is names from the root. -/
theorem exists_join {dir : Bytes} (habs : isAbsolute dir = true) (ps : List Bytes) :
    ∃ cs, (∀ c ∈ cs, IsName c) ∧ join (dir :: ps) = ofComponents true cs := by
  obtain ⟨b, dir, rfl⟩ : ∃ b p, dir = b :: p := by
    cases dir with
    | nil => cases habs
    | cons b p => exact ⟨b, p, rfl⟩
  have hjoin : isAbsolute (List.intercalate [slash] ((b :: dir) :: ps.filter (!·.isEmpty))) = true := by
    cases ps.filter (!·.isEmpty) <;> exact habs
  refine ⟨_, fun c hc => isName_of_mem_components hjoin hc, ?_⟩
  rw [join, List.filter_cons_of_pos rfl]
  change clean _ = _
  rw [clean, hjoin]

/-! ### Cleaned paths -/

/-- The names of a path, each behind a slash, are the path. -/
theorem flatMap_components {path : Bytes} (habs : isAbsolute path = true) (hclean : clean path = path)
    (hroot : components path ≠ []) : (components path).flatMap (slash :: ·) = path := by
  rw [clean, habs, ofComponents_true, if_neg hroot] at hclean
  exact hclean

/-- **A cleaned path is clean.** -/
theorem clean_clean (p : Bytes) : clean (clean p) = clean p := by
  have h := settled_components p
  rw [clean, clean, h.isAbsolute_ofComponents, h.components_ofComponents]

/-- A path ends with its last component. -/
theorem exists_ofComponents_concat (rooted : Bool) (cs : List Bytes) (c : Bytes) :
    ∃ dir, ofComponents rooted (cs ++ [c]) = dir ++ c := by
  have hbody : ∃ dir, List.intercalate [slash] (cs ++ [c]) = dir ++ c := by
    induction cs with
    | nil => exact ⟨[], by simp⟩
    | cons d cs ih =>
        obtain ⟨dir, hdir⟩ := ih
        exact ⟨d ++ slash :: dir, by
          rw [List.cons_append, List.intercalate_cons_of_ne_nil (by simp), hdir]; simp⟩
  obtain ⟨dir, hdir⟩ := hbody
  cases rooted with
  | true => exact ⟨slash :: dir, by rw [ofComponents, if_pos rfl, hdir]; rfl⟩
  | false => exact ⟨dir, by rw [ofComponents, if_neg (by simp), if_neg (by simp), hdir]⟩

/-- Only the root ends with a slash. -/
theorem eq_root_of_getLast? {p : Bytes} (h : (clean p).getLast? = some slash) : clean p = [slash] := by
  have hsettled := settled_components p
  unfold clean at h ⊢
  rcases List.eq_nil_or_concat (components p) with hnil | ⟨cs, c, hcs⟩
  · rw [hnil] at h ⊢
    generalize isAbsolute p = rooted at h ⊢
    revert rooted
    decide
  · rw [List.concat_eq_append] at hcs
    rw [hcs] at h hsettled
    obtain ⟨hne, hs⟩ := hsettled.spec c (by simp)
    obtain ⟨dir, hdir⟩ := exists_ofComponents_concat (isAbsolute p) cs c
    rw [hdir, List.getLast?_append, List.getLast?_eq_some_getLast hne, Option.some_or] at h
    exact absurd (Option.some.inj h ▸ List.getLast_mem hne) hs

/-- The room that components take up, each with a slash. -/
def extent (cs : List Bytes) : Nat :=
  (cs.map (·.length + 1)).sum

/-- Settling a part takes at most its length and a slash. -/
theorem extent_settle (rooted : Bool) (done : List Bytes) (part : Bytes) :
    extent (settle rooted done part) ≤ extent done + (part.length + 1) := by
  unfold settle
  split
  · omega
  split
  · next habove =>
      obtain rfl := beq_iff_eq.1 habove
      split
      · split <;> simp [extent]
      · split
        · simp [extent]
          omega
        · simp [extent]
          omega
  · simp [extent]
    omega

/-- Settling any number of parts takes at most their extent. -/
theorem extent_foldl (rooted : Bool) (ps done : List Bytes) :
    extent (ps.foldl (settle rooted) done) ≤ extent done + extent ps := by
  induction ps generalizing done with
  | nil => simp [extent]
  | cons part ps ih =>
      have := extent_settle rooted done part
      have := ih (settle rooted done part)
      simp only [extent, List.foldl_cons, List.map_cons, List.sum_cons] at *
      omega

/-- The extent of the parts is that of the path. -/
theorem extent_parts (p : Bytes) : extent (parts p) = p.length + 1 := by
  unfold parts
  induction p with
  | nil => rfl
  | cons b p ih =>
      obtain ⟨part, ps, hp⟩ := Bytes.exists_split slash p
      by_cases hb : b = slash
      · subst hb
        rw [Bytes.split_cons_sep]
        simp only [extent, List.map_cons, List.sum_cons, List.length_nil, List.length_cons] at *
        omega
      · rw [Bytes.split_cons_of_ne hb hp]
        rw [hp] at ih
        simp only [extent, List.map_cons, List.sum_cons, List.length_cons] at *
        omega

theorem length_intercalate {cs : List Bytes} (hne : cs ≠ []) :
    (List.intercalate [slash] cs).length + 1 = extent cs := by
  obtain ⟨c, cs, rfl⟩ := List.exists_cons_of_ne_nil hne
  have hlength := congrArg List.length (intercalate_slash c cs)
  simpa only [extent, List.length_flatMap, List.length_cons] using hlength

/-- The slash at the root takes up room of its own. -/
theorem extent_components_le (p : Bytes) :
    extent (components p) + (if isAbsolute p then 1 else 0) ≤ p.length + 1 := by
  have hrun : extent (components p) = extent ((parts p).foldl (settle (isAbsolute p)) []) := by
    simp [components, extent, List.sum_reverse]
  have hfold : ∀ rooted q, extent ((parts q).foldl (settle rooted) []) ≤ q.length + 1 := by
    intro rooted q
    simpa [extent_parts, show extent [] = 0 from rfl] using extent_foldl rooted (parts q) []
  rw [hrun]
  split
  · next habs =>
      obtain ⟨q, rfl⟩ : ∃ q, p = slash :: q := by simpa [isAbsolute, List.head?_eq_some_iff] using habs
      rw [habs, parts, Bytes.split_cons_sep, List.foldl_cons]
      exact Nat.succ_le_succ (hfold true q)
  · exact hfold _ p

/-- **Cleaning makes no path longer.** -/
theorem length_clean_le {p : Bytes} (hne : p ≠ []) : (clean p).length ≤ p.length := by
  have hpos : 0 < p.length := List.length_pos_iff.2 hne
  unfold clean ofComponents
  by_cases hnil : components p = []
  · rw [hnil]
    split
    · exact hpos
    · exact hpos
  · have hroom := extent_components_le p
    have hlength := length_intercalate hnil
    split
    · next habs =>
        rw [if_pos habs] at hroom
        rw [List.length_cons]
        omega
    · rw [if_neg (by simpa using hnil)]
      omega

/-- The components `cs` behind a directory. -/
def under (dir : Bytes) (cs : List Bytes) : Bytes :=
  (if dir = [slash] then [] else dir) ++ cs.flatMap (slash :: ·)

/-- **The path of a directory's components and more** is written behind the directory. -/
theorem ofComponents_append {dir : Bytes} (habs : isAbsolute dir = true) (hclean : clean dir = dir)
    {cs : List Bytes} (hcs : cs ≠ []) : ofComponents true (components dir ++ cs) = under dir cs := by
  rw [clean, habs, ofComponents_true] at hclean
  rw [ofComponents_true, if_neg (by simp [hcs]), List.flatMap_append, under]
  congr 1
  by_cases hd : components dir = []
  · rw [if_pos hd] at hclean
    rw [hd, if_pos hclean.symm]
    rfl
  · rw [if_neg hd] at hclean
    have hroot : dir ≠ [slash] := by
      rintro rfl
      exact hd (by decide)
    rw [if_neg hroot, hclean]

/-! ### Paths that descend -/

/-- The path is relative and has no `..`. -/
structure Descends (p : Bytes) : Prop where
  relative : isAbsolute p = false
  no_above : above ∉ parts p

instance (p : Bytes) : Decidable (Descends p) :=
  decidable_of_iff (isAbsolute p = false ∧ above ∉ parts p)
    ⟨fun h => ⟨h.1, h.2⟩, fun h => ⟨h.relative, h.no_above⟩⟩

namespace Descends

/-- A path that goes down can be followed by another. -/
theorem append {p q : Bytes} (hp : Descends p) (hne : p ≠ []) (hq : above ∉ parts q) :
    Descends (p ++ slash :: q) := by
  refine ⟨by rw [isAbsolute_append hne, hp.relative], ?_⟩
  rw [parts_append, List.mem_append, not_or]
  exact ⟨hp.no_above, hq⟩

/-- Cleaning keeps to going down. -/
theorem clean {p : Bytes} (hp : Descends p) : Descends (clean p) := by
  rw [Path.clean, hp.relative, components_eq_names hp.no_above]
  have hnames : ∀ c ∈ names p, IsName c := fun c hc => isName_of_mem_names hp.no_above hc
  cases hn : names p with
  | nil => exact ⟨by decide, by decide⟩
  | cons c cs =>
      rw [hn] at hnames
      have hparts : parts (List.intercalate [slash] (c :: cs)) = c :: cs :=
        Bytes.split_intercalate (List.cons_ne_nil c cs) fun x hx => (hnames x hx).no_slash
      refine ⟨?_, ?_⟩
      · exact isAbsolute_intercalate fun x hx => ⟨(hnames x hx).ne_nil, (hnames x hx).no_slash⟩
      · change above ∉ parts (List.intercalate [slash] (c :: cs))
        rw [hparts]
        exact fun hm => (hnames _ hm).ne_above rfl

theorem join {p q : Bytes} (hp : Descends p) (hq : Descends q) : Descends (Path.join [p, q]) := by
  by_cases hpe : p = [] <;> by_cases hqe : q = []
  · subst hpe hqe
    exact ⟨by decide, by decide⟩
  · simpa [Path.join, hpe, hqe] using hq.clean
  · simpa [Path.join, hpe, hqe] using hp.clean
  · have := (hp.append hpe hq.no_above).clean
    simpa [Path.join, hpe, hqe, List.intercalate] using this

/-- What stands up to the last slash goes down. -/
theorem upToSlash {p : Bytes} (hp : Descends p) :
    Descends (p.reverse.dropWhile (· != slash)).reverse := by
  have hsplit : p = (p.reverse.dropWhile (· != slash)).reverse ++
      (p.reverse.takeWhile (· != slash)).reverse := by
    rw [← List.reverse_append, List.takeWhile_append_dropWhile, List.reverse_reverse]
  cases hd : p.reverse.dropWhile (· != slash) with
  | nil => exact ⟨rfl, by decide⟩
  | cons b u =>
      obtain rfl : b = slash := by
        have := List.head?_dropWhile_not (· != slash) p.reverse
        simpa [hd] using this
      rw [hd, List.reverse_cons, List.append_assoc, List.singleton_append] at hsplit
      have hrel := hp.relative
      have habove := hp.no_above
      rw [hsplit] at hrel habove
      rw [parts_append, List.mem_append, not_or] at habove
      refine ⟨?_, ?_⟩
      · rw [List.reverse_cons]
        cases hu : u.reverse with
        | nil => rw [hu] at hrel; cases hrel
        | cons b v => rw [hu] at hrel; exact hrel
      · rw [List.reverse_cons, parts_append, List.mem_append, not_or]
        exact ⟨habove.1, by decide⟩

/-- **The parent of a path that descends descends.** -/
theorem parent {p : Bytes} (hp : Descends p) : Descends (parent p) :=
  hp.upToSlash.clean

theorem clean_ne_nil {p : Bytes} (hp : Descends p) : Path.clean p ≠ [] := by
  rw [Path.clean, hp.relative, components_eq_names hp.no_above]
  cases hn : names p with
  | nil => decide
  | cons c cs =>
      have hc := (isName_of_mem_names hp.no_above (hn ▸ List.mem_cons_self)).ne_nil
      cases cs <;> simp [ofComponents, List.intercalate, hc]

theorem parent_ne_nil {p : Bytes} (hp : Descends p) : Path.parent p ≠ [] :=
  hp.upToSlash.clean_ne_nil

end Descends

/-! ### Paths within others -/

/-- The path is `dir`, or leads on from it. -/
def isWithin (dir path : Bytes) : Bool :=
  path == dir || (dir ++ [slash]).isPrefixOf path

/-- Within a directory is the directory itself, or what stands behind it and a slash. -/
theorem isWithin_iff {dir path : Bytes} :
    isWithin dir path = true ↔ path = dir ∨ ∃ rest, path = dir ++ slash :: rest := by
  rw [isWithin, Bool.or_eq_true, beq_iff_eq, List.isPrefixOf_iff_prefix]
  refine or_congr_right (exists_congr fun rest => ?_)
  rw [List.append_assoc, List.singleton_append, eq_comm]

/-- What is within begins with the directory. -/
theorem prefix_of_isWithin {dir path : Bytes} (h : isWithin dir path = true) : dir <+: path := by
  rcases isWithin_iff.1 h with rfl | ⟨rest, rfl⟩
  · exact List.prefix_rfl
  · exact List.prefix_append _ _

/-- Only a slash may follow the directory. -/
theorem isWithin_append {dir rest : Bytes} {b : UInt8} : isWithin dir (dir ++ b :: rest) = true ↔ b = slash := by
  simpa [isWithin] using eq_comm

end Path

end Restyle
