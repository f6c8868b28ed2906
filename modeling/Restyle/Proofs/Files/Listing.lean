import Mathlib.Data.List.Nodup
import Restyle.Proofs.Files.Creation
import Restyle.Proofs.Order

/-!
# What is below a directory

A disk is *proper* when it is a tree, every place is taken once, and all names can be written in a path
(`Proper`).  From the path of a directory such a disk can be gone down by names alone, without meeting a
symbolic link.

A disk is *later* than another when only a log has been added to (`Later`).  The same names are then in
every directory, and all paths lead to where they led.

* `locate_below`: what is below a directory is found by its path, unless that is too long.
* `entries_later`: on a later disk a directory has the same entries.
-/

namespace Restyle

open Files

/-- The kind is that of a node, or both are files. -/
def Files.Kind.Fits (kind : Kind) (n : Node) : Prop :=
  kind = n.kind ∨ ∃ size data, kind = .file size ∧ n = .file data

namespace Disk

variable {d d' d'' : Disk} {log : Option Place}

/-! ### Later disks -/

/-- Only the log has been added to, and the same places are taken. -/
structure Later (log : Option Place) (d d' : Disk) : Prop where
  appended : Appended log d d'
  places : d'.nodes.map Prod.fst = d.nodes.map Prod.fst

theorem Later.refl (log : Option Place) (d : Disk) : Later log d d :=
  ⟨.refl log d, rfl⟩

theorem Later.trans (h : Later log d d') (h' : Later log d' d'') : Later log d d'' :=
  ⟨h.appended.trans h'.appended, h'.places.trans h.places⟩

/-- Replacing a node adds no place. -/
theorem places_put {p : Place} {n n' : Node} (hp : p ≠ []) (hn : d.get? p = some n) :
    (d.put p n').nodes.map Prod.fst = d.nodes.map Prod.fst := by
  rw [get?_of_ne_nil hp] at hn
  rw [put, hn]
  change (d.nodes.map _).map Prod.fst = _
  rw [List.map_map]
  refine List.map_congr_left fun e _ => ?_
  dsimp only [Function.comp]
  split <;> rfl

theorem places_extend {p : Place} {data : Bytes} (h : d.extend p data = .ok d') :
    d'.nodes.map Prod.fst = d.nodes.map Prod.fst := by
  rw [Disk.extend] at h
  split at h
  · next old hold =>
      cases h
      refine places_put ?_ hold
      rintro rfl
      cases hold
  · cases h
  · cases h
    rfl

/-! ### Proper disks -/

/-- A tree whose nodes have proper names, no two of them in one place. -/
structure Proper (d : Disk) : Prop where
  isTree : d.IsTree
  nodup : (d.nodes.map Prod.fst).Nodup
  names : ∀ e ∈ d.nodes, ∀ c ∈ e.1, Path.IsName c ∧ c.length ≤ maxName ∧ 0 ∉ c

instance (c : Bytes) : Decidable (Path.IsName c) :=
  decidable_of_iff (c ≠ [] ∧ c ≠ Path.here ∧ c ≠ Path.above ∧ Path.slash ∉ c)
    ⟨fun h => ⟨h.1, h.2.1, h.2.2.1, h.2.2.2⟩, fun h => ⟨h.ne_nil, h.ne_here, h.ne_above, h.no_slash⟩⟩

instance (d : Disk) : Decidable d.Proper :=
  decidable_of_iff (d.IsTree ∧ (d.nodes.map Prod.fst).Nodup ∧
      ∀ e ∈ d.nodes, ∀ c ∈ e.1, Path.IsName c ∧ c.length ≤ maxName ∧ 0 ∉ c)
    ⟨fun h => ⟨h.1, h.2.1, h.2.2⟩, fun h => ⟨h.isTree, h.nodup, h.names⟩⟩

/-- What is there has a proper name. -/
theorem Proper.of_get? (h : d.Proper) {p : Place} {n : Node} (hn : d.get? p = some n) :
    ∀ c ∈ p, Path.IsName c ∧ c.length ≤ maxName ∧ 0 ∉ c := by
  by_cases hp : p = []
  · subst hp
    simp
  · rw [get?_of_ne_nil hp] at hn
    obtain ⟨before, after, hnodes, -⟩ := List.lookup_eq_some_iff.1 hn
    exact h.names (p, n) (by simp [hnodes])

/-- Above anything there is a directory. -/
theorem IsTree.get?_above (h : d.IsTree) {p more : Place} (hmore : more ≠ []) {n : Node}
    (hn : d.get? (p ++ more) = some n) : d.get? p = some .dir := by
  induction more using List.reverseRecOn generalizing n with
  | nil => exact absurd rfl hmore
  | append_singleton more c ih =>
      rw [← List.append_assoc] at hn
      have hdir := h _ _ _ hn
      by_cases hnil : more = []
      · rwa [hnil, List.append_nil] at hdir
      · exact ih hnil hdir

/-- The names of a directory are those of what is in it. -/
theorem mem_names {p : Place} {name : Bytes} :
    name ∈ d.names p ↔ ∃ n, d.get? (p ++ [name]) = some n := by
  rw [names, List.mem_mergeSort, List.mem_filterMap, get?_of_ne_nil (by simp),
    ← Option.isSome_iff_exists, List.lookup_isSome_iff]
  constructor
  · rintro ⟨⟨q, n⟩, hq, hname⟩
    dsimp only at hname
    split at hname
    · next hdir =>
        refine ⟨(q, n), hq, ?_⟩
        rw [← beq_iff_eq.1 hdir, List.dropLast_append_getLast? name hname]
        exact BEq.rfl
    · cases hname
  · rintro ⟨⟨q, n⟩, hq, hname⟩
    obtain rfl := beq_iff_eq.1 hname
    exact ⟨(p ++ [name], n), hq, by simp⟩

/-- Names depend on places only, and are sorted. -/
theorem names_eq (d : Disk) (p : Place) : d.names p = ((d.nodes.map Prod.fst).filterMap fun q =>
    if q.dropLast == p then q.getLast? else none).mergeSort
      fun a b => Natural.compareBytes a b != .gt := by
  rw [names, List.filterMap_map]
  rfl

/-- No name is listed twice. -/
theorem Proper.nodup_names (h : d.Proper) (p : Place) : (d.names p).Nodup := by
  rw [names_eq, (List.mergeSort_perm _ _).nodup_iff]
  refine h.nodup.filterMap fun q q' name hq hq' => ?_
  simp only [Option.mem_def, Option.ite_none_right_eq_some, beq_iff_eq] at hq hq'
  rw [← List.dropLast_append_getLast? name hq.2, ← List.dropLast_append_getLast? name hq'.2, hq.1, hq'.1]

/-- The names in a directory stand in the order of their bytes, each once. -/
theorem Proper.sorted_names (h : d.Proper) (p : Place) : (d.names p).Pairwise (· < ·) := by
  have hle : ∀ a b : Bytes, (Natural.compareBytes a b != .gt) = true ↔ a ≤ b := by
    intro a b
    rw [bne_iff_ne, Ne, Natural.compareBytes_eq_gt_iff, List.not_lt]
  have hsorted : (d.names p).Pairwise fun a b => (Natural.compareBytes a b != .gt) = true := by
    refine List.pairwise_mergeSort ?_ ?_ _
    · intro a b c hab hbc
      exact (hle a c).2 (List.le_trans ((hle a b).1 hab) ((hle b c).1 hbc))
    · intro a b
      simpa only [Bool.or_eq_true, hle] using List.le_total a b
  refine hsorted.imp₂ (fun a b hab hne => ?_) (h.nodup_names p)
  rw [← Decidable.not_not (p := a < b), List.not_lt]
  exact fun hba => hne (List.le_antisymm ((hle a b).1 hab) hba)

/-- A directory lists the same names later. -/
theorem Later.names_eq (h : Later log d d') (p : Place) : d'.names p = d.names p := by
  rw [Disk.names_eq, Disk.names_eq, h.places]

/-! ### Paths downwards -/

/-- From a directory names lead down to what has them, if that is no link. -/
theorem Proper.leads (h : d.Proper) {l : Nat} {q : Place} {cs : List Bytes} {n : Node}
    (hn : d.get? (q ++ cs) = some n) (hlink : ∀ target, n ≠ .link target) :
    Leads d ⟨l, q, cs⟩ ⟨l, q ++ cs, []⟩ := by
  induction cs generalizing q with
  | nil =>
      rw [List.append_nil]
  | cons c cs ih =>
      rw [List.append_cons] at hn ⊢
      have hq : d.get? q = some .dir := h.isTree.get?_above (List.cons_ne_nil c cs) (by simpa using hn)
      have hc : IsEntry c := by
        obtain ⟨hname, hlen, -⟩ := h.of_get? hn c (by simp)
        exact ⟨hname.ne_nil, hname.ne_here, hname.ne_above, hlen⟩
      obtain ⟨n', hn', hlink'⟩ : ∃ n', d.get? (q ++ [c]) = some n' ∧ ∀ target, n' ≠ .link target := by
        by_cases hcs : cs = []
        · subst hcs
          exact ⟨n, by simpa using hn, hlink⟩
        · exact ⟨.dir, h.isTree.get?_above hcs hn, by simp⟩
      exact .head (.down hq hc hn' hlink') (ih hn)

/-- The path of what is below a directory. -/
def pathBelow (dir : Bytes) (cs : List Bytes) : Bytes :=
  Path.ofComponents true (Path.components dir ++ cs)

section

variable {dir : Bytes} {q : Place}

/-- The path leads to the directory at a place. -/
structure LeadsTo (d : Disk) (dir : Bytes) (q : Place) : Prop where
  absolute : Path.isAbsolute dir = true
  clean : Path.clean dir = dir
  located : d.locate true dir = .ok (.taken q .dir)

theorem LeadsTo.pathBelow_nil (h : d.LeadsTo dir q) : pathBelow dir [] = dir := by
  rw [pathBelow, List.append_nil, ← h.absolute]
  exact h.clean

/-- Components below a directory are names. -/
theorem LeadsTo.isName (h : d.LeadsTo dir q) (hd : d.Proper) {cs : List Bytes} {n : Node}
    (hn : d.get? (q ++ cs) = some n) : ∀ c ∈ Path.components dir ++ cs, Path.IsName c := by
  intro c hc
  rcases List.mem_append.1 hc with hc | hc
  · exact Path.isName_of_mem_components h.absolute hc
  · exact (hd.of_get? hn c (List.mem_append_right q hc)).1

theorem zero_not_mem_pathBelow (h : d.LeadsTo dir q) (hd : d.Proper) {cs : List Bytes} {n : Node}
    (hn : d.get? (q ++ cs) = some n) : 0 ∉ pathBelow dir cs := by
  have hdir : ∀ c ∈ Path.components dir, 0 ∉ c := by
    intro c hc hzero
    have hlocated := h.located
    rw [← h.pathBelow_nil, pathBelow, List.append_nil] at hlocated
    refine ((locate_eq_ok_iff rfl).1 hlocated).1.1 ?_
    rw [Path.ofComponents_true, if_neg (List.ne_nil_of_mem hc)]
    exact List.mem_flatMap.2 ⟨c, hc, List.mem_cons_of_mem _ hzero⟩
  rw [pathBelow, Path.ofComponents_true]
  split
  · decide
  · intro hzero
    obtain ⟨c, hc, hzero⟩ := List.mem_flatMap.1 hzero
    have hzero : 0 ∈ c := (List.mem_cons.1 hzero).resolve_left (by decide)
    rcases List.mem_append.1 hc with hc | hc
    · exact hdir c hc hzero
    · exact (hd.of_get? hn c (List.mem_append_right q hc)).2.2 hzero

/-- **What is below a directory is found** by its path. -/
theorem locate_below (h : d.LeadsTo dir q) (hd : d.Proper) {cs : List Bytes} {n : Node}
    (hn : d.get? (q ++ cs) = some n) (hlink : ∀ target, n ≠ .link target)
    (hlen : (pathBelow dir cs).length ≤ maxPath) :
    d.locate true (pathBelow dir cs) = .ok (.taken (q ++ cs) n) := by
  refine (locate_ofComponents_iff (h.isName hd hn)).2 ⟨⟨zero_not_mem_pathBelow h hd hn, hlen⟩, ?_⟩
  have hlocated := h.located
  rw [← h.pathBelow_nil, pathBelow, List.append_nil] at hlocated
  have hdirs : ∀ c ∈ Path.components dir, Path.IsName c :=
    fun c hc => Path.isName_of_mem_components h.absolute hc
  obtain ⟨t, ht, hend⟩ := walk_eq_ok_iff (s := ⟨maxLinks, [], Path.components dir⟩).1
    ((locate_ofComponents_iff hdirs).1 hlocated).2
  cases hend with
  | taken hq =>
      exact walk_eq_ok_iff (s := ⟨maxLinks, [], Path.components dir ++ cs⟩).2
        ⟨_, (ht.append cs).trans (hd.leads hn hlink), .taken hn⟩

/-- A path that is too long leads nowhere. -/
theorem locate_too_long (h : d.LeadsTo dir q) (hd : d.Proper) {cs : List Bytes} {n : Node}
    (hn : d.get? (q ++ cs) = some n) (hlen : maxPath < (pathBelow dir cs).length) (d' : Disk) :
    d'.locate true (pathBelow dir cs) = .error .nameTooLong := by
  have hne : (pathBelow dir cs).isEmpty = false := rfl
  rw [locate, if_neg (by simpa using zero_not_mem_pathBelow h hd hn), hne, if_pos hlen]
  rfl

end

/-! ### One name more -/

/-- How long a path below a directory is. -/
theorem length_pathBelow (dir : Bytes) (cs : List Bytes) :
    (pathBelow dir cs).length =
      max 1 ((Path.components dir ++ cs).flatMap (Path.slash :: ·)).length := by
  rw [pathBelow, Path.ofComponents_true]
  split
  · next hnil => rw [hnil]; rfl
  · next hne =>
      obtain ⟨c, cs', hcs⟩ := List.exists_cons_of_ne_nil hne
      rw [hcs, List.flatMap_cons, List.length_append, List.length_cons]
      omega

theorem length_pathBelow_le (dir : Bytes) (cs more : List Bytes) :
    (pathBelow dir cs).length ≤ (pathBelow dir (cs ++ more)).length := by
  simp only [length_pathBelow, List.flatMap_append, List.length_append]
  omega

/-- A path gets longer with every name. -/
theorem length_pathBelow_lt (dir : Bytes) (cs : List Bytes) {c : Bytes} (hc : c ≠ []) :
    (pathBelow dir cs).length < (pathBelow dir (cs ++ [c])).length := by
  have hlen : 0 < c.length := List.length_pos_iff.2 hc
  simp only [length_pathBelow, List.flatMap_append, List.length_append, List.flatMap_singleton,
    List.length_cons]
  omega

/-- A path is joined by adding a name. -/
theorem join_pathBelow {dir : Bytes} {cs : List Bytes} {c : Bytes}
    (hcs : ∀ x ∈ Path.components dir ++ cs, Path.IsName x) (hc : Path.IsName c) :
    Path.join [pathBelow dir cs, c] = pathBelow dir (cs ++ [c]) := by
  have hne : pathBelow dir cs ≠ [] := List.cons_ne_nil _ _
  have habove : Path.above ∉ Path.parts c := by
    rw [Path.parts, Bytes.split_of_not_mem hc.no_slash, List.mem_singleton]
    exact hc.ne_above.symm
  have hjoin : Path.join [pathBelow dir cs, c] = Path.clean (pathBelow dir cs ++ Path.slash :: c) := by
    simp [Path.join, hne, hc.ne_nil, List.intercalate]
  rw [hjoin, Path.clean, Path.isAbsolute_append hne, Path.components_append hne habove,
    Path.names_of_isName hc, pathBelow, Path.components_ofComponents hcs, List.append_assoc]
  rfl

/-- Different names give different paths. -/
theorem pathBelow_inj {dir : Bytes} {cs cs' : List Bytes}
    (hcs : ∀ x ∈ Path.components dir ++ cs, Path.IsName x)
    (hcs' : ∀ x ∈ Path.components dir ++ cs', Path.IsName x) (h : pathBelow dir cs = pathBelow dir cs') :
    cs = cs' := by
  have hcomponents := congrArg Path.components h
  rw [pathBelow, pathBelow, Path.components_ofComponents hcs, Path.components_ofComponents hcs'] at hcomponents
  exact List.append_cancel_left hcomponents

/-! ### Listing on a later disk -/

section

variable {dir : Bytes} {q : Place}

/-- A node of a later disk is what it was, or a file as it was. -/
theorem Later.exists_get? (h : Later log d d') {p : Place} {n : Node} (hn : d.get? p = some n) :
    ∃ n', d'.get? p = some n' ∧ n'.kind.Fits n := by
  rcases h.appended p with heq | ⟨-, old, more, hold, hmore⟩
  · exact ⟨n, heq.trans hn, .inl rfl⟩
  · cases hn.symm.trans hold
    exact ⟨_, hmore, .inr ⟨_, old, rfl, rfl⟩⟩

/-- **A directory is listed** as it was, whatever was appended to the log. -/
theorem entries_later (hdir : d.LeadsTo dir q) (hd : d.Proper) (h : Later log d d') {cs : List Bytes}
    (hn : d.get? (q ++ cs) = some .dir) (hlen : (pathBelow dir cs).length ≤ maxPath) :
    ∃ es, d'.entries (pathBelow dir cs) = .ok es ∧ es.map Prod.fst = d.names (q ++ cs) ∧
      ∀ e ∈ es, ∃ n, d.get? (q ++ cs ++ [e.1]) = some n ∧ e.2.Fits n := by
  have hlocate : d'.locate true (pathBelow dir cs) = .ok (.taken (q ++ cs) .dir) := by
    obtain ⟨n', hn', hget⟩ := h.appended.grows.locate rfl (locate_below hdir hd hn (by simp) hlen)
    rw [h.appended.grows.get?_eq_of_not_file hn (by simp)] at hget
    cases hget
    exact hn'
  refine ⟨_, by rw [entries, hlocate], ?_, ?_⟩
  · rw [List.map_filterMap, h.names_eq]
    conv_rhs => rw [← List.filterMap_some (l := d.names (q ++ cs))]
    refine List.filterMap_congr fun name hname => ?_
    obtain ⟨n, hn⟩ := mem_names.1 hname
    obtain ⟨n', hn', -⟩ := h.exists_get? hn
    rw [hn']
    rfl
  · intro e he
    obtain ⟨name, hname, hentry⟩ := List.mem_filterMap.1 he
    rw [h.names_eq] at hname
    obtain ⟨n, hn⟩ := mem_names.1 hname
    obtain ⟨n', hn', hfits⟩ := h.exists_get? hn
    rw [hn'] at hentry
    cases hentry
    exact ⟨n, hn, hfits⟩

/-- The path is that of a file at or below `top` in a directory tree, and those of the directories that it
is in are not too long. -/
def Lists (d : Disk) (dir : Bytes) (q : Place) (top : List Bytes) (path : Bytes) : Prop :=
  ∃ more data, d.get? (q ++ (top ++ more)) = some (.file data) ∧ path = pathBelow dir (top ++ more) ∧
    (more ≠ [] → (pathBelow dir (top ++ more).dropLast).length ≤ maxPath)

/-- Where the two paths part, the first has the lesser name. -/
def Precedes (dir path path' : Bytes) : Prop :=
  ∃ (top : List Bytes) (name name' : Bytes) (more more' : List Bytes), name < name' ∧
    path = pathBelow dir (top ++ name :: more) ∧ path' = pathBelow dir (top ++ name' :: more')

section

variable {top : List Bytes}

/-- A node that is neither file nor directory lists nothing. -/
theorem lists_leaf (hd : d.Proper) {n : Node} (hn : d.get? (q ++ top) = some n) (hdir : n ≠ .dir)
    (hfile : ∀ data, n ≠ .file data) (path : Bytes) : ¬ Lists d dir q top path := by
  rintro ⟨more, data, hdata, -, -⟩
  by_cases hmore : more = []
  · rw [hmore, List.append_nil, hn] at hdata
    cases hdata
    exact hfile _ rfl
  · rw [← List.append_assoc] at hdata
    cases (hd.isTree.get?_above hmore hdata).symm.trans hn
    exact hdir rfl

/-- A file lists itself. -/
theorem lists_file (hd : d.Proper) {data : Bytes} (hn : d.get? (q ++ top) = some (.file data))
    (path : Bytes) : Lists d dir q top path ↔ path = pathBelow dir top := by
  constructor
  · rintro ⟨more, data', hdata, rfl, -⟩
    by_cases hmore : more = []
    · rw [hmore, List.append_nil]
    · rw [← List.append_assoc] at hdata
      cases (hd.isTree.get?_above hmore hdata).symm.trans hn
  · rintro rfl
    exact ⟨[], data, by simpa using hn, by simp, fun h => absurd rfl h⟩

/-- A directory lists what its entries list. -/
theorem lists_dir (hd : d.Proper) (hn : d.get? (q ++ top) = some .dir)
    (hlen : (pathBelow dir top).length ≤ maxPath) (path : Bytes) :
    Lists d dir q top path ↔ ∃ name ∈ d.names (q ++ top), Lists d dir q (top ++ [name]) path := by
  constructor
  · rintro ⟨more, data, hdata, rfl, hmax⟩
    cases more with
    | nil =>
        rw [List.append_nil, hn] at hdata
        cases hdata
    | cons name more =>
        have hname : ∃ n, d.get? (q ++ top ++ [name]) = some n := by
          rw [List.append_cons, ← List.append_assoc, ← List.append_assoc] at hdata
          by_cases hmore : more = []
          · exact ⟨_, by simpa [hmore] using hdata⟩
          · exact ⟨_, hd.isTree.get?_above hmore hdata⟩
        rw [List.append_cons] at hdata hmax
        refine ⟨name, mem_names.2 hname, more, data, hdata, by rw [← List.append_cons], fun _ => ?_⟩
        exact hmax (List.cons_ne_nil _ _)
  · rintro ⟨name, -, more, data, hdata, rfl, hmax⟩
    refine ⟨name :: more, data, by rwa [List.append_cons], by rw [← List.append_cons], fun _ => ?_⟩
    rw [List.append_cons]
    by_cases hmore : more = []
    · simpa [hmore] using hlen
    · exact hmax hmore

/-- A directory whose path is too long lists nothing. -/
theorem lists_too_long (hn : d.get? (q ++ top) = some .dir)
    (hlen : maxPath < (pathBelow dir top).length) (path : Bytes) : ¬ Lists d dir q top path := by
  rintro ⟨more, data, hdata, -, hmax⟩
  by_cases hmore : more = []
  · rw [hmore, List.append_nil, hn] at hdata
    cases hdata
  · have hle := hmax hmore
    rw [List.dropLast_append_of_ne_nil hmore] at hle
    exact absurd (Nat.le_trans (length_pathBelow_le dir top more.dropLast) hle) (Nat.not_le.2 hlen)

end

/-- The path is that of a file below a directory, in directories whose paths are not too long. -/
def IsFileBelow (d : Disk) (dir : Bytes) (q : Place) (path : Bytes) : Prop :=
  ∃ cs data, d.get? (q ++ cs) = some (.file data) ∧ path = pathBelow dir cs ∧
    (pathBelow dir cs.dropLast).length ≤ maxPath

/-- **What is listed** is the files below the directory. -/
theorem lists_iff_isFileBelow (hq : d.get? q = some .dir) (path : Bytes) :
    d.Lists dir q [] path ↔ d.IsFileBelow dir q path := by
  constructor
  · rintro ⟨cs, data, hdata, rfl, hmax⟩
    have hne : cs ≠ [] := by
      rintro rfl
      simp only [List.append_nil] at hdata
      cases hq.symm.trans hdata
    exact ⟨cs, data, hdata, rfl, hmax hne⟩
  · rintro ⟨cs, data, hdata, rfl, hmax⟩
    exact ⟨cs, data, hdata, rfl, fun _ => hmax⟩

end

end Disk

end Restyle
