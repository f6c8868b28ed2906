import Mathlib.Data.List.Induction
import Restyle.Proofs.Files.Growth
import Restyle.Proofs.Path

/-!
# New files in new directories

A file is made in three steps: nothing is found at its path, the directories above it are made where they
are missing, and it is opened.  Between the first step and the last the disk has changed, and symbolic
links may lead a path to any place, so that nothing is found at first does not say by itself that nothing
is there to be emptied at last.

`ensureDirs_spec` bridges the gap: a directory that had to be made is empty, and if none had to be made
the disk is as it was.  From this,

* `openFile_ensureDirs`: the file is opened at a place that was free, the disk has only grown, and the
  path leads to what is written.
-/

namespace Restyle.Disk

open Files

variable {d d' : Disk} {log : Option Place}

/-! ### Names from the root -/

theorem above_concat (cs : List Bytes) {c : Bytes} (hc : Path.IsName c) :
    above (Path.ofComponents true (cs ++ [c])) = cs.flatMap (Path.slash :: ·) := by
  rw [Path.ofComponents_concat, above, Path.dropWhile_slash_concat _ hc,
    Path.dropWhile_reverse_concat _ hc.no_slash]
  simp

/-- A clean absolute path is walked from the root. -/
theorem locate_ofComponents_iff {cs : List Bytes} (hcs : ∀ c ∈ cs, Path.IsName c) {follow : Bool}
    {spot : Spot} : d.locate follow (Path.ofComponents true cs) = .ok spot ↔
      (0 ∉ Path.ofComponents true cs ∧ (Path.ofComponents true cs).length ≤ maxPath) ∧
        d.walk follow maxLinks [] cs = .ok spot := by
  have skip : ∀ rest, d.walk follow maxLinks [] ([] :: rest) = d.walk follow maxLinks [] rest :=
    fun _ => rfl
  rw [locate_eq_ok_iff rfl]
  by_cases hne : cs = []
  · subst hne
    rw [show Path.parts (Path.ofComponents true []) = [[], []] by decide, skip, skip]
  · rw [Path.parts_ofComponents hcs hne, skip]

theorem locate_root (d : Disk) :
    d.locate true (Path.ofComponents true []) = .ok (.taken [] .dir) :=
  (locate_ofComponents_iff (by simp)).2 ⟨by decide, rfl⟩

/-! ### The last name -/

/-- What is walked to is an entry of a directory. -/
theorem isEntry_of_walk {q : Place} (hq : d.get? q = some .dir) {c : Bytes} (hc : Path.IsName c)
    {follow : Bool} {links : Nat} {spot : Spot} (h : d.walk follow links q [c] = .ok spot) :
    IsEntry c := by
  refine ⟨hc.ne_nil, hc.ne_here, hc.ne_above, Nat.le_of_not_lt fun hlen => ?_⟩
  obtain ⟨jump, hwalk, -⟩ := exists_jump d follow links
  rw [hwalk, walkNames, hq] at h
  simp [hc.ne_nil, hc.ne_here, hc.ne_above, hlen] at h

/-- At a free name in a directory a path ends. -/
theorem walk_of_free {q : Place} (hq : d.get? q = some .dir) {c : Bytes} (hc : IsEntry c)
    (hn : d.get? (q ++ [c]) = none) (follow : Bool) (links : Nat) :
    d.walk follow links q [c] = .ok (.free q c false) :=
  (Ends.free (l := links) (r := []) hq hc hn rfl).walk_eq follow

/-- One who does not follow a symbolic link at the end comes to what has the last name. -/
theorem walk_of_taken {q : Place} (hq : d.get? q = some .dir) {c : Bytes} (hc : IsEntry c) {n : Node}
    (hn : d.get? (q ++ [c]) = some n) (links : Nat) :
    d.walk false links q [c] = .ok (.taken (q ++ [c]) n) := by
  obtain ⟨hhere, habove, hlen⟩ := isEntry_iff.1 hc
  obtain ⟨jump, hwalk, -⟩ := exists_jump d false links
  rw [hwalk, walkNames, hq]
  simp only [hn, if_neg hhere, if_neg habove, if_neg hlen]
  cases n with
  | link target => rfl
  | file | dir | null | full => simp only [walkNames, hn]

/-! ### Directories -/

/-- Making a directory looks for its name in the one above it. -/
theorem mkdir_concat (cs : List Bytes) {c : Bytes} (hc : Path.IsName c) :
    d.mkdir (Path.ofComponents true (cs ++ [c])) =
      match d.locate false (Path.ofComponents true (cs ++ [c])) with
      | .ok (.free dir name _) => .ok (d.put (dir ++ [name]) .dir)
      | .ok (.taken ..) => .error ⟨"mkdir", Path.ofComponents true (cs ++ [c]), .alreadyExists⟩
      | .error e => .error ⟨"mkdir", Path.ofComponents true (cs ++ [c]), e⟩ := by
  have hbare : ((Path.ofComponents true (cs ++ [c])).reverse.dropWhile (· == Path.slash)).reverse =
      Path.ofComponents true (cs ++ [c]) := by
    rw [Path.ofComponents_concat, Path.dropWhile_slash_concat _ hc, List.reverse_reverse]
  cases hloc : d.locate false (Path.ofComponents true (cs ++ [c])) with
  | error e => simp only [mkdir, hbare, ite_self, hloc]
  | ok spot => cases spot <;> simp only [mkdir, hbare, ite_self, hloc]

/-- **One directory more, or none.**  If the directories above lead to the directory `q`, either the last
name is there already, and the disk stays as it is, or it is free and becomes a directory. -/
theorem ensureDir_spec {cs : List Bytes} {c : Bytes} (hcs : ∀ x ∈ cs ++ [c], Path.IsName x) {k : Nat}
    {q : Place} (hl : Leads d ⟨maxLinks, [], cs⟩ ⟨k, q, []⟩) (hq : d.get? q = some .dir)
    {made : Except Failure Unit}
    (h : d.ensureDir (Path.ofComponents true (cs ++ [c])) = (d', made)) :
    d' = d ∧ (made = .ok () → IsEntry c ∧ d.get? (q ++ [c]) = some .dir) ∨
      IsEntry c ∧ d.get? (q ++ [c]) = none ∧ d' = d.put (q ++ [c]) .dir := by
  have hc : Path.IsName c := hcs c (by simp)
  have hspot : ∀ {spot}, d.locate false (Path.ofComponents true (cs ++ [c])) = .ok spot →
      IsEntry c ∧ (d.get? (q ++ [c]) = none ∧ spot = .free q c false ∨
        ∃ n, d.get? (q ++ [c]) = some n ∧ spot = .taken (q ++ [c]) n) := by
    intro spot hspot
    have hw := ((locate_ofComponents_iff hcs).1 hspot).2
    rw [hl.walk_append (List.cons_ne_nil c [])] at hw
    have he := isEntry_of_walk hq hc hw
    refine ⟨he, ?_⟩
    cases hn : d.get? (q ++ [c]) with
    | none => exact .inl ⟨rfl, Except.ok.inj (hw.symm.trans (walk_of_free hq he hn false k))⟩
    | some n => exact .inr ⟨n, rfl, Except.ok.inj (hw.symm.trans (walk_of_taken hq he hn k))⟩
  rw [ensureDir, mkdir_concat cs hc, lstat] at h
  cases hloc : d.locate false (Path.ofComponents true (cs ++ [c])) with
  | error e =>
      simp only [hloc] at h
      cases h
      exact .inl ⟨rfl, fun hmade => by cases hmade⟩
  | ok spot =>
      simp only [hloc] at h
      obtain ⟨he, ⟨hn, rfl⟩ | ⟨n, hn, rfl⟩⟩ := hspot hloc
      · cases h
        exact .inr ⟨he, hn, rfl⟩
      · cases n with
        | dir =>
            cases h
            exact .inl ⟨rfl, fun _ => ⟨he, hn⟩⟩
        | file | link | null | full =>
            cases h
            exact .inl ⟨rfl, fun hmade => by cases hmade⟩

/-- A failure to look at a path says so. -/
theorem op_of_stat {path : Bytes} {e : Failure} (h : d.stat path = .error e) : e.op = "stat" := by
  rw [stat] at h
  split at h <;> cases h <;> rfl

/-- Something is seen at a path if the path leads to it. -/
theorem stat_eq_ok_iff {path : Bytes} {n : Node} :
    d.stat path = .ok n ↔ ∃ q, d.locate true path = .ok (.taken q n) := by
  rw [stat]
  split <;> simp_all

/-- A file that is seen can be read. -/
theorem read_of_stat {path data : Bytes} (h : d.stat path = .ok (.file data)) : d.read path = .ok data := by
  obtain ⟨q, hq⟩ := stat_eq_ok_iff.1 h
  rw [read, hq]

/-- What can be read is there. -/
theorem exists_locate_of_read {path data : Bytes} (h : d.read path = .ok data) :
    ∃ q n, d.locate true path = .ok (.taken q n) := by
  rw [read] at h
  split at h
  · next hl => exact ⟨_, _, hl⟩
  · cases h
  · next hl => exact ⟨_, _, hl⟩
  · cases h
  · cases h

/-- No path leads on from a file. -/
theorem stat_behind_file {cs more : List Bytes} (hcs : ∀ c ∈ cs ++ more, Path.IsName c)
    (hmore : more ≠ []) {data : Bytes} (h : d.stat (Path.ofComponents true cs) = .ok (.file data)) :
    ∃ e, d.stat (Path.ofComponents true (cs ++ more)) = .error e := by
  obtain ⟨q, hq⟩ := stat_eq_ok_iff.1 h
  have hwalk := ((locate_ofComponents_iff fun c hc => hcs c (List.mem_append_left _ hc)).1 hq).2
  obtain ⟨t, ht, hend⟩ := walk_eq_ok_iff (s := ⟨maxLinks, [], cs⟩).1 hwalk
  cases hstat : d.stat (Path.ofComponents true (cs ++ more)) with
  | error e => exact ⟨e, rfl⟩
  | ok n =>
      obtain ⟨q', hq'⟩ := stat_eq_ok_iff.1 hstat
      have hwalk' := ((locate_ofComponents_iff hcs).1 hq').2
      rw [ht.walk_append hmore] at hwalk'
      obtain ⟨c, rest, rfl⟩ := List.exists_cons_of_ne_nil hmore
      obtain ⟨jump, hjump, -⟩ := exists_jump d true t.links
      cases hend with
      | taken hfile =>
          rw [List.nil_append, hjump, walkNames, hfile] at hwalk'
          cases hwalk'

/-- The root is not a file. -/
theorem components_ne_nil {path data : Bytes} (habs : Path.isAbsolute path = true)
    (hclean : Path.clean path = path) (h : d.stat path = .ok (.file data)) : Path.components path ≠ [] := by
  intro hnil
  have hpath : path = Path.ofComponents true [] := by rw [← hclean, Path.clean, habs, hnil]
  obtain ⟨q, hq⟩ := stat_eq_ok_iff.1 h
  rw [hpath, locate_root] at hq
  cases hq

/-- The names lead to a directory of `d'`, which is empty unless `d'` is still the disk `d`. -/
def Ready (d d' : Disk) (cs : List Bytes) : Prop :=
  ∃ k q, Leads d' ⟨maxLinks, [], cs⟩ ⟨k, q, []⟩ ∧ d'.get? q = some .dir ∧
    (d' = d ∨ ∀ name, d'.get? (q ++ [name]) = none)

/-- Where the directories above are ready, so is one more. -/
theorem Ready.ensureDir {d₁ : Disk} {cs : List Bytes} (hr : Ready d d₁ cs) (hg : Grows log d d₁)
    (ht : d.IsTree) {c : Bytes} (hcs : ∀ x ∈ cs ++ [c], Path.IsName x) {made : Except Failure Unit}
    (h : d₁.ensureDir (Path.ofComponents true (cs ++ [c])) = (d', made)) :
    Grows log d d' ∧ (made = .ok () → Ready d d' (cs ++ [c])) := by
  obtain ⟨k, q, hl, hq, hnew⟩ := hr
  rcases ensureDir_spec hcs hl hq h with ⟨rfl, hthere⟩ | ⟨he, hn, rfl⟩
  · refine ⟨hg, fun hmade => ?_⟩
    obtain ⟨he, hn⟩ := hthere hmade
    refine ⟨k, q ++ [c], (hl.append [c]).tail (.down hq he hn (by simp)), hn, ?_⟩
    -- an empty directory does not hold the last name
    exact hnew.imp_right fun hempty => by simp [hempty c] at hn
  · have hput : ∀ p, (d₁.put (q ++ [c]) .dir).get? p =
        if p = q ++ [c] then some .dir else d₁.get? p := get?_put (by simp) d₁ .dir
    have hadd : Grows log d₁ (d₁.put (q ++ [c]) .dir) :=
      .add hq hn fun p hp => by rw [hput, if_neg hp]
    refine ⟨hg.trans hadd, fun _ => ⟨k, q ++ [c], ?_, by rw [hput, if_pos rfl], .inr ?_⟩⟩
    · exact ((hadd.leads hl).append [c]).tail
        (.down (hadd.get?_eq_of_not_file hq (by simp)) he (by rw [hput, if_pos rfl]) (by simp))
    · intro name
      rw [hput, if_neg (by simp)]
      exact (hg.isTree ht).get?_below (by simp [hn]) name

/-- **Directories that are made are empty.**  When the directories of a path have been made, it leads to
a directory; that one is empty, or the disk is as it was.  The disk grows even when they cannot all be
made. -/
theorem ensureDirs_spec (log : Option Place) {cs : List Bytes} (hcs : ∀ c ∈ cs, Path.IsName c) (ht : d.IsTree)
    {made : Except Failure Unit} (h : d.ensureDirs (Path.ofComponents true cs) = (d', made)) :
    Grows log d d' ∧ (made = .ok () → Ready d d' cs) := by
  induction cs using List.reverseRecOn generalizing d' made with
  | nil =>
      rw [ensureDirs, stat, locate_root] at h
      cases h
      exact ⟨.refl log d, fun _ => ⟨_, _, .refl, rfl, .inl rfl⟩⟩
  | append_singleton cs c ih =>
      have hcs' : ∀ x ∈ cs, Path.IsName x := fun x hx => hcs x (by simp [hx])
      have hpath : Path.ofComponents true (cs ++ [c]) ≠ [] := List.cons_ne_nil _ _
      rw [ensureDirs] at h
      split at h
      · next hstat =>
          cases h
          obtain ⟨q, hq⟩ := stat_eq_ok_iff.1 hstat
          have hw := ((locate_ofComponents_iff hcs).1 hq).2
          obtain ⟨t, ht, he⟩ := walk_eq_ok_iff (s := ⟨maxLinks, [], cs ++ [c]⟩).1 hw
          cases he with
          | taken hn => exact ⟨.refl log d, fun _ => ⟨_, q, ht, hn, .inl rfl⟩⟩
      · cases h
        exact ⟨.refl log d, fun hmade => by cases hmade⟩
      · simp only [dif_neg hpath, above_concat cs (hcs c (by simp))] at h
        split at h
        · next hnil =>
            -- there is only the root above
            obtain rfl : cs = [] := List.eq_nil_iff_forall_not_mem.2 (by simpa using hnil)
            exact Ready.ensureDir ⟨_, _, .refl, rfl, .inl rfl⟩ (.refl log d) ht hcs h
        · next hne =>
            have hflat : cs.flatMap (Path.slash :: ·) = Path.ofComponents true cs := by
              rw [Path.ofComponents_true, if_neg (by rintro rfl; simp at hne)]
            rw [hflat] at h
            split at h
            · next d₁ e hdirs =>
                cases h
                exact ⟨(ih hcs' hdirs).1, fun hmade => by cases hmade⟩
            · next d₁ hdirs =>
                obtain ⟨hg, hr⟩ := ih hcs' hdirs
                exact (hr rfl).ensureDir hg ht hcs h

/-! ### Files -/

/-- Making directories brings nothing to a path that led nowhere. -/
theorem Ready.not_taken {d₁ : Disk} {cs : List Bytes} (hr : Ready d d₁ cs) {c : Bytes}
    (hcs : ∀ x ∈ cs ++ [c], Path.IsName x)
    (hstat : ∀ n, d.stat (Path.ofComponents true (cs ++ [c])) ≠ .ok n) (p : Place) (n : Node) :
    d₁.locate true (Path.ofComponents true (cs ++ [c])) ≠ .ok (.taken p n) := by
  intro hloc
  obtain ⟨k, q, hl, hq, rfl | hempty⟩ := hr
  · exact hstat n (stat_eq_ok_iff.2 ⟨p, hloc⟩)
  · have hw := ((locate_ofComponents_iff hcs).1 hloc).2
    rw [hl.walk_append (List.cons_ne_nil c [])] at hw
    have he := isEntry_of_walk hq (hcs c (by simp)) hw
    cases hw.symm.trans (walk_of_free hq he (hempty c) true k)

/-- A free path leads to a directory that has no such entry. -/
theorem exists_leads_of_free {path : Bytes} (habs : Path.isAbsolute path = true) {dir : Place}
    {name : Bytes} (h : d.locate true path = .ok (.free dir name false)) :
    (0 ∉ path ∧ path.length ≤ maxPath) ∧ d.get? dir = some .dir ∧ IsEntry name ∧
      d.get? (dir ++ [name]) = none ∧
      ∃ k, Leads d ⟨maxLinks, [], Path.parts path⟩ ⟨k, dir, [name]⟩ := by
  obtain ⟨hpath, hw⟩ := (locate_eq_ok_iff habs).1 h
  obtain ⟨t, ht, he⟩ := walk_eq_ok_iff (s := ⟨maxLinks, [], Path.parts path⟩).1 hw
  generalize hspot : Spot.free dir name false = spot at he
  cases he with
  | taken => cases hspot
  | @free k p c r hp hc hn _ =>
      obtain ⟨rfl, rfl, hr⟩ := Spot.free.inj hspot
      obtain rfl : r = [] := by simpa using hr.symm
      exact ⟨hpath, hp, hc, hn, k, ht⟩

/-- A new file at the free name to which a path leads. -/
theorem extend_put_free (log : Option Place) {path : Bytes} (habs : Path.isAbsolute path = true)
    {dir : Place} {name : Bytes} (h : d.locate true path = .ok (.free dir name false)) (data : Bytes) :
    ∃ d', (d.put (dir ++ [name]) (.file [])).extend (dir ++ [name]) data = .ok d' ∧ Grows log d d' ∧
      d'.locate true path = .ok (.taken (dir ++ [name]) (.file data)) := by
  obtain ⟨hpath, hdir, hname, hfree, k, hl⟩ := exists_leads_of_free habs h
  have hput : ∀ (d : Disk) n q, (d.put (dir ++ [name]) n).get? q =
      if q = dir ++ [name] then some n else d.get? q := get?_put (by simp)
  let d' := (d.put (dir ++ [name]) (.file [])).put (dir ++ [name]) (.file data)
  have hthere : d'.get? (dir ++ [name]) = some (.file data) := by rw [hput, if_pos rfl]
  have hg : Grows log d d' :=
    .add hdir hfree fun q hq => by rw [hput, if_neg hq, hput, if_neg hq]
  refine ⟨d', ?_, hg, ?_⟩
  · rw [extend, hput, if_pos rfl]
    rfl
  · have hdown : Moves d' ⟨k, dir, [name]⟩ ⟨k, dir ++ [name], []⟩ :=
      .down (hg.get?_eq_of_not_file hdir (by simp)) hname hthere (by simp)
    exact (locate_eq_ok_iff habs).2
      ⟨hpath, walk_eq_ok_iff.2 ⟨_, (hg.leads hl).tail hdown, .taken hthere⟩⟩

/-- **A file is opened where there was nothing.**  If a path leads nowhere, the directories above it have
been made and it is opened, this is at a place that was free; data can be written there, and then the disk
has grown and the path leads to the data. -/
theorem openFile_ensureDirs (log : Option Place) {cs : List Bytes} (hcs : ∀ c ∈ cs, Path.IsName c) (ht : d.IsTree)
    (hstat : ∀ n, d.stat (Path.ofComponents true cs) ≠ .ok n) {d₁ d₂ : Disk} {p : Place}
    (hdirs : d.ensureDirs (Path.parent (Path.ofComponents true cs)) = (d₁, .ok ()))
    (hopen : d₁.openFile false (Path.ofComponents true cs) = .ok (d₂, p)) (data : Bytes) :
    ∃ d₃, d₂.extend p data = .ok d₃ ∧ Grows log d d₃ ∧ d.get? p = none ∧
      d₃.locate true (Path.ofComponents true cs) = .ok (.taken p (.file data)) := by
  rcases List.eq_nil_or_concat cs with rfl | ⟨cs, c, rfl⟩
  · exact absurd (stat_eq_ok_iff.2 ⟨_, locate_root d⟩) (hstat _)
  · rw [List.concat_eq_append] at *
    have hcs' : ∀ x ∈ cs, Path.IsName x := fun x hx => hcs x (by simp [hx])
    rw [Path.parent_concat hcs' (hcs c (by simp))] at hdirs
    obtain ⟨hg, hr⟩ := ensureDirs_spec log hcs' ht hdirs
    have hnot := (hr rfl).not_taken hcs hstat
    rw [openFile] at hopen
    split at hopen
    · next hloc => exact absurd hloc (hnot _ _)
    · cases hopen
    · next hloc => exact absurd hloc (hnot _ _)
    · next dir name slash hloc =>
        split at hopen
        · cases hopen
        · next hslash =>
            obtain rfl : slash = false := by simpa using hslash
            cases hopen
            obtain ⟨d₃, hext, hg', hl⟩ := extend_put_free log rfl hloc data
            refine ⟨d₃, hext, hg.trans hg', ?_, hl⟩
            exact hg.get?_eq_none (exists_leads_of_free rfl hloc).2.2.2.1
    · cases hopen

end Restyle.Disk
