import Restyle.Proofs.Files.Creation

/-!
# Disks after a write

Writing changes files only: directories, symbolic links and devices are those that were there before
(`Rewrites`), so that a path leads to a directory after a write if it did before (`Rewrites.stat_dir_iff`).
Making directories leaves all others alone.

* `stat_of_ensureDirs`: directories that have been made are there.
* `ensureDirs_of_stat`: and are not made again.
-/

namespace Restyle.Disk

open Files

variable {d d' d'' : Disk} {path : Bytes}

/-! ### Paths -/

/-- A path leads to a node by a way of moves. -/
theorem locate_taken_iff {q : Place} {n : Node} : d.locate true path = .ok (.taken q n) ↔
    (path ≠ [] ∧ 0 ∉ path ∧ path.length ≤ maxPath) ∧ ∃ p ∈ d.origin? path,
      ∃ k, Leads d ⟨maxLinks, p, Path.parts path⟩ ⟨k, q, []⟩ ∧ d.get? q = some n := by
  rw [locate_eq_ok_iff_walk]
  refine and_congr_right fun _ => exists_congr fun p => and_congr_right fun _ => ?_
  constructor
  · intro hw
    obtain ⟨t, ht, he⟩ := walk_eq_ok_iff (s := ⟨maxLinks, p, Path.parts path⟩).1 hw
    cases he with
    | taken hn => exact ⟨_, ht, hn⟩
  · rintro ⟨k, hl, hn⟩
    exact walk_eq_ok_iff.2 ⟨_, hl, .taken hn⟩

/-- What is found without following a link at the end is found following it. -/
theorem locate_of_not_follow {spot : Spot} (h : d.locate false path = .ok spot)
    (hlink : ∀ q target, spot ≠ .taken q (.link target)) : d.locate true path = .ok spot := by
  rw [locate_eq_ok_iff_walk] at h ⊢
  obtain ⟨hpath, p, hp, hw⟩ := h
  exact ⟨hpath, p, hp, walk_of_not_follow hw hlink⟩

theorem walkNames_ne_invalid {follow : Bool} {jump : Place → List Bytes → Except Errno Spot}
    (hjump : ∀ place rest, jump place rest ≠ .error .invalid) (place : Place) (rest : List Bytes) :
    d.walkNames follow jump place rest ≠ .error .invalid := by
  fun_induction walkNames d follow jump place rest <;> simp_all

/-- A walk never complains about the form of a path. -/
theorem walk_ne_invalid (follow : Bool) (links : Nat) (place : Place) (rest : List Bytes) :
    d.walk follow links place rest ≠ .error .invalid := by
  induction links generalizing place rest with
  | zero => exact walkNames_ne_invalid (fun _ _ h => by cases h) place rest
  | succ links ih => exact walkNames_ne_invalid ih place rest

/-- A path is invalid for what is in it and not for what is on the disk. -/
theorem locate_eq_invalid_iff {follow : Bool} : d.locate follow path = .error .invalid ↔ 0 ∈ path := by
  rw [locate]
  by_cases hzero : 0 ∈ path
  · simp [hzero]
  · simp only [List.contains_eq_mem, hzero, decide_false, Bool.false_eq_true, if_false, iff_false]
    split
    · simp
    · split
      · simp
      · split
        · exact walk_ne_invalid _ _ _ _
        · split
          · exact walk_ne_invalid _ _ _ _
          · simp

/-- Only a null byte makes a path invalid. -/
theorem errno_of_stat {e : Failure} (h : d.stat path = .error e) : e.errno = .invalid ↔ 0 ∈ path := by
  have hinvalid : d.locate true path = .error .invalid ↔ 0 ∈ path := locate_eq_invalid_iff
  rw [← hinvalid]
  rw [stat] at h
  split at h
  · cases h
  · next hloc =>
      obtain rfl := Except.error.inj h
      simp [hloc]
  · next errno hloc =>
      obtain rfl := Except.error.inj h
      simp [hloc]

/-- **A path that leads to a directory still does** when directories and links are kept. -/
theorem KeepsTree.stat_dir (h : KeepsTree d d') (hwork : d'.workDir = d.workDir) (hstat : d.stat path = .ok .dir) :
    d'.stat path = .ok .dir := by
  obtain ⟨q, hq⟩ := stat_eq_ok_iff.1 hstat
  obtain ⟨hpath, p, hp, k, hl, hn⟩ := locate_taken_iff.1 hq
  refine stat_eq_ok_iff.2 ⟨q, locate_taken_iff.2 ⟨hpath, p, ?_, k, hl.kept_of_dir h hn, h _ _ hn (by simp)⟩⟩
  rwa [origin?, hwork]

/-! ### Writing -/

/-- Two disks that differ only in their files. -/
structure Rewrites (d d' : Disk) : Prop where
  tree : KeepsTree d d'
  files : KeepsFiles d d'
  back : KeepsTree d' d
  workDir : d'.workDir = d.workDir

namespace Rewrites

theorem refl (d : Disk) : Rewrites d d :=
  ⟨fun _ _ hn _ => hn, fun _ data hn => ⟨data, hn⟩, fun _ _ hn _ => hn, rfl⟩

theorem trans (h : Rewrites d d') (h' : Rewrites d' d'') : Rewrites d d'' where
  tree q n hn hfile := h'.tree q n (h.tree q n hn hfile) hfile
  files q data hn := by
    obtain ⟨data', hn'⟩ := h.files q data hn
    exact h'.files q data' hn'
  back q n hn hfile := h.back q n (h'.back q n hn hfile) hfile
  workDir := h'.workDir.trans h.workDir

/-- The same paths lead to directories. -/
theorem stat_dir_iff (h : Rewrites d d') : d'.stat path = .ok .dir ↔ d.stat path = .ok .dir :=
  ⟨h.back.stat_dir h.workDir.symm, h.tree.stat_dir h.workDir⟩

/-- A path that leads somewhere still does. -/
theorem exists_stat (h : Rewrites d d') {n : Node} (hstat : d.stat path = .ok n) : ∃ n', d'.stat path = .ok n' := by
  obtain ⟨q, hq⟩ := stat_eq_ok_iff.1 hstat
  obtain ⟨hpath, p, hp, k, hl, hn⟩ := locate_taken_iff.1 hq
  obtain ⟨n', hn'⟩ : ∃ n', d'.get? q = some n' := by
    cases n with
    | file data =>
        obtain ⟨data', hn'⟩ := h.files q data hn
        exact ⟨_, hn'⟩
    | dir | link | null | full => exact ⟨_, h.tree q _ hn (by simp)⟩
  refine ⟨n', stat_eq_ok_iff.2 ⟨q, locate_taken_iff.2 ⟨hpath, p, ?_, k, hl.kept h.tree h.files, hn'⟩⟩⟩
  rwa [origin?, h.workDir]

end Rewrites

theorem workDir_put (d : Disk) (p : Place) (n : Node) : (d.put p n).workDir = d.workDir := by
  unfold put
  split <;> rfl

/-- A file in the place of another, or where nothing was. -/
theorem Rewrites.put {p : Place} (hne : p ≠ []) (hold : ∀ n, d.get? p = some n → ∃ old, n = .file old)
    (data : Bytes) : Rewrites d (d.put p (.file data)) where
  tree q n hn hfile := by
    rw [get?_put hne, if_neg]
    · exact hn
    · rintro rfl
      obtain ⟨old, rfl⟩ := hold n hn
      exact hfile old rfl
  files q old hn := by
    rw [get?_put hne]
    split
    · exact ⟨data, rfl⟩
    · exact ⟨old, hn⟩
  back q n hn hfile := by
    rw [get?_put hne] at hn
    split at hn
    · obtain rfl := Option.some.inj hn
      exact absurd rfl (hfile data)
    · exact hn
  workDir := workDir_put d p _

theorem ne_nil_of_get? {p : Place} {data : Bytes} (h : d.get? p = some (.file data)) : p ≠ [] := by
  rintro rfl
  simp at h

/-- Only the content of a file is another one. -/
theorem Rewrites.file {p : Place} {old : Bytes} (hold : d.get? p = some (.file old)) (new : Bytes) :
    Rewrites d (d.put p (.file new)) :=
  .put (ne_nil_of_get? hold) (fun _ hn => ⟨old, Option.some.inj (hn.symm.trans hold)⟩) new

/-- Writing to the end of a file changes files only. -/
theorem Rewrites.extend {p : Place} {data : Bytes} (h : d.extend p data = .ok d') : Rewrites d d' := by
  rw [Disk.extend] at h
  split at h
  · next old hold =>
      obtain rfl := Except.ok.inj h
      exact .file hold _
  · cases h
  · obtain rfl := Except.ok.inj h
    exact .refl d

/-! ### One file -/

/-- Only what was put last stays, once a place is taken. -/
theorem put_put {p : Place} (hp : p ≠ []) {l : Node} (h : d.get? p = some l) (m n : Node) :
    (d.put p m).put p n = d.put p n := by
  have htaken : (d.nodes.lookup p).isSome := by
    rw [← get?_of_ne_nil hp, h]
    rfl
  have htaken' : ((d.put p m).nodes.lookup p).isSome := by
    rw [← get?_of_ne_nil hp, get?_put hp, if_pos rfl]
    rfl
  rw [put, if_pos htaken', put, if_pos htaken, put, if_pos htaken, List.map_map]
  congr 1
  refine List.map_congr_left fun e _ => ?_
  obtain ⟨q, k⟩ := e
  by_cases hq : q = p <;> simp [hq]

section File

variable {p : Place} {old : Bytes} (hold : d.get? p = some (.file old)) (new : Bytes)

include hold

/-- All paths lead to where they led, whatever is written to a file. -/
theorem locate_put_file {q : Place} {n : Node} (h : d.locate true path = .ok (.taken q n)) :
    (d.put p (.file new)).locate true path = .ok (.taken q (if q = p then .file new else n)) := by
  have hput := Rewrites.file hold new
  obtain ⟨hpath, start, hstart, k, hleads, hnode⟩ := locate_taken_iff.1 h
  refine locate_taken_iff.2 ⟨hpath, start, ?_, k, hleads.kept hput.tree hput.files, ?_⟩
  · rwa [origin?, hput.workDir]
  · rw [get?_put (ne_nil_of_get? hold), hnode]
    split <;> rfl

/-- **Writing to a file is seen by no path that does not lead to it.** -/
theorem stat_put_file_iff (hother : ∀ n, d.locate true path ≠ .ok (.taken p n)) {n : Node} :
    (d.put p (.file new)).stat path = .ok n ↔ d.stat path = .ok n := by
  have hkept : ∀ {n}, d.stat path = .ok n → (d.put p (.file new)).stat path = .ok n := by
    intro n hstat
    obtain ⟨q, hq⟩ := stat_eq_ok_iff.1 hstat
    have hne : q ≠ p := by
      rintro rfl
      exact hother n hq
    have hput := locate_put_file hold new hq
    rw [if_neg hne] at hput
    exact stat_eq_ok_iff.2 ⟨q, hput⟩
  refine ⟨fun hstat => ?_, hkept⟩
  have hput := Rewrites.file hold new
  -- files are there in both, so that the path leads to something on the disk before as well
  have hback : Rewrites (d.put p (.file new)) d := by
    refine ⟨hput.back, fun q data hq => ?_, hput.tree, hput.workDir.symm⟩
    rw [get?_put (ne_nil_of_get? hold)] at hq
    split at hq
    · next heq => exact ⟨old, heq ▸ hold⟩
    · exact ⟨data, hq⟩
  obtain ⟨n', hn'⟩ := hback.exists_stat hstat
  rw [hkept hn'] at hstat
  rwa [← Except.ok.inj hstat]

end File

/-- What is written from the beginning on hides as much of the old content. -/
theorem overlay_zero (old data : Bytes) : overlay old 0 data = data ++ old.drop data.length := by
  simp [overlay]

/-- Writing goes on behind what has been written. -/
theorem overlay_overlay (old s t : Bytes) : overlay (overlay old 0 s) s.length t = overlay old 0 (s ++ t) := by
  have hpad : (s ++ old.drop s.length).rightpad s.length 0 = s ++ old.drop s.length := by
    simp [List.rightpad]
  rw [overlay, overlay_zero, overlay_zero, hpad, List.take_left, List.drop_append, List.length_append]
  simp

/-! ### Files by their path -/

/-- Nothing is at a free spot. -/
theorem free_of_locate {dir : Place} {name : Bytes} {slash : Bool}
    (h : d.locate true path = .ok (.free dir name slash)) : d.get? (dir ++ [name]) = none := by
  obtain ⟨-, p, -, hw⟩ := locate_eq_ok_iff_walk.1 h
  obtain ⟨t, -, he⟩ := walk_eq_ok_iff (s := ⟨maxLinks, p, Path.parts path⟩).1 hw
  cases he with
  | free _ _ hn _ => exact hn

/-- Opening a file changes files only. -/
theorem Rewrites.openFile {keep : Bool} {p : Place} (h : d.openFile keep path = .ok (d', p)) : Rewrites d d' := by
  rw [Disk.openFile] at h
  split at h
  · next q old hloc =>
      obtain ⟨-, _, -, _, -, hold⟩ := locate_taken_iff.1 hloc
      obtain ⟨rfl, rfl⟩ := Prod.mk.inj (Except.ok.inj h)
      split
      · exact .refl d
      · exact .file hold _
  · cases h
  · obtain ⟨rfl, rfl⟩ := Prod.mk.inj (Except.ok.inj h)
    exact .refl d
  · next dir name slash hloc =>
      split at h
      · cases h
      · obtain ⟨rfl, rfl⟩ := Prod.mk.inj (Except.ok.inj h)
        refine .put (by simp) (fun n hn => ?_) _
        cases (free_of_locate hloc).symm.trans hn
  · cases h

/-- **To write is to change files only.** -/
theorem Rewrites.write {data : Bytes} (h : d.write path data = .ok d') : Rewrites d d' := by
  rw [Disk.write] at h
  split at h
  · cases h
  · next d₁ p hopen =>
      split at h
      · next d₂ hextend =>
          obtain rfl := Except.ok.inj h
          exact (Rewrites.openFile hopen).trans (.extend hextend)
      · cases h

/-- What is written to a new file is there. -/
theorem exists_write_of_free (habs : Path.isAbsolute path = true) {dir : Place} {name : Bytes}
    (h : d.locate true path = .ok (.free dir name false)) (data : Bytes) :
    ∃ d', d.write path data = .ok d' ∧ d'.read path = .ok data := by
  obtain ⟨d', hextend, -, hloc⟩ := extend_put_free none habs h data
  refine ⟨d', ?_, by rw [read, hloc]⟩
  simp [write, openFile, h, hextend]

/-! ### Directories -/

theorem KeepsTree.refl (d : Disk) : KeepsTree d d :=
  fun _ _ hn _ => hn

theorem KeepsTree.trans (h : KeepsTree d d') (h' : KeepsTree d' d'') : KeepsTree d d'' :=
  fun q n hn hfile => h' q n (h q n hn hfile) hfile

section

variable {p : Place} (hne : p ≠ []) (hfree : d.get? p = none) (n : Node)

include hne hfree

theorem get?_put_of_some {q : Place} {m : Node} (hm : d.get? q = some m) : (d.put p n).get? q = some m := by
  rw [get?_put hne, if_neg]
  · exact hm
  · rintro rfl
    cases hfree.symm.trans hm

/-- Something in a free place keeps directories and links. -/
theorem KeepsTree.put : KeepsTree d (d.put p n) :=
  fun _ _ hm _ => get?_put_of_some hne hfree n hm

theorem KeepsFiles.put : KeepsFiles d (d.put p n) :=
  fun _ data hm => ⟨data, get?_put_of_some hne hfree n hm⟩

end

/-- A directory is made at a free name. -/
theorem exists_free_of_mkdir (h : d.mkdir path = .ok d') : ∃ bare dir name slash,
    d.locate true bare = .ok (.free dir name slash) ∧ d' = d.put (dir ++ [name]) .dir ∧
      (path.getLast? ≠ some Path.slash → bare = path) := by
  simp only [mkdir] at h
  split at h
  · next dir name slash hloc =>
      refine ⟨_, dir, name, slash, locate_of_not_follow hloc (by simp), (Except.ok.inj h).symm, fun hlast => ?_⟩
      have hbare : path.reverse.dropWhile (· == Path.slash) = path.reverse := by
        rw [← List.head?_reverse] at hlast
        cases hp : path.reverse with
        | nil => rfl
        | cons b p =>
            rw [hp] at hlast
            exact List.dropWhile_cons_of_neg (by simpa using hlast)
      rw [hbare, List.reverse_reverse, ite_self]
  · cases h
  · cases h

/-- Making a directory keeps directories and links. -/
theorem mkdir_keeps (h : d.mkdir path = .ok d') : KeepsTree d d' ∧ d'.workDir = d.workDir := by
  obtain ⟨_, dir, name, _, hloc, rfl, -⟩ := exists_free_of_mkdir h
  exact ⟨.put (by simp) (free_of_locate hloc) _, workDir_put _ _ _⟩

/-- What follows a free name is only slashes, so that a directory there is where the path leads. -/
theorem stat_put_dir {dir : Place} {name : Bytes} {slash : Bool}
    (h : d.locate true path = .ok (.free dir name slash)) : (d.put (dir ++ [name]) .dir).stat path = .ok .dir := by
  have hfree := free_of_locate h
  have hne : dir ++ [name] ≠ [] := by simp
  obtain ⟨hpath, p, hp, hw⟩ := locate_eq_ok_iff_walk.1 h
  obtain ⟨t, ht, he⟩ := walk_eq_ok_iff (s := ⟨maxLinks, p, Path.parts path⟩).1 hw
  have hthere : (d.put (dir ++ [name]) .dir).get? (dir ++ [name]) = some .dir := by rw [get?_put hne, if_pos rfl]
  have hstay : ∀ k (r : List Bytes), r.all (·.isEmpty) = true →
      Leads (d.put (dir ++ [name]) .dir) ⟨k, dir ++ [name], r⟩ ⟨k, dir ++ [name], []⟩ := by
    intro k r hr
    induction r with
    | nil => exact .refl
    | cons c r ih =>
        simp only [List.all_cons, Bool.and_eq_true, List.isEmpty_iff] at hr
        exact .head (.stay hthere (.inl hr.1)) (ih hr.2)
  cases he with
  | @free k _ _ r hdir hc _ hr =>
      have hdown : Moves (d.put (dir ++ [name]) .dir) ⟨k, dir, name :: r⟩ ⟨k, dir ++ [name], r⟩ :=
        .down (get?_put_of_some hne hfree _ hdir) hc hthere (by simp)
      refine stat_eq_ok_iff.2 ⟨_, locate_taken_iff.2 ⟨hpath, p, ?_, k, ?_, hthere⟩⟩
      · rwa [origin?, workDir_put]
      · exact ((ht.kept (.put hne hfree _) (.put hne hfree _)).tail hdown).trans (hstay k r hr)

theorem ensureDir_keeps {made : Except Failure Unit} (h : d.ensureDir path = (d', made)) :
    KeepsTree d d' ∧ d'.workDir = d.workDir := by
  rw [ensureDir] at h
  split at h
  · next hmkdir =>
      obtain ⟨rfl, -⟩ := Prod.mk.inj h
      exact mkdir_keeps hmkdir
  · split at h
    · obtain ⟨rfl, -⟩ := Prod.mk.inj h
      exact ⟨.refl d, rfl⟩
    · obtain ⟨rfl, -⟩ := Prod.mk.inj h
      exact ⟨.refl d, rfl⟩

/-- A directory that was made sure of is there. -/
theorem stat_of_ensureDir (hlast : path.getLast? ≠ some Path.slash) (h : d.ensureDir path = (d', .ok ())) :
    d'.stat path = .ok .dir := by
  rw [ensureDir] at h
  split at h
  · next hmkdir =>
      obtain ⟨rfl, -⟩ := Prod.mk.inj h
      obtain ⟨bare, dir, name, slash, hloc, rfl, hbare⟩ := exists_free_of_mkdir hmkdir
      exact stat_put_dir (hbare hlast ▸ hloc)
  · split at h
    · next hlstat =>
        obtain ⟨rfl, -⟩ := Prod.mk.inj h
        rw [lstat] at hlstat
        split at hlstat
        · next q n hloc =>
            obtain rfl := Except.ok.inj hlstat
            exact stat_eq_ok_iff.2 ⟨q, locate_of_not_follow hloc (by simp)⟩
        · cases hlstat
        · cases hlstat
    · cases h

/-- Making sure of a path keeps directories and links. -/
theorem ensureDirs_keeps {made : Except Failure Unit} (h : d.ensureDirs path = (d', made)) :
    KeepsTree d d' ∧ d'.workDir = d.workDir := by
  fun_induction ensureDirs d path generalizing d' made with
  | case1 | case2 =>
      cases h
      exact ⟨.refl d, rfl⟩
  | case3 | case4 => exact ensureDir_keeps h
  | case5 _ _ _ _ _ _ _ _ hdirs ih =>
      cases h
      exact ih hdirs
  | case6 _ _ _ _ _ _ _ hdirs ih =>
      obtain ⟨htree, hwork⟩ := ih hdirs
      obtain ⟨htree', hwork'⟩ := ensureDir_keeps h
      exact ⟨htree.trans htree', hwork'.trans hwork⟩

/-- **Directories that have been made are there.** -/
theorem stat_of_ensureDirs (hlast : path.getLast? = some Path.slash → path = [Path.slash])
    (h : d.ensureDirs path = (d', .ok ())) : d'.stat path = .ok .dir := by
  rw [ensureDirs] at h
  split at h
  · next hstat =>
      cases h
      exact hstat
  · cases h
  · next hstat =>
      have hlast' : path.getLast? ≠ some Path.slash := by
        intro hslash
        obtain rfl := hlast hslash
        cases hstat.symm.trans (stat_eq_ok_iff.2 ⟨_, locate_root d⟩)
      split at h
      · exact stat_of_ensureDir hlast' h
      · split at h
        · exact stat_of_ensureDir hlast' h
        · simp only at h
          split at h
          · cases h
          · exact stat_of_ensureDir hlast' h

/-- Those that are there are not made. -/
theorem ensureDirs_of_stat (h : d.stat path = .ok .dir) : d.ensureDirs path = (d, .ok ()) := by
  rw [ensureDirs, h]

end Restyle.Disk
