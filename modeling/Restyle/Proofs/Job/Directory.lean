import Restyle.Proofs.Job.Printing

/-!
# A directory is the composition of its parts

A directory tree is gone through twice: first its files are listed, without following links, and then
they are processed in natural order of their paths.  On the way only the log, the count and the report
change, so that each file finds the machine as if it were the only one.

* `directory_composes`: what a job prints for a directory tree, and the causes of failure that it returns,
  are put together from what it prints and returns for every file alone.
-/

namespace Restyle

open Files

namespace Job

variable {j : Job} {base : Disk} {dir : Bytes} {q : Place}

theorem gives_collect {α : Type} {f : α → Run Script (Except Causes (List Bytes))} {F : α → List Bytes}
    {as : List α} (h : ∀ a ∈ as, Gives j base 1 1 (f a) (· = .ok (F a)) []) :
    Gives j base 1 1 (collect f as) (· = .ok (as.flatMap F)) [] := by
  induction as with
  | nil => exact .pure rfl
  | cons a as ih =>
      refine (h a List.mem_cons_self).after ?_
      rintro _ rfl
      refine (ih fun a ha => h a (List.mem_cons_of_mem _ ha)).after ?_
      rintro _ rfl
      exact .pure rfl

/-- A directory whose path is too long cannot be listed. -/
theorem gives_entries_too_long (hdir : base.LeadsTo dir q) (hd : base.Proper) {top : List Bytes} {n : Node}
    (hn : base.get? (q ++ top) = some n) (hlen : Disk.maxPath < (Disk.pathBelow dir top).length) :
    Gives j base 1 1 (Machine.entries (Disk.pathBelow dir top)) (fun r => ∃ e, r = .error e) [] := by
  refine .look (.entries _) trivial fun w _ =>
    ⟨⟨"open", Disk.pathBelow dir top, .nameTooLong⟩, ?_⟩
  change w.disk.entries (Disk.pathBelow dir top) = _
  rw [Disk.entries, Disk.locate_too_long hdir hd hn hlen]

/-- Files are listed under a name: those at or below it, each once and by their names, whatever the size
of a file is by now. -/
structure ListsAs (j : Job) (base : Disk) (dir : Bytes) (q : Place) (depth : Nat) (top : List Bytes)
    (files : List Bytes) : Prop where
  nodup : files.Nodup
  sorted : files.Pairwise (Disk.Precedes dir)
  mem_iff : ∀ path, path ∈ files ↔ base.Lists dir q top path
  gives : ∀ (kind : Kind) (n : Node), base.get? (q ++ top) = some n → kind.Fits n →
    Gives j base 1 1 (filesBelow j depth (Disk.pathBelow dir top) kind) (· = .ok files) []

/-- A directory lists what is listed under its names. -/
theorem ListsAs.flatMap (hdir : base.LeadsTo dir q) (hd : base.Proper) {depth : Nat} {top : List Bytes}
    (hn : base.get? (q ++ top) = some .dir) (hlen : (Disk.pathBelow dir top).length ≤ Disk.maxPath)
    {F : Bytes → List Bytes}
    (hF : ∀ name ∈ base.names (q ++ top), ListsAs j base dir q depth (top ++ [name]) (F name)) :
    ListsAs j base dir q (depth + 1) top ((base.names (q ++ top)).flatMap F) where
  nodup := by
    refine List.nodup_flatMap.2 ⟨fun name hname => (hF name hname).nodup, ?_⟩
    refine (hd.nodup_names (q ++ top)).pairwise_of_forall_ne fun a ha b hb hab path hpa hpb => hab ?_
    obtain ⟨more, data, hdata, rfl, -⟩ := ((hF a ha).mem_iff path).1 hpa
    obtain ⟨more', data', hdata', heq, -⟩ := ((hF b hb).mem_iff _).1 hpb
    have hsame := Disk.pathBelow_inj (hdir.isName hd hdata) (hdir.isName hd hdata') heq
    rw [List.append_assoc, List.append_assoc] at hsame
    exact (List.cons.inj (List.append_cancel_left hsame)).1
  sorted := by
    refine List.pairwise_flatMap.2 ⟨fun name hname => (hF name hname).sorted, ?_⟩
    refine (hd.sorted_names (q ++ top)).imp_of_mem fun {a b} ha hb hlt path hpath path' hpath' => ?_
    obtain ⟨more, data, -, rfl, -⟩ := ((hF a ha).mem_iff path).1 hpath
    obtain ⟨more', data', -, rfl, -⟩ := ((hF b hb).mem_iff path').1 hpath'
    exact ⟨top, a, b, more, more', hlt, by rw [← List.append_cons], by rw [← List.append_cons]⟩
  mem_iff path := by
    rw [List.mem_flatMap, Disk.lists_dir hd hn hlen]
    exact exists_congr fun name => and_congr_right fun hname => (hF name hname).mem_iff path
  gives kind n hget hkind := by
    cases hn.symm.trans hget
    obtain rfl : kind = .dir := hkind.resolve_right (by simp)
    have hentries : Gives j base 1 1 (Machine.entries (Disk.pathBelow dir top))
        (fun r => ∃ es, r = .ok es ∧ es.map Prod.fst = base.names (q ++ top) ∧
          ∀ e ∈ es, ∃ n, base.get? (q ++ top ++ [e.1]) = some n ∧ e.2.Fits n) [] :=
      .look (.entries _) trivial fun w hw => Disk.entries_later hdir hd hw hn hlen
    refine .check (hentries.after ?_)
    rintro _ ⟨es, rfl, hnames, hes⟩
    rw [← hnames, List.flatMap_map]
    refine gives_collect fun (name, kind) he => ?_
    obtain ⟨n, hget, hfits⟩ := hes (name, kind) he
    have hisName : Path.IsName name := (hd.of_get? hget name (by simp)).1
    dsimp only
    rw [Disk.join_pathBelow (hdir.isName hd hn) hisName]
    exact (hF name (Disk.mem_names.2 ⟨n, hget⟩)).gives kind n (by rwa [← List.append_assoc]) hfits

/-- **All files are listed, and each once.**  Every directory takes at least one byte of a path, so the
depth is enough. -/
theorem exists_listsAs (j : Job) (hdir : base.LeadsTo dir q) (hd : base.Proper) (depth : Nat)
    {top : List Bytes} {n : Node} (hn : base.get? (q ++ top) = some n)
    (hdepth : Disk.maxPath + 1 < (Disk.pathBelow dir top).length + depth) (hpos : 0 < depth) :
    ∃ files, ListsAs j base dir q depth top files := by
  induction depth generalizing top n with
  | zero => exact absurd hpos (Nat.lt_irrefl 0)
  | succ depth ih =>
      cases n with
      | file data =>
          refine ⟨[Disk.pathBelow dir top], List.nodup_singleton _, List.pairwise_singleton _ _,
            fun path => ?_, fun kind n hget hkind => ?_⟩
          · rw [List.mem_singleton, Disk.lists_file hd hn]
          · cases hn.symm.trans hget
            obtain ⟨size, rfl⟩ : ∃ size, kind = .file size := by
              rcases hkind with h | ⟨size, -, h, -⟩
              · exact ⟨_, h⟩
              · exact ⟨size, h⟩
            exact .check (.pure rfl)
      | link | null | full =>
          refine ⟨[], List.nodup_nil, .nil, fun path => ?_, fun kind n hget hkind => ?_⟩
          · simp [Disk.lists_leaf hd hn]
          · cases hn.symm.trans hget
            obtain rfl := hkind.resolve_right (by simp)
            exact .check (.pure rfl)
      | dir =>
          rcases Nat.lt_or_ge Disk.maxPath (Disk.pathBelow dir top).length with hlen | hlen
          · refine ⟨[], List.nodup_nil, .nil, fun path => ?_, fun kind n hget hkind => ?_⟩
            · simp [Disk.lists_too_long hn hlen]
            · cases hn.symm.trans hget
              obtain rfl : kind = .dir := hkind.resolve_right (by simp)
              refine .check ((gives_entries_too_long hdir hd hn hlen).after ?_)
              rintro _ ⟨e, rfl⟩
              exact .check ((gives_log _ _ _).after fun _ _ => .pure rfl)
          · have hchild : ∀ name ∈ base.names (q ++ top),
                ∃ files, ListsAs j base dir q depth (top ++ [name]) files := by
              intro name hname
              obtain ⟨n, hn'⟩ := Disk.mem_names.1 hname
              have hne : name ≠ [] := (hd.of_get? hn' name (by simp)).1.ne_nil
              -- the path of the child is longer, which makes up for the depth
              have hlt := Disk.length_pathBelow_lt dir top hne
              exact ih (by rwa [← List.append_assoc]) (by omega) (by omega)
            choose! F hF using hchild
            exact ⟨_, .flatMap hdir hd hn hlen hF⟩

/-! ### One file -/

/-- The path leads to a file that stays as it is. -/
def Stays (j : Job) (base : Disk) (path : Bytes) (data : Bytes) : Prop :=
  ∀ d, base.Later j.logFile? d → ∃ p, d.locate true path = .ok (.taken p (.file data))

/-- A file stays unless it is the log. -/
theorem stays_of_locate {path data : Bytes} {p : Place} (habs : Path.isAbsolute path = true)
    (h : base.locate true path = .ok (.taken p (.file data))) (hlog : j.logFile? ≠ some p) :
    Stays j base path data := by
  intro d hd
  exact ⟨p, hd.appended.grows.locate_eq habs h hlog⟩

section

variable {path data : Bytes}

/-- What stays is read as it is. -/
theorem Stays.reads (h : Stays j base path data) : Reads j base path (.ok data) := by
  intro d hd
  obtain ⟨p, hp⟩ := h d hd
  rw [Disk.read, hp]

theorem gives_isArchive {P : Except Failure Bool → Prop}
    (h : ∀ d, base.Later j.logFile? d → P ((d.read path).map Archive.hasSignature)) :
    Gives j base 1 1 (isArchive path) P [] := by
  have hread : Gives j base 1 1 (Machine.read path) (fun r => P (r.map Archive.hasSignature)) [] :=
    .look (.read path) trivial fun w hw => h w.disk hw
  refine hread.after fun r hr => ?_
  cases r with
  | error e => exact .pure hr
  | ok data => exact .pure hr

/-- Whether it is an archive is told by what is read. -/
theorem Reads.isArchive {r : Except Failure Bytes} (h : Reads j base path r) :
    Gives j base 1 1 (isArchive path) (· = r.map Archive.hasSignature) [] :=
  gives_isArchive fun d hd => by rw [h d hd]

/-- The longest path above an absolute one is the path itself. -/
theorem ancestors_self (habs : Path.isAbsolute path = true) (hclean : Path.clean path = path)
    (hroot : Path.components path ≠ []) : ∃ shorter, ancestors path = path :: shorter := by
  obtain ⟨longer, shorter, hancestors, hlonger⟩ := ancestors_append (List.append_nil _).symm
  have hnil : longer = [] := by
    refine List.eq_nil_iff_forall_not_mem.2 fun head hhead => ?_
    obtain ⟨n, hn, -⟩ := hlonger head hhead
    exact absurd hn (Nat.not_lt_zero n)
  refine ⟨shorter, ?_⟩
  rw [hancestors, hnil, Path.flatMap_components habs hclean hroot]
  rfl

/-- A file that is a source is an archive or a stylesheet. -/
theorem Stays.process (h : Stays j base path data) (habs : Path.isAbsolute path = true)
    (hclean : Path.clean path = path) {failed : Prop} {rs : List Result}
    (harchive : Archive.hasSignature data = true →
      ∃ a, Gives j base 1 1 (archive j path [] []) (· = a) rs ∧ (a ≠ [] ↔ failed))
    (hfile : Archive.hasSignature data = false →
      ∃ a, Gives j base 1 1 (file j path (Path.base path)) (· = a) rs ∧ (a ≠ [] ↔ failed)) :
    Gives j base 1 1 (process j path) (fun causes => causes ≠ [] ↔ failed) rs := by
  have hroot : Path.components path ≠ [] := by
    obtain ⟨p, hp⟩ := h base (.refl _ base)
    exact Disk.components_ne_nil habs hclean (Disk.stat_eq_ok_iff.2 ⟨p, hp⟩)
  obtain ⟨shorter, hancestors⟩ := ancestors_self habs hclean hroot
  have hstat : Gives j base 1 1 (Machine.stat path) (fun r => ∃ size, r = .ok (.file size)) [] := by
    refine .look (.stat path) trivial fun w hw => ?_
    obtain ⟨p, hp⟩ := h w.disk hw
    refine ⟨data.length, ?_⟩
    change (w.disk.stat path).map Node.kind = _
    rw [Disk.stat_eq_ok_iff.2 ⟨p, hp⟩]
    rfl
  rw [process_eq_resolve j habs, hancestors, resolve, resolveWith]
  refine .unlessCancelled (hstat.after ?_)
  rintro _ ⟨size, rfl⟩
  refine h.reads.isArchive.after ?_
  rintro _ rfl
  cases hsig : Archive.hasSignature data with
  | true =>
      obtain ⟨a, hgives, hiff⟩ := harchive hsig
      have hrelative : relative path path = [] := by simp [relative]
      simp only [Except.map, hsig, hrelative]
      refine hgives.andThen ?_
      rintro causes rfl
      refine .pure (Iff.trans (not_congr ?_) hiff)
      cases causes <;> simp [Causes.within]
  | false =>
      obtain ⟨a, hgives, hiff⟩ := hfile hsig
      simp only [Except.map, hsig]
      exact hgives.mono fun _ ha => ha ▸ hiff

/-! ### Parts of a directory -/

/-- The file is an archive or a stylesheet. -/
def isPart (j : Job) (d : Disk) (path : Bytes) : Bool :=
  match d.read path with
  | .ok data => Archive.hasSignature data || Path.hasExtension j.extensions path
  | .error _ => false

/-- What a file of a directory tree comes to alone: the causes for which it fails, told as those of an
archive or of a file, and what a job emits that has it for a source.  It comes to nothing if it is
neither an archive nor a stylesheet. -/
def alone (j : Job) (dir : Bytes) (s : State) (path : Bytes) : Causes × List Result :=
  match s.2.disk.read path with
  | .error _ => ([], [])
  | .ok data =>
    if Archive.hasSignature data then
      (Causes.within ("archive " ++ relative dir path)
          (exec (archive j path [] (Path.parent (relative dir path))) s).1,
        results (watch (process j path) s))
    else if Path.hasExtension j.extensions path then
      (Causes.within ("file " ++ relative dir path) (exec (file j path (relative dir path)) s).1,
        results (watch (process j path) s))
    else ([], [])

/-- A log that is neither an archive nor a stylesheet, and long enough not to become an archive. -/
structure LogsAside (j : Job) (d : Disk) (path : Bytes) : Prop where
  aside : ∀ p data, d.locate true path = .ok (.taken p (.file data)) → j.logFile? = some p →
    4 ≤ data.length ∧ Archive.hasSignature data = false ∧ Path.hasExtension j.extensions path = false

end

section

variable {path data rel : Bytes} {causes : Causes} {rs : List Result}

/-- What is found and is an archive gives what its entries give. -/
theorem gives_found_archive (hread : Reads j base path (.ok data)) (hsig : Archive.hasSignature data = true)
    (h : Gives j base 1 1 (archive j path [] (Path.parent rel)) (· = causes) rs) :
    Gives j base 1 1 (found j path rel) (· = Causes.within ("archive " ++ rel) causes) rs := by
  refine hread.isArchive.after ?_
  rintro _ rfl
  simp only [Except.map, hsig]
  refine h.andThen ?_
  rintro _ rfl
  exact .noted (gives_log _ _ _) (.pure rfl)

/-- What is found and has a known extension gives what the file gives. -/
theorem gives_found_file (hread : Reads j base path (.ok data)) (hsig : Archive.hasSignature data = false)
    (hext : Path.hasExtension j.extensions path = true)
    (h : Gives j base 1 1 (file j path rel) (· = causes) rs) :
    Gives j base 1 1 (found j path rel) (· = Causes.within ("file " ++ rel) causes) rs := by
  refine hread.isArchive.after ?_
  rintro _ rfl
  simp only [Except.map, hsig, hext, if_true]
  refine h.andThen ?_
  rintro _ rfl
  exact .pure rfl

/-- Neither an archive nor a stylesheet, or not to be read at all. -/
theorem gives_found_other
    (h : ∀ d, base.Later j.logFile? d → ∀ sig, (d.read path).map Archive.hasSignature = .ok sig →
      sig = false ∧ Path.hasExtension j.extensions path = false) :
    Gives j base 1 1 (found j path rel) (· = []) [] := by
  have hkind : Gives j base 1 1 (isArchive path) (fun r => ∀ sig, r = .ok sig →
      sig = false ∧ Path.hasExtension j.extensions path = false) [] := gives_isArchive h
  refine hkind.after fun r hr => ?_
  rcases r with e | sig
  · exact (gives_log _ _ _).after fun _ _ => .pure rfl
  · obtain ⟨rfl, hext⟩ := hr sig rfl
    simp only [hext, Bool.false_eq_true, if_false]
    exact (gives_log _ _ _).after fun _ _ => .pure rfl

end

/-- What a file comes to in a directory tree is what it comes to alone. -/
def IsAlone (j : Job) (dir : Bytes) (s : State) (path : Bytes) : Prop :=
  Gives j s.2.disk 1 1 (found j path (relative dir path)) (· = (alone j dir s path).1)
      (alone j dir s path).2 ∧
    (isPart j s.2.disk path = true →
      ((alone j dir s path).1 ≠ [] ↔ (exec (process j path) s).1 ≠ []))

section

variable {s : State} {path : Bytes}

theorem isAlone_of_not_isPart (h : isPart j s.2.disk path = false)
    (hfound : Gives j s.2.disk 1 1 (found j path (relative dir path)) (· = []) []) :
    IsAlone j dir s path := by
  have halone : alone j dir s path = ([], []) := by
    rw [alone]
    rw [isPart] at h
    cases hread : s.2.disk.read path with
    | error e => rfl
    | ok data =>
        rw [hread, Bool.or_eq_false_iff] at h
        simp only [h.1, h.2, Bool.false_eq_true, if_false]
  refine ⟨?_, fun hpart => absurd hpart (by simp [h])⟩
  rw [halone]
  exact hfound

/-- The causes are told in some context, and what is emitted and whether there are causes is as for the
source. -/
theorem isAlone_of_gives (hs : Steady j.logFile? s.2.disk 1 s) {context : Bytes} {causes : Causes}
    {failed : Prop} {rs : List Result}
    (hfound : Gives j s.2.disk 1 1 (found j path (relative dir path)) (· = Causes.within context causes) rs)
    (hprocess : Gives j s.2.disk 1 1 (process j path) (fun causes => causes ≠ [] ↔ failed) rs)
    (hfailed : causes ≠ [] ↔ failed)
    (halone : alone j dir s path = (Causes.within context causes, results (watch (process j path) s))) :
    IsAlone j dir s path := by
  obtain ⟨hiff, hrs, -⟩ := (hprocess s hs).post
  have hwithin : Causes.within context causes = [] ↔ causes = [] := by
    cases causes <;> simp [Causes.within]
  rw [IsAlone, halone, hrs]
  refine ⟨hfound, fun _ => ?_⟩
  rw [← (same_process j path).play_eq, hiff, ← hfailed]
  exact not_congr hwithin

/-- A file that is not the log. -/
theorem isAlone_of_stays (hstdout : j.settings.toStdout = true) (hs : Steady j.logFile? s.2.disk 1 s)
    (habs : Path.isAbsolute path = true) (hclean : Path.clean path = path) {data : Bytes}
    (h : Stays j s.2.disk path data) : IsAlone j dir s path := by
  have hread : s.2.disk.read path = .ok data := h.reads _ (.refl _ _)
  cases hsig : Archive.hasSignature data with
  | true =>
      obtain ⟨rs, failed, hprints⟩ := prints_archive hstdout h.reads []
      have hprocess := h.process habs hclean (fun _ => hprints []) (by simp [hsig])
      obtain ⟨causes, hgives, hiff⟩ := hprints (Path.parent (relative dir path))
      refine isAlone_of_gives hs (gives_found_archive h.reads hsig hgives) hprocess hiff ?_
      rw [(hgives.self hs).1, (same_archive j path [] _).play_eq]
      simp [alone, hread, hsig]
  | false =>
      cases hext : Path.hasExtension j.extensions path with
      | true =>
          obtain ⟨rs, failed, hprints⟩ := prints_file hstdout h.reads
          have hprocess := h.process habs hclean (by simp [hsig]) fun _ => hprints _
          obtain ⟨causes, hgives, hiff⟩ := hprints (relative dir path)
          refine isAlone_of_gives hs (gives_found_file h.reads hsig hext hgives) hprocess hiff ?_
          rw [(hgives.self hs).1, (same_file j path _).play_eq]
          simp [alone, hread, hsig, hext]
      | false =>
          refine isAlone_of_not_isPart (by simp [isPart, hread, hsig, hext]) (gives_found_other ?_)
          intro d hd sig hsig'
          rw [h.reads d hd] at hsig'
          cases hsig'
          exact ⟨hsig, hext⟩

/-- **A file of a directory tree finds the machine as if it were the only one.** -/
theorem isAlone_of_lists (hstdout : j.settings.toStdout = true) (hs : Steady j.logFile? s.2.disk 1 s)
    (hdir : s.2.disk.LeadsTo dir q) (hd : s.2.disk.Proper) (hpath : s.2.disk.Lists dir q [] path)
    (hlog : LogsAside j s.2.disk path) : IsAlone j dir s path := by
  obtain ⟨cs, data, hdata, rfl, -⟩ := hpath
  rw [List.nil_append] at *
  have habs : Path.isAbsolute (Disk.pathBelow dir cs) = true := rfl
  have hclean : Path.clean (Disk.pathBelow dir cs) = Disk.pathBelow dir cs :=
    Path.clean_ofComponents (hdir.isName hd hdata)
  rcases Nat.lt_or_ge Disk.maxPath (Disk.pathBelow dir cs).length with hlen | hlen
  · have hread : ∀ d : Disk, d.read (Disk.pathBelow dir cs) =
        .error ⟨"open", Disk.pathBelow dir cs, .nameTooLong⟩ := by
      intro d
      rw [Disk.read, Disk.locate_too_long hdir hd hdata hlen]
    refine isAlone_of_not_isPart (by simp [isPart, hread]) (gives_found_other ?_)
    intro d _ sig hsig
    rw [hread] at hsig
    cases hsig
  · have hlocate := Disk.locate_below hdir hd hdata (by simp) hlen
    by_cases hfile : j.logFile? = some (q ++ cs)
    · obtain ⟨hlong, hsig, hext⟩ := hlog.aside _ _ hlocate hfile
      refine isAlone_of_not_isPart (by simp [isPart, Disk.read, hlocate, hsig, hext]) (gives_found_other ?_)
      intro d hlater sig hsig'
      obtain ⟨n, hn, hget⟩ := hlater.appended.grows.locate habs hlocate
      obtain ⟨more, rfl⟩ : ∃ more, n = .file (data ++ more) := by
        rcases hlater.appended (q ++ cs) with heq | ⟨-, old, more, hold, hmore⟩
        · exact ⟨[], by simpa [heq, hdata] using hget.symm⟩
        · cases hdata.symm.trans hold
          exact ⟨more, Option.some.inj (hget.symm.trans hmore)⟩
      rw [Disk.read, hn] at hsig'
      cases hsig'
      exact ⟨(Archive.hasSignature_append hlong more).trans hsig, hext⟩
    · exact isAlone_of_stays hstdout hs habs hclean (stays_of_locate habs hlocate hfile)

end

/-- **All that was found** gives what each of them gives, in their order. -/
theorem gives_foundAll {causes : Bytes → Causes} {rs : Bytes → List Result} {paths : List Bytes}
    (h : ∀ path ∈ paths, Gives j base 1 1 (found j path (relative dir path)) (· = causes path) (rs path)) :
    Gives j base 1 1 (foundAll j dir paths) (· = paths.flatMap causes) (paths.flatMap rs) := by
  induction paths with
  | nil => exact .pure rfl
  | cons path paths ih =>
      refine .unlessCancelled ((h path List.mem_cons_self).bind ?_)
      rintro _ rfl
      refine (ih fun path hpath => h path (List.mem_cons_of_mem _ hpath)).andThen ?_
      rintro _ rfl
      exact .pure rfl

/-! ### The whole tree -/

/-- The files are listed first. -/
theorem emits_filesOf {s : State} (hs : Steady j.logFile? s.2.disk 1 s)
    (hdir : s.2.disk.locate false dir = .ok (.taken q .dir)) {files : List Bytes}
    (h : Gives j s.2.disk 1 1 (filesBelow j (Disk.maxPath + 1) dir .dir) (· = .ok files) []) :
    EmitsAt s (filesOf j dir) fun r rs => r.1 = .ok files ∧ rs = [] ∧ Steady j.logFile? s.2.disk 1 r.2 := by
  have hlstat : exec (play (Machine.lstat dir)) s = (.ok .dir, s) := by
    change ((s.2.disk.lstat dir).map Node.kind, s) = _
    rw [Disk.lstat, hdir]
    rfl
  refine .bind (.quiet hs.checks (.ask (.lstat dir) trivial)) ?_
  rw [hlstat]
  exact h s hs

/-- Then they are processed. -/
theorem emits_directory {s : State} {files : List Bytes}
    (hfiles : EmitsAt s (filesOf j dir) fun r rs =>
      r.1 = .ok files ∧ rs = [] ∧ Steady j.logFile? base 1 r.2)
    {causes : Bytes → Causes} {rs : Bytes → List Result}
    (h : ∀ path ∈ files, Gives j base 1 1 (found j path (relative dir path)) (· = causes path) (rs path)) :
    (exec (directory j dir) s).1 = (sort Natural.isBefore files).flatMap causes ∧
      results (watch (directory j dir) s) = (sort Natural.isBefore files).flatMap rs := by
  obtain ⟨hpaths, hnone, hsteady⟩ := hfiles.post
  have hget : Gives j base 1 1 (get : Run Script Progress) (fun _ => True) [] :=
    .progress fun p hp => ⟨trivial, hp⟩
  have hall : Gives j base 1 1 (foundAll j dir (sort Natural.isBefore files)) _ _ :=
    gives_foundAll fun path hpath => h path ((sort_perm _ _).mem_iff.1 hpath)
  have hdirectory : EmitsAt s (directory j dir) fun r rs' =>
      r.1 = (sort Natural.isBefore files).flatMap causes ∧
        rs' = (sort Natural.isBefore files).flatMap rs := by
    refine .bind hfiles.self ?_
    rw [hpaths, hnone]
    refine Gives.emitsAt (P := (· = (sort Natural.isBefore files).flatMap causes)) hsteady
      (fun r hr => ⟨hr, rfl⟩) (hget.after fun start _ => hall.andThen ?_)
    rintro _ rfl
    exact hget.after fun p _ => .noted (gives_log _ _ _) (.pure rfl)
  rw [← (same_directory j dir).play_eq]
  exact hdirectory.post

/-- **A directory is the composition of its parts.**  A job prints, nothing that it prints fails, it is not
cancelled, and the report has no traces of stylesheets to come.  The log may be in the directory if it is
neither an archive nor a stylesheet.  Then the files of the tree are listed, each once and by their names,
and sorted in natural order, stably where that is a strict weak order.  What the job emits, and the causes
that it returns, are those of each of these files alone, one after the other. -/
theorem directory_composes (j : Job) (dir : Bytes) (q : Place) (s : State)
    (habs : Path.isAbsolute dir = true) (hclean : Path.clean dir = dir)
    (hdir : s.2.disk.locate false dir = .ok (.taken q .dir)) (hd : s.2.disk.Proper)
    (hstdout : j.settings.toStdout = true) (hwriter : s.2.output.bound = none)
    (hchecks : s.2.checks = none) (hnumbered : Numbered (s.1.count + 1) s.1.report)
    (hlog : ∀ path, s.2.disk.IsFileBelow dir q path → LogsAside j s.2.disk path) :
    ∃ files order : List Bytes,
      files.Nodup ∧ files.Pairwise (Disk.Precedes dir) ∧
      (∀ path, path ∈ files ↔ s.2.disk.IsFileBelow dir q path) ∧
      order.Perm files ∧
      (IsStrictWeak Natural.isBefore files → StableSort Natural.isBefore files order) ∧
      results (watch (directory j dir) s) = order.flatMap (fun path => (alone j dir s path).2) ∧
      (exec (directory j dir) s).1 = order.flatMap (fun path => (alone j dir s path).1) ∧
      ∀ path ∈ files, isPart j s.2.disk path = true →
        ((alone j dir s path).1 ≠ [] ↔ (exec (process j path) s).1 ≠ []) := by
  have hlocated : s.2.disk.locate true dir = .ok (.taken q .dir) := by
    obtain ⟨hpath, hwalk⟩ := (Disk.locate_eq_ok_iff habs).1 hdir
    exact (Disk.locate_eq_ok_iff habs).2 ⟨hpath, Disk.walk_of_not_follow hwalk (by simp)⟩
  have hleads : s.2.disk.LeadsTo dir q := ⟨habs, hclean, hlocated⟩
  have hq : s.2.disk.get? q = some .dir := Disk.get?_of_locate habs hlocated
  have hs : Steady j.logFile? s.2.disk 1 s := ⟨hchecks, hwriter, hnumbered, .refl _ _⟩
  have hn : s.2.disk.get? (q ++ []) = some .dir := by rwa [List.append_nil]
  have hlength : 0 < (Disk.pathBelow dir []).length := Nat.succ_pos _
  obtain ⟨files, hlists⟩ := exists_listsAs j hleads hd (Disk.maxPath + 1) hn (by omega) (Nat.succ_pos _)
  have hmem : ∀ path, path ∈ files ↔ s.2.disk.IsFileBelow dir q path :=
    fun path => (hlists.mem_iff path).trans (Disk.lists_iff_isFileBelow hq path)
  have halone : ∀ path ∈ files, IsAlone j dir s path := fun path hpath =>
    isAlone_of_lists hstdout hs hleads hd ((hlists.mem_iff path).1 hpath) (hlog path ((hmem path).1 hpath))
  have hbelow := hlists.gives .dir .dir hn (.inl rfl)
  rw [hleads.pathBelow_nil] at hbelow
  obtain ⟨hcauses, hresults⟩ := emits_directory (emits_filesOf hs hdir hbelow)
    fun path hpath => (halone path hpath).1
  exact ⟨files, sort Natural.isBefore files, hlists.nodup, hlists.sorted, hmem, sort_perm _ _,
    stableSort_sort, hresults, hcauses, fun path hpath => (halone path hpath).2⟩

/-- A machine with two stylesheets, an archive in which an entry is broken, and another file. -/
def treeWorld : World where
  disk :=
    { nodes := [(["d"], .dir), (["d", "b10.css"], .file "p\x7b\x7d"), (["d", "b2.css"], .file "q\x7b\x7d"),
        (["d", "m.zip"], .file (Archive.pairArchive 0 1)), (["d", "n.txt"], .file "n")]
      workDir := some [] }
  tempDir := "/tmp"

theorem locate_treeWorld : treeWorld.disk.locate false "/d" = .ok (.taken ["d"] .dir) := rfl

/-- The broken archive keeps nothing from being printed, and is reported alone. -/
theorem directory_composes_tree :
    treeWorld.disk.Proper ∧ treeWorld.disk.locate false "/d" = .ok (.taken ["d"] .dir) ∧
      ∃ files order : List Bytes, files.Nodup ∧ order.Perm files ∧
        (∀ path, path ∈ files ↔ treeWorld.disk.IsFileBelow "/d" ["d"] path) ∧
        results (watch (directory printingJob "/d") ({}, treeWorld)) =
          order.flatMap (fun path => (alone printingJob "/d" ({}, treeWorld) path).2) ∧
        (exec (directory printingJob "/d") ({}, treeWorld)).1 =
          order.flatMap (fun path => (alone printingJob "/d" ({}, treeWorld) path).1) := by
  have hd : treeWorld.disk.Proper := by decide +kernel
  obtain ⟨files, order, hnodup, -, hmem, hperm, -, hresults, hcauses, -⟩ :=
    directory_composes printingJob "/d" ["d"] ({}, treeWorld) (by decide) (by decide) locate_treeWorld hd
      rfl rfl rfl (by rintro r ⟨⟩) fun path _ => ⟨fun p data _ hlog => by cases hlog⟩
  exact ⟨hd, locate_treeWorld, files, order, hnodup, hperm, hmem, hresults, hcauses⟩

end Job

end Restyle
