import Restyle.Proofs.Files.Creation
import Restyle.Proofs.Job.Entries

/-!
# Paths inside archives

A source that leads on behind an archive names something in the archive.  Nothing is found at such a path
on the disk, so the paths above it are tried until one is found, and that is the archive.  What is left of
the source is then compared with the names of the entries byte by byte, so that it takes in the ones beside it
(`Archive.Beside`).

* `process_archive`: to process such a source is to process the archive, with what is left of the source.
* `process_inside_iff`: what is processed is what lies below the path exactly when no entry is beside it.
-/

namespace Restyle

open Files Archive

namespace Job

/-- Of the paths above one of two parts, those that are longer than the first part come first, and then
the first part itself. -/
theorem ancestors_append {path : Bytes} {cs more : List Bytes}
    (h : Path.components path = cs ++ more) :
    ∃ longer shorter, ancestors path = longer ++ cs.flatMap (Path.slash :: ·) :: shorter ∧
      ∀ head ∈ longer, ∃ n < more.length, head = (cs ++ more.take (n + 1)).flatMap (Path.slash :: ·) := by
  have hrange : (List.range (cs.length + more.length + 1)).reverse =
      ((List.range more.length).map (cs.length + 1 + ·)).reverse ++
        cs.length :: (List.range cs.length).reverse := by
    rw [Nat.add_right_comm, List.range_add, List.reverse_append, List.range_succ, List.reverse_concat]
  refine ⟨((List.range more.length).reverse.map fun n =>
      (cs ++ more.take (n + 1)).flatMap (Path.slash :: ·)),
    ((List.range cs.length).reverse.map fun n => (cs.take n).flatMap (Path.slash :: ·)), ?_, ?_⟩
  · simp only [ancestors, h, List.length_append, hrange, List.map_append, List.map_cons]
    congr 1
    · rw [← List.map_reverse, List.map_map]
      refine List.map_congr_left fun n _ => ?_
      simp only [Function.comp, Nat.add_assoc, List.take_length_add_append, Nat.add_comm 1]
    · rw [List.take_left]
      congr 1
      refine List.map_congr_left fun n hn => ?_
      have hlt : n < cs.length := by simpa using hn
      rw [List.take_append_of_le_length (Nat.le_of_lt hlt)]
  · intro head hhead
    obtain ⟨n, hn, rfl⟩ := List.mem_map.1 hhead
    exact ⟨n, by simpa using hn, rfl⟩

/-- A path is not taken for the standard input. -/
theorem process_eq_resolve {m : Type → Type} [Monad m] [Machine m] (j : Job) {source : Bytes}
    (habs : Path.isAbsolute source = true) :
    (process j source : Run m Causes) = resolve j source true (ancestors source) := by
  have hstdin : source ≠ stdinName := by
    rintro rfl
    cases habs
  rw [process, processWith, if_neg (by simpa using hstdin)]

theorem relative_append (dir rest : Bytes) : relative dir (dir ++ Path.slash :: rest) = rest := by
  simp [relative]

section

variable {j : Job} {s : State} {source head : Bytes}

/-- Where nothing is found the path above is tried. -/
theorem emits_resolve_missing (hchecks : s.2.checks = none) {missing : List Bytes}
    (hmissing : ∀ head ∈ missing, ∃ e, s.2.disk.stat head = .error e)
    {heads : List Bytes} {post : Causes × State → List Result → Prop}
    (h : ∀ whole, EmitsAt s (resolve j source whole heads) post) (whole : Bool) :
    EmitsAt s (resolve j source whole (missing ++ heads)) post := by
  induction missing generalizing whole with
  | nil => exact h whole
  | cons head missing ih =>
      obtain ⟨e, he⟩ := hmissing head List.mem_cons_self
      have hstat : exec (play (Machine.stat head)) s = (.error e, s) := by
        change exec (Machine.stat head) s = _
        rw [exec_stat, he]
        rfl
      refine .check hchecks (.bind (.quiet hchecks (.ask (.stat head) trivial)) ?_)
      rw [hstat]
      exact ih (fun head hhead => hmissing head (List.mem_cons_of_mem _ hhead)) false

/-- An archive that is found is processed, whatever part of the source it is. -/
theorem emits_resolve_archive (hchecks : s.2.checks = none) {data : Bytes}
    (hfile : s.2.disk.stat head = .ok (.file data)) (hsig : Archive.hasSignature data = true)
    {post : Causes × State → List Result → Prop}
    (h : EmitsAt s (archive j head (relative head source) []) post) (heads : List Bytes) (whole : Bool) :
    EmitsAt s (resolve j source whole (head :: heads)) fun r rs =>
      let ran := exec (play (archive j head (relative head source) [])) s
      r = (Causes.within "unable to process archive" ran.1, ran.2) ∧
        rs = results (watch (archive j head (relative head source) []) s) := by
  have hstat : exec (play (Machine.stat head)) s = (.ok (.file data.length), s) := by
    change exec (Machine.stat head) s = _
    rw [exec_stat, hfile]
    rfl
  have hkind : exec (play (isArchive head)) s = (.ok true, s) := by
    rw [(agrees_isArchive head).play_eq, isArchive, exec_bind]
    have hread : exec (Machine.read head) s = (.ok data, s) := by
      rw [← Disk.read_of_stat hfile]
      rfl
    rw [hread, ← hsig]
    rfl
  refine .check hchecks (.bind (.quiet hchecks (.ask (.stat head) trivial)) ?_)
  rw [hstat]
  refine .bind (.quiet hchecks (agrees_isArchive head)) ?_
  rw [hkind]
  refine .bind h.self (.pure h.checks ⟨rfl, ?_⟩)
  simp

end

/-! ### Sources behind an archive -/

section

variable {j : Job} {s : State} {path inside data : Bytes}

/-- Nothing is found at the paths between the archive and the source. -/
theorem stat_longer (habs : Path.isAbsolute path = true) (hclean : Path.clean path = path)
    (hin : Path.Descends inside) (hnames : Path.names inside ≠ [])
    (hfile : s.2.disk.stat path = .ok (.file data)) (n : Nat) :
    ∃ e, s.2.disk.stat ((Path.components path ++ (Path.names inside).take (n + 1)).flatMap
      (Path.slash :: ·)) = .error e := by
  have hpath : Path.ofComponents true (Path.components path) = path := by
    rw [← habs]
    exact hclean
  have hroot := Disk.components_ne_nil habs hclean hfile
  have hflat : (Path.components path ++ (Path.names inside).take (n + 1)).flatMap (Path.slash :: ·) =
      Path.ofComponents true (Path.components path ++ (Path.names inside).take (n + 1)) := by
    rw [Path.ofComponents_true, if_neg (by simp [hroot])]
  rw [hflat]
  refine Disk.stat_behind_file (fun c hc => ?_) (by simpa using hnames) (hpath.symm ▸ hfile)
  rcases List.mem_append.1 hc with hc | hc
  · exact Path.isName_of_mem_components habs hc
  · exact Path.isName_of_mem_names hin.no_above (List.mem_of_mem_take hc)

/-- **To process a source behind an archive is to process the archive**, with the rest of the source. -/
theorem process_archive (habs : Path.isAbsolute path = true) (hclean : Path.clean path = path)
    (hin : Path.Descends inside) (hinside : Path.clean inside = inside) (hhere : inside ≠ Path.here)
    (hfile : s.2.disk.stat path = .ok (.file data)) (hsig : Archive.hasSignature data = true)
    (hchecks : s.2.checks = none) {post : Causes × State → List Result → Prop}
    (h : EmitsAt s (archive j path inside []) post) :
    exec (process j (path ++ Path.slash :: inside)) s =
        (Causes.within "unable to process archive" (exec (archive j path inside []) s).1,
          (exec (archive j path inside []) s).2) ∧
      results (watch (process j (path ++ Path.slash :: inside)) s) =
        results (watch (archive j path inside []) s) := by
  have hne : path ≠ [] := by
    rintro rfl
    cases habs
  have hsource : Path.isAbsolute (path ++ Path.slash :: inside) = true := by
    rw [Path.isAbsolute_append hne, habs]
  have hnames : Path.names inside ≠ [] := by
    intro hnil
    rw [Path.clean, hin.relative, Path.components_eq_names hin.no_above, hnil] at hinside
    exact hhere hinside.symm
  obtain ⟨longer, shorter, hanc, hlonger⟩ := ancestors_append (Path.components_append hne hin.no_above)
  have hmissing : ∀ head ∈ longer, ∃ e, s.2.disk.stat head = .error e := by
    intro head hhead
    obtain ⟨n, -, rfl⟩ := hlonger head hhead
    exact stat_longer habs hclean hin hnames hfile n
  rw [Path.flatMap_components habs hclean (Disk.components_ne_nil habs hclean hfile)] at hanc
  rw [← relative_append path inside] at h
  have hresolve := emits_resolve_missing hchecks hmissing
    (emits_resolve_archive hchecks hfile hsig h shorter) true
  rw [relative_append] at hresolve
  rw [← (same_process j _).play_eq, process_eq_resolve j hsource, hanc,
    ← (same_archive j path inside []).play_eq]
  exact hresolve.post

end

/-! ### What is selected -/

/-- **What a path inside an archive selects.**  A job that is not cancelled processes a source that leads
on behind an archive.  The entries gone through are those whose names start with the rest of the source,
byte by byte, up to the first that cannot be opened in its turn.  If all can be opened, they are the entries
at or below that path exactly when none is beside it.

Where nothing is written over the archive it is the same in every turn. -/
theorem process_inside_iff (j : Job) (path inside data : Bytes) (hs : List Header) (s : State)
    (habs : Path.isAbsolute path = true) (hclean : Path.clean path = path)
    (hin : Path.Descends inside) (hinside : Path.clean inside = inside) (hhere : inside ≠ Path.here)
    (hfile : s.2.disk.stat path = .ok (.file data)) (hsig : hasSignature data = true)
    (hparse : Archive.parse data = .ok hs) (hsafe : ∀ h ∈ hs, isSafe h.name = true)
    (hchecks : s.2.checks = none) :
    let visited := sortByName (hs.filter (isVisited inside j.extensions))
    let below := sortByName (hs.filter (isBelow inside j.extensions))
    let rs := results (watch (process j (path ++ Path.slash :: inside)) s)
    let ran := exec (process j (path ++ Path.slash :: inside)) s
    ∃ causes turns, ran.1 = Causes.within "unable to process archive" causes ∧
      Attempted visited turns ∧ Accounts j path [] s turns rs (causes, ran.2) ∧
      ((∀ t ∈ turns.take (visited.length - 1), t.canOpen = true) →
        (AccountsFor j path [] s below rs (causes, ran.2) ↔ ∀ h ∈ hs, ¬ Beside inside j.extensions h)) ∧
      (Spares j path s.2.disk → turns = (attempted data.toArray visited).map (Turn.of data) ∧
        ((∀ h ∈ visited.dropLast, canOpen data.toArray h = true) →
          (AccountsFor j path [] s below rs (causes, ran.2) ↔ ∀ h ∈ hs, ¬ Beside inside j.extensions h))) := by
  intro visited below rs ran
  have hread := Disk.read_of_stat hfile
  obtain ⟨hran, hrs⟩ := process_archive habs hclean hin hinside hhere hfile hsig hchecks
    (emits_archive j path inside [] hread hparse hsafe hchecks)
  obtain ⟨turns, hattempted, hcounts⟩ := accounts_archive j path inside [] hread hparse hsafe hchecks
  have hcounts : Accounts j path [] s turns rs ((exec (archive j path inside []) s).1, ran.2) := by
    rw [show ran.2 = _ from congrArg Prod.snd hran, show rs = _ from hrs]
    exact hcounts
  have hselects : (∀ t ∈ turns.take (visited.length - 1), t.canOpen = true) →
      (AccountsFor j path [] s below rs ((exec (archive j path inside []) s).1, ran.2) ↔
        ∀ h ∈ hs, ¬ Beside inside j.extensions h) := by
    intro hopen
    have hall := (hcounts.for_iff hattempted).2 hopen
    constructor
    · intro hbelow
      rw [← length_filter_isBelow_iff]
      have hlength : below.length = visited.length := hbelow.length.symm.trans hall.length
      exact (sort_perm _ _).length_eq.symm.trans (hlength.trans (sort_perm _ _).length_eq)
    · intro hnone
      have heq : below = visited := congrArg sortByName (filter_isBelow_eq hnone)
      rw [heq]
      exact hall
  refine ⟨_, turns, congrArg Prod.fst hran, hattempted, hcounts, hselects, fun hspares => ?_⟩
  obtain ⟨os, hwalks, -⟩ := id hcounts
  have hdata := hwalks.archive_eq hspares hread
  exact ⟨hattempted.eq_map_of hdata, fun hopen => hselects ((hattempted.forall_take_iff hdata).2 hopen)⟩

/-- An archive with two directories.  The name of the first is how the name of the second starts. -/
def nearArchive : Bytes :=
  encodeItems [.stored "css/a.css" "p\x7b\x7d", .stored "css2/b.css" "q\x7b\x7d"]

def nearHeaders : List Header :=
  [⟨"css/a.css", methodStored, true, (Archive.checksum "p\x7b\x7d").toNat, 3, 3, 0, 0, 0⟩,
    ⟨"css2/b.css", methodStored, true, (Archive.checksum "q\x7b\x7d").toNat, 3, 3, 58, 0, 0⟩]

theorem parse_nearArchive : Archive.parse nearArchive = .ok nearHeaders := by decide +kernel

theorem stat_archiveWorld (data : Bytes) : (archiveWorld data).disk.stat "/m.zip" = .ok (.file data) :=
  Disk.stat_eq_ok_iff.2 ⟨_, locate_archiveWorld data⟩

/-- Nothing is beside the longer name. -/
theorem process_inside_iff_longer :
    (archiveWorld nearArchive).disk.stat "/m.zip" = .ok (.file nearArchive) ∧
      Archive.parse nearArchive = .ok nearHeaders ∧
      ∃ causes, AccountsFor printingJob "/m.zip" [] ({}, archiveWorld nearArchive) (nearHeaders.drop 1)
        (results (watch (process printingJob "/m.zip/css2") ({}, archiveWorld nearArchive)))
        (causes, (exec (process printingJob "/m.zip/css2") ({}, archiveWorld nearArchive)).2) := by
  obtain ⟨causes, turns, -, -, -, -, hspared⟩ := process_inside_iff printingJob "/m.zip" "css2" nearArchive
    nearHeaders ({}, archiveWorld nearArchive) (by decide) (by decide) (by decide) (by decide) (by decide)
    (stat_archiveWorld _) (by decide +kernel) parse_nearArchive (by decide +kernel) rfl
  have hopen : ∀ h ∈ (sortByName (nearHeaders.filter
      (isVisited "css2" printingJob.extensions))).dropLast,
      canOpen nearArchive.toArray h = true := by decide +kernel
  have hbelow : sortByName (nearHeaders.filter
      (isBelow "css2" printingJob.extensions)) = nearHeaders.drop 1 := by decide +kernel
  have hnone : ∀ h ∈ nearHeaders, ¬ Beside "css2" printingJob.extensions h := by
    rw [← length_filter_isBelow_iff]
    decide +kernel
  refine ⟨stat_archiveWorld _, parse_nearArchive, causes, ?_⟩
  have hcounts := ((hspared (spares_printingJob _)).2 hopen).2 hnone
  rwa [hbelow] at hcounts

/-- The shorter name takes the entry of the longer one along, which is not below it. -/
theorem process_inside_takes_sibling :
    nearHeaders.filter (isBelow "css" printingJob.extensions) = nearHeaders.take 1 ∧
      results (watch (process printingJob "/m.zip/css") ({}, archiveWorld nearArchive)) =
        [.document "p\x7b\x7d", .document "q\x7b\x7d"] :=
  ⟨by decide +kernel, by decide +kernel⟩

end Job

end Restyle
