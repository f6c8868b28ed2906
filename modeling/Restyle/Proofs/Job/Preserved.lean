import Restyle.Proofs.Archive.Walk
import Restyle.Proofs.Files.Creation
import Restyle.Proofs.Job.Visits

/-!
# Nothing is overwritten

A job that may not overwrite looks for a file at the path of a result, makes the directories above the
path, and writes.  Other visits come before and after, and their results may have the same path, or another
path that symbolic links lead to the same place.

`Tried` says what an attempt has done to a disk: it has grown, and if the attempt has not failed there
was nothing at the path before and there is the result now.  That stays true when the disk before is
taken from an earlier time and the disk after from a later one (`Tried.mono`), so each visit of a run
can be looked at as if it were the run (`Course.tried`).

* `process_preserves`: a run keeps every file that was there and every result that it has written, and
  reports a failure wherever there was something at the path of a result.
-/

namespace Restyle

open Files

namespace Job

variable {j : Job} {log : Option Place} {d d' d'' : Disk} {path : Bytes} {r? : Option Bytes}
  {causes : Causes} {s s' : State}

/-- The path of the result of a source. -/
def outputPath (j : Job) (source : Bytes) : Bytes :=
  FileName.outputPath source j.destination j.settings.suffix j.transliterate

/-- What the pipeline makes of data that can be read and decoded. -/
def result? (j : Job) (data : Except Bytes Bytes) : Option Bytes :=
  match data with
  | .error _ => none
  | .ok data =>
    match decode j.settings.codePage data j.wide with
    | .error _ => none
    | .ok doc =>
      some (Css.Pipeline.result doc
        (Css.Pipeline.run (j.settings.steps.map fun s => (s.name : Bytes)) doc))

/-- Output paths are clean and absolute. -/
theorem exists_outputPath (hdest : Path.isAbsolute j.destination = true) (source : Bytes) :
    ∃ cs, (∀ c ∈ cs, Path.IsName c) ∧ j.outputPath source = Path.ofComponents true cs :=
  Path.exists_join hdest _

theorem isAbsolute_outputPath (hdest : Path.isAbsolute j.destination = true) (source : Bytes) :
    Path.isAbsolute (j.outputPath source) = true := by
  obtain ⟨cs, -, hpath⟩ := exists_outputPath hdest source
  rw [hpath]
  rfl

/-- Every node stands in a directory, and the log is one of them. -/
structure Sound (log : Option Place) (d : Disk) : Prop where
  isTree : d.IsTree
  log_open : ∀ q, log = some q → d.get? q ≠ none

/-- A sound disk stays sound when it grows. -/
theorem Sound.grows (h : Sound log d) (hg : d.Grows log d') : Sound log d' := by
  refine ⟨hg.isTree h.isTree, fun q hq => ?_⟩
  obtain ⟨n, hn⟩ := Option.ne_none_iff_exists'.1 (h.log_open q hq)
  obtain ⟨n', hn'⟩ := hg.exists_get? hn
  simp [hn']

/-! ### One attempt -/

/-- An attempt at a file: nothing is lost, and if it has not failed there was nothing at the path and the
result is there now, at a place that was free. -/
structure Tried (log : Option Place) (path : Bytes) (r? : Option Bytes) (d d' : Disk) (causes : Causes) :
    Prop where
  grows : d.Grows log d'
  done : causes = [] → (∀ n, d.stat path ≠ .ok n) ∧ ∃ result p, r? = some result ∧ d.get? p = none ∧
    d'.locate true path = .ok (.taken p (.file result))

/-- What failed may have done nothing but let the disk grow. -/
theorem Tried.failed (hg : d.Grows log d') (hne : causes ≠ []) : Tried log path r? d d' causes :=
  ⟨hg, fun h => absurd h hne⟩

/-- What is missing now was missing before. -/
theorem stat_ne_ok_of_grows (hg : d.Grows log d') (habs : Path.isAbsolute path = true)
    (h : ∀ n, d'.stat path ≠ .ok n) (n : Node) : d.stat path ≠ .ok n := by
  intro hn
  obtain ⟨q, hq⟩ := Disk.stat_eq_ok_iff.1 hn
  obtain ⟨n', hn', -⟩ := hg.locate habs hq
  exact h n' (Disk.stat_eq_ok_iff.2 ⟨q, hn'⟩)

/-- **An attempt is the same from earlier to later.**  What it has made is not the log, which was there
before. -/
theorem Tried.mono {d₀ : Disk} (h : Tried log path r? d d' causes) (hs : Sound log d₀)
    (hd : d₀.Grows log d) (hd' : d'.Grows log d'') (habs : Path.isAbsolute path = true) :
    Tried log path r? d₀ d'' causes := by
  refine ⟨hd.trans (h.grows.trans hd'), fun hc => ?_⟩
  obtain ⟨hstat, result, p, hr, hp, hl⟩ := h.done hc
  have hp₀ : d₀.get? p = none := hd.get?_eq_none hp
  refine ⟨stat_ne_ok_of_grows hd habs hstat, result, p, hr, hp₀, ?_⟩
  exact hd'.locate_eq habs hl fun heq => hs.log_open p heq hp₀

/-! ### Writing -/

/-- A path that is prepared led nowhere. -/
theorem prepareOutput_spec (log : Option Place) (hover : j.settings.overwrite = false)
    {cs : List Bytes} (hcs : ∀ c ∈ cs, Path.IsName c) (ht : s.2.disk.IsTree)
    (h : exec (prepareOutput j (Path.ofComponents true cs)) s = (causes, s')) :
    s.2.disk.Grows log s'.2.disk ∧ (causes = [] →
      (∀ n, s.2.disk.stat (Path.ofComponents true cs) ≠ .ok n) ∧
        s.2.disk.ensureDirs (Path.parent (Path.ofComponents true cs)) = (s'.2.disk, .ok ())) := by
  rw [prepareOutput, exec_bind, exec_stat] at h
  cases hstat : s.2.disk.stat (Path.ofComponents true cs) with
  | ok n =>
      simp only [hstat, Except.map, hover, Bool.false_eq_true, if_false] at h
      cases h
      exact ⟨.refl log _, fun hc => by cases hc⟩
  | error e =>
      simp only [hstat, Except.map] at h
      split at h
      · obtain ⟨cs', hcs', hparent⟩ := Path.exists_parent hcs
        rw [exec_bind, exec_mkdirAll, hparent] at h
        rw [hparent]
        rcases hdirs : s.2.disk.ensureDirs (Path.ofComponents true cs') with ⟨d, made⟩
        have hg : s.2.disk.Grows log d := (Disk.ensureDirs_spec log hcs' ht hdirs).1
        rw [hdirs] at h
        cases made with
        | error e =>
            cases h
            exact ⟨hg, fun hc => by cases hc⟩
        | ok =>
            cases h
            exact ⟨hg, fun _ => ⟨by simp, rfl⟩⟩
      · cases h
        exact ⟨.refl log _, fun hc => by cases hc⟩

/-- **A file is written** in a place that was free, and nothing else changes. -/
theorem write_spec (log : Option Place) {cs : List Bytes} (hcs : ∀ c ∈ cs, Path.IsName c)
    (ht : d.IsTree) (hstat : ∀ n, d.stat (Path.ofComponents true cs) ≠ .ok n)
    (hdirs : d.ensureDirs (Path.parent (Path.ofComponents true cs)) = (s.2.disk, .ok ()))
    {data : Bytes} {r : Except Failure Unit}
    (h : exec (Machine.write (Path.ofComponents true cs) data) s = (r, s')) :
    d.Grows log s'.2.disk ∧ (r = .ok () → ∃ p, d.get? p = none ∧
      s'.2.disk.locate true (Path.ofComponents true cs) = .ok (.taken p (.file data))) := by
  rw [Machine.write, exec_bind, exec_openFile] at h
  cases hopen : s.2.disk.openFile false (Path.ofComponents true cs) with
  | error e =>
      simp only [hopen] at h
      cases h
      obtain ⟨cs', hcs', hparent⟩ := Path.exists_parent hcs
      rw [hparent] at hdirs
      exact ⟨(Disk.ensureDirs_spec log hcs' ht hdirs).1, fun hr => by cases hr⟩
  | ok opened =>
      obtain ⟨d₁, p⟩ := opened
      obtain ⟨d₂, hext, hg, hp, hl⟩ := Disk.openFile_ensureDirs log hcs ht hstat hdirs hopen data
      simp only [hopen, exec_bind, exec_extend, hext] at h
      cases h
      exact ⟨hg, fun _ => ⟨p, hp, hl⟩⟩

/-- A result is written to a free path, or its writing has failed. -/
theorem tried_writeFile (log : Option Place) (hover : j.settings.overwrite = false)
    (hdest : Path.isAbsolute j.destination = true) (ht : s.2.disk.IsTree) {source result : Bytes}
    {r : Except Causes Bytes} (h : exec (writeFile j source result) s = (r, s')) :
    (∃ causes, r = .error causes ∧ causes ≠ [] ∧ s.2.disk.Grows log s'.2.disk) ∨
      (∃ place, r = .ok place) ∧
        Tried log (j.outputPath source) (some result) s.2.disk s'.2.disk [] := by
  obtain ⟨cs, hcs, hpath⟩ := exists_outputPath hdest source
  obtain ⟨causes, t, hprep, h⟩ := exec_bind_eq_iff.1 h
  change exec (prepareOutput j (j.outputPath source)) s = (causes, t) at hprep
  rw [hpath] at hprep ⊢
  obtain ⟨hg, hready⟩ := prepareOutput_spec log hover hcs ht hprep
  cases causes with
  | cons c causes =>
      cases h
      exact .inl ⟨_, rfl, List.cons_ne_nil _ _, hg⟩
  | nil =>
      obtain ⟨hstat, hdirs⟩ := hready rfl
      obtain ⟨w, u, hwrite, h⟩ := exec_bind_eq_iff.1 h
      change exec (Machine.write (j.outputPath source) result) t = (w, u) at hwrite
      rw [hpath] at hwrite
      obtain ⟨hg, hdone⟩ := write_spec log hcs ht hstat hdirs hwrite
      cases w with
      | error e =>
          cases h
          exact .inl ⟨_, rfl, List.cons_ne_nil _ _, hg⟩
      | ok =>
          cases h
          obtain ⟨p, hp, hl⟩ := hdone rfl
          exact .inr ⟨⟨_, rfl⟩, hg, fun _ => ⟨hstat, result, p, rfl, hp, hl⟩⟩

/-! ### Processing -/

/-- Requests that only log let the disk grow. -/
theorem grows_of_idle {α : Type} {x : Script α} {y : Run (StateM World) α}
    (hy : Scripted (Request.Idle log) x y) {a : α} (h : exec y s = (a, s')) :
    s.2.disk.Grows log s'.2.disk := by
  have hg := (hy.idles s).2.grows
  rwa [h] at hg

theorem storeTrace_world {source text : Bytes} (h : exec (storeTrace source text) s = (causes, s')) :
    s'.2 = s.2 := by
  obtain ⟨p, t, hget, h⟩ := exec_bind_eq_iff.1 h
  cases hget
  split at h
  · cases h
    rfl
  · split at h
    · cases h
      rfl
    · cases h
      rfl

section

variable (hover : j.settings.overwrite = false) (hout : j.settings.toStdout = false)
  (hdest : Path.isAbsolute j.destination = true)

include hover hout hdest

/-- A result is written, and what is noted about it afterwards changes nothing. -/
theorem tried_emit (hs : Sound j.logFile? s.2.disk) {source result : Bytes}
    {x : Bytes → Script Unit} {note : Bytes → Run (StateM World) Unit}
    (hnote : ∀ place, Scripted (Request.Idle j.logFile?) (x place) (note place))
    (h : exec (do
      match ← emit j source result with
      | .error causes => return causes
      | .ok place =>
        note place
        return []) s = (causes, s')) :
    Tried j.logFile? (j.outputPath source) (some result) s.2.disk s'.2.disk causes := by
  obtain ⟨r, s₁, hemit, h⟩ := exec_bind_eq_iff.1 h
  rw [emit, hout, if_neg Bool.false_ne_true] at hemit
  rcases tried_writeFile j.logFile? hover hdest hs.isTree hemit with
    ⟨causes, rfl, hne, hg⟩ | ⟨⟨place, rfl⟩, htried⟩
  · cases h
    exact .failed hg hne
  · obtain ⟨_, s₂, hnoted, h⟩ := exec_bind_eq_iff.1 h
    cases h
    exact htried.mono hs (.refl _ _) (grows_of_idle (hnote place) hnoted) (isAbsolute_outputPath hdest source)

/-- A text is formatted, and its result written to a free path, or it has failed. -/
theorem tried_format (hs : Sound j.logFile? s.2.disk) {source doc : Bytes}
    (h : exec (format j source doc) s = (causes, s')) :
    Tried j.logFile? (j.outputPath source) (some (Css.Pipeline.result doc
      (Css.Pipeline.run (j.settings.steps.map fun s => (s.name : Bytes)) doc)))
      s.2.disk s'.2.disk causes := by
  obtain ⟨_, s₁, hlogs, h⟩ := exec_bind_eq_iff.1 h
  obtain ⟨stored, s₂, hstore, h⟩ := exec_bind_eq_iff.1 h
  have hg : s.2.disk.Grows j.logFile? s₂.2.disk := by
    rw [storeTrace_world hstore]
    exact grows_of_idle ((logs_logAll j.log _).mono fun _ => Request.Logs.idle) hlogs
  cases stored with
  | cons c stored =>
      cases h
      exact .failed hg (List.cons_ne_nil _ _)
  | nil =>
      have habs := isAbsolute_outputPath hdest source
      dsimp only at h
      split at h
      · obtain ⟨_, s₃, hwarn, h⟩ := exec_bind_eq_iff.1 h
        have hg₃ := hg.trans (grows_of_idle (idle_log j _ _ _) hwarn)
        have htried := tried_emit hover hout hdest (hs.grows hg₃) (fun place => idle_log j _ _ _) h
        exact htried.mono hs hg₃ (.refl _ _) habs
      · have htried := tried_emit hover hout hdest (hs.grows hg) (fun place => idle_log j _ _ _) h
        exact htried.mono hs hg (.refl _ _) habs

/-- **One stylesheet.**  Whatever was read, the attempt keeps what is there. -/
theorem tried_sheet (hs : Sound j.logFile? s.2.disk) {data : Except Bytes Bytes} {source : Bytes}
    (h : exec (sheet j data source) s = (causes, s')) :
    Tried j.logFile? (j.outputPath source) (j.result? data) s.2.disk s'.2.disk causes := by
  obtain ⟨stop, s₁, hcheck, h⟩ := exec_bind_eq_iff.1 h
  have hg : s.2.disk.Grows j.logFile? s₁.2.disk := grows_of_idle (.ask .isCancelled trivial) hcheck
  cases stop with
  | true =>
      cases h
      exact .failed hg (List.cons_ne_nil _ _)
  | false =>
      obtain ⟨_, s₂, hcount, h⟩ := exec_bind_eq_iff.1 h
      have hg : s.2.disk.Grows j.logFile? s₂.2.disk := by
        obtain rfl : s₂ = ({ s₁.1 with count := s₁.1.count + 1 }, s₁.2) :=
          (congrArg Prod.snd hcount).symm
        exact hg
      cases data with
      | error e =>
          cases h
          exact .failed hg (List.cons_ne_nil _ _)
      | ok data =>
          dsimp only at h
          split at h
          · cases h
            exact .failed hg (List.cons_ne_nil _ _)
          · next doc hdoc =>
              simp only [result?, hdoc]
              have htried := tried_format hover hout hdest (hs.grows hg) h
              exact htried.mono hs hg (.refl _ _) (isAbsolute_outputPath hdest source)

/-! ### Whole runs -/

/-- **Every visit of a run**, seen from its beginning to its end, and no two that succeed at one path. -/
theorem Course.tried {vs : List Visit} (h : Course j s vs s') (hs : Sound j.logFile? s.2.disk) :
    s.2.disk.Grows j.logFile? s'.2.disk ∧
      (∀ v ∈ vs, Tried j.logFile? (j.outputPath v.source) (j.result? v.data) s.2.disk s'.2.disk
        v.causes) ∧
      vs.Pairwise fun a b => j.outputPath a.source = j.outputPath b.source → a.causes = [] →
        b.causes ≠ [] := by
  induction h with
  | idle h => exact ⟨h.2.grows, by simp, .nil⟩
  | @visit s s' v vs h hmade _ ih =>
      have hg₁ := h.2.grows
      have htried := tried_sheet hover hout hdest (hs.grows hg₁) hmade
      obtain ⟨hg₂, hall, honce⟩ := ih (hs.grows (hg₁.trans htried.grows))
      refine ⟨hg₁.trans (htried.grows.trans hg₂), ?_, ?_⟩
      · intro b hb
        rcases List.mem_cons.1 hb with rfl | hb
        · exact htried.mono hs hg₁ hg₂ (isAbsolute_outputPath hdest _)
        · exact (hall b hb).mono hs (hg₁.trans htried.grows) (.refl _ _) (isAbsolute_outputPath hdest _)
      · refine List.pairwise_cons.2 ⟨fun b hb hpath ha hbc => ?_, honce⟩
        -- the result of the first is at the path when the second comes
        obtain ⟨-, result, p, -, -, hl⟩ := htried.done ha
        rw [hpath] at hl
        exact ((hall b hb).done hbc).1 _ (Disk.stat_eq_ok_iff.2 ⟨p, hl⟩)

end

/-- **Nothing that exists is overwritten.**  A job that may not overwrite and writes to files, on any source,
leaves every node of the disk as it was, unless it has a log file; that is then the only one that changes, and
it gets longer at most.  Of the visits of the run, which it makes one after the other and whose failures it
all tells,

* one that has not failed has left its result, which is at its path when the run is over;
* one has failed if there was something at its path when the run began;
* of two with one path, the second has failed if the first has not. -/
theorem process_preserves (j : Job) (source : Bytes) (hover : j.settings.overwrite = false)
    (hout : j.settings.toStdout = false) (hdest : Path.isAbsolute j.destination = true)
    (s : State) (hs : Sound j.logFile? s.2.disk) :
    let vs := visits j source s
    let ran := exec (process j source) s
    (j.logFile? = none → ∀ q n, s.2.disk.get? q = some n → ran.2.2.disk.get? q = some n) ∧
      (∀ q n, s.2.disk.get? q = some n → ran.2.2.disk.get? q = some n ∨
        j.logFile? = some q ∧ ∃ old more, n = .file old ∧
          ran.2.2.disk.get? q = some (.file (old ++ more))) ∧
      Course j s vs ran.2 ∧ Tells ran.1 (vs.flatMap Visit.causes) ∧
      (∀ v ∈ vs, v.causes = [] → ∃ result, j.result? v.data = some result ∧
        ran.2.2.disk.read (j.outputPath v.source) = .ok result) ∧
      (∀ v ∈ vs, (∃ n, s.2.disk.stat (j.outputPath v.source) = .ok n) → v.causes ≠ []) ∧
      vs.Pairwise fun a b => j.outputPath a.source = j.outputPath b.source → a.causes = [] →
        b.causes ≠ [] := by
  intro vs ran
  have hcourse : Course j s vs ran.2 := course_process j source s
  obtain ⟨hg, hall, honce⟩ := hcourse.tried hover hout hdest hs
  refine ⟨fun hlog q n hn => ?_, hg.kept, hcourse, tells_process j source s, ?_, ?_, honce⟩
  · refine (hg.kept q n hn).resolve_right ?_
    rintro ⟨hq, -⟩
    rw [hlog] at hq
    cases hq
  · intro v hv hc
    obtain ⟨-, result, p, hresult, -, hl⟩ := (hall v hv).done hc
    exact ⟨result, hresult, by rw [Disk.read, hl]⟩
  · rintro v hv ⟨n, hn⟩ hc
    exact ((hall v hv).done hc).1 n hn

/-- An archive of three stylesheets, two of which have one name for their results, and a result that is
there. -/
def twinWorld : World where
  disk := {
    nodes := [(["in.zip"], .file (Archive.encodeItems [.stored "a.css" "p\x7b\x7d",
        .stored "a.scss" "q\x7b\x7d", .stored "b.css" "r\x7b\x7d"])),
      (["out"], .dir), (["out", "b.css"], .file "kept")]
    workDir := some [] }
  tempDir := "/tmp"

/-- A job that writes two extensions to one. -/
def twinJob : Job where
  settings := { steps := [.minify] }
  extensions := [".css", ".scss"]
  transliterate := false
  log := { sink := .discarded }
  destination := "/out"

/-- The first of the two is kept, and both failures are told. -/
theorem process_preserves_twins :
    let vs := visits twinJob "/in.zip" ({}, twinWorld)
    let ran := exec (process twinJob "/in.zip") ({}, twinWorld)
    let failures : List Bytes :=
      ["output file already exists: /out/a.css", "output file already exists: /out/b.css"]
    vs.map Visit.source = ["a.css", "a.scss", "b.css"] ∧
      vs.map Visit.causes = [] :: failures.map ([·]) ∧ Tells ran.1 failures ∧
      ran.2.2.disk.get? ["out", "b.css"] = some (.file "kept") ∧
      ran.2.2.disk.read "/out/a.css" = .ok "p\x7b\x7d" := by
  intro vs ran failures
  have hsources : vs.map Visit.source = ["a.css", "a.scss", "b.css"] := by decide +kernel
  have hcauses : vs.map Visit.causes = [] :: failures.map ([·]) := by decide +kernel
  have hsound : Sound twinJob.logFile? twinWorld.disk := ⟨by decide +kernel, fun q hq => by cases hq⟩
  obtain ⟨hkept, -, -, htells, -⟩ :=
    process_preserves twinJob "/in.zip" rfl rfl (by decide) ({}, twinWorld) hsound
  refine ⟨hsources, hcauses, ?_, hkept rfl _ _ (by decide +kernel), by decide +kernel⟩
  rwa [show List.flatMap Visit.causes _ = _ from List.flatMap_def, hcauses] at htells

end Job

end Restyle
