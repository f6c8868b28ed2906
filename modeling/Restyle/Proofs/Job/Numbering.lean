import Restyle.Proofs.Archive.Walk
import Restyle.Proofs.Files.Creation
import Restyle.Proofs.Job.Traces

/-!
# Every trace has a name of its own

A job that collects traces hands one to the report for every stylesheet that it can read and decode.  The
names of different sources may come out the same, so that a name is free rests on its number alone: the
count goes up before anything can fail, and nothing else in a run touches the count or the report.

`Visit.trace?` is what a visit hands to the report.  What it makes of the report is `handed`
(`progress_visit`), whether the name is free or not; that it is free is carried from visit to visit by
`Numbered`.  Then no refusal is among the causes for which a visit fails, for the others do not start as a
refusal does (`ordinary_visit`).

* `process_stores_fresh`: in a run on any source no trace is handed in under a name that is taken.
-/

namespace Restyle.Job

open Files

variable {j : Job} {s s' : State} {causes : Causes}

/-! ### Causes of failures -/

/-- None of the causes starts as a refusal does. -/
def Ordinary (causes : Causes) : Prop :=
  ∀ c ∈ causes, c.head? ≠ some 0x72

theorem Ordinary.not_mem (h : Ordinary causes) (e : Report.Refusal) : e.message ∉ causes := by
  intro he
  refine h _ he ?_
  cases e <;> rfl

theorem ordinary_nil : Ordinary [] := by
  intro c hc
  cases hc

/-- A message that begins with another letter is no refusal. -/
theorem ordinary_of_head {c : Bytes} {b : UInt8} (h : c.head? = some b) (hb : b ≠ 0x72) : Ordinary [c] := by
  intro c' hc
  obtain rfl := List.mem_singleton.1 hc
  rw [h]
  exact fun heq => hb (Option.some.inj heq)

/-- An output path that cannot be used is no refusal. -/
theorem ordinary_prepareOutput (j : Job) (path : Bytes) (s : State) :
    Ordinary (exec (prepareOutput j path) s).1 := by
  rw [prepareOutput, exec_bind, exec_stat]
  cases hstat : s.2.disk.stat path with
  | ok n =>
      simp only [Except.map]
      split
      · exact ordinary_nil
      · exact ordinary_of_head rfl (by decide)
  | error e =>
      simp only [Except.map]
      split
      · rw [exec_bind, exec_mkdirAll]
        dsimp only
        cases (s.2.disk.ensureDirs (Path.parent path)).2 with
        | ok => exact ordinary_nil
        | error e => exact ordinary_of_head rfl (by decide)
      · refine ordinary_of_head (b := 0x73) ?_ (by decide)
        rw [Failure.message, Disk.op_of_stat hstat]
        rfl

theorem ordinary_emit (j : Job) (source result : Bytes) (s : State)
    (h : (exec (emit j source result) s).1 = .error causes) : Ordinary causes := by
  unfold emit at h
  split at h
  · rw [writeStdout, exec_bind] at h
    split at h
    · cases h
    · cases h
      exact ordinary_of_head rfl (by decide)
  · rw [writeFile, exec_bind] at h
    have hprepared := ordinary_prepareOutput j
      (FileName.outputPath source j.destination j.settings.suffix j.transliterate) s
    generalize exec (prepareOutput j _) s = r at hprepared h
    obtain ⟨prepared, s₁⟩ := r
    cases prepared with
    | cons c prepared =>
        cases h
        exact hprepared
    | nil =>
        dsimp only at h
        rw [exec_bind] at h
        split at h
        · cases h
        · cases h
          exact ordinary_of_head rfl (by decide)

/-- A result is emitted, and then noted. -/
theorem emitted_spec (j : Job) (source result : Bytes) {x : Bytes → Script Unit}
    {note : Bytes → Run (StateM World) Unit}
    (hnote : ∀ place, Scripted (Request.Idle j.logFile?) (x place) (note place)) 
    (h : exec (do
      match ← emit j source result with
      | .error causes => return causes
      | .ok place =>
        note place
        return [] : Run (StateM World) Causes) s = (causes, s')) : s'.1 = s.1 ∧ Ordinary causes := by
  obtain ⟨emitted, s₁, hemit, h⟩ := exec_bind_eq_iff.1 h
  have hprogress := (unchecked_emit j source result).progress s
  rw [hemit] at hprogress
  cases emitted with
  | error causes =>
      cases h
      exact ⟨hprogress, ordinary_emit j source result s (congrArg Prod.fst hemit)⟩
  | ok place =>
      cases h
      exact ⟨((hnote place).progress s₁).trans hprogress, ordinary_nil⟩

/-! ### One stylesheet -/

/-- What a visit hands to the report, as a name and a text.  It comes to that unless the job has been
cancelled or the stylesheet cannot be read or decoded. -/
def Visit.trace? (j : Job) (v : Visit) : Option (Bytes × Bytes) :=
  if (exec Machine.isCancelled v.start).1 then none
  else
    match v.data with
    | .error _ => none
    | .ok data =>
      match decode j.settings.codePage data j.wide with
      | .error _ => none
      | .ok doc =>
        some (traceName (v.start.1.count + 1) v.source, trace v.source doc
          (Css.Pipeline.run (j.settings.steps.map fun s => (s.name : Bytes)) doc))

/-- The report, if there is one, after a trace has been handed in, if there is one.  A trace that is refused
leaves it as it was. -/
def handed : Option Report → Option (Bytes × Bytes) → Option Report
  | some r, some t => some ((r.addData t.1 t.2).toOption.getD r)
  | report, _ => report

theorem handed_none (report : Option Report) : handed report none = report := by
  cases report <;> rfl

/-- The count goes up even when nothing is handed in. -/
def Visit.after (j : Job) (v : Visit) : Progress where
  count := if (exec Machine.isCancelled v.start).1 then v.start.1.count else v.start.1.count + 1
  report := handed v.start.1.report (v.trace? j)

theorem progress_isCancelled (s : State) : (exec Machine.isCancelled s).2.1 = s.1 :=
  (Scripted.ask (P := fun _ => True) .isCancelled trivial).progress s

/-- A trace is handed to the report under the number of its stylesheet. -/
theorem progress_storeTrace (source text : Bytes) (s : State) :
    (exec (storeTrace source text) s).2.1 =
      ⟨s.1.count, handed s.1.report (some (traceName s.1.count source, text))⟩ := by
  obtain ⟨⟨count, report⟩, w⟩ := s
  have hget : exec (get : Run (StateM World) Progress) (⟨count, report⟩, w) =
      (⟨count, report⟩, ⟨count, report⟩, w) := rfl
  rw [storeTrace, exec_bind, hget]
  cases report with
  | none => rfl
  | some r =>
      dsimp only [handed]
      cases r.addData (traceName count source) text with
      | ok r' => rfl
      | error e => rfl

/-- A text that is formatted hands in its trace. -/
theorem progress_format (source doc : Bytes) (s : State) :
    (exec (format j source doc) s).2.1 = ⟨s.1.count, handed s.1.report
      (some (traceName s.1.count source, trace source doc
        (Css.Pipeline.run (j.settings.steps.map fun s => (s.name : Bytes)) doc)))⟩ := by
  rw [format, exec_bind, exec_bind]
  have hlogs := (logs_logAll j.log ((Css.Pipeline.run (j.settings.steps.map fun s =>
    (s.name : Bytes)) doc).flatMap (·.records (Css.Pipeline.logger j.log.name)))).progress s
  generalize (exec (j.log.logAll _) s).2 = s₁ at hlogs ⊢
  have hstored := progress_storeTrace source (trace source doc
    (Css.Pipeline.run (j.settings.steps.map fun s => (s.name : Bytes)) doc)) s₁
  rw [← hlogs]
  generalize exec (storeTrace source _) s₁ = r at hstored ⊢
  obtain ⟨causes, s₂⟩ := r
  rw [← hstored]
  cases causes with
  | cons c causes => rfl
  | nil =>
      dsimp only
      split
      · exact (emitted_spec j source _ (fun place => idle_log j _ _ _) rfl).1.trans
          ((idle_log j _ _ _).progress s₂)
      · exact (emitted_spec j source _ (fun place => idle_log j _ _ _) rfl).1

/-- **What a visit leaves**: one more stylesheet counted, and its trace handed in. -/
theorem progress_visit {v : Visit} (h : v.Made j) : v.stop.1 = v.after j := by
  have hcheck : (exec Machine.isCancelled v.start).2.1 = v.start.1 := progress_isCancelled v.start
  have hstop : v.stop.1 = (exec (sheet j v.data v.source) v.start).2.1 := by rw [h]
  rw [hstop]
  unfold sheet unlessCancelled Visit.after Visit.trace?
  rw [exec_bind]
  generalize exec Machine.isCancelled v.start = r at hcheck ⊢
  obtain ⟨cancelled, s₁⟩ := r
  cases cancelled with
  | true => rw [if_pos rfl, if_pos rfl, if_pos rfl, handed_none]; exact hcheck
  | false =>
      rw [if_neg Bool.false_ne_true, if_neg Bool.false_ne_true, if_neg Bool.false_ne_true, exec_bind, ← hcheck]
      cases v.data with
      | error e => rw [handed_none]; rfl
      | ok data =>
          dsimp only
          cases decode j.settings.codePage data j.wide with
          | error e => rw [handed_none]; rfl
          | ok doc => exact progress_format v.source doc _

/-- What is handed in has the next number. -/
theorem Visit.trace?_eq_some {v : Visit} {name text : Bytes} (h : v.trace? j = some (name, text)) :
    (exec Machine.isCancelled v.start).1 = false ∧ name = traceName (v.start.1.count + 1) v.source := by
  unfold trace? at h
  split at h
  · cases h
  · next hrun =>
      split at h
      · cases h
      · split at h
        · cases h
        · exact ⟨Bool.not_eq_true _ ▸ hrun, (congrArg Prod.fst (Option.some.inj h)).symm⟩

/-! ### Storing -/

/-- A report with traces added. -/
def withTraces (r : Report) (ts : List (Bytes × Bytes)) : Report :=
  { r with items := r.items ++ ts.map fun t => (t.1, { data := t.2 }) }

theorem withTraces_nil (r : Report) : withTraces r [] = r := by
  rw [withTraces, List.map_nil, List.append_nil]

/-- Traces are stored one after the other. -/
theorem withTraces_append (r : Report) (ts ts' : List (Bytes × Bytes)) :
    withTraces r (ts ++ ts') = withTraces (withTraces r ts) ts' := by
  rw [withTraces, withTraces, withTraces, List.map_append, List.append_assoc]

/-- If the visit hands in a trace the report has not got its name, and takes it.  Otherwise the report stays as
it is. -/
def Visit.Stores (j : Job) (v : Visit) : Prop :=
  ∃ r, v.start.1.report = some r ∧ (v.trace? j = none → v.stop.1.report = some r) ∧
    ∀ name text, v.trace? j = some (name, text) →
      r.get? name = none ∧ ∃ r', r.addData name text = .ok r' ∧ v.stop.1.report = some r'

/-- Where the trace is stored no cause is left that starts as a refusal does. -/
theorem ordinary_format (source doc : Bytes) (s : State) (hn : Numbered s.1.count s.1.report) :
    Ordinary (exec (format j source doc) s).1 := by
  rw [format, exec_bind, exec_bind]
  have hlogs := (logs_logAll j.log ((Css.Pipeline.run (j.settings.steps.map fun s =>
    (s.name : Bytes)) doc).flatMap (·.records (Css.Pipeline.logger j.log.name)))).progress s
  generalize (exec (j.log.logAll _) s).2 = s₁ at hlogs ⊢
  obtain ⟨report, hstored, -⟩ := exec_storeTrace source (trace source doc
    (Css.Pipeline.run (j.settings.steps.map fun s => (s.name : Bytes)) doc)) (s := s₁) (by rwa [hlogs])
  rw [hstored]
  dsimp only
  split
  · rw [exec_bind]
    exact (emitted_spec j source _ (fun place => idle_log j _ _ _) rfl).2
  · exact (emitted_spec j source _ (fun place => idle_log j _ _ _) rfl).2

/-- A visit under a free number fails for no refusal. -/
theorem ordinary_visit {v : Visit} (hmade : v.Made j)
    (hn : Numbered (v.start.1.count + 1) v.start.1.report) : Ordinary v.causes := by
  have hcheck : (exec Machine.isCancelled v.start).2.1 = v.start.1 := progress_isCancelled v.start
  have hcauses : v.causes = (exec (sheet j v.data v.source) v.start).1 := by rw [hmade]
  rw [hcauses]
  unfold sheet unlessCancelled
  rw [exec_bind]
  generalize exec Machine.isCancelled v.start = r at hcheck ⊢
  obtain ⟨stop, s₁⟩ := r
  cases stop with
  | true => exact ordinary_of_head rfl (by decide)
  | false =>
      rw [if_neg Bool.false_ne_true, exec_bind]
      cases v.data with
      | error e => exact ordinary_of_head rfl (by decide)
      | ok data =>
          dsimp only
          cases decode j.settings.codePage data j.wide with
          | error e => exact ordinary_of_head rfl (by decide)
          | ok doc =>
              rw [← hcheck] at hn
              exact ordinary_format v.source doc _ hn

/-- **A visit finds its name free, and leaves the next one free.** -/
theorem Numbered.visit {v : Visit} {r : Report} (hmade : v.Made j) (hr : v.start.1.report = some r)
    (h : Numbered (v.start.1.count + 1) (some r)) :
    v.Stores j ∧ v.stop.1.report = some (withTraces r (v.trace? j).toList) ∧
      Numbered (v.stop.1.count + 1) v.stop.1.report := by
  have hstop : v.stop.1 = v.after j := progress_visit hmade
  cases ht : v.trace? j with
  | none =>
      have hreport : v.stop.1.report = some r := by rw [hstop, Visit.after, ht, handed_none, hr]
      refine ⟨⟨r, hr, fun _ => hreport, fun name text hsome => ?_⟩, ?_, ?_⟩
      · cases ht.symm.trans hsome
      · rw [hreport, Option.toList_none, withTraces_nil]
      · rw [hreport]
        refine h.mono ?_
        rw [hstop, Visit.after]
        dsimp only
        split <;> omega
  | some t =>
      obtain ⟨name, text⟩ := t
      obtain ⟨hrun, rfl⟩ := Visit.trace?_eq_some ht
      have hfree := h.get?_eq_none v.source
      have hadd : r.addData (traceName (v.start.1.count + 1) v.source) text =
          .ok (r.add (traceName (v.start.1.count + 1) v.source) { data := text }) := by
        rw [Report.addData, hfree]
      have hreport : v.stop.1.report =
          some (r.add (traceName (v.start.1.count + 1) v.source) { data := text }) := by
        rw [hstop, Visit.after, ht, hr, handed, hadd]
        rfl
      have hcount : v.stop.1.count = v.start.1.count + 1 := by
        rw [hstop, Visit.after, hrun]
        rfl
      refine ⟨⟨r, hr, fun hnone => ?_, fun name text' hsome => ?_⟩, hreport, ?_⟩
      · cases ht.symm.trans hnone
      · cases ht.symm.trans hsome
        exact ⟨hfree, _, hadd, hreport⟩
      · rw [hreport, hcount]
        exact h.add v.source _

/-! ### Whole runs -/

/-- **Every trace of a run is stored**, each under a name that is free when it is handed in. -/
theorem Course.stores {vs : List Visit} (h : Course j s vs s') {r : Report} (hr : s.1.report = some r)
    (hn : Numbered (s.1.count + 1) s.1.report) :
    (∀ v ∈ vs, v.Stores j ∧ Ordinary v.causes) ∧
      s'.1.report = some (withTraces r (vs.filterMap (Visit.trace? j))) := by
  induction h generalizing r with
  | idle h =>
      refine ⟨(fun v hv => by cases hv), ?_⟩
      rw [h.1, hr, List.filterMap_nil, withTraces_nil]
  | @visit s s' v vs h hmade _ ih =>
      rw [← h.1] at hr hn
      obtain ⟨hstores, hreport, hn'⟩ := (hr ▸ hn).visit hmade hr
      obtain ⟨hall, hend⟩ := ih hreport hn'
      refine ⟨List.forall_mem_cons.2 ⟨⟨hstores, ordinary_visit hmade hn⟩, hall⟩, ?_⟩
      rw [hend, ← withTraces_append]
      cases ht : v.trace? j with
      | none => rw [List.filterMap_cons_none ht]; rfl
      | some t => rw [List.filterMap_cons_some ht]; rfl

/-- **No trace is refused.**  A job on any source, in any world, with a report that holds nothing under
`trace/`, makes its visits one after the other.  Whatever failed before it, a visit that hands a trace to the
report does so under a name that the report does not have, and the report takes it; one that does not leaves
the report as it is.  So none fails because of a refusal, and when the run is over the report has got the
traces of its visits in their order, and nothing else. -/
theorem process_stores_fresh (j : Job) (source : Bytes) (w : World) (r : Report)
    (hnames : ∀ i ∈ r.items, ¬ ("trace/" : Bytes) <+: i.1) :
    let vs := visits j source ({ report := some r }, w)
    let ran := exec (process j source) ({ report := some r }, w)
    Course j ({ report := some r }, w) vs ran.2 ∧
      (∀ v ∈ vs, v.Stores j ∧ ∀ e : Report.Refusal, e.message ∉ v.causes) ∧
      ran.2.1.report = some (withTraces r (vs.filterMap (Visit.trace? j))) := by
  intro vs ran
  have hcourse : Course j ({ report := some r }, w) vs ran.2 := course_process j source _
  have hnumbered : Numbered 1 (some r) := by
    rintro r' ⟨⟩ i hi n source' hn
    refine absurd ?_ (hnames i hi)
    rw [hn, traceName, List.append_assoc, List.append_assoc, List.append_assoc]
    exact List.prefix_append _ _
  obtain ⟨hall, hend⟩ := hcourse.stores rfl hnumbered
  exact ⟨hcourse, fun v hv => ⟨(hall v hv).1, (hall v hv).2.not_mem⟩, hend⟩

/-- Two stylesheets whose paths come out as one name, and one between them whose result cannot be written. -/
def flatWorld : World where
  disk := {
    nodes := [(["in.zip"], .file (Archive.encodeItems [.stored "a/b.css" "p\x7b\x7d",
        .stored "a/c.css" "r\x7b\x7d", .stored "a_b.css" "q\x7b\x7d"])),
      (["out"], .dir), (["out", "a"], .dir), (["out", "a", "c.css"], .file "kept")]
    workDir := some [] }
  tempDir := "/tmp"

/-- A job that writes below a directory. -/
def flatJob : Job where
  settings := { steps := [.minify] }
  extensions := [".css"]
  transliterate := false
  log := { sink := .discarded }
  destination := "/out"

/-- A report that has a configuration already. -/
def flatReport : Report where
  items := [("config/c.yaml", { data := "version: 1\n" })]
  name := "/report.zip"
  place := ["report.zip"]

/-- All three hand in their traces, and the report has them when the run is over. -/
theorem process_stores_fresh_flat :
    let vs := visits flatJob "/in.zip" ({ report := some flatReport }, flatWorld)
    let ran := exec (process flatJob "/in.zip") ({ report := some flatReport }, flatWorld)
    let failure : Bytes := "output file already exists: /out/a/c.css"
    let names : List Bytes := ["trace/0001-a_b.css.txt", "trace/0002-a_c.css.txt", "trace/0003-a_b.css.txt"]
    (∀ i ∈ flatReport.items, ¬ ("trace/" : Bytes) <+: i.1) ∧
      vs.map Visit.causes = [[], [failure], []] ∧
      (vs.filterMap (Visit.trace? flatJob)).map Prod.fst = names ∧
      ran.2.1.report.map (fun r => r.items.map Prod.fst) = some (("config/c.yaml" : Bytes) :: names) := by
  intro vs ran failure names
  have hnames : ∀ i ∈ flatReport.items, ¬ ("trace/" : Bytes) <+: i.1 := by decide
  have hcauses : vs.map Visit.causes = [[], [failure], []] := by decide +kernel
  have htraces : (vs.filterMap (Visit.trace? flatJob)).map Prod.fst = names := by decide +kernel
  obtain ⟨-, -, hend⟩ := process_stores_fresh flatJob "/in.zip" flatWorld flatReport hnames
  refine ⟨hnames, hcauses, htraces, ?_⟩
  rw [hend, Option.map_some, withTraces, List.map_append, List.map_map, ← htraces]
  rfl

end Restyle.Job
