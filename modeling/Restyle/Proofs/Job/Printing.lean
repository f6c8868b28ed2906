import Restyle.Proofs.Files.Listing
import Restyle.Proofs.Job.Inside
import Restyle.Proofs.Job.Traces

/-!
# Jobs that print

A job that prints its results changes the machine in a few ways only: its log gets longer, more has been
printed, and the report has more traces.  None of this is seen by what comes later.  A state is *steady*
over a disk (`Steady`) when nothing but the log has been added to on that disk, whatever is printed fits,
no check fails and the next trace has a new name; a job that prints goes from steady states to steady
states.

`Gives` is the judgement that a part of a job does the same from all steady states, with a postcondition
for what it returns and one list of results.  What is emitted is moreover the same under whatever name a
stylesheet is processed, and so is whether it fails (`Prints`).

* `prints_archive` and `prints_file`: an archive and a file come to what is in them and nothing else.
-/

namespace Restyle

open Files

/-! ### What a log changes -/

/-- All is written to a stream without bound. -/
theorem Stream.write_unbounded {s : Stream} (h : s.bound = none) (data : Bytes) :
    s.write data = ({ s with text := s.text ++ data }, none) := by
  rw [write, h]

theorem Stream.writeAll_unbounded {s : Stream} (h : s.bound = none) (pieces : List Bytes) :
    s.writeAll pieces = ({ s with text := s.text ++ pieces.flatten }, none) := by
  induction pieces generalizing s with
  | nil => simp [writeAll]
  | cons data pieces ih =>
      rw [writeAll, write_unbounded h]
      dsimp only
      rw [ih (s := { s with text := s.text ++ data }) h, List.flatten_cons, List.append_assoc]

/-- The same places are taken, and as before everything fits that is printed. -/
structure World.Kept (w w' : World) : Prop where
  places : w'.disk.nodes.map Prod.fst = w.disk.nodes.map Prod.fst
  bound : w.output.bound = none → w'.output.bound = none

theorem World.Kept.trans {w w' w'' : World} (h : w.Kept w') (h' : w'.Kept w'') : w.Kept w'' :=
  ⟨h'.places.trans h.places, h'.bound ∘ h.bound⟩

/-- Logging takes no new place, and all that is printed still fits. -/
theorem Request.kept_perform {log : Option Place} {r : Request} (hr : r.Logs log) (w : World) :
    w.Kept (r.perform w).2 := by
  cases r with
  | print text =>
      refine ⟨rfl, fun h => ?_⟩
      change (w.output.write text).1.bound = none
      rw [Stream.write_unbounded h]
      exact h
  | extend place data =>
      change w.Kept (Job.exec (Machine.extend place data) ({}, w)).2.2
      rw [Job.exec_extend]
      split
      · exact ⟨rfl, id⟩
      · next d hd => exact ⟨Disk.places_extend hd, id⟩
  | printError _ | keep _ | hostText _ => exact ⟨rfl, id⟩
  | _ => cases hr

theorem Script.Only.kept_perform {α : Type} {log : Option Place} {x : Script α} (h : x.Only (Request.Logs log))
    (w : World) : w.Kept (x.perform w).2 := by
  induction x generalizing w with
  | done a => exact ⟨rfl, id⟩
  | ask r next ih => exact (Request.kept_perform h.1 w).trans (ih _ (h.2 _) _)

namespace Job

variable {α β : Type}

/-! ### Steady states -/

/-- Over a disk only the log has been added to, whatever is printed fits, no check fails, and the numbers
of traces are below that of the stylesheet `ahead` of the last one. -/
structure Steady (log : Option Place) (base : Disk) (ahead : Nat) (s : State) : Prop where
  checks : s.2.checks = none
  bound : s.2.output.bound = none
  numbered : Numbered (s.1.count + ahead) s.1.report
  later : base.Later log s.2.disk

/-- From every steady state a part of a job emits the same, what it returns satisfies `P`, and it leaves a
steady state. -/
def Gives (j : Job) (base : Disk) (ahead ahead' : Nat) (x : Run Script α) (P : α → Prop)
    (rs : List Result) : Prop :=
  ∀ s, Steady j.logFile? base ahead s →
    EmitsAt s x fun r rs' => P r.1 ∧ rs' = rs ∧ Steady j.logFile? base ahead' r.2

namespace Gives

variable {j : Job} {base : Disk} {k k' k'' : Nat} {x : Run Script α} {f : α → Run Script β}
  {P P' : α → Prop} {Q : β → Prop} {rs rs' : List Result}

theorem pure {a : α} (h : P a) : Gives j base k k (pure a) P [] :=
  fun _ hs => .pure hs.checks ⟨h, rfl, hs⟩

/-- A number may be left out. -/
theorem skip {a : α} (h : P a) : Gives j base k (k + 1) (Pure.pure a) P [] := by
  intro s hs
  exact .pure hs.checks ⟨h, rfl, hs.checks, hs.bound, hs.numbered.mono (Nat.le_succ _), hs.later⟩

/-- Parts give their results in order. -/
theorem bind (hx : Gives j base k k' x P rs) (hf : ∀ a, P a → Gives j base k' k'' (f a) Q rs') :
    Gives j base k k'' (x >>= f) Q (rs ++ rs') := by
  intro s hs
  have hx := hx s hs
  obtain ⟨ha, hrs, ht⟩ := hx.post
  have hf := hf _ ha _ ht
  refine .bind hx.self ⟨hf.checks, hf.whole, hf.post.1, ?_, hf.post.2.2⟩
  rw [hrs, hf.post.2.1]

theorem mono (hx : Gives j base k k' x P rs) (h : ∀ a, P a → P' a) : Gives j base k k' x P' rs := by
  intro s hs
  have hx := hx s hs
  exact ⟨hx.checks, hx.whole, h _ hx.post.1, hx.post.2⟩

/-- Nothing is emitted first. -/
theorem after (hx : Gives j base k k' x P []) (hf : ∀ a, P a → Gives j base k' k'' (f a) Q rs) :
    Gives j base k k'' (x >>= f) Q rs :=
  hx.bind hf

/-- Nothing is emitted any more. -/
theorem andThen (hx : Gives j base k k' x P rs) (hf : ∀ a, P a → Gives j base k' k'' (f a) Q []) :
    Gives j base k k'' (x >>= f) Q rs := by
  have h := hx.bind hf
  rwa [List.append_nil] at h

/-- A look at the machine. -/
theorem look (r : Request) (hr : r.Looks) {P : r.Answer → Prop}
    (hP : ∀ w, base.Later j.logFile? w.disk → P (r.perform w).1) : Gives j base k k r.ask P [] := by
  intro s hs
  have hquiet := EmitsAt.quiet hs.checks (.ask r hr.quiet)
  refine ⟨hquiet.checks, hquiet.whole, ?_, hquiet.post, ?_⟩
  · rw [play_ask, exec_ask]
    exact hP _ hs.later
  · rw [play_ask, exec_ask, hr.perform_eq]
    exact hs

/-- A check passes. -/
theorem check {f : Bool → Run Script β} (hf : Gives j base k k' (f false) Q rs) :
    Gives j base k k' (Machine.isCancelled >>= f) Q rs :=
  fun s hs => .check hs.checks (hf s hs)

/-- What is noted about the progress emits nothing. -/
theorem progress {g : Progress → α × Progress}
    (hg : ∀ p, Numbered (p.count + k) p.report →
      P (g p).1 ∧ Numbered ((g p).2.count + k') (g p).2.report) :
    Gives j base k k' (modifyGet g) P [] := by
  intro s hs
  obtain ⟨hP, hnumbered⟩ := hg s.1 hs.numbered
  have hexec : exec (play (modifyGet g : Run Script α)) s = ((g s.1).1, (g s.1).2, s.2) := rfl
  refine ⟨?_, fun _ => rfl, ?_, rfl, ?_⟩
  · rw [hexec]
    exact hs.checks
  · rw [hexec]
    exact hP
  · rw [hexec]
    exact ⟨hs.checks, hs.bound, hnumbered, hs.later⟩

/-- The log is written to. -/
theorem logs {z : Script α} {note : Run Script α} {note' : Run (StateM World) α}
    (hnote : Scripted (Request.Logs j.logFile?) z note) (hnote' : Scripted (Request.Logs j.logFile?) z note') :
    Gives j base k k note (fun _ => True) [] := by
  intro s hs
  have hagrees := hnote.agrees hnote'
  have hquiet := EmitsAt.quiet hs.checks (hagrees.mono fun _ => Request.Logs.quiet)
  obtain ⟨hprogress, happended⟩ := (hnote'.mono fun _ => Request.Logs.idle).idles s
  have hkept : s.2.Kept (exec (play note) s).2.2 := (hagrees.only s.1).kept_perform s.2
  rw [← hagrees.play_eq] at hprogress happended
  refine ⟨hquiet.checks, hquiet.whole, trivial, hquiet.post, hquiet.checks, hkept.bound hs.bound, ?_, ?_⟩
  · rw [hprogress]
    exact hs.numbered
  · exact hs.later.trans ⟨happended, hkept.places⟩

/-- A note in the log may come first. -/
theorem noted {note : Run Script Unit} (hnote : Gives j base k k note (fun _ => True) []) {c : Prop}
    [Decidable c] (hx : Gives j base k k' x P rs) :
    Gives j base k k' (if c then note >>= fun _ => x else x) P rs := by
  split
  · exact hnote.after fun _ _ => hx
  · exact hx

/-- Without cancellation all of it is done. -/
theorem unlessCancelled {x : Run Script Causes} {P : Causes → Prop} (hx : Gives j base k k' x P rs) :
    Gives j base k k' (unlessCancelled x) P rs :=
  check hx

/-- What is given is emitted. -/
theorem emitsAt {s : State} (hs : Steady j.logFile? base k s) {post : α × State → List Result → Prop}
    (hpost : ∀ r, P r.1 → post r rs) (hx : Gives j base k k x P rs) : EmitsAt s x post := by
  have hx := hx s hs
  obtain ⟨ha, hrs, -⟩ := hx.post
  exact ⟨hx.checks, hx.whole, hrs ▸ hpost _ ha⟩

/-- What is returned from one steady state is returned from all. -/
theorem self {a : α} (hx : Gives j base k k' x (· = a) rs) {s : State}
    (hs : Steady j.logFile? base k s) :
    a = (exec (play x) s).1 ∧ rs = results (watch x s) :=
  ⟨(hx s hs).post.1.symm, (hx s hs).post.2.1.symm⟩

end Gives

section

variable {j : Job} {base : Disk} {k : Nat}

/-- A log line emits nothing. -/
theorem gives_log (level : Log.Level) (message : Bytes) (fields : List (String × Log.Value)) :
    Gives j base k k (j.log.log level message fields) (fun _ => True) [] :=
  .logs (logs_log j.log level message fields) (logs_log j.log level message fields)

theorem gives_logAll (rs : List Log.Record) :
    Gives j base k k (j.log.logAll rs) (fun _ => True) [] :=
  .logs (logs_logAll j.log rs) (logs_logAll j.log rs)

/-- A document is printed, since the stream has no bound. -/
theorem gives_printDocument (doc : Bytes) :
    Gives j base k k (Machine.printDocument doc) (· = none) [.document doc] := by
  intro s hs
  have hwrite := Stream.writeAll_unbounded hs.bound (Stream.pieces doc)
  have hemits := emits_printDocument doc s hs.checks
  have hexec : exec (play (Machine.printDocument doc)) s = (none, s.1, { s.2 with
      output := { s.2.output with text := s.2.output.text ++ (Stream.pieces doc).flatten } }) := by
    change ((s.2.output.writeAll (Stream.pieces doc)).2, s.1, { s.2 with
      output := (s.2.output.writeAll (Stream.pieces doc)).1 }) = _
    rw [hwrite]
  refine ⟨hemits.checks, hemits.whole, ?_, ?_, ?_⟩
  · rw [hexec]
  · rcases hemits.post with ⟨-, hrs⟩ | ⟨⟨message, hmessage⟩, -⟩
    · exact hrs
    · rw [hexec] at hmessage
      cases hmessage
  · rw [hexec]
    exact ⟨hs.checks, hs.bound, hs.numbered, hs.later⟩

/-- A trace is stored, since its name is free. -/
theorem gives_storeTrace (source text : Bytes) :
    Gives j base 0 1 (storeTrace source text) (· = []) [] := by
  intro s hs
  have hquiet := EmitsAt.quiet hs.checks (agrees_storeTrace source text)
  obtain ⟨report, hexec, hnumbered⟩ := exec_storeTrace source text hs.numbered
  have hplay := (agrees_storeTrace (P := Request.Quiet) source text).play_eq
  refine ⟨hquiet.checks, hquiet.whole, ?_, hquiet.post, ?_⟩
  · rw [hplay, hexec]
  · rw [hplay, hexec]
    exact ⟨hs.checks, hs.bound, hnumbered, hs.later⟩

/-! ### Stylesheets -/

/-- What is emitted does not depend on the name `i` under which something is processed, nor does whether
it fails. -/
def Prints {ι : Type} (j : Job) (base : Disk) (causes : α → Causes) (x : ι → Run Script α) : Prop :=
  ∃ rs failed, ∀ i, ∃ a, Gives j base 1 1 (x i) (· = a) rs ∧ (causes a ≠ [] ↔ failed)

/-- A text is printed as its result. -/
theorem gives_format (hstdout : j.settings.toStdout = true) (source doc : Bytes) :
    Gives j base 0 1 (format j source doc) (· = [])
      [.document (Css.Pipeline.result doc
        (Css.Pipeline.run (j.settings.steps.map fun s => (s.name : Bytes)) doc))] := by
  have hemit : ∀ result, Gives j base 1 1 (emit j source result) (· = .ok "STDOUT") [.document result] := by
    intro result
    rw [emit, if_pos hstdout]
    refine (gives_printDocument result).andThen ?_
    rintro e rfl
    exact .pure rfl
  refine (gives_logAll _).after fun _ _ => (gives_storeTrace source _).after ?_
  rintro causes rfl
  refine .noted (gives_log _ _ _) ((hemit _).andThen ?_)
  rintro place rfl
  exact (gives_log _ _ _).after fun _ _ => .pure rfl

/-- **A stylesheet** is emitted or fails by its content alone. -/
theorem prints_sheet (hstdout : j.settings.toStdout = true) (data : Except Bytes Bytes) :
    Prints j base id (fun source => sheet j data source) := by
  have hcount : Gives j base 1 0 (modify fun p => { p with count := p.count + 1 }) (fun _ => True) [] :=
    .progress fun p hp => ⟨trivial, hp⟩
  cases data with
  | error e =>
      refine ⟨[], True, fun source => ⟨["unable to read stylesheet (" ++ source ++ "): " ++ e],
        .unlessCancelled (hcount.after fun _ _ => ?_), by simp⟩⟩
      exact .skip rfl
  | ok data =>
      cases hdecode : decode j.settings.codePage data j.wide with
      | error e =>
          refine ⟨[], True, fun source => ⟨["unable to decode stylesheet (" ++ source ++ "): " ++ e.message],
            .unlessCancelled (hcount.after fun _ _ => ?_), by simp⟩⟩
          simp only [hdecode]
          exact .skip rfl
      | ok doc =>
          refine ⟨[.document (Css.Pipeline.result doc
              (Css.Pipeline.run (j.settings.steps.map fun s => (s.name : Bytes)) doc))], False,
            fun source => ⟨[], .unlessCancelled (hcount.after fun _ _ => ?_), by simp⟩⟩
          simp only [hdecode]
          exact gives_format hstdout source doc

/-! ### Files and archives -/

/-- Reading the path gives the same over all disks on which only the log has been added to. -/
def Reads (j : Job) (base : Disk) (path : Bytes) (data : Except Failure Bytes) : Prop :=
  ∀ d, base.Later j.logFile? d → d.read path = data

/-- What is known to be read is read. -/
theorem Reads.gives {path : Bytes} {data : Except Failure Bytes} (h : Reads j base path data) :
    Gives j base k k (Machine.read path) (· = data) [] :=
  .look (.read path) trivial fun w hw => h w.disk hw

/-- **A file prints the same** wherever it was found. -/
theorem prints_file (hstdout : j.settings.toStdout = true) {path : Bytes} {data : Except Failure Bytes}
    (h : Reads j base path data) : Prints j base id (fun source => file j path source) := by
  have hfailed : ∀ causes : Causes, Gives j base 1 1
      (j.log.error "Unable to process file" [("file", .text path), ("error", .failure causes)] >>=
        fun _ => pure causes) (· = causes) [] :=
    fun causes => (gives_log _ _ _).after fun _ _ => .pure rfl
  cases data with
  | error e =>
      refine ⟨[], True, fun source => ⟨[e.message], h.gives.after ?_, by simp⟩⟩
      rintro _ rfl
      exact hfailed _
  | ok data =>
      obtain ⟨rs, failed, hsheet⟩ : Prints j base id (fun source => sheet j (.ok data) source) :=
        prints_sheet hstdout _
      refine ⟨rs, failed, fun source => ?_⟩
      obtain ⟨causes, hgives, hiff⟩ := hsheet source
      refine ⟨causes, h.gives.after ?_, hiff⟩
      rintro _ rfl
      refine hgives.andThen fun a ha => ?_
      rw [ha]
      cases causes with
      | nil => exact .pure rfl
      | cons c cs => exact hfailed _

theorem prints_entries (hstdout : j.settings.toStdout = true) {path : Bytes} {data : Except Failure Bytes}
    (hdata : Reads j base path data) (hs : List Archive.Header) :
    Prints j base (fun r => r.1 ++ r.2) (fun below => entries j path below hs) := by
  induction hs with
  | nil => exact ⟨[], False, fun below => ⟨_, .pure rfl, by simp⟩⟩
  | cons h hs ih =>
      cases hopen : h.opened data with
      | error e =>
          refine ⟨[], True, fun below => ⟨([(Archive.WalkError.entry h.name e).message], []),
            hdata.gives.after ?_, by simp⟩⟩
          rintro _ rfl
          simp only [hopen]
          exact .pure rfl
      | ok content =>
          obtain ⟨rs, failed, hsheet⟩ : Prints j base id
              (fun source => sheet j (content.mapError (·.message)) source) := prints_sheet hstdout _
          obtain ⟨rs', failed', hrest⟩ := ih
          refine ⟨rs ++ rs', failed ∨ failed', fun below => ?_⟩
          obtain ⟨causes, hcauses, hiff⟩ := hsheet (Path.join [below, h.name])
          obtain ⟨⟨stopped, others⟩, hothers, hiff'⟩ := hrest below
          refine ⟨(stopped, Causes.within h.name causes ++ others), hdata.gives.after ?_, ?_⟩
          · rintro _ rfl
            simp only [hopen]
            refine .check (hcauses.bind ?_)
            rintro _ rfl
            refine .noted (gives_log _ _ _) (hothers.andThen ?_)
            rintro _ rfl
            exact .pure rfl
          · rw [← hiff, ← hiff']
            by_cases hc : causes = [] <;> simp [Causes.within, hc]

theorem prints_archive (hstdout : j.settings.toStdout = true) {path : Bytes}
    {data : Except Failure Bytes} (h : Reads j base path data) (inside : Bytes) :
    Prints j base id (fun outside => archive j path inside outside) := by
  have hget : Gives j base 1 1 (get : Run Script Progress) (fun _ => True) [] :=
    .progress fun p hp => ⟨trivial, hp⟩
  -- what cannot be read, taken apart or gone through comes to one cause
  have hbroken : ∀ message : Bytes, (∀ outside, Gives j base 1 1 (archive j path inside outside)
      (· = [message]) []) → Prints j base id (fun outside => archive j path inside outside) :=
    fun message hgives => ⟨[], True, fun outside => ⟨_, hgives outside, by simp⟩⟩
  cases data with
  | error e =>
      refine hbroken e.message fun outside => hget.after fun _ _ => h.gives.after ?_
      rintro _ rfl
      exact .pure rfl
  | ok data =>
      cases hparse : Archive.parse data with
      | error e =>
          refine hbroken e.message fun outside => hget.after fun _ _ => h.gives.after ?_
          rintro _ rfl
          simp only [hparse]
          exact .pure rfl
      | ok hs =>
          cases hvisits : Archive.visits inside j.extensions hs with
          | error e =>
              refine hbroken e.message fun outside => hget.after fun _ _ => h.gives.after ?_
              rintro _ rfl
              simp only [hparse, hvisits]
              exact .pure rfl
          | ok visited =>
              obtain ⟨rs, failed, hentries⟩ : Prints j base (fun r => r.1 ++ r.2)
                  (fun below => entries j path below visited) := prints_entries hstdout h _
              refine ⟨rs, failed, fun outside => ?_⟩
              obtain ⟨⟨stopped, others⟩, hgives, hiff⟩ := hentries outside
              refine ⟨stopped ++ others, hget.after fun _ _ => h.gives.after ?_, hiff⟩
              rintro _ rfl
              simp only [hparse, hvisits]
              refine hgives.andThen ?_
              rintro _ rfl
              exact hget.after fun _ _ => .noted (gives_log _ _ _) (.pure rfl)

end

end Job

end Restyle
