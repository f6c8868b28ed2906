import Mathlib.Data.List.Forall2
import Restyle.Proofs.Job.Script

/-!
# The stylesheets of a run

Whatever the source is, a job goes from one stylesheet to the next.  A *visit* (`Visit`) is one of them with
the states around it, and a *course* (`Course`) is a list of visits with nothing but looks at the machine and
log records between them.

Which stylesheets a run comes to can be written down while it goes on.  A *recorder* is a machine with a list
of visits, and on it the visitor `recorded` processes a stylesheet and puts the visit on the list; `visits` is
the list when the run is over.  `Yields j x y post` says that a part `x` of a run on the recorder is the part
`y` on the machine, that the visits it writes down are a course, and that what it returns fits them.  There is
a rule for each way in which parts are put together, and one lemma for each function of a job.

* `course_process`: a run is a course through its own visits.
* `tells_process`: every cause for which a visit failed is told by the run, each in a place of its own.
-/

namespace Restyle.Job

open Files

variable {α β : Type} {j : Job}

/-! ### Visits -/

/-- One stylesheet of a run: the state in which it is begun, what reading it gave, the path by which the
output is named, why it failed, if it did, and the state in which it is left. -/
structure Visit where
  start : State
  data : Except Bytes Bytes
  source : Bytes
  causes : Causes
  stop : State

/-- The job makes the visit. -/
def Visit.Made (j : Job) (v : Visit) : Prop :=
  exec (sheet j v.data v.source) v.start = (v.causes, v.stop)

/-- Visits one after the other, with idle stretches around them. -/
inductive Course (j : Job) : State → List Visit → State → Prop where
  | idle {s s' : State} (h : Idles j.logFile? s s') : Course j s [] s'
  | visit {s s' : State} {v : Visit} {vs : List Visit} (h : Idles j.logFile? s v.start)
      (hmade : v.Made j) (hrest : Course j v.stop vs s') : Course j s (v :: vs) s'

/-- Idling before a course is part of it. -/
theorem Course.of_idles {s t u : State} {vs : List Visit} (h : Idles j.logFile? s t) (ht : Course j t vs u) :
    Course j s vs u := by
  cases ht with
  | idle h' => exact .idle (h.trans h')
  | visit h' hmade hrest => exact .visit (h.trans h') hmade hrest

/-- One course can follow another. -/
theorem Course.append {s t u : State} {vs vs' : List Visit} (hs : Course j s vs t) (ht : Course j t vs' u) :
    Course j s (vs ++ vs') u := by
  induction hs with
  | idle h => exact .of_idles h ht
  | visit h hmade _ ih => exact .visit h hmade (ih ht)

/-! ### Recorders -/

/-- A machine with a list of visits. -/
abbrev Recorder : Type → Type :=
  StateT (List Visit) (StateM World)

/-- What a part of a job on a recorder returns, the state after it, and the list. -/
def record (x : Run Recorder α) (vs : List Visit) (s : State) : (α × State) × List Visit :=
  let r := ((x.run s.1).run vs).run s.2
  ((r.1.1.1, r.1.1.2, r.2), r.1.2)

/-- Processes a stylesheet, and writes down the visit. -/
def recorded (j : Job) : Visitor Recorder := fun data source p vs w =>
  let (causes, stop) := exec (sheet j data source) (p, w)
  (((causes, stop.1), vs ++ [⟨(p, w), data, source, causes, stop⟩]), stop.2)

/-- The visits of a run on a source. -/
def visits (j : Job) (source : Bytes) (s : State) : List Visit :=
  (record (processWith j (recorded j) source) [] s).2

/-- Visits are recorded one after the other. -/
theorem record_bind (x : Run Recorder α) (f : α → Run Recorder β) (vs : List Visit) (s : State) :
    record (x >>= f) vs s =
      record (f (record x vs s).1.1) (record x vs s).2 (record x vs s).1.2 := rfl

/-- A program for any machine writes down nothing. -/
theorem record_of_scripted {P : Request → Prop} {z : Script α} {x : Run Recorder α} {y : Run (StateM World) α}
    (hx : Scripted P z x) (hy : Scripted P z y) (vs : List Visit) (s : State) :
    record x vs s = (exec y s, vs) := by
  rw [← hx.run_eq, ← hy.run_eq, Script.run_lift, Script.run_lift, Script.run_lift]
  rfl

/-- A part of a job does the same on the recorder as on the machine.  Its visits are a course, and of them
and what it returns `post` holds. -/
def Yields (j : Job) (x : Run Recorder α) (y : Run (StateM World) α) (post : α → List Visit → Prop) : Prop :=
  ∀ vs s, ∃ vs', record x vs s = (exec y s, vs ++ vs') ∧ Course j s vs' (exec y s).2 ∧ post (exec y s).1 vs'

namespace Yields

variable {x : Run Recorder α} {y : Run (StateM World) α} {f : α → Run Recorder β} {g : α → Run (StateM World) β}
  {z : Script α} {post : α → List Visit → Prop} {post' : β → List Visit → Prop}

theorem pure {a : α} (hpost : post a []) : Yields j (pure a) (pure a) post :=
  fun vs s => ⟨[], by rw [List.append_nil]; rfl, .idle (.refl _ s), hpost⟩

/-- Visits of two parts are made in their order. -/
theorem bind (hx : Yields j x y post)
    (hf : ∀ a vs, post a vs → Yields j (f a) (g a) fun b vs' => post' b (vs ++ vs')) :
    Yields j (x >>= f) (y >>= g) post' := by
  intro vs s
  obtain ⟨vs', hrecord, hcourse, hpost⟩ := hx vs s
  obtain ⟨vs'', hrecord', hcourse', hpost'⟩ := hf _ vs' hpost (vs ++ vs') (exec y s).2
  refine ⟨vs' ++ vs'', ?_, hcourse.append hcourse', hpost'⟩
  rw [record_bind, hrecord, hrecord', List.append_assoc]
  rfl

/-- An idle part first. -/
theorem after (hx : Scripted (Request.Idle j.logFile?) z x) (hy : Scripted (Request.Idle j.logFile?) z y)
    (hf : ∀ a, Yields j (f a) (g a) post') : Yields j (x >>= f) (y >>= g) post' := by
  intro vs s
  obtain ⟨vs', hrecord, hcourse, hpost⟩ := hf (exec y s).1 vs (exec y s).2
  refine ⟨vs', ?_, .of_idles (hy.idles s) hcourse, hpost⟩
  rw [record_bind, record_of_scripted hx hy, hrecord]
  rfl

/-- A request first. -/
theorem ask (r : Request) {f : r.Answer → Run Recorder β} {g : r.Answer → Run (StateM World) β}
    (hr : r.Idle j.logFile?) (hf : ∀ a, Yields j (f a) (g a) post') :
    Yields j (r.ask >>= f) (r.ask >>= g) post' :=
  .after (.ask r hr) (.ask r hr) hf

/-- A look at the progress first. -/
theorem get {f : Progress → Run Recorder β} {g : Progress → Run (StateM World) β}
    (hf : ∀ p, Yields j (f p) (g p) post') : Yields j (get >>= f) (get >>= g) post' :=
  fun vs s => hf s.1 vs s

/-- A note in the log may come first. -/
theorem noted (level : Log.Level) (message : Bytes) (fields : List (String × Log.Value)) {c : Prop}
    [Decidable c] (hx : Yields j x y post) :
    Yields j (if c then j.log.log level message fields >>= fun _ => x else x)
      (if c then j.log.log level message fields >>= fun _ => y else y) post := by
  split
  · exact .after (idle_log j _ _ _) (idle_log j _ _ _) fun _ => hx
  · exact hx

/-- A note in the log comes last. -/
theorem logged (level : Log.Level) (message : Bytes) (fields : List (String × Log.Value)) {a : α}
    (hpost : post a []) :
    Yields j (j.log.log level message fields >>= fun _ => Pure.pure a)
      (j.log.log level message fields >>= fun _ => Pure.pure a) post :=
  .after (idle_log j _ _ _) (idle_log j _ _ _) fun _ => .pure hpost

/-- What is cancelled makes no visit. -/
theorem unlessCancelled {k : Run Recorder Causes} {k' : Run (StateM World) Causes}
    {post : Causes → List Visit → Prop} (hk : Yields j k k' post) (hpost : post [cancelled] []) :
    Yields j (unlessCancelled k) (unlessCancelled k') post := by
  refine .ask .isCancelled trivial fun stop => ?_
  cases stop with
  | true => exact .pure hpost
  | false => exact hk

end Yields

/-! ### What is told of failures -/

/-- Pieces that stand in a text one behind the other. -/
inductive Quotes : List Bytes → Bytes → Prop where
  | nil (text : Bytes) : Quotes [] text
  | cons {piece rest : Bytes} {pieces : List Bytes} (gap : Bytes) (h : Quotes pieces rest) :
      Quotes (piece :: pieces) (gap ++ (piece ++ rest))

/-- A text quotes itself. -/
theorem Quotes.self (piece : Bytes) : Quotes [piece] piece := by
  have h : Quotes [piece] ([] ++ (piece ++ [])) := .cons [] (.nil [])
  rwa [List.append_nil, List.nil_append] at h

/-- Text before a quotation makes no difference. -/
theorem Quotes.behind {pieces : List Bytes} {text : Bytes} (h : Quotes pieces text) (gap : Bytes) :
    Quotes pieces (gap ++ text) := by
  cases h with
  | nil => exact .nil _
  | cons gap' h =>
      rw [← List.append_assoc]
      exact .cons _ h

/-- Quotations can follow each other. -/
theorem Quotes.append {pieces pieces' : List Bytes} {text text' : Bytes} (h : Quotes pieces text)
    (h' : Quotes pieces' text') : Quotes (pieces ++ pieces') (text ++ text') := by
  induction h with
  | nil text => exact h'.behind text
  | cons gap _ ih =>
      rw [List.append_assoc, List.append_assoc]
      exact .cons gap ih

/-- Joined messages quote what each of them quotes. -/
theorem quotes_joined {parts : List (List Bytes)} {messages : Causes} (h : List.Forall₂ Quotes parts messages) :
    Quotes parts.flatten (Log.joined messages) := by
  induction h with
  | nil => exact .nil _
  | @cons pieces message parts messages hfirst hrest ih =>
      rw [List.flatten_cons]
      cases messages with
      | nil =>
          cases hrest
          rwa [List.flatten_nil, List.append_nil, Log.joined, List.intercalate_singleton]
      | cons next messages =>
          rw [Log.joined, List.intercalate_cons_cons, List.append_assoc]
          exact hfirst.append (ih.behind _)

/-- Messages tell pieces in their order, each in a place of its own, so that none stands for two. -/
def Tells (messages : Causes) (pieces : List Bytes) : Prop :=
  ∃ parts : List (List Bytes), parts.flatten = pieces ∧ List.Forall₂ Quotes parts messages

namespace Tells

variable {messages messages' : Causes} {pieces pieces' : List Bytes}

theorem nil (messages : Causes) : Tells messages [] := by
  refine ⟨messages.map fun _ => [], ?_, ?_⟩
  · simp
  · rw [List.forall₂_map_left_iff]
    exact List.forall₂_same.2 fun message _ => .nil message

/-- Messages tell themselves. -/
theorem self (messages : Causes) : Tells messages messages := by
  refine ⟨messages.map ([·]), ?_, ?_⟩
  · rw [← List.flatMap_def]
    exact List.flatMap_singleton' messages
  · rw [List.forall₂_map_left_iff]
    exact List.forall₂_same.2 fun message _ => .self message

/-- Messages one after the other tell all that each of them tells. -/
theorem append (h : Tells messages pieces) (h' : Tells messages' pieces') :
    Tells (messages ++ messages') (pieces ++ pieces') := by
  obtain ⟨parts, rfl, hparts⟩ := h
  obtain ⟨parts', rfl, hparts'⟩ := h'
  exact ⟨parts ++ parts', List.flatten_append, List.rel_append hparts hparts'⟩

/-- Context takes nothing from what is told. -/
theorem within (h : Tells messages pieces) (context : Bytes) :
    Tells (Causes.within context messages) pieces := by
  obtain ⟨parts, rfl, hparts⟩ := h
  cases messages with
  | nil =>
      cases hparts
      exact .nil _
  | cons message messages =>
      refine ⟨[parts.flatten], by simp, ?_⟩
      rw [Causes.within, if_neg (by simp)]
      exact .cons ((quotes_joined hparts).behind _) .nil

end Tells

/-- Causes tell all causes of failed visits. -/
def Reports (causes : Causes) (vs : List Visit) : Prop :=
  Tells causes (vs.flatMap Visit.causes)

theorem reports_nil (causes : Causes) : Reports causes [] :=
  Tells.nil causes

/-- Failures of two parts report the visits of both. -/
theorem Reports.append {causes causes' : Causes} {vs vs' : List Visit} (h : Reports causes vs)
    (h' : Reports causes' vs') : Reports (causes ++ causes') (vs ++ vs') := by
  rw [Reports, List.flatMap_append]
  exact Tells.append h h'

/-- Context takes nothing from what is reported. -/
theorem Reports.within {causes : Causes} {vs : List Visit} (h : Reports causes vs) (context : Bytes) :
    Reports (Causes.within context causes) vs :=
  Tells.within h context

/-! ### The functions of a job -/

/-- A stylesheet is one visit. -/
theorem yields_sheet (j : Job) (data : Except Bytes Bytes) (source : Bytes) :
    Yields j (recorded j data source) (sheet j data source) Reports := by
  intro vs s
  refine ⟨[⟨s, data, source, (exec (sheet j data source) s).1, (exec (sheet j data source) s).2⟩], rfl,
    .visit (.refl _ s) rfl (.idle (.refl _ _)), ?_⟩
  rw [Reports, List.flatMap_singleton]
  exact .self _

/-- A file is one visit, whether it can be read or not. -/
theorem yields_file (j : Job) (path source : Bytes) :
    Yields j (fileWith j (recorded j) path source) (file j path source) Reports := by
  refine .ask (.read path) trivial fun r => ?_
  cases r with
  | error e => exact .logged _ _ _ (reports_nil _)
  | ok data =>
      refine .bind (yields_sheet j _ source) fun causes vs h => ?_
      cases causes with
      | nil => exact .pure (by simpa using h)
      | cons c cs => exact .logged _ _ _ (by simpa using h)

/-- Each entry of an archive that is opened is a visit. -/
theorem yields_entries (j : Job) (path below : Bytes) (hs : List Archive.Header) :
    Yields j (entriesWith j (recorded j) path below hs) (entries j path below hs) fun r => Reports r.2 := by
  induction hs with
  | nil => exact .pure (reports_nil _)
  | cons h hs ih =>
      refine .ask (.read path) trivial fun r => ?_
      dsimp only
      split
      · exact .pure (reports_nil _)
      · refine .ask .isCancelled trivial fun stop => ?_
        cases stop with
        | true => exact .pure (reports_nil _)
        | false =>
            refine .bind (yields_sheet j _ _) fun causes vs hc => .noted _ _ _ ?_
            exact .bind ih fun r vs' hr => .pure (by simpa using (hc.within h.name).append hr)

/-- An archive makes the visits of its entries. -/
theorem yields_archive (j : Job) (path inside outside : Bytes) :
    Yields j (archiveWith j (recorded j) path inside outside) (archive j path inside outside) Reports := by
  refine .get fun start => .ask (.read path) trivial fun r => ?_
  cases r with
  | error e => exact .pure (reports_nil _)
  | ok data =>
      dsimp only
      split
      · exact .pure (reports_nil _)
      · split
        · exact .pure (reports_nil _)
        · refine .bind (yields_entries j _ _ _) fun r vs h => .get fun p => .noted _ _ _ (.pure ?_)
          simpa using (reports_nil r.1).append h

/-- What was found is visited as what it is. -/
theorem yields_found (j : Job) (path rel : Bytes) :
    Yields j (foundWith j (recorded j) path rel) (found j path rel) Reports := by
  refine .after (idle_isArchive _ path) (idle_isArchive _ path) fun r => ?_
  rcases r with e | isArchive
  · exact .logged _ _ _ (reports_nil _)
  · cases isArchive with
    | true =>
        refine .bind (yields_archive j _ _ _) fun causes vs h => .noted _ _ _ (.pure ?_)
        simpa using h.within _
    | false =>
        dsimp only
        split
        · exact .bind (yields_file j _ _) fun causes vs h => .pure (by simpa using h.within _)
        · exact .logged _ _ _ (reports_nil _)

/-- All that was found is visited in order. -/
theorem yields_foundAll (j : Job) (dir : Bytes) (paths : List Bytes) :
    Yields j (foundAllWith j (recorded j) dir paths) (foundAll j dir paths) Reports := by
  induction paths with
  | nil => exact .pure (reports_nil _)
  | cons path paths ih =>
      refine .unlessCancelled ?_ (reports_nil _)
      refine .bind (yields_found j _ _) fun causes vs h => .bind ih fun causes' vs' h' => .pure ?_
      simpa using h.append h'

/-- A directory makes the visits of what is found in it. -/
theorem yields_directory (j : Job) (dir : Bytes) :
    Yields j (directoryWith j (recorded j) dir) (directory j dir) Reports := by
  refine .after (idle_filesOf j dir) (idle_filesOf j dir) fun r => ?_
  cases r with
  | error e => exact .pure (reports_nil _)
  | ok paths =>
      refine .get fun start => .bind (yields_foundAll j _ _) fun causes vs h => ?_
      refine .get fun p => .noted _ _ _ (.pure ?_)
      simpa using h

/-- A source makes the visits of what it means. -/
theorem yields_resolve (j : Job) (source : Bytes) (whole : Bool) (heads : List Bytes) :
    Yields j (resolveWith j (recorded j) source whole heads) (resolve j source whole heads) Reports := by
  induction heads generalizing whole with
  | nil => exact .pure (reports_nil _)
  | cons head heads ih =>
      refine .unlessCancelled (.ask (.stat head) trivial fun r => ?_) (reports_nil _)
      rcases r with e | kind
      · exact ih false
      · cases kind with
        | dir =>
            dsimp only
            split
            · exact .bind (yields_directory j _) fun causes vs h => .pure (by simpa using h.within _)
            · exact .pure (reports_nil _)
        | file =>
            refine .after (idle_isArchive _ head) (idle_isArchive _ head) fun r => ?_
            rcases r with e | isArchive
            · exact .pure (reports_nil _)
            · cases isArchive with
              | true =>
                  exact .bind (yields_archive j _ _ _) fun causes vs h => .pure (by simpa using h.within _)
              | false =>
                  dsimp only
                  split
                  · exact yields_file j _ _
                  · exact .pure (reports_nil _)
        | link | device => exact .pure (reports_nil _)

/-- **A whole job reports its visits.** -/
theorem yields_process (j : Job) (source : Bytes) :
    Yields j (processWith j (recorded j) source) (process j source) Reports := by
  unfold process processWith
  split
  · exact .ask .input trivial fun data => yields_sheet j _ _
  · exact yields_resolve j _ _ _

/-! ### Whole runs -/

/-- **A run is a course through its visits.** -/
theorem course_process (j : Job) (source : Bytes) (s : State) :
    Course j s (visits j source s) (exec (process j source) s).2 := by
  obtain ⟨vs, hrecord, hcourse, -⟩ := yields_process j source [] s
  rwa [visits, hrecord]

/-- **A run tells every cause** for which a visit failed. -/
theorem tells_process (j : Job) (source : Bytes) (s : State) :
    Tells (exec (process j source) s).1 ((visits j source s).flatMap Visit.causes) := by
  obtain ⟨vs, hrecord, -, hreports⟩ := yields_process j source [] s
  rwa [visits, hrecord]

end Restyle.Job
