import Restyle.Proofs.Job.Script

/-!
# Cancelled runs

A run asks the machine now and then whether it should stop.  Two runs from one state that may ask a
different number of times go together until one of these checks fails in the first and passes in the
second (`Script.parts_history`).  For this a script need not be known, as no other request is answered in
view of the checks that are left.

What comes after a failed check is another matter.  The loops of a job take what went wrong in one place
for the failure of one stylesheet and go on to the next, so that every part has to be followed to its end.
`Heeds` is a judgement on parts of a job with rules for this: once a check has failed nothing more is
emitted, and that it has failed gets into what is returned.

* `run_limited`: what a cancelled run emits is the beginning of what it would have emitted otherwise, and
  a run in which a check has failed fails.
-/

namespace Restyle

open Files

/-! ### Checks -/

namespace World

variable {α β : Type}

/-- The machine, with a number of checks after which a run is cancelled. -/
def limited (w : World) (checks : Option Nat) : World :=
  { w with checks := checks }

/-- What is done does not depend on the checks that are left. -/
def Blind (x : StateM World α) : Prop :=
  ∀ w c, x.run (w.limited c) = ((x.run w).1, (x.run w).2.limited c)

/-- Two parts that do not look at the checks are one that does not. -/
theorem Blind.bind {x : StateM World α} {f : α → StateM World β} (hx : Blind x) (hf : ∀ a, Blind (f a)) :
    Blind (x >>= f) := by
  intro w c
  change (f (x.run (w.limited c)).1).run (x.run (w.limited c)).2 = _
  rw [hx w c]
  exact hf _ _ c

/-- What is done on the disk does not look at the checks. -/
theorem blind_onDisk (f : Disk → Except Failure (Disk × α)) : Blind (onDisk f) := by
  intro w c
  simp only [onDisk, limited, StateT.run_bind, StateT.run_get, pure_bind]
  cases f w.disk <;> rfl

theorem blind_onOpen (f : Disk → Except Errno Disk) : Blind (onOpen f) := by
  intro w c
  simp only [onOpen, limited, StateT.run_bind, StateT.run_get, pure_bind]
  cases f w.disk <;> rfl

theorem blind_tryTemp (stem ending : Bytes) : Blind (tryTemp stem ending) := by
  intro w c
  let path := w.tempDir ++ "/" ++ stem ++ w.mark w.temps ++ ending
  exact congrArg (fun r : Except Failure Place × World =>
    (r.1.map (path, ·), { r.2 with temps := r.2.temps + 1 })) (blind_onDisk (·.openNew path) w c)

theorem blind_openTemp (stem ending : Bytes) (fuel : Nat) : Blind (openTemp stem ending fuel) := by
  induction fuel with
  | zero => exact blind_tryTemp stem ending
  | succ fuel ih =>
      refine .bind (blind_tryTemp stem ending) fun r => ?_
      split
      · exact ih
      · exact fun _ _ => rfl

end World

/-- **Only a check looks at the checks that are left.** -/
theorem Request.perform_limited {r : Request} (hr : r.Unchecked) (w : World) (c : Option Nat) :
    r.perform (w.limited c) = ((r.perform w).1, (r.perform w).2.limited c) := by
  cases r with
  | isCancelled => exact hr.elim
  | openFile keep path => exact World.blind_onDisk (·.openFile keep path) w c
  | openTemp stem ending => exact World.blind_openTemp stem ending _ w c
  | extend place data => exact World.blind_onOpen (·.extend place data) w c
  | writeAt place offset data => exact World.blind_onOpen (·.writeAt place offset data) w c
  | remove path => exact World.blind_onDisk (fun d => (d.remove path).map (·, ())) w c
  | _ => rfl

/-- Only a check uses up a check. -/
theorem Request.checks_perform {r : Request} (hr : r.Unchecked) (w : World) :
    (r.perform w).2.checks = w.checks :=
  congrArg (fun p : r.Answer × World => p.2.checks) (perform_limited hr w w.checks)

namespace Event

/-- A check, and whether the run should stop. -/
def check (stop : Bool) : Event :=
  ⟨.isCancelled, stop⟩

/-- No result comes with a check. -/
theorem result?_before_check (e : Event) (stop : Bool) : e.result? (some (check stop)) = e.result? none := by
  rcases e with ⟨r, a⟩
  cases r with
  | printDocument doc => cases a <;> rfl
  | openFile keep path => cases keep <;> cases a <;> rfl
  | _ => rfl

/-- Whatever comes next, it is no result. -/
def Silent (e : Event) : Prop :=
  ∀ next, e.result? next = none

/-- A quiet request emits nothing. -/
theorem silent_of_quiet {e : Event} (h : e.request.Quiet) : e.Silent := by
  rcases e with ⟨r, a⟩
  intro next
  cases r <;> first | rfl | exact h.elim

end Event

/-- Silent events leave no result. -/
theorem results_of_silent {es : List Event} (h : ∀ e ∈ es, e.Silent) : results es = [] := by
  induction es with
  | nil => rfl
  | cons e es ih =>
      rw [results, h e List.mem_cons_self, ih fun e he => h e (List.mem_cons_of_mem _ he)]
      rfl

/-- A check comes between two results. -/
theorem results_append_check (es : List Event) (stop : Bool) (fs : List Event) :
    results (es ++ .check stop :: fs) = results es ++ results fs := by
  induction es with
  | nil => rfl
  | cons e es ih =>
      have hnext : e.result? (es ++ .check stop :: fs).head? = e.result? es.head? := by
        cases es with
        | nil => exact e.result?_before_check stop
        | cons e' es => rfl
      rw [List.cons_append, results, results, hnext, ih, List.append_assoc]

/-! ### Two runs -/

/-- The second history is the first, or parts from it at a check that fails in the first only. -/
def Parts (es fs : List Event) : Prop :=
  es = fs ∨ ∃ before after after', es = before ++ .check true :: after ∧
    fs = before ++ .check false :: after'

/-- Histories that begin alike part later. -/
theorem Parts.cons {es fs : List Event} (h : Parts es fs) (e : Event) : Parts (e :: es) (e :: fs) := by
  rcases h with rfl | ⟨before, after, after', rfl, rfl⟩
  · exact .inl rfl
  · exact .inr ⟨e :: before, after, after', rfl, rfl⟩

/-- **Two runs that may check a different number of times.** -/
theorem Script.parts_history {α : Type} (x : Script α) (w : World) {n : Nat} {m : Option Nat}
    (h : ∀ k ∈ m, n ≤ k) : Parts (x.history (w.limited (some n))) (x.history (w.limited m)) := by
  induction x generalizing w n m with
  | done a => exact .inl rfl
  | ask r next ih =>
      by_cases hr : r.Unchecked
      · rw [history, history, Request.perform_limited hr, Request.perform_limited hr]
        exact (ih _ _ h).cons _
      · have hr : r = .isCancelled := by cases r <;> first | rfl | exact absurd trivial hr
        subst hr
        cases n with
        | zero =>
            rcases m with _ | _ | k
            · exact .inr ⟨[], _, _, rfl, rfl⟩
            · exact .inl rfl
            · exact .inr ⟨[], _, _, rfl, rfl⟩
        | succ n =>
            rcases m with _ | _ | k
            · exact (ih false w (m := none) (by simp)).cons (.check false)
            · exact absurd (h 0 rfl) (by simp)
            · refine (ih false w (m := some k) ?_).cons (.check false)
              have hk : n + 1 ≤ k + 1 := h (k + 1) rfl
              simpa using hk

/-- Nothing is emitted after a check has failed. -/
def Obeys (es : List Event) : Prop :=
  es.Pairwise fun e e' => e = .check true → e'.Silent

/-- A silent event after the end is no disobedience. -/
theorem Obeys.concat {es : List Event} {e : Event} (h : Obeys es) (he : e.Silent) : Obeys (es ++ [e]) :=
  List.pairwise_append.2 ⟨h, List.pairwise_singleton _ _, fun _ _ e' he' _ => by
    obtain rfl := List.mem_singleton.1 he'
    exact he⟩

/-- **What was emitted before the parting** was emitted in both histories. -/
theorem Parts.results_isPrefix {es fs : List Event} (h : Parts es fs) (ho : Obeys es) :
    results es <+: results fs := by
  rcases h with rfl | ⟨before, after, after', rfl, rfl⟩
  · exact List.prefix_rfl
  · have hafter : ∀ e ∈ after, e.Silent := fun e he =>
      List.rel_of_pairwise_cons (List.pairwise_append.1 ho).2.1 he rfl
    rw [results_append_check, results_append_check, results_of_silent hafter, List.append_nil]
    exact List.prefix_append _ _

/-- A run without checks uses up none. -/
theorem Script.checks_run {α : Type} {x : Script α} {w : World}
    (h : ∀ e ∈ x.history w, e.request.Unchecked) : (x.perform w).2.checks = w.checks := by
  induction x generalizing w with
  | done a => rfl
  | ask r next ih =>
      have hr : r.Unchecked := h _ List.mem_cons_self
      rw [← Request.checks_perform hr w]
      exact ih _ fun e he => h e (List.mem_cons_of_mem _ he)

namespace Job

variable {α β : Type}

/-! ### Heeding a check that has failed -/

/-- What has happened so far is in order, and if a check has failed then no other will pass, and `K`. -/
structure InOrder (K : Prop) (es : List Event) (w : World) : Prop where
  obeys : Obeys es
  stopped : .check true ∈ es → w.checks = some 0 ∧ K

/-- A part of a job before which, if a check has failed, `K` holds, and after which, if one has failed,
`post` holds of what it returns.  Nothing is emitted after that. -/
def Heeds (K : Prop) (x : Run Script α) (post : α → Prop) : Prop :=
  ∀ es s, InOrder K es s.2 →
    InOrder (post (exec (play x) s).1) (es ++ watch x s) (exec (play x) s).2.2

namespace Heeds

variable {K : Prop} {x : Run Script α} {y : Run (StateM World) α} {f : α → Run Script β}
  {mid post : α → Prop} {post' : β → Prop}

/-- Nothing is done, so that only the answer has to be right. -/
theorem pure {a : α} (h : K → post a) : Heeds K (pure a) post := by
  intro es s hes
  rw [watch_pure, List.append_nil]
  refine ⟨hes.obeys, fun hin => ?_⟩
  obtain ⟨hchecks, hK⟩ := hes.stopped hin
  exact ⟨hchecks, h hK⟩

/-- Parts that heed a cancellation make a program that does. -/
theorem bind (hx : Heeds K x mid) (hf : ∀ a, Heeds (mid a) (f a) post') : Heeds K (x >>= f) post' := by
  intro es s hes
  rw [exec_play_bind, watch_bind, ← List.append_assoc]
  exact hf _ _ _ (hx es s hes)

theorem mono (hx : Heeds K x mid) (h : ∀ a, mid a → post a) : Heeds K x post := by
  intro es s hes
  refine ⟨(hx es s hes).obeys, fun hin => ?_⟩
  obtain ⟨hchecks, hmid⟩ := (hx es s hes).stopped hin
  exact ⟨hchecks, h _ hmid⟩

theorem before {K' : Prop} (hx : Heeds K x post) (h : K' → K) : Heeds K' x post := by
  intro es s hes
  refine hx es s ⟨hes.obeys, fun hin => ?_⟩
  obtain ⟨hchecks, hK⟩ := hes.stopped hin
  exact ⟨hchecks, h hK⟩

/-- Where nothing is emitted and no check is made, nothing has to be heeded. -/
theorem quiet (h : Agrees Request.Quiet x y) : Heeds K x fun _ => K := by
  intro es s hes
  have hquiet := h.watch s
  refine ⟨List.pairwise_append.2 ⟨hes.obeys, ?_, fun e _ e' he' _ => ?_⟩, fun hin => ?_⟩
  · exact List.pairwise_of_forall_mem_list fun e _ e' he' _ => Event.silent_of_quiet (hquiet e' he')
  · exact Event.silent_of_quiet (hquiet e' he')
  · rcases List.mem_append.1 hin with hin | hin
    · rw [← (hes.stopped hin).1]
      exact ⟨Script.checks_run fun e he => (hquiet e he).unchecked, (hes.stopped hin).2⟩
    · exact (hquiet _ hin).elim

/-- If no check has failed before then none has failed after a part in which none is made. -/
theorem unchecked (h : Agrees Request.Unchecked x y) : Heeds False x fun _ => False := by
  intro es s hes
  have hfresh : .check true ∉ es ++ watch x s := by
    intro hin
    rcases List.mem_append.1 hin with hin | hin
    · exact (hes.stopped hin).2
    · exact h.watch s _ hin
  refine ⟨?_, fun hin => (hfresh hin).elim⟩
  exact List.pairwise_of_forall_mem_list fun e he e' _ hfail => absurd (hfail ▸ he) hfresh

/-- A check that is answered with a cancellation has to be believed. -/
theorem isCancelled : Heeds K (Machine.isCancelled : Run Script Bool) (· = true) := by
  intro es s hes
  have hplay : play Machine.isCancelled = Machine.isCancelled := rfl
  have hwatch : watch Machine.isCancelled s =
      [.check (exec (Machine.isCancelled : Run (StateM World) Bool) s).1] := rfl
  rw [hplay, hwatch]
  refine ⟨hes.obeys.concat fun _ => rfl, fun hin => ?_⟩
  by_cases hnone : s.2.checks = some 0
  · rw [exec_isCancelled, hnone]
    exact ⟨hnone, rfl⟩
  · have hpass : (exec (Machine.isCancelled : Run (StateM World) Bool) s).1 = false := by
      rw [exec_isCancelled]
      split
      · rfl
      · next h => exact absurd h hnone
      · rfl
    rw [hpass] at hin
    rcases List.mem_append.1 hin with hin | hin
    · exact absurd (hes.stopped hin).1 hnone
    · simp [Event.check] at hin

/-- A note in the log may come first. -/
theorem noted {note : Run Script Unit} {note' : Run (StateM World) Unit}
    (hnote : Agrees Request.Quiet note note') {c : Prop} [Decidable c] (hx : Heeds K x post) :
    Heeds K (if c then note >>= fun _ => x else x) post := by
  split
  · exact .bind (.quiet hnote) fun _ => hx
  · exact hx

/-- What is done unless the job was cancelled is left out if it was. -/
theorem unlessCancelled {k : Run Script Causes} {post : Causes → Prop} (hk : Heeds False k post)
    (hpost : post [cancelled]) : Heeds K (unlessCancelled k) post := by
  refine .bind .isCancelled fun stop => ?_
  cases stop with
  | true => exact .pure fun _ => hpost
  | false => exact hk.before Bool.false_ne_true

end Heeds

/-! ### The functions of a job -/

variable {K : Prop}

/-- Failures stay failures in their context. -/
theorem within_ne_nil {context : Bytes} {causes : Causes} (h : causes ≠ []) :
    Causes.within context causes ≠ [] := by
  simp [Causes.within, h]

/-- A stylesheet that was cancelled fails. -/
theorem heeds_sheet (j : Job) (data : Except Bytes Bytes) (source : Bytes) :
    Heeds K (sheet j data source) (· ≠ []) := by
  refine .unlessCancelled (.bind (.quiet (.progress _)) fun _ => ?_) (List.cons_ne_nil _ _)
  cases data with
  | error e => exact .pure False.elim
  | ok data =>
      dsimp only
      split
      · exact .pure False.elim
      · exact (Heeds.unchecked (unchecked_format j source _)).mono fun _ => False.elim

theorem heeds_file (j : Job) (path source : Bytes) : Heeds K (file j path source) (· ≠ []) := by
  refine .bind (.quiet (.ask (.read path) trivial)) fun r => ?_
  cases r with
  | error e => exact .bind (.quiet (agrees_log j.log _ _ _)) fun _ => .pure fun _ => List.cons_ne_nil _ _
  | ok data =>
      refine .bind (heeds_sheet j _ source) fun causes => ?_
      cases causes with
      | nil => exact .pure id
      | cons c cs => exact .bind (.quiet (agrees_log j.log _ _ _)) fun _ => .pure id

/-- Entries end with a failure if the job was cancelled among them. -/
theorem heeds_entries (j : Job) (path below : Bytes) (hs : List Archive.Header) :
    Heeds K (entries j path below hs) fun r => K ∨ r.1 ++ r.2 ≠ [] := by
  induction hs generalizing K with
  | nil => exact .pure .inl
  | cons h hs ih =>
      refine .bind (.quiet (.ask (.read path) trivial)) fun r => ?_
      dsimp only
      split
      · exact .pure fun _ => .inr (by simp)
      · refine .bind .isCancelled fun stop => ?_
        cases stop with
        | true => exact .pure fun _ => .inr (by simp)
        | false =>
            refine .bind (heeds_sheet j _ _) fun causes => .noted (agrees_log j.log _ _ _) ?_
            -- the failure of the stylesheet stands for the check that has failed
            refine .bind ih fun r => .pure fun hr => .inr ?_
            rcases hr with hr | hr
            · simp [within_ne_nil hr]
            · rcases r with ⟨_ | _, _ | _⟩ <;> simp at hr ⊢

theorem heeds_archive (j : Job) (path inside outside : Bytes) :
    Heeds K (archive j path inside outside) fun causes => K ∨ causes ≠ [] := by
  refine .bind (.quiet (.progress _)) fun start => .bind (.quiet (.ask (.read path) trivial)) fun r => ?_
  cases r with
  | error e => exact .pure .inl
  | ok data =>
      dsimp only
      split
      · exact .pure .inl
      · split
        · exact .pure .inl
        · refine .bind (heeds_entries j _ _ _) fun r => .bind (.quiet (.progress _)) fun p => ?_
          exact .noted (agrees_log j.log _ _ _) (.pure id)

/-- The search for files has been stopped. -/
def Stopped (r : Except Causes (List Bytes)) : Prop :=
  ∃ causes, r = .error causes ∧ causes ≠ []

/-- A list is gone through up to the one that stops. -/
theorem heeds_collect {f : α → Run Script (Except Causes (List Bytes))}
    (hf : ∀ K a, Heeds K (f a) fun r => K ∨ Stopped r) (as : List α) :
    Heeds K (collect f as) fun r => K ∨ Stopped r := by
  induction as generalizing K with
  | nil => exact .pure .inl
  | cons a as ih =>
      refine .bind (hf K a) fun r => ?_
      cases r with
      | error e => exact .pure id
      | ok found =>
          refine .bind ih fun r => ?_
          cases r with
          | error e => exact .pure (by simp [Stopped])
          | ok rest => exact .pure (by simp [Stopped])

theorem stopped_cancelled : Stopped (.error [cancelled]) :=
  ⟨_, rfl, List.cons_ne_nil _ _⟩

/-- No path is skipped when the job was cancelled. -/
theorem heeds_skip (j : Job) (path : Bytes) (e : Failure) :
    Heeds K (skip j path e) fun r => K ∨ Stopped r := by
  refine .bind .isCancelled fun stop => ?_
  cases stop with
  | true => exact .pure fun _ => .inr stopped_cancelled
  | false => exact .bind (.quiet (agrees_log j.log _ _ _)) fun _ => .pure (absurd · Bool.false_ne_true)

/-- **The search for files** stops when the job is cancelled. -/
theorem heeds_filesBelow (j : Job) (depth : Nat) (path : Bytes) (kind : Kind) :
    Heeds K (filesBelow j depth path kind) fun r => K ∨ Stopped r := by
  induction depth generalizing K path kind with
  | zero => exact .pure .inl
  | succ depth ih =>
      refine .bind .isCancelled fun stop => ?_
      cases stop with
      | true => exact .pure fun _ => .inr stopped_cancelled
      | false =>
          cases kind with
          | file | link | device => exact .pure (absurd · Bool.false_ne_true)
          | dir =>
              refine .bind (.quiet (.ask (.entries path) trivial)) fun r => ?_
              cases r with
              | ok es =>
                  refine (heeds_collect (fun K e => ih _ e.2) es).mono fun r hr => ?_
                  exact .inr (hr.resolve_left Bool.false_ne_true)
              | error e =>
                  refine (heeds_skip j path e).mono fun r hr => ?_
                  exact .inr (hr.resolve_left Bool.false_ne_true)

theorem heeds_filesOf (j : Job) (dir : Bytes) : Heeds K (filesOf j dir) fun r => K ∨ Stopped r := by
  refine .bind (.quiet (.ask (.lstat dir) trivial)) fun r => ?_
  cases r with
  | ok kind => exact heeds_filesBelow j _ dir kind
  | error e => exact heeds_skip j dir e

/-- What was found fails if the job was cancelled. -/
theorem heeds_found (j : Job) (path rel : Bytes) :
    Heeds K (found j path rel) fun causes => K ∨ causes ≠ [] := by
  refine .bind (.quiet (agrees_isArchive path)) fun r => ?_
  rcases r with e | isArchive
  · exact .bind (.quiet (agrees_log j.log _ _ _)) fun _ => .pure .inl
  · cases isArchive with
    | true =>
        refine .bind (heeds_archive j _ _ _) fun causes => .noted (agrees_log j.log _ _ _) (.pure ?_)
        exact Or.imp_right within_ne_nil
    | false =>
        dsimp only
        split
        · exact .bind (heeds_file j _ _) fun causes => .pure fun h => .inr (within_ne_nil h)
        · exact .bind (.quiet (agrees_log j.log _ _ _)) fun _ => .pure .inl

theorem heeds_foundAll (j : Job) (dir : Bytes) (paths : List Bytes) :
    Heeds K (foundAll j dir paths) fun causes => K ∨ causes ≠ [] := by
  induction paths generalizing K with
  | nil => exact .pure .inl
  | cons path paths ih =>
      refine .unlessCancelled ?_ (.inr (List.cons_ne_nil _ _))
      refine .bind (heeds_found j _ _) fun causes => .bind ih fun causes' => .pure fun h => .inr ?_
      rcases h with (h | h) | h
      · exact h.elim
      · simp [h]
      · simp [h]

/-- A directory fails if the job was cancelled in it. -/
theorem heeds_directory (j : Job) (dir : Bytes) :
    Heeds K (directory j dir) fun causes => K ∨ causes ≠ [] := by
  refine .bind (heeds_filesOf j dir) fun r => ?_
  cases r with
  | error e => exact .pure (by simp [Stopped])
  | ok paths =>
      refine .bind (.quiet (.progress _)) fun start => .bind (heeds_foundAll j _ _) fun causes => ?_
      refine .bind (.quiet (.progress _)) fun p => .noted (agrees_log j.log _ _ _) (.pure ?_)
      simp [Stopped]

/-- A source fails if the job was cancelled. -/
theorem heeds_resolve (j : Job) (source : Bytes) (whole : Bool) (heads : List Bytes) :
    Heeds K (resolve j source whole heads) (· ≠ []) := by
  induction heads generalizing K whole with
  | nil => exact .pure fun _ => List.cons_ne_nil _ _
  | cons head heads ih =>
      refine .unlessCancelled (.bind (.quiet (.ask (.stat head) trivial)) fun r => ?_)
        (List.cons_ne_nil _ _)
      rcases r with e | kind
      · exact ih false
      · cases kind with
        | dir =>
            dsimp only
            split
            · refine .bind (heeds_directory j _) fun causes => .pure fun h => ?_
              exact within_ne_nil (h.resolve_left id)
            · exact .pure False.elim
        | file =>
            refine .bind (.quiet (agrees_isArchive head)) fun r => ?_
            rcases r with e | isArchive
            · exact .pure False.elim
            · cases isArchive with
              | true =>
                  refine .bind (heeds_archive j _ _ _) fun causes => .pure fun h => ?_
                  exact within_ne_nil (h.resolve_left id)
              | false =>
                  dsimp only
                  split
                  · exact heeds_file j _ _
                  · exact .pure False.elim
        | link | device => exact .pure False.elim

/-- **A whole job fails if it was cancelled.** -/
theorem heeds_process (j : Job) (source : Bytes) : Heeds K (process j source) (· ≠ []) := by
  unfold process processWith
  split
  · exact .bind (.quiet (.ask .input trivial)) fun data => heeds_sheet j _ _
  · exact heeds_resolve j _ _ _

theorem heeds_start (j : Job) (source : Bytes) : Heeds K (start j source) (· ≠ []) := by
  refine .bind (.quiet (agrees_log j.log _ _ _)) fun _ => .bind (heeds_process j source) fun causes => ?_
  exact .bind (.quiet (agrees_log j.log _ _ _)) fun _ => .pure id

theorem heeds_settle (c : Config) (log : Log.Logger) (o : Options) (source : Bytes) :
    Heeds False (settle c log o source) (· ≠ []) := by
  refine .noted (agrees_log log _ _ _)
    (.bind (.quiet ((quiet_destinationPath _).agrees (quiet_destinationPath _))) fun r => ?_)
  cases r with
  | error e => exact .pure False.elim
  | ok destination =>
      refine .noted (agrees_log log _ _ _)
        (.bind (.quiet ((quiet_configure c o log _).agrees (quiet_configure c o log _))) fun r => ?_)
      cases r with
      | error causes => exact .pure False.elim
      | ok settings => exact .bind (.quiet (.ask .wide trivial)) fun wide => heeds_start _ source

/-- **A failed check stops the command**: nothing more is emitted, and the command fails. -/
theorem heeds_run (c : Config) (log : Log.Logger) (o : Options) : Heeds K (run c log o) (· ≠ []) := by
  refine .unlessCancelled ?_ (List.cons_ne_nil _ _)
  dsimp only
  split
  · exact .pure False.elim
  · refine .bind (.quiet ((quiet_sourcePath _).agrees (quiet_sourcePath _))) fun r => ?_
    cases r with
    | error e => exact .pure False.elim
    | ok source => exact heeds_settle c _ o source

/-! ### Cancelled runs -/

/-- **Cancellation cuts a run between two results.**  Of two runs of the command that are cancelled after
`n` checks and after `m`, or never, where `n` is not more than `m`,

* the first emits the beginning of what the second emits;
* the first is the second, request by request, if none of its checks fails.

And a run in which a check fails returns a failure.  What is watched is the command itself. -/
theorem run_limited (c : Config) (log : Log.Logger) (o : Options) (p : Progress) (w : World) (n : Nat)
    (m : Option Nat) (hle : ∀ k ∈ m, n ≤ k) :
    results (watch (run c log o) (p, w.limited (some n))) <+:
        results (watch (run c log o) (p, w.limited m)) ∧
      (.check true ∉ watch (run c log o) (p, w.limited (some n)) →
        watch (run c log o) (p, w.limited (some n)) = watch (run c log o) (p, w.limited m)) ∧
      (∀ s, .check true ∈ watch (run c log o) s → (exec (run c log o) s).1 ≠ []) ∧
      play (run c log o) = run c log o := by
  have hparts : Parts (watch (run c log o) (p, w.limited (some n)))
      (watch (run c log o) (p, w.limited m)) := Script.parts_history _ w hle
  have horder : ∀ s, InOrder ((exec (play (run c log o)) s).1 ≠ []) (watch (run c log o) s) _ :=
    fun s => heeds_run (K := False) c log o [] s ⟨.nil, fun h => by cases h⟩
  have hplay : play (run c log o) = run c log o := (same_run c log o).1
  refine ⟨hparts.results_isPrefix (horder _).obeys, fun hpass => ?_, fun s hfail => ?_, hplay⟩
  · rcases hparts with heq | ⟨before, after, after', heq, -⟩
    · exact heq
    · rw [heq] at hpass
      simp at hpass
  · rw [← hplay]
    exact ((horder s).stopped hfail).2

/-- A configuration with one step. -/
def briefConfig : Config where
  version := 1
  pipeline := ⟨["minify"]⟩
  input := ⟨[".css"], []⟩
  output := ⟨[], false, false⟩
  logging := ⟨{}, {}⟩
  reporting := ⟨[]⟩

/-- A stylesheet on the standard input. -/
def pipedWorld : World where
  disk := { nodes := [], workDir := some [] }
  tempDir := "/tmp"
  input := "p \x7b \x7d"

/-- A command on standard input. -/
def pipedCommand : Run Script Causes :=
  run briefConfig ⟨.discarded, []⟩ { args := [stdinName] }

/-- With one check less nothing is emitted. -/
theorem run_limited_piped :
    (∀ k ∈ some 2, 1 ≤ k) ∧
      results (watch pipedCommand ({}, pipedWorld.limited (some 1))) <+:
        results (watch pipedCommand ({}, pipedWorld.limited (some 2))) ∧
      results (watch pipedCommand ({}, pipedWorld.limited (some 1))) = [] ∧
      results (watch pipedCommand ({}, pipedWorld.limited (some 2))) = [.document "p\x7b\x7d"] :=
  have hle : ∀ k ∈ some 2, 1 ≤ k := by simp
  ⟨hle, (run_limited _ _ _ {} pipedWorld 1 (some 2) hle).1, by decide +kernel, by decide +kernel⟩

end Job

end Restyle
