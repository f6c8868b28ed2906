import Restyle.Proofs.Archive.Selection
import Restyle.Proofs.Archive.Walk
import Restyle.Proofs.Job.Cancelled
import Restyle.Proofs.Job.Preserved

/-!
# What becomes of the entries of an archive

The entries of an archive are processed one after the other, in natural order of their names.  One that
fails is reported under its name, and the next is processed whatever has become of it.  But an entry that
cannot be opened at all is the last one: it is reported, and those after it are not attempted.

`Emits` is a judgement on parts of a job that is not cancelled, with a postcondition over what they emit.
A stylesheet is either emitted or fails (`emits_sheet`), so entries that are gone through one after the
other come to a list of outcomes (`Walks`).  The entries to visit are accounted for (`Accounts`) if their
outcomes are all that was emitted and all that was reported.  A result may be written over the archive, which
is read again for every entry, unless the job leaves it alone (`Spares`).

* `archive_accounts_iff`: the entries up to the first that cannot be opened are accounted for, and all are
  exactly when each of them can be opened, but perhaps the last.
* `archive_eq_walk`: to process an archive is to walk through it.
-/

namespace Restyle

open Files Archive

/-! ### Whole histories -/

/-- What comes after has no part in the results. -/
def Whole (es : List Event) : Prop :=
  ∀ fs, results (es ++ fs) = results es ++ results fs

/-- Two whole histories are one. -/
theorem Whole.append {es fs : List Event} (h : Whole es) (h' : Whole fs) : Whole (es ++ fs) := by
  intro gs
  rw [List.append_assoc, h, h', h, List.append_assoc]

theorem whole_of_silent {es : List Event} (h : ∀ e ∈ es, e.Silent) : Whole es := by
  intro fs
  induction es with
  | nil => rfl
  | cons e es ih =>
      have hes : ∀ e ∈ es, e.Silent := fun e he => h e (List.mem_cons_of_mem _ he)
      have he := h e List.mem_cons_self
      rw [List.cons_append, results, results, he, he, ih hes]
      rfl

/-- A file that is opened and written is a result. -/
theorem results_file (path : Bytes) (place : Place) (data : Bytes) (es : List Event) :
    results (⟨.openFile false path, .ok place⟩ :: ⟨.extend place data, .ok ()⟩ :: es) =
      .file path data :: results es := by
  simp [results, Event.result?]

namespace Job

variable {α β : Type}

/-! ### Emitting -/

/-- From a state on, a part of a job that is not cancelled emits results of which `post` and what it
returns and leaves hold. -/
structure EmitsAt (s : State) (x : Run Script α) (post : α × State → List Result → Prop) : Prop where
  checks : (exec (play x) s).2.2.checks = none
  whole : Whole (watch x s)
  post : post (exec (play x) s) (results (watch x s))

namespace EmitsAt

variable {s : State} {x : Run Script α} {y : Run (StateM World) α} {f : α → Run Script β}
  {post : α × State → List Result → Prop} {post' : β × State → List Result → Prop}

theorem pure {a : α} (hs : s.2.checks = none) (h : post (a, s) []) : EmitsAt s (pure a) post :=
  ⟨hs, fun _ => rfl, h⟩

/-- What is emitted is what the history says. -/
theorem self (h : EmitsAt s x post) : EmitsAt s x fun _ rs => rs = results (watch x s) :=
  ⟨h.checks, h.whole, rfl⟩

/-- What two parts emit is emitted in their order. -/
theorem bind {rs : List Result} (hx : EmitsAt s x fun _ rs' => rs' = rs)
    (hf : EmitsAt (exec (play x) s).2 (f (exec (play x) s).1) fun r rs' => post' r (rs ++ rs')) :
    EmitsAt s (x >>= f) post' := by
  refine ⟨?_, ?_, ?_⟩
  · rw [exec_play_bind]
    exact hf.checks
  · rw [watch_bind]
    exact hx.whole.append hf.whole
  · rw [exec_play_bind, watch_bind, hx.whole, hx.post]
    exact hf.post

/-- Where nothing is emitted and no check is made. -/
theorem quiet (hs : s.2.checks = none) (h : Agrees Request.Quiet x y) :
    EmitsAt s x fun _ rs => rs = [] := by
  have hsilent : ∀ e ∈ watch x s, e.Silent := fun e he => Event.silent_of_quiet (h.watch s e he)
  refine ⟨?_, whole_of_silent hsilent, results_of_silent hsilent⟩
  exact (Script.checks_run fun e he => (h.watch s e he).unchecked).trans hs

/-- A check passes. -/
theorem check {f : Bool → Run Script β} (hs : s.2.checks = none) (hf : EmitsAt s (f false) post') :
    EmitsAt s (Machine.isCancelled >>= f) post' := by
  have hexec : exec (play Machine.isCancelled) s = (false, s) := by
    change exec Machine.isCancelled s = _
    rw [exec_isCancelled, hs]
  have hwatch : ∀ e ∈ watch Machine.isCancelled s, e.Silent := by
    intro e he
    obtain rfl := List.mem_singleton.1 (watch_ask .isCancelled s ▸ he)
    exact fun _ => rfl
  refine .bind ⟨by rw [hexec, hs], whole_of_silent hwatch, results_of_silent hwatch⟩ ?_
  rw [hexec]
  exact hf

/-- A note in the log may come first. -/
theorem noted {log : Option Place} {z : Script Unit} {note : Run Script Unit} {note' : Run (StateM World) Unit}
    (hs : s.2.checks = none) (hnote : Scripted (Request.Logs log) z note)
    (hnote' : Scripted (Request.Logs log) z note') {c : Prop} [Decidable c]
    (hx : ∀ t : State, t.2.checks = none → Idles log s t → EmitsAt t x post) :
    EmitsAt s (if c then note >>= fun _ => x else x) post := by
  split
  · have hagrees := hnote.agrees hnote'
    have hquiet := quiet hs (hagrees.mono fun _ => Request.Logs.quiet)
    refine .bind hquiet (hx _ hquiet.checks ?_)
    rw [hagrees.play_eq]
    exact (hnote'.mono fun _ => Request.Logs.idle).idles s
  · exact hx s hs (.refl log s)

end EmitsAt

/-- The same in every state. -/
def Emits (x : Run Script α) (post : α → List Result → Prop) : Prop :=
  ∀ s, s.2.checks = none → EmitsAt s x fun r rs => post r.1 rs

namespace Emits

variable {x : Run Script α} {y : Run (StateM World) α} {f : α → Run Script β}
  {post : α → List Result → Prop} {post' : β → List Result → Prop}

theorem pure {a : α} (h : post a []) : Emits (pure a) post :=
  fun _ hs => .pure hs h

/-- What two parts emit is emitted in their order. -/
theorem bind (hx : Emits x post)
    (hf : ∀ a rs, post a rs → Emits (f a) fun b rs' => post' b (rs ++ rs')) :
    Emits (x >>= f) post' := by
  intro s hs
  have hx := hx s hs
  exact .bind hx.self (hf _ _ hx.post _ hx.checks)

/-- What is quiet emits nothing before the rest. -/
theorem after (hx : Agrees Request.Quiet x y) (hf : ∀ a, Emits (f a) post') : Emits (x >>= f) post' :=
  fun _ hs => .bind (.quiet hs hx) (hf _ _ (EmitsAt.quiet hs hx).checks)

theorem noted {note : Run Script Unit} {note' : Run (StateM World) Unit}
    (hnote : Agrees Request.Quiet note note') {c : Prop} [Decidable c] (hx : Emits x post) :
    Emits (if c then note >>= fun _ => x else x) post := by
  split
  · exact .after hnote fun _ => hx
  · exact hx

/-- Without cancellation all of it is done. -/
theorem unlessCancelled {k : Run Script Causes} {post : Causes → List Result → Prop} (hk : Emits k post) :
    Emits (unlessCancelled k) post :=
  fun s hs => .check hs (hk s hs)

end Emits

/-! ### One stylesheet -/

/-- A file that is opened and given its content is one result, to which both requests belong. -/
theorem emits_write (path data : Bytes) : Emits (Machine.write path data) fun r rs =>
    r = .ok () ∧ rs = [.file path data] ∨ (∃ e, r = .error e) ∧ rs = [] := by
  intro s hs
  have hchecks : (exec (play (Machine.write path data)) s).2.2.checks = none :=
    (Script.checks_run (((unchecked_write path data).agrees (unchecked_write path data)).watch s)).trans hs
  suffices h : Whole (watch (Machine.write path data) s) ∧
      ((exec (play (Machine.write path data)) s).1 = .ok () ∧
          results (watch (Machine.write path data) s) = [.file path data] ∨
        (∃ e, (exec (play (Machine.write path data)) s).1 = .error e) ∧
          results (watch (Machine.write path data) s) = []) from ⟨hchecks, h.1, h.2⟩
  rw [show watch (Machine.write path data) s = _ from watch_ask_bind (.openFile false path) _ s,
    show exec (play (Machine.write path data)) s = _ from exec_ask_bind (.openFile false path) _ s]
  rcases (Request.openFile false path).perform s.2 with ⟨opened, w⟩
  cases opened with
  | error e => exact ⟨fun _ => rfl, .inr ⟨⟨e, rfl⟩, rfl⟩⟩
  | ok place =>
      dsimp only
      rw [show watch (Machine.extend place data >>= _) _ = _ from watch_ask_bind (.extend place data) _ _,
        show exec (play (Machine.extend place data >>= _)) _ = _ from exec_ask_bind (.extend place data) _ _]
      rcases (Request.extend place data).perform w with ⟨written, w'⟩
      cases written with
      | ok u =>
          have hfile := results_file path place data
          refine ⟨fun fs => (hfile fs).trans ?_, .inl ⟨rfl, hfile []⟩⟩
          exact congrArg (· ++ results fs) (hfile []).symm
      | error e => exact ⟨fun _ => rfl, .inr ⟨⟨_, rfl⟩, rfl⟩⟩

/-- Where the result of a source goes. -/
def target (j : Job) (source result : Bytes) : Result :=
  if j.settings.toStdout then .document result else .file (j.outputPath source) result

/-- A document is printed or not, which is told. -/
theorem emits_printDocument (doc : Bytes) :
    Emits (Machine.printDocument doc) fun e rs =>
      e = none ∧ rs = [.document doc] ∨ (∃ message, e = some message) ∧ rs = [] := by
  intro s hs
  change EmitsAt s (Request.printDocument doc).ask _
  have hchecks := Request.checks_perform (r := .printDocument doc) trivial s.2
  refine ⟨?_, ?_, ?_⟩
  · rw [play_ask, exec_ask]
    exact hchecks.trans hs
  · rw [watch_ask]
    cases ((Request.printDocument doc).perform s.2).1 <;> exact fun _ => rfl
  · rw [play_ask, exec_ask, watch_ask]
    cases ((Request.printDocument doc).perform s.2).1 with
    | none => exact .inl ⟨rfl, rfl⟩
    | some message => exact .inr ⟨⟨_, rfl⟩, rfl⟩

/-- **A result is emitted** or a failure is told. -/
theorem emits_emit (j : Job) (source result : Bytes) : Emits (emit j source result) fun r rs =>
    (∃ place, r = .ok place) ∧ rs = [j.target source result] ∨
      (∃ causes, r = .error causes ∧ causes ≠ []) ∧ rs = [] := by
  unfold emit target
  split
  · refine .bind (emits_printDocument result) fun e rs h => ?_
    rcases h with ⟨rfl, rfl⟩ | ⟨⟨message, rfl⟩, rfl⟩
    · exact .pure (.inl ⟨⟨_, rfl⟩, rfl⟩)
    · exact .pure (.inr ⟨⟨_, rfl, List.cons_ne_nil _ _⟩, rfl⟩)
  · refine .after ((quiet_prepareOutput j _).agrees (quiet_prepareOutput j _)) fun causes => ?_
    cases causes with
    | cons c cs => exact .pure (.inr ⟨⟨_, rfl, List.cons_ne_nil _ _⟩, rfl⟩)
    | nil =>
        refine .bind (emits_write _ _) fun r rs h => ?_
        rcases h with ⟨rfl, rfl⟩ | ⟨⟨e, rfl⟩, rfl⟩
        · exact .pure (.inl ⟨⟨_, rfl⟩, rfl⟩)
        · exact .pure (.inr ⟨⟨_, rfl, List.cons_ne_nil _ _⟩, rfl⟩)

/-- What processing comes to: a result, or causes of a failure. -/
def Comes (j : Job) (source : Bytes) (r? : Option Bytes) (causes : Causes) (rs : List Result) : Prop :=
  causes = [] ∧ (∃ result, r? = some result ∧ rs = [j.target source result]) ∨ causes ≠ [] ∧ rs = []

/-- A text comes to its result. -/
theorem emits_format (j : Job) (source doc : Bytes) :
    Emits (format j source doc) (Comes j source (some (Css.Pipeline.result doc
      (Css.Pipeline.run (j.settings.steps.map fun s => (s.name : Bytes)) doc)))) := by
  refine .after ((agrees_logAll j.log _).mono fun _ => Request.Logs.quiet) fun _ => ?_
  refine .after (agrees_storeTrace source _) fun causes => ?_
  cases causes with
  | cons c cs => exact .pure (.inr ⟨List.cons_ne_nil _ _, rfl⟩)
  | nil =>
      refine .noted (agrees_log j.log _ _ _) (.bind (emits_emit j source _) fun r rs h => ?_)
      rcases h with ⟨⟨place, rfl⟩, rfl⟩ | ⟨⟨causes, rfl, hne⟩, rfl⟩
      · exact .after (agrees_log j.log _ _ _) fun _ => .pure (.inl ⟨rfl, _, rfl, rfl⟩)
      · exact .pure (.inr ⟨hne, rfl⟩)

/-- **A stylesheet is emitted or fails**, and not both. -/
theorem emits_sheet (j : Job) (data : Except Bytes Bytes) (source : Bytes) :
    Emits (sheet j data source) (Comes j source (j.result? data)) := by
  refine .unlessCancelled (.after (.progress _) fun _ => ?_)
  cases data with
  | error e => exact .pure (.inr ⟨List.cons_ne_nil _ _, rfl⟩)
  | ok data =>
      dsimp only [result?]
      cases decode j.settings.codePage data j.wide with
      | error e => exact .pure (.inr ⟨List.cons_ne_nil _ _, rfl⟩)
      | ok doc => exact emits_format j source doc

/-! ### Entries -/

/-- What has become of an entry. -/
inductive Outcome where
  | emitted (r : Result)
  | reported (message : Bytes)
  deriving Repr, DecidableEq

namespace Outcome

def result? : Outcome → Option Result
  | emitted r => some r
  | reported _ => none

def message? : Outcome → Option Bytes
  | emitted _ => none
  | reported message => some message

end Outcome

/-- Entries that are gone through in their turns from one state to another, with nothing but notes in the log
between them, and what has become of each.  One that cannot be opened is reported.  Of any other the
stylesheet is processed, and its result is emitted or the causes of the failure are reported under its
name. -/
inductive Walks (j : Job) (path below : Bytes) : State → List Turn → List Outcome → State → Prop where
  | idle {s s'} (hidle : Idles j.logFile? s s') : Walks j path below s [] [] s'
  | unopened {s s₁ s' t ts os e} (hidle : Idles j.logFile? s s₁) (hread : s₁.2.disk.read path = t.archive)
      (hopen : t.opened = .error e) (hrest : Walks j path below s₁ ts os s') :
      Walks j path below s (t :: ts) (.reported (WalkError.entry t.header.name e).message :: os) s'
  | emitted {s s₁ s₂ s' t ts os doc result} (hidle : Idles j.logFile? s s₁)
      (hread : s₁.2.disk.read path = t.archive) (hopen : t.opened = .ok (.ok doc))
      (hresult : j.result? (.ok doc) = some result)
      (hsheet : exec (sheet j (.ok doc) (Path.join [below, t.header.name])) s₁ = ([], s₂))
      (hrest : Walks j path below s₂ ts os s') :
      Walks j path below s (t :: ts) (.emitted (j.target (Path.join [below, t.header.name]) result) :: os) s'
  | failed {s s₁ s₂ s' t ts os content causes} (hidle : Idles j.logFile? s s₁)
      (hread : s₁.2.disk.read path = t.archive) (hopen : t.opened = .ok content)
      (hsheet : exec (sheet j (content.mapError (·.message)) (Path.join [below, t.header.name])) s₁ =
        (causes, s₂))
      (hne : causes ≠ []) (hrest : Walks j path below s₂ ts os s') :
      Walks j path below s (t :: ts) (.reported (t.header.name ++ ": " ++ Log.joined causes) :: os) s'

section

variable {j : Job} {path below : Bytes} {t : Turn} {ts : List Turn} {os : List Outcome} {s s' s'' : State}
  {rs : List Result} {causes : Causes}

/-- Notes before a walk are part of it. -/
theorem Walks.of_idles (hidle : Idles j.logFile? s s') (hw : Walks j path below s' ts os s'') :
    Walks j path below s ts os s'' := by
  cases hw with
  | idle h => exact .idle (hidle.trans h)
  | unopened h hread hopen hrest => exact .unopened (hidle.trans h) hread hopen hrest
  | emitted h hread hopen hresult hsheet hrest =>
      exact .emitted (hidle.trans h) hread hopen hresult hsheet hrest
  | failed h hread hopen hsheet hne hrest => exact .failed (hidle.trans h) hread hopen hsheet hne hrest

theorem Walks.idles (hw : Walks j path below s ts os s') (hidle : Idles j.logFile? s' s'') :
    Walks j path below s ts os s'' := by
  induction hw with
  | idle h => exact .idle (h.trans hidle)
  | unopened h hread hopen _ ih => exact .unopened h hread hopen (ih hidle)
  | emitted h hread hopen hresult hsheet _ ih => exact .emitted h hread hopen hresult hsheet (ih hidle)
  | failed h hread hopen hsheet hne _ ih => exact .failed h hread hopen hsheet hne (ih hidle)

/-- From a state on entries are gone through up to what was returned and left, and their outcomes are all
that was emitted and all that was reported. -/
def Accounts (j : Job) (path below : Bytes) (s : State) (ts : List Turn) (rs : List Result)
    (ran : Causes × State) : Prop :=
  ∃ os, Walks j path below s ts os ran.2 ∧ rs = os.filterMap Outcome.result? ∧
    ran.1.Perm (os.filterMap Outcome.message?)

/-- The stylesheet of an entry comes first. -/
theorem Walks.sheet {content : Except Archive.Error Bytes} (hread : s.2.disk.read path = t.archive)
    (hopen : t.opened = .ok content)
    (hsheet : exec (sheet j (content.mapError (·.message)) (Path.join [below, t.header.name])) s = (causes, s'))
    (hcomes : Comes j (Path.join [below, t.header.name]) (j.result? (content.mapError (·.message))) causes rs)
    (hrest : Walks j path below s' ts os s'') :
    ∃ o, Walks j path below s (t :: ts) (o :: os) s'' ∧ rs = o.result?.toList ∧
      Causes.within t.header.name causes = o.message?.toList := by
  rcases hcomes with ⟨rfl, result, hresult, rfl⟩ | ⟨hne, rfl⟩
  · cases content with
    | error e => cases hresult
    | ok doc => exact ⟨_, .emitted (.refl _ s) hread hopen hresult hsheet hrest, rfl, rfl⟩
  · refine ⟨_, .failed (.refl _ s) hread hopen hsheet hne hrest, rfl, ?_⟩
    simp [Causes.within, hne, Outcome.message?]

/-- **Entries are accounted for** turn by turn. -/
theorem emits_entries (j : Job) (path below : Bytes) (hs : List Header) (s : State)
    (hchecks : s.2.checks = none) :
    EmitsAt s (entries j path below hs) fun r rs =>
      ∃ ts, Attempted hs ts ∧ Accounts j path below s ts rs (r.1.1 ++ r.1.2, r.2) := by
  induction hs generalizing s with
  | nil => exact .pure hchecks ⟨[], .nil, [], .idle (.refl _ s), rfl, .refl _⟩
  | cons h hs ih =>
      let t : Turn := ⟨h, s.2.disk.read path⟩
      have hread : exec (play (Machine.read path : Run Script (Except Failure Bytes))) s = (t.archive, s) := rfl
      refine .bind (.quiet hchecks (.ask (.read path) trivial)) ?_
      rw [hread]
      dsimp only
      split
      · next e hopen =>
          have hstop : t.canOpen = false := by rw [Turn.canOpen, show t.opened = _ from hopen]; rfl
          exact .pure hchecks ⟨[t], .stop hstop hs, [_],
            .unopened (.refl _ s) rfl hopen (.idle (.refl _ s)), rfl, .refl _⟩
      · next content hopen =>
          have hnext : t.canOpen = true := by rw [Turn.canOpen, show t.opened = _ from hopen]; rfl
          have hsheet := emits_sheet j (content.mapError (·.message)) (Path.join [below, h.name]) s hchecks
          -- from the state that the stylesheet leaves, whatever it has come to, the others are gone through
          refine .check hchecks (.bind hsheet.self ?_)
          refine .noted hsheet.checks (logs_log j.log _ _ _) (logs_log j.log _ _ _) fun u hu hidle => ?_
          have hrest := ih u hu
          refine .bind hrest.self (.pure hrest.checks ?_)
          obtain ⟨ts, hattempted, os, hwalks, hrs, hcauses⟩ := hrest.post
          have hplay := (same_sheet j (content.mapError (·.message)) (Path.join [below, h.name])).play_eq
          obtain ⟨o, hwalks, ho, hmessage⟩ :=
            Walks.sheet (t := t) rfl hopen (by rw [hplay]) hsheet.post (.of_idles hidle hwalks)
          refine ⟨t :: ts, .next hnext hattempted, o :: os, hwalks, ?_, ?_⟩
          · rw [ho, hrs]
            cases o <;> simp [List.filterMap_cons, Outcome.result?]
          · refine (List.perm_append_comm_assoc _ _ _).trans ?_
            rw [hmessage]
            cases o with
            | emitted r => exact hcauses
            | reported message => exact hcauses.cons message

/-- **The entries to visit are all there is to an archive**, apart from a note in the log. -/
theorem emits_archive (j : Job) (path inside outside : Bytes) {data : Bytes} {hs : List Header}
    {s : State} (hread : s.2.disk.read path = .ok data) (hparse : Archive.parse data = .ok hs)
    (hsafe : ∀ h ∈ hs, isSafe h.name = true) (hchecks : s.2.checks = none) :
    let visited := sortByName (hs.filter (isVisited inside j.extensions))
    let walk : Run Script (Causes × Causes) := entries j path outside visited
    EmitsAt s (archive j path inside outside) fun r rs =>
      r.1 = (exec (play walk) s).1.1 ++ (exec (play walk) s).1.2 ∧ rs = results (watch walk s) ∧
        Idles j.logFile? (exec (play walk) s).2 r.2 := by
  intro visited walk
  have hvisits : Archive.visits inside j.extensions hs = .ok visited := by
    rw [Archive.visits, List.find?_eq_none.2 (by simpa using hsafe)]
  have hstart : exec (play (get : Run Script Progress)) s = (s.1, s) := rfl
  have hdata : exec (play (Machine.read path : Run Script (Except Failure Bytes))) s = (.ok data, s) := by
    rw [← hread]
    rfl
  refine .bind (.quiet hchecks (.progress _)) (.bind (.quiet hchecks (.ask (.read path) trivial)) ?_)
  rw [hstart, hdata]
  simp only [hparse, hvisits]
  have hentries := emits_entries j path outside visited s hchecks
  refine .bind hentries.self ?_
  refine .bind (.quiet hentries.checks (.progress _)) ?_
  refine .noted hentries.checks (logs_log j.log _ _ _) (logs_log j.log _ _ _) fun t ht hidle => .pure ht ?_
  exact ⟨rfl, by simp [walk], hidle⟩

theorem accounts_archive (j : Job) (path inside outside : Bytes) {data : Bytes} {hs : List Header} {s : State}
    (hread : s.2.disk.read path = .ok data) (hparse : Archive.parse data = .ok hs)
    (hsafe : ∀ h ∈ hs, isSafe h.name = true) (hchecks : s.2.checks = none) :
    ∃ ts, Attempted (sortByName (hs.filter (isVisited inside j.extensions))) ts ∧
      Accounts j path outside s ts (results (watch (archive j path inside outside) s))
        (exec (archive j path inside outside) s) := by
  obtain ⟨hcauses, hrs, hidle⟩ := (emits_archive j path inside outside hread hparse hsafe hchecks).post
  obtain ⟨ts, hattempted, os, hwalks, hos, hmessages⟩ := (emits_entries j path outside
    (sortByName (hs.filter (isVisited inside j.extensions))) s hchecks).post
  rw [← (same_archive j path inside outside).play_eq]
  exact ⟨ts, hattempted, os, hwalks.idles hidle, hrs.trans hos, hcauses ▸ hmessages⟩

end

/-! ### Archives that are left alone -/

/-- Nothing is written over what is at a path: the log is elsewhere, and results are printed or go only where
nothing is. -/
structure Spares (j : Job) (path : Bytes) (d : Disk) : Prop where
  absolute : Path.isAbsolute path = true
  log : ∀ q n, d.locate true path = .ok (.taken q n) → j.logFile? ≠ some q
  results : j.settings.toStdout = true ∨
    j.settings.overwrite = false ∧ Path.isAbsolute j.destination = true ∧ Sound j.logFile? d

section

variable {j : Job} {path below data : Bytes} {ts : List Turn} {os : List Outcome} {d d' : Disk} {s s' : State}
  {causes : Causes}

/-- An archive that is spared is read as it was when the disk has grown. -/
theorem Spares.grows (h : Spares j path d) (hg : d.Grows j.logFile? d') (hread : d.read path = .ok data) :
    Spares j path d' ∧ d'.read path = .ok data := by
  obtain ⟨q, n, hl⟩ := Disk.exists_locate_of_read hread
  have hl' : d'.locate true path = .ok (.taken q n) := hg.locate_eq h.absolute hl (h.log q n hl)
  refine ⟨⟨h.absolute, fun q' n' hq' => ?_, ?_⟩, ?_⟩
  · cases hl'.symm.trans hq'
    exact h.log q n hl
  · rcases h.results with hout | ⟨hover, hdest, hsound⟩
    · exact .inl hout
    · exact .inr ⟨hover, hdest, hsound.grows hg⟩
  · rw [Disk.read, hl] at hread
    rw [Disk.read, hl']
    exact hread

/-- A stylesheet lets the disk grow if it spares the archive. -/
theorem Spares.grows_sheet (h : Spares j path s.2.disk) {content : Except Bytes Bytes} {source : Bytes}
    (hsheet : exec (sheet j content source) s = (causes, s')) : s.2.disk.Grows j.logFile? s'.2.disk := by
  cases hout : j.settings.toStdout with
  | true =>
      have happended := (idle_sheet hout content source).appended s
      rw [hsheet] at happended
      exact happended.grows
  | false =>
      obtain ⟨hover, hdest, hsound⟩ := h.results.resolve_left (by simp [hout])
      exact (tried_sheet hover hout hdest hsound hsheet).grows

/-- **An archive that is left alone** is the same in every turn. -/
theorem Walks.archive_eq (hw : Walks j path below s ts os s') (hspares : Spares j path s.2.disk)
    (hdata : s.2.disk.read path = .ok data) : ∀ t ∈ ts, t.archive = .ok data := by
  induction hw with
  | idle => exact fun t ht => by cases ht
  | unopened hidle hread _ _ ih =>
      obtain ⟨hspares, hdata⟩ := hspares.grows hidle.2.grows hdata
      exact List.forall_mem_cons.2 ⟨hread.symm.trans hdata, ih hspares hdata⟩
  | emitted hidle hread _ _ hsheet _ ih | failed hidle hread _ hsheet _ _ ih =>
      obtain ⟨hspares, hdata⟩ := hspares.grows hidle.2.grows hdata
      obtain ⟨hspares', hdata'⟩ := hspares.grows (hspares.grows_sheet hsheet) hdata
      exact List.forall_mem_cons.2 ⟨hread.symm.trans hdata, ih hspares' hdata'⟩

end

/-! ### Entries that are not attempted -/

section

variable {j : Job} {path below : Bytes} {t : Turn} {hs : List Header} {ts : List Turn} {os : List Outcome}
  {s s' : State} {rs : List Result} {ran : Causes × State}

/-- Every outcome is one result or one message. -/
theorem Walks.length (hw : Walks j path below s ts os s') :
    (os.filterMap Outcome.result?).length + (os.filterMap Outcome.message?).length = ts.length := by
  induction hw with
  | idle => rfl
  | unopened _ _ _ _ ih | emitted _ _ _ _ _ _ ih | failed _ _ _ _ _ _ ih =>
      simp only [List.filterMap_cons, Outcome.result?, Outcome.message?, List.length_cons]
      omega

/-- Each turn has a result or a failure. -/
theorem Accounts.length (ha : Accounts j path below s ts rs ran) : rs.length + ran.1.length = ts.length := by
  obtain ⟨os, hwalks, rfl, hcauses⟩ := ha
  rw [hcauses.length_eq, hwalks.length]

/-- Some entries are all there is to what was emitted and reported. -/
def AccountsFor (j : Job) (path below : Bytes) (s : State) (hs : List Header) (rs : List Result)
    (ran : Causes × State) : Prop :=
  ∃ ts, ts.map Turn.header = hs ∧ Accounts j path below s ts rs ran

/-- Each entry has a result or a failure. -/
theorem AccountsFor.length (ha : AccountsFor j path below s hs rs ran) :
    rs.length + ran.1.length = hs.length := by
  obtain ⟨ts, rfl, hts⟩ := ha
  rw [hts.length, List.length_map]

/-- All entries are accounted for exactly when all have been attempted. -/
theorem Accounts.for_iff (ha : Accounts j path below s ts rs ran) (hattempted : Attempted hs ts) :
    AccountsFor j path below s hs rs ran ↔ ∀ t ∈ ts.take (hs.length - 1), t.canOpen = true := by
  rw [← hattempted.length_eq_iff]
  constructor
  · intro hall
    rw [← ha.length, hall.length]
  · intro hlength
    exact ⟨ts, hattempted.map_header_eq_iff.2 hlength, ha⟩

end

/-! ### The archive -/

/-- **What becomes of the entries of an archive.**  A job that is not cancelled processes an archive that
can be read and has safe names only.  The entries to visit are those that pass the filter, sorted by name, and
each is looked up in the archive as it reads in its turn.  Up to the first that cannot be opened each of them
is emitted or reported under its name, and nothing else is.  So all of them are exactly when each can be
opened, but perhaps the last.

Where nothing is written over the archive it is the same in every turn, so that this is known from the
start. -/
theorem archive_accounts_iff (j : Job) (path inside outside data : Bytes) (hs : List Header)
    (s : State) (hread : s.2.disk.read path = .ok data) (hparse : Archive.parse data = .ok hs)
    (hsafe : ∀ h ∈ hs, isSafe h.name = true) (hchecks : s.2.checks = none) :
    let visited := sortByName (hs.filter (isVisited inside j.extensions))
    let rs := results (watch (archive j path inside outside) s)
    let ran := exec (archive j path inside outside) s
    visited.Perm (hs.filter (isVisited inside j.extensions)) ∧
      ∃ turns, Attempted visited turns ∧ Accounts j path outside s turns rs ran ∧
        (AccountsFor j path outside s visited rs ran ↔
          ∀ t ∈ turns.take (visited.length - 1), t.canOpen = true) ∧
        (Spares j path s.2.disk → turns = (attempted data.toArray visited).map (Turn.of data) ∧
          (AccountsFor j path outside s visited rs ran ↔
            ∀ h ∈ visited.dropLast, canOpen data.toArray h = true)) := by
  intro visited rs ran
  obtain ⟨turns, hattempted, hcounts⟩ := accounts_archive j path inside outside hread hparse hsafe hchecks
  refine ⟨sort_perm _ _, turns, hattempted, hcounts, hcounts.for_iff hattempted, fun hspares => ?_⟩
  obtain ⟨os, hwalks, -⟩ := id hcounts
  have hdata := hwalks.archive_eq hspares hread
  refine ⟨hattempted.eq_map_of hdata, ?_⟩
  rw [← hattempted.forall_take_iff hdata]
  exact hcounts.for_iff hattempted

/-- A machine with one archive. -/
def archiveWorld (data : Bytes) : World where
  disk := { nodes := [(["m.zip"], .file data)], workDir := some [] }
  tempDir := "/tmp"

theorem locate_archiveWorld (data : Bytes) :
    (archiveWorld data).disk.locate true "/m.zip" = .ok (.taken ["m.zip"] (.file data)) := rfl

theorem read_archiveWorld (data : Bytes) : (archiveWorld data).disk.read "/m.zip" = .ok data := by
  rw [Disk.read, locate_archiveWorld]

/-- A job that prints. -/
def printingJob : Job where
  settings := { steps := [.minify], toStdout := true }
  extensions := [".css"]
  transliterate := false
  log := { sink := .discarded }
  destination := "/"

/-- A job that prints spares every archive. -/
theorem spares_printingJob (d : Disk) : Spares printingJob "/m.zip" d :=
  ⟨by decide, (fun q n _ h => by cases h), .inl rfl⟩

/-- The first entry has a wrong checksum, and both are accounted for. -/
theorem archive_accounts_iff_corrupt :
    (archiveWorld (pairArchive 0 1)).disk.read "/m.zip" = .ok (pairArchive 0 1) ∧
      Archive.parse (pairArchive 0 1) = .ok (pairHeaders 0 1) ∧
      Accounts printingJob "/m.zip" [] ({}, archiveWorld (pairArchive 0 1))
        ((pairHeaders 0 1).map (Turn.of (pairArchive 0 1)))
        (results (watch (archive printingJob "/m.zip" [] []) ({}, archiveWorld (pairArchive 0 1))))
        (exec (archive printingJob "/m.zip" [] []) ({}, archiveWorld (pairArchive 0 1))) := by
  have hparse : Archive.parse (pairArchive 0 1) = .ok (pairHeaders 0 1) := by decide +kernel
  have hvisited : sortByName ((pairHeaders 0 1).filter (isVisited [] printingJob.extensions)) =
      pairHeaders 0 1 := by decide +kernel
  have hattempted : attempted (pairArchive 0 1).toArray (pairHeaders 0 1) = pairHeaders 0 1 := by
    decide +kernel
  obtain ⟨-, turns, -, hcounts, -, hspared⟩ := archive_accounts_iff printingJob "/m.zip" [] []
    (pairArchive 0 1) (pairHeaders 0 1) ({}, archiveWorld (pairArchive 0 1)) (read_archiveWorld _) hparse
    (by decide +kernel) rfl
  rw [(hspared (spares_printingJob _)).1, hvisited, hattempted] at hcounts
  exact ⟨read_archiveWorld _, hparse, hcounts⟩

/-- The first entry is packed in an unknown way, so that it cannot be opened.  It is reported, and the
second is lost. -/
theorem archive_loses_blocked :
    results (watch (archive printingJob "/m.zip" [] []) ({}, archiveWorld (pairArchive 99 0))) = [] ∧
      (exec (archive printingJob "/m.zip" [] []) ({}, archiveWorld (pairArchive 99 0))).1 =
        [("zip entry \"a.css\": zip: unsupported compression algorithm" : Bytes)] ∧
      ¬ AccountsFor printingJob "/m.zip" [] ({}, archiveWorld (pairArchive 99 0)) (pairHeaders 99 0)
        (results (watch (archive printingJob "/m.zip" [] []) ({}, archiveWorld (pairArchive 99 0))))
        (exec (archive printingJob "/m.zip" [] []) ({}, archiveWorld (pairArchive 99 0))) := by
  have hrs : results (watch (archive printingJob "/m.zip" [] []) ({}, archiveWorld (pairArchive 99 0))) = [] := by
    decide +kernel
  have hcauses : (exec (archive printingJob "/m.zip" [] []) ({}, archiveWorld (pairArchive 99 0))).1 =
      [("zip entry \"a.css\": zip: unsupported compression algorithm" : Bytes)] := by decide +kernel
  refine ⟨hrs, hcauses, fun hall => ?_⟩
  have hlength := hall.length
  rw [hrs, hcauses] at hlength
  exact absurd hlength (by decide)

/-! ### Walks -/

section

variable {m : Type → Type} [Monad m] [Machine m]

/-- What is done with an entry of an archive, unless the job was cancelled. -/
def entry (j : Job) (path below name : Bytes) (data : Except Archive.Error Bytes) :
    Run m (Except Bytes Causes) := do
  if ← Machine.isCancelled then return .error cancelled
  else
    let causes ← sheet j (data.mapError (·.message)) (Path.join [below, name])
    if !causes.isEmpty then
      j.log.error "Unable to process file in archive"
        [("archive", .text path), ("file", .text name), ("error", .failure causes)]
    return .ok (Causes.within name causes)

/-- Each entry is looked up in the archive as it reads then. -/
def opener (path : Bytes) (h : Header) : StateT Causes (Run m) (Except Archive.Error (Except Archive.Error Bytes)) :=
  h.opened <$> Machine.read path

/-- It collects the failures of entries, and refuses one only if the job was cancelled. -/
def visitor (j : Job) (path below : Bytes) : Archive.Visitor (StateT Causes (Run m)) Bytes :=
  fun name data => do
    match ← StateT.lift (entry j path below name data) with
    | .error e => return .error e
    | .ok causes =>
      modify (· ++ causes)
      return .ok ()

/-- What is reported when a walk stops. -/
def reasons : Except (Archive.Stopped Bytes) Unit → Causes
  | .ok () => []
  | .error (.walk e) => [e.message]
  | .error (.visitor e) => [e]

/-- The entries are visited by this visitor; failures are added to those before. -/
theorem entries_eq_visitAll [LawfulMonad m] (j : Job) (path below : Bytes) (hs : List Header) (acc : Causes) :
    (fun p => (reasons p.1, p.2)) <$> (visitAllWith (opener path) (visitor j path below) hs).run acc =
      (fun p => (p.1, acc ++ p.2)) <$> (entries j path below hs : Run m (Causes × Causes)) := by
  induction hs generalizing acc with
  | nil => simp [visitAllWith, entriesWith, reasons]
  | cons h hs ih =>
      have hread : (Machine.read path : StateT Causes (Run m) (Except Failure Bytes)).run acc =
          (·, acc) <$> Machine.read path := by simp [Machine.read]
      simp only [visitAllWith, entriesWith, opener, StateT.run_bind, hread, map_bind, bind_map_left]
      refine bind_congr fun read => ?_
      cases h.opened read with
      | error e => simp [reasons]
      | ok data =>
          simp only [visitor, entry, StateT.run_bind, bind_assoc, map_bind, StateT.run_lift, pure_bind]
          refine bind_congr fun stopped => ?_
          cases stopped with
          | true => simp [reasons]
          | false =>
              simp only [Bool.false_eq_true, if_false, bind_assoc, map_bind]
              refine bind_congr fun causes => ?_
              have hrest := ih (acc ++ Causes.within h.name causes)
              -- whether the failure is logged makes no difference to the rest
              cases !List.isEmpty causes <;> simp [hrest]

/-- **To process an archive is to walk through it.** -/
theorem archive_eq_walk [LawfulMonad m] (j : Job) (path inside outside : Bytes) :
    (archive j path inside outside : Run m Causes) = do
      let start := (← get).count
      match ← Machine.read path with
      | .error e => return [e.message]
      | .ok data =>
        match Archive.parse data with
        | .error e => return [e.message]
        | .ok hs =>
          let (r, failed) ← (walkWith (opener path) inside j.extensions (visitor j path outside) hs).run []
          if (reasons r).isEmpty && failed.isEmpty && (← get).count == start then
            j.log.debug "Nothing to process" [("archive", .text path)]
          return reasons r ++ failed := by
  rw [archive, archiveWith]
  refine bind_congr fun progress => bind_congr fun read => ?_
  cases read with
  | error e => rfl
  | ok data =>
      simp only
      cases Archive.parse data with
      | error e => rfl
      | ok hs =>
          simp only [walkWith]
          cases Archive.visits inside j.extensions hs with
          | error e => simp [reasons]
          | ok hs =>
              have hentries := entries_eq_visitAll (m := m) j path outside hs []
              rw [show (fun p : Causes × Causes => (p.1, [] ++ p.2)) = id from rfl, id_map] at hentries
              simp only [← hentries, bind_map_left]

end

end Job

end Restyle
