import Restyle.Job.Command
import Restyle.Proofs.Script

/-!
# Jobs as scripts

Most functions of a job are written for any machine, and for these it is told what they ask for.  The others
have the progress of the job besides.  The script of one of them, when it is run, is the function (`Agrees`):
it goes the same way on both machines.

* `Scripted.idles`: a function that asks for nothing but looks and log records writes to the log only.
* `same_run`: the script of the whole command, run on a machine, is the command on that machine.
-/

namespace Restyle

open Files

/-- The file that log records are written to. -/
def Log.Sink.file? : Sink → Option Place
  | .written _ (some (_, place)) => some place
  | _ => none

namespace Job

/-- The file of the log of a job. -/
def logFile? (j : Job) : Option Place :=
  j.log.sink.file?

section

variable {α : Type} {n : Type → Type} [Monad n] [LawfulMonad n] [Machine n]

/-! ### Logging -/

/-- A record for the console is written there. -/
theorem logs_toConsole {log : Option Place} (level : Log.Level) (context : Log.Context) (r : Log.Record) :
    Scripted (n := n) (Request.Logs log) (Log.toConsole level context r) (Log.toConsole level context r) := by
  unfold Log.toConsole
  split
  · exact .ask (.printError _) trivial
  · split
    · refine .bind (.ask (.print _) trivial) fun e => ?_
      cases e with
      | none => exact .pure ()
      | some e => exact .ask (.printError _) trivial
    · exact .pure ()

/-- A record for a file is appended to it. -/
theorem logs_toFile (level : Log.Level) (place : Place) (context : Log.Context) (r : Log.Record) :
    Scripted (n := n) (Request.Logs (some place)) (Log.toFile level place context r)
      (Log.toFile level place context r) := by
  unfold Log.toFile
  split
  · refine .bind (.ask (.extend _ _) rfl) fun e => ?_
    cases e with
    | ok => exact .pure ()
    | error e => exact .ask (.printError _) trivial
  · exact .pure ()

/-- **Logging** writes to the log only. -/
theorem logs_sink (s : Log.Sink) (r : Log.Record) :
    Scripted (n := n) (Request.Logs s.file?) (s.log r) (s.log r) := by
  cases s with
  | discarded => exact .pure ()
  | kept => exact .ask (.keep r) trivial
  | written console file =>
      refine .bind (.ask (.hostText .time) trivial) fun time => ?_
      refine .bind (.ask (.hostText .elapsed) trivial) fun elapsed => ?_
      cases console with
      | none =>
          cases file with
          | none => exact .pure ()
          | some file =>
              exact .bind (.ask (.hostText .caller) trivial) fun caller => logs_toFile _ _ _ _
      | some level =>
          refine .bind (logs_toConsole level _ r) fun _ => ?_
          cases file with
          | none => exact .pure ()
          | some file =>
              exact .bind (.ask (.hostText .caller) trivial) fun caller => logs_toFile _ _ _ _

/-- Logging asks for nothing but the writing of records. -/
theorem logs_log (l : Log.Logger) (level : Log.Level) (message : Bytes) (fields : List (String × Log.Value)) :
    Scripted (n := n) (Request.Logs l.sink.file?) (l.log level message fields) (l.log level message fields) :=
  logs_sink l.sink _

theorem logs_logAll (l : Log.Logger) (rs : List Log.Record) :
    Scripted (n := n) (Request.Logs l.sink.file?) (l.logAll rs) (l.logAll rs) := by
  induction rs with
  | nil => exact .pure ()
  | cons r rs ih => exact .bind (logs_sink l.sink r) fun _ => ih

/-- A job only appends to its own log. -/
theorem idle_log (j : Job) (level : Log.Level) (message : Bytes) (fields : List (String × Log.Value)) :
    Scripted (n := n) (Request.Idle j.logFile?) (j.log.log level message fields)
      (j.log.log level message fields) :=
  (logs_log j.log level message fields).mono fun _ => Request.Logs.idle

theorem quiet_log (l : Log.Logger) (level : Log.Level) (message : Bytes) (fields : List (String × Log.Value)) :
    Scripted (n := n) Request.Quiet (l.log level message fields) (l.log level message fields) :=
  (logs_log l level message fields).mono fun _ => Request.Logs.quiet

/-! ### Output -/

/-- An output path is looked at before anything is written. -/
theorem quiet_prepareOutput (j : Job) (path : Bytes) :
    Scripted (n := n) Request.Quiet (prepareOutput j path) (prepareOutput j path) := by
  refine .bind (.ask (.stat path) trivial) fun r => ?_
  cases r with
  | ok kind =>
      dsimp only
      split
      · exact .bind (quiet_log j.log _ _ _) fun _ => .pure _
      · exact .pure _
  | error e =>
      dsimp only
      split
      · refine .bind (.ask (.mkdirAll _) trivial) fun r => ?_
        cases r with
        | ok => exact .pure _
        | error e => exact .pure _
      · exact .pure _

/-- Writing a file asks for no check. -/
theorem unchecked_write (path data : Bytes) :
    Scripted (n := n) Request.Unchecked (Machine.write path data) (Machine.write path data) := by
  refine .bind (.ask (.openFile false path) trivial) fun r => ?_
  cases r with
  | error e => exact .pure _
  | ok place =>
      refine .bind (.ask (.extend place data) trivial) fun r => ?_
      cases r with
      | ok => exact .pure _
      | error e => exact .pure _

/-- Emitting a result asks for no check. -/
theorem unchecked_emit (j : Job) (source result : Bytes) :
    Scripted (n := n) Request.Unchecked (emit j source result) (emit j source result) := by
  unfold emit
  split
  · refine .bind (.ask (.printDocument result) trivial) fun e => ?_
    cases e with
    | none => exact .pure _
    | some e => exact .pure _
  · refine .bind ((quiet_prepareOutput j _).mono fun _ => Request.Quiet.unchecked) fun causes => ?_
    cases causes with
    | nil =>
        refine .bind (unchecked_write _ _) fun r => ?_
        cases r with
        | ok => exact .pure _
        | error e => exact .pure _
    | cons c cs => exact .pure _

/-- A result that is printed leaves the disk as it is. -/
theorem idle_emit {log : Option Place} {j : Job} (hout : j.settings.toStdout = true) (source result : Bytes) :
    Scripted (n := n) (Request.Idle log) (emit j source result) (emit j source result) := by
  rw [emit, emit, if_pos hout, if_pos hout]
  refine .bind (.ask (.printDocument result) trivial) fun e => ?_
  cases e with
  | none => exact .pure _
  | some e => exact .pure _

/-! ### Searching -/

/-- Whether a file is an archive is found by looking. -/
theorem looks_isArchive (path : Bytes) :
    Scripted (n := n) Request.Looks (isArchive path) (isArchive path) := by
  refine .bind (.ask (.read path) trivial) fun r => ?_
  cases r with
  | error e => exact .pure _
  | ok data => exact .pure _

theorem idle_isArchive (log : Option Place) (path : Bytes) :
    Scripted (n := n) (Request.Idle log) (isArchive path) (isArchive path) :=
  (looks_isArchive path).mono fun _ h => h.idle log

/-- Lists are collected as the parts are scripted. -/
theorem scripted_collect {P : Request → Prop} {f : α → Script (Except Causes (List Bytes))}
    {g : α → n (Except Causes (List Bytes))} (hfg : ∀ a, Scripted P (f a) (g a)) (as : List α) :
    Scripted P (collect f as) (collect g as) := by
  induction as with
  | nil => exact .pure _
  | cons a as ih =>
      refine .bind (hfg a) fun r => ?_
      cases r with
      | error e => exact .pure _
      | ok found =>
          refine .bind ih fun r => ?_
          cases r with
          | error e => exact .pure _
          | ok rest => exact .pure _

/-- What is skipped is only logged. -/
theorem idle_skip (j : Job) (path : Bytes) (e : Failure) :
    Scripted (n := n) (Request.Idle j.logFile?) (skip j path e) (skip j path e) := by
  refine .bind (.ask .isCancelled trivial) fun stop => ?_
  cases stop with
  | true => exact .pure _
  | false => exact .bind (idle_log j _ _ _) fun _ => .pure _

/-- **The search for files** only looks and logs. -/
theorem idle_filesBelow (j : Job) (depth : Nat) (path : Bytes) (kind : Kind) :
    Scripted (n := n) (Request.Idle j.logFile?) (filesBelow j depth path kind) (filesBelow j depth path kind) := by
  induction depth generalizing path kind with
  | zero => exact .pure _
  | succ depth ih =>
      refine .bind (.ask .isCancelled trivial) fun stop => ?_
      cases stop with
      | true => exact .pure _
      | false =>
          cases kind with
          | file | link | device => exact .pure _
          | dir =>
              refine .bind (.ask (.entries path) trivial) fun r => ?_
              cases r with
              | ok es => exact scripted_collect (fun e => ih _ e.2) es
              | error e => exact idle_skip j path e

theorem idle_filesOf (j : Job) (dir : Bytes) :
    Scripted (n := n) (Request.Idle j.logFile?) (filesOf j dir) (filesOf j dir) := by
  refine .bind (.ask (.lstat dir) trivial) fun r => ?_
  cases r with
  | ok kind => exact idle_filesBelow j _ dir kind
  | error e => exact idle_skip j dir e

/-! ### Settling -/

/-- An absolute path may need the working directory. -/
theorem quiet_absolute (path : Bytes) :
    Scripted (n := n) Request.Quiet (Machine.absolute path) (Machine.absolute path) := by
  unfold Machine.absolute
  split
  · exact .pure _
  · refine .bind (.ask .workPath trivial) fun r => ?_
    cases r with
    | ok w => exact .pure _
    | error e => exact .pure _

/-- The path of a source is found quietly. -/
theorem quiet_sourcePath (given : Bytes) :
    Scripted (n := n) Request.Quiet (sourcePath given) (sourcePath given) := by
  unfold sourcePath
  split
  · exact .pure _
  · exact quiet_absolute given

theorem quiet_destinationPath (given : Bytes) :
    Scripted (n := n) Request.Quiet (destinationPath given) (destinationPath given) := by
  unfold destinationPath
  split
  · refine .bind (.ask .workPath trivial) fun r => ?_
    cases r with
    | ok w => exact quiet_absolute w
    | error e => exact .pure _
  · exact quiet_absolute given

/-- A job is configured quietly. -/
theorem quiet_configure (c : Config) (o : Options) (log : Log.Logger) (s : Settings) :
    Scripted (n := n) Request.Quiet (configure c o log s) (configure c o log s) := by
  unfold configure
  dsimp only
  split
  · exact .pure _
  · split
    · exact .pure _
    · split
      · exact .bind (quiet_log log _ _ _) fun _ => .pure _
      · exact .noted (quiet_log log _ _ _) (.pure _)

end

/-! ### Running on a machine that is a value -/

/-- The state of a job, and of the machine. -/
abbrev State := Progress × World

variable {α β : Type}

/-- What a part of a job returns, and the state after it. -/
def exec (x : Run (StateM World) α) (s : State) : α × State :=
  let r := (x.run s.1).run s.2
  (r.1.1, r.1.2, r.2)

/-- Two parts are run after each other. -/
theorem exec_bind (x : Run (StateM World) α) (f : α → Run (StateM World) β) (s : State) :
    exec (x >>= f) s = exec (f (exec x s).1) (exec x s).2 := rfl

/-- A part of a job that is done in two goes through a state between them. -/
theorem exec_bind_eq_iff {x : Run (StateM World) α} {f : α → Run (StateM World) β} {s : State}
    {r : β × State} : exec (x >>= f) s = r ↔ ∃ a t, exec x s = (a, t) ∧ exec (f a) t = r := by
  rw [exec_bind]
  exact ⟨fun h => ⟨_, _, rfl, h⟩, fun ⟨_, _, hx, hf⟩ => by rwa [hx]⟩

/-- Looking at a path changes nothing. -/
theorem exec_stat (path : Bytes) (s : State) :
    exec (Machine.stat path) s = ((s.2.disk.stat path).map Node.kind, s) := rfl

/-- Directories are made on the disk. -/
theorem exec_mkdirAll (path : Bytes) (s : State) :
    exec (Machine.mkdirAll path) s =
      ((s.2.disk.ensureDirs path).2, s.1, { s.2 with disk := (s.2.disk.ensureDirs path).1 }) := rfl

/-- A file is opened on the disk, or nothing happens. -/
theorem exec_openFile (keep : Bool) (path : Bytes) (s : State) :
    exec (Machine.openFile keep path) s =
      match s.2.disk.openFile keep path with
      | .error e => (.error e, s)
      | .ok (d, place) => (.ok place, s.1, { s.2 with disk := d }) := by
  simp only [exec, Machine.openFile, World.onDisk, StateT.run_lift, StateT.run_bind, StateT.run_get,
    pure_bind]
  cases s.2.disk.openFile keep path <;> rfl

/-- A file is written on the disk, or nothing happens. -/
theorem exec_extend (place : Place) (data : Bytes) (s : State) :
    exec (Machine.extend place data) s =
      match s.2.disk.extend place data with
      | .error e => (.error e, s)
      | .ok d => (.ok (), s.1, { s.2 with disk := d }) := by
  simp only [exec, Machine.extend, World.onOpen, StateT.run_lift, StateT.run_bind, StateT.run_get, pure_bind]
  cases s.2.disk.extend place data <;> rfl

/-- A check is used up, unless there is no limit or none is left. -/
theorem exec_isCancelled (s : State) :
    exec Machine.isCancelled s =
      match s.2.checks with
      | none => (false, s)
      | some 0 => (true, s)
      | some (n + 1) => (false, s.1, { s.2 with checks := some n }) := by
  simp only [exec, Machine.isCancelled, World.check, StateT.run_lift, StateT.run_bind, StateT.run_get,
    pure_bind]
  rcases s.2.checks with _ | _ | n <;> rfl

/-- Only the log has been written to. -/
def Idles (log : Option Place) (s t : State) : Prop :=
  t.1 = s.1 ∧ Disk.Appended log s.2.disk t.2.disk

theorem Idles.refl (log : Option Place) (s : State) : Idles log s s :=
  ⟨rfl, .refl log _⟩

theorem Idles.trans {log : Option Place} {s t u : State} (h : Idles log s t) (h' : Idles log t u) :
    Idles log s u :=
  ⟨h'.1.trans h.1, h.2.trans h'.2⟩

/-! ### Scripts of jobs -/

/-- The script of a part of a job, run on a machine. -/
def play (x : Run Script α) : Run (StateM World) α :=
  fun p => (x p).run

/-- What is asked of the machine in a part of a job, and the answers. -/
def watch (x : Run Script α) (s : State) : List Event :=
  (x s.1).history s.2

theorem watch_pure (a : α) (s : State) : watch (pure a) s = [] := rfl

/-- A request is watched with its answer. -/
theorem watch_ask (r : Request) (s : State) : watch r.ask s = [⟨r, (r.perform s.2).1⟩] := by
  cases r <;> rfl

theorem play_ask (r : Request) : play r.ask = r.ask := by
  cases r <;> rfl

/-- A request is answered by the world, and the progress stays. -/
theorem exec_ask (r : Request) (s : State) :
    exec r.ask s = ((r.perform s.2).1, s.1, (r.perform s.2).2) := by
  cases r <;> rfl

/-- A script of two parts is played part by part. -/
theorem play_bind (x : Run Script α) (f : α → Run Script β) :
    play (x >>= f) = play x >>= fun a => play (f a) := by
  funext p
  exact Script.run_bind (x p) fun r => f r.1 r.2

theorem exec_play_bind (x : Run Script α) (f : α → Run Script β) (s : State) :
    exec (play (x >>= f)) s = exec (play (f (exec (play x) s).1)) (exec (play x) s).2 := by
  rw [play_bind, exec_bind]

/-- The history of two parts is that of the first and then that of the second. -/
theorem watch_bind (x : Run Script α) (f : α → Run Script β) (s : State) :
    watch (x >>= f) s = watch x s ++ watch (f (exec (play x) s).1) (exec (play x) s).2 :=
  Script.history_bind (x s.1) (fun r => f r.1 r.2) s.2

/-- A request comes first. -/
theorem watch_ask_bind (r : Request) (f : r.Answer → Run Script α) (s : State) :
    watch (r.ask >>= f) s =
      ⟨r, (r.perform s.2).1⟩ :: watch (f (r.perform s.2).1) (s.1, (r.perform s.2).2) := by
  rw [watch_bind, watch_ask, play_ask, exec_ask]
  rfl

/-- A program that begins with a request goes on with its answer. -/
theorem exec_ask_bind (r : Request) (f : r.Answer → Run Script α) (s : State) :
    exec (play (r.ask >>= f)) s =
      exec (play (f (r.perform s.2).1)) (s.1, (r.perform s.2).2) := by
  rw [exec_play_bind, play_ask, exec_ask]

/-- A part of a job, run from its script, is that part on the machine, and makes only requests of some
kind. -/
structure Agrees (P : Request → Prop) (x : Run Script α) (y : Run (StateM World) α) : Prop where
  play_eq : play x = y
  only : ∀ p, (x p).Only P

/-- The same, with any requests. -/
abbrev Same (x : Run Script α) (y : Run (StateM World) α) : Prop :=
  Agrees (fun _ => True) x y

namespace Agrees

variable {P Q : Request → Prop} {x : Run Script α} {y : Run (StateM World) α} {f : α → Run Script β}
  {g : α → Run (StateM World) β}

theorem pure (a : α) : Agrees P (pure a) (pure a) :=
  ⟨rfl, fun _ => trivial⟩

/-- Parts that agree make programs that agree. -/
theorem bind (hx : Agrees P x y) (hf : ∀ a, Agrees P (f a) (g a)) : Agrees P (x >>= f) (y >>= g) := by
  refine ⟨?_, fun p => (hx.only p).bind fun r => (hf r.1).only r.2⟩
  rw [play_bind, hx.play_eq]
  exact congrArg (y >>= ·) (funext fun a => (hf a).play_eq)

/-- Fewer requests are a stronger promise. -/
theorem mono (h : Agrees P x y) (hPQ : ∀ r, P r → Q r) : Agrees Q x y :=
  ⟨h.play_eq, fun p => (h.only p).mono hPQ⟩

/-- What agrees does the same. -/
theorem same (h : Agrees P x y) : Same x y :=
  h.mono fun _ _ => trivial

theorem unchecked (h : Agrees Request.Quiet x y) : Agrees Request.Unchecked x y :=
  h.mono fun _ => Request.Quiet.unchecked

theorem watch (h : Agrees P x y) (s : State) : ∀ e ∈ watch x s, P e.request :=
  fun _ => (h.only s.1).history

/-- Requests that idle leave the disk but for the log. -/
theorem appended {log : Option Place} (h : Agrees (Request.Idle log) x y) (s : State) :
    Disk.Appended log s.2.disk (exec y s).2.2.disk := by
  rw [← h.play_eq]
  exact (h.only s.1).perform_appended s.2

/-- One request. -/
theorem ask (r : Request) (hr : P r) : Agrees P r.ask r.ask := by
  refine ⟨play_ask r, fun p => ?_⟩
  rw [Request.ask_lift]
  exact (Script.only_ask hr).bind fun _ => trivial

/-- What a job has done so far is not the machine's. -/
theorem progress (f : Progress → α × Progress) : Agrees P (modifyGet f) (modifyGet f) :=
  ⟨rfl, fun _ => trivial⟩

/-- A note in the log may come first. -/
theorem noted {note : Run Script Unit} {note' : Run (StateM World) Unit} (hnote : Agrees P note note')
    {c : Prop} [Decidable c] (hx : Agrees P x y) :
    Agrees P (if c then note >>= fun _ => x else x) (if c then note' >>= fun _ => y else y) := by
  split
  · exact .bind hnote fun _ => hx
  · exact hx

end Agrees

end Job

/-! ### Programs for any machine in a job -/

namespace Scripted

open Job

variable {α : Type} {P : Request → Prop} {x : Script α} {y : Run (StateM World) α}

/-- In a job a program does nothing to the progress. -/
theorem exec_eq (h : Scripted P x y) (s : State) :
    exec y s = ((x.perform s.2).1, s.1, (x.perform s.2).2) := by
  rw [← h.run_eq, Script.run_lift]
  rfl

theorem progress (h : Scripted P x y) (s : State) : (exec y s).2.1 = s.1 := by
  rw [h.exec_eq]

/-- **A program that looks at the machine and writes log records** does nothing else. -/
theorem idles {log : Option Place} (h : Scripted (Request.Idle log) x y) (s : State) :
    Idles log s (exec y s).2 := by
  rw [h.exec_eq]
  exact ⟨rfl, h.only.perform_appended s.2⟩

/-- Two programs with one script agree. -/
theorem agrees {z : Run Script α} (hz : Scripted P x z) (hy : Scripted P x y) : Agrees P z y := by
  rw [← hz.run_eq, ← hy.run_eq, Script.run_lift, Script.run_lift, Script.run_self]
  refine ⟨?_, fun p => hz.only.bind fun _ => trivial⟩
  funext p
  exact Script.run_bind x fun a => Pure.pure (a, p)

end Scripted

namespace Job

theorem agrees_log (l : Log.Logger) (level : Log.Level) (message : Bytes)
    (fields : List (String × Log.Value)) :
    Agrees Request.Quiet (l.log level message fields) (l.log level message fields) :=
  (quiet_log l level message fields).agrees (quiet_log l level message fields)

theorem agrees_logAll (l : Log.Logger) (rs : List Log.Record) :
    Agrees (Request.Logs l.sink.file?) (l.logAll rs) (l.logAll rs) :=
  (logs_logAll l rs).agrees (logs_logAll l rs)

theorem agrees_isArchive (path : Bytes) : Agrees Request.Quiet (isArchive path) (isArchive path) :=
  ((looks_isArchive path).agrees (looks_isArchive path)).mono fun _ => Request.Looks.quiet

/-! ### One stylesheet -/

section

variable {P : Request → Prop}

/-- Storing a trace asks for nothing. -/
theorem agrees_storeTrace (source text : Bytes) : Agrees P (storeTrace source text) (storeTrace source text) := by
  refine .bind (.progress _) fun p => ?_
  split
  · exact .pure _
  · split
    · exact .bind (.progress _) fun _ => .pure _
    · exact .pure _

/-- What is done unless the job has been cancelled. -/
theorem agrees_unlessCancelled {k : Run Script Causes} {k' : Run (StateM World) Causes} (hcheck : P .isCancelled)
    (hk : Agrees P k k') : Agrees P (unlessCancelled k) (unlessCancelled k') := by
  refine .bind (.ask .isCancelled hcheck) fun stop => ?_
  cases stop with
  | true => exact .pure _
  | false => exact hk

variable {j : Job} {source : Bytes} (hlogs : ∀ r : Request, r.Logs j.logFile? → P r)
  (hemit : ∀ result, Agrees P (emit j source result) (emit j source result))

include hlogs hemit

/-- Besides emitting its result a stylesheet is logged. -/
theorem agrees_format (doc : Bytes) : Agrees P (format j source doc) (format j source doc) := by
  have hlog : ∀ level message fields, Agrees P (j.log.log level message fields) (j.log.log level message fields) :=
    fun level message fields =>
      ((logs_log j.log level message fields).agrees (logs_log j.log level message fields)).mono hlogs
  refine .bind ((agrees_logAll j.log _).mono hlogs) fun _ => .bind (agrees_storeTrace source _) fun causes => ?_
  cases causes with
  | nil =>
      refine .noted (hlog _ _ _) (.bind (hemit _) fun r => ?_)
      cases r with
      | error causes => exact .pure _
      | ok place => exact .bind (hlog _ _ _) fun _ => .pure _
  | cons c cs => exact .pure _

/-- **A stylesheet** asks for a check, and then for what its formatting asks for. -/
theorem agrees_sheet (hcheck : P .isCancelled) (data : Except Bytes Bytes) :
    Agrees P (sheet j data source) (sheet j data source) := by
  refine agrees_unlessCancelled hcheck (.bind (.progress _) fun _ => ?_)
  cases data with
  | error e => exact .pure _
  | ok data =>
      dsimp only
      split
      · exact .pure _
      · exact agrees_format hlogs hemit _

end

theorem agrees_emit (j : Job) (source result : Bytes) :
    Agrees Request.Unchecked (emit j source result) (emit j source result) :=
  (unchecked_emit j source result).agrees (unchecked_emit j source result)

/-- Formatting asks for no check. -/
theorem unchecked_format (j : Job) (source doc : Bytes) :
    Agrees Request.Unchecked (format j source doc) (format j source doc) :=
  agrees_format (fun _ h => h.quiet.unchecked) (agrees_emit j source) doc

/-- A stylesheet does the same as its script. -/
theorem same_sheet (j : Job) (data : Except Bytes Bytes) (source : Bytes) :
    Same (sheet j data source) (sheet j data source) :=
  agrees_sheet (fun _ _ => trivial) (fun result => (agrees_emit j source result).same) trivial data

/-- A job that prints leaves all files but the log as they are. -/
theorem idle_sheet {j : Job} (hout : j.settings.toStdout = true) (data : Except Bytes Bytes) (source : Bytes) :
    Agrees (Request.Idle j.logFile?) (sheet j data source) (sheet j data source) :=
  agrees_sheet (fun _ => Request.Logs.idle)
    (fun result => (idle_emit hout source result).agrees (idle_emit hout source result)) trivial data

/-! ### Sources -/

theorem same_file (j : Job) (path source : Bytes) : Same (file j path source) (file j path source) := by
  refine .bind (.ask (.read path) trivial) fun r => ?_
  cases r with
  | error e => exact .bind (agrees_log j.log _ _ _).same fun _ => .pure _
  | ok data =>
      refine .bind (same_sheet j _ source) fun causes => ?_
      cases causes with
      | nil => exact .pure _
      | cons c cs => exact .bind (agrees_log j.log _ _ _).same fun _ => .pure _

theorem same_entries (j : Job) (path below : Bytes) (hs : List Archive.Header) :
    Same (entries j path below hs) (entries j path below hs) := by
  induction hs with
  | nil => exact .pure _
  | cons h hs ih =>
      refine .bind (.ask (.read path) trivial) fun r => ?_
      split
      · exact .pure _
      · refine .bind (.ask .isCancelled trivial) fun stop => ?_
        cases stop with
        | true => exact .pure _
        | false =>
            refine .bind (same_sheet j _ _) fun causes => ?_
            exact .noted (agrees_log j.log _ _ _).same (.bind ih fun r => .pure _)

theorem same_archive (j : Job) (path inside outside : Bytes) :
    Same (archive j path inside outside) (archive j path inside outside) := by
  refine .bind (.progress _) fun start => .bind (.ask (.read path) trivial) fun r => ?_
  cases r with
  | error e => exact .pure _
  | ok data =>
      dsimp only
      split
      · exact .pure _
      · split
        · exact .pure _
        · refine .bind (same_entries j _ _ _) fun r => .bind (.progress _) fun p => ?_
          exact .noted (agrees_log j.log _ _ _).same (.pure _)

theorem same_filesOf (j : Job) (dir : Bytes) : Same (filesOf j dir) (filesOf j dir) :=
  ((idle_filesOf j dir).agrees (idle_filesOf j dir)).same

theorem same_found (j : Job) (path rel : Bytes) : Same (found j path rel) (found j path rel) := by
  refine .bind (agrees_isArchive path).same fun r => ?_
  rcases r with e | isArchive
  · exact .bind (agrees_log j.log _ _ _).same fun _ => .pure _
  · cases isArchive with
    | true =>
        refine .bind (same_archive j _ _ _) fun causes => ?_
        exact .noted (agrees_log j.log _ _ _).same (.pure _)
    | false =>
        dsimp only
        split
        · exact .bind (same_file j _ _) fun causes => .pure _
        · exact .bind (agrees_log j.log _ _ _).same fun _ => .pure _

theorem same_foundAll (j : Job) (dir : Bytes) (paths : List Bytes) :
    Same (foundAll j dir paths) (foundAll j dir paths) := by
  induction paths with
  | nil => exact .pure _
  | cons path paths ih =>
      refine agrees_unlessCancelled trivial ?_
      exact .bind (same_found j _ _) fun causes => .bind ih fun causes' => .pure _

theorem same_directory (j : Job) (dir : Bytes) : Same (directory j dir) (directory j dir) := by
  refine .bind (same_filesOf j dir) fun r => ?_
  cases r with
  | error e => exact .pure _
  | ok paths =>
      refine .bind (.progress _) fun start => .bind (same_foundAll j _ _) fun causes => ?_
      exact .bind (.progress _) fun p => .noted (agrees_log j.log _ _ _).same (.pure _)

theorem same_resolve (j : Job) (source : Bytes) (whole : Bool) (heads : List Bytes) :
    Same (resolve j source whole heads) (resolve j source whole heads) := by
  induction heads generalizing whole with
  | nil => exact .pure _
  | cons head heads ih =>
      refine agrees_unlessCancelled trivial (.bind (.ask (.stat head) trivial) fun r => ?_)
      rcases r with e | kind
      · exact ih false
      · cases kind with
        | dir =>
            dsimp only
            split
            · exact .bind (same_directory j _) fun causes => .pure _
            · exact .pure _
        | file =>
            refine .bind (agrees_isArchive head).same fun r => ?_
            rcases r with e | isArchive
            · exact .pure _
            · cases isArchive with
              | true => exact .bind (same_archive j _ _ _) fun causes => .pure _
              | false =>
                  dsimp only
                  split
                  · exact same_file j _ _
                  · exact .pure _
        | link | device => exact .pure _

/-- **A whole job does the same as its script.** -/
theorem same_process (j : Job) (source : Bytes) : Same (process j source) (process j source) := by
  unfold process processWith
  split
  · exact .bind (.ask .input trivial) fun data => same_sheet j _ _
  · exact same_resolve j _ _ _

/-! ### The command -/

theorem same_start (j : Job) (source : Bytes) : Same (start j source) (start j source) := by
  refine .bind (agrees_log j.log _ _ _).same fun _ => .bind (same_process j source) fun causes => ?_
  exact .bind (agrees_log j.log _ _ _).same fun _ => .pure _

theorem same_settle (c : Config) (log : Log.Logger) (o : Options) (source : Bytes) :
    Same (settle c log o source) (settle c log o source) := by
  refine .noted (agrees_log log _ _ _).same
    (.bind ((quiet_destinationPath _).agrees (quiet_destinationPath _)).same fun r => ?_)
  cases r with
  | error e => exact .pure _
  | ok destination =>
      refine .noted (agrees_log log _ _ _).same
        (.bind ((quiet_configure c o log _).agrees (quiet_configure c o log _)).same fun r => ?_)
      cases r with
      | error causes => exact .pure _
      | ok settings => exact .bind (.ask .wide trivial) fun wide => same_start _ source

/-- **The command is its script**, run on the machine. -/
theorem same_run (c : Config) (log : Log.Logger) (o : Options) : Same (run c log o) (run c log o) := by
  refine agrees_unlessCancelled trivial ?_
  dsimp only
  split
  · exact .pure _
  · refine .bind ((quiet_sourcePath _).agrees (quiet_sourcePath _)).same fun r => ?_
    cases r with
    | error e => exact .pure _
    | ok source => exact same_settle c _ o source

end Job

end Restyle
