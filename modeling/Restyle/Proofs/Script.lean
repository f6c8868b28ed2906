import Restyle.Proofs.Files.Growth
import Restyle.World

/-!
# Programs as scripts

The program is written for any machine.  One of them is a machine that only writes down what is asked of it:
on it a program is its own *script* (`Script`), a tree of requests with a branch for every answer.  A script
can be run on any machine, and on one that is a value it has a *history*: the requests on the branch that was
taken, with their answers.  What was emitted in a run is read off the history (`results`).

A program does the same as its script on all machines (`Scripted`), so that it is enough to know what its
script asks for (`Script.Only`).

* `Script.Only.perform_appended`: a script that asks for nothing but looks and log records adds at most to the
  log.
-/

namespace Restyle

open Files

/-- What is done in two goes through a state between them. -/
theorem World.run_bind_eq_iff {α β : Type} {x : StateM World α} {f : α → StateM World β} {w : World}
    {r : β × World} :
    (x >>= f).run w = r ↔ ∃ a w₁, x.run w = (a, w₁) ∧ (f a).run w₁ = r := by
  refine ⟨fun h => ⟨_, _, rfl, h⟩, ?_⟩
  rintro ⟨a, w₁, hx, hf⟩
  change (f (x.run w).1).run (x.run w).2 = r
  rwa [hx]

/-! ### Requests -/

/-- What can be asked of a machine. -/
inductive Request where
  | workPath
  | stat (path : Bytes)
  | lstat (path : Bytes)
  | entries (path : Bytes)
  | read (path : Bytes)
  | openFile (keep : Bool) (path : Bytes)
  | openTemp (stem ending : Bytes)
  | extend (place : Place) (data : Bytes)
  | writeAt (place : Place) (offset : Nat) (data : Bytes)
  | mkdirAll (path : Bytes)
  | remove (path : Bytes)
  | input
  | print (s : Bytes)
  | printDocument (doc : Bytes)
  | printError (s : Bytes)
  | isCancelled
  | keep (r : Log.Record)
  | hostText (t : HostText)
  | wide

namespace Request

/-- What a request is answered with. -/
@[reducible]
def Answer : Request → Type
  | workPath => Except Bytes Bytes
  | stat _ | lstat _ => Except Failure Kind
  | entries _ => Except Failure (List (Bytes × Kind))
  | read _ => Except Failure Bytes
  | openFile _ _ => Except Failure Place
  | openTemp _ _ => Except Failure (Bytes × Place)
  | extend _ _ | writeAt _ _ _ => Except Errno Unit
  | mkdirAll _ | remove _ => Except Failure Unit
  | input => Bytes
  | print _ | printDocument _ => Option Bytes
  | printError _ | keep _ => Unit
  | isCancelled => Bool
  | hostText _ => Bytes
  | wide => CodePage.Wide

/-- Asks a machine. -/
def ask {m : Type → Type} [Machine m] : (r : Request) → m r.Answer
  | workPath => Machine.workPath
  | stat path => Machine.stat path
  | lstat path => Machine.lstat path
  | entries path => Machine.entries path
  | read path => Machine.read path
  | openFile kept path => Machine.openFile kept path
  | openTemp stem ending => Machine.openTemp stem ending
  | extend place data => Machine.extend place data
  | writeAt place offset data => Machine.writeAt place offset data
  | mkdirAll path => Machine.mkdirAll path
  | remove path => Machine.remove path
  | input => Machine.input
  | print s => Machine.print s
  | printDocument doc => Machine.printDocument doc
  | printError s => Machine.printError s
  | isCancelled => Machine.isCancelled
  | keep r => Machine.keep r
  | hostText t => Machine.hostText t
  | wide => Machine.wide

/-- A program with a state of its own asks the machine below it. -/
theorem ask_lift {σ : Type} {m : Type → Type} [Monad m] [Machine m] (r : Request) :
    (r.ask : StateT σ m r.Answer) = StateT.lift r.ask := by
  cases r <;> rfl

/-! ### Kinds of requests -/

/-- Emits nothing, and does not look whether the run should stop. -/
def Quiet : Request → Prop
  | openFile _ _ | printDocument _ | isCancelled => False
  | _ => True

/-- Does not look whether the run should stop. -/
def Unchecked : Request → Prop
  | isCancelled => False
  | _ => True

/-- Changes no file but the log, if that is one. -/
def Idle (log : Option Place) : Request → Prop
  | openFile _ _ | openTemp _ _ | writeAt _ _ _ | mkdirAll _ | remove _ => False
  | extend place _ => log = some place
  | _ => True

/-- Looks at the machine, which stays as it is. -/
def Looks : Request → Prop
  | workPath | stat _ | lstat _ | entries _ | read _ | input | wide => True
  | _ => False

/-- What a log asks for. -/
def Logs (log : Option Place) : Request → Prop
  | print _ | printError _ | keep _ | hostText _ => True
  | extend place _ => log = some place
  | _ => False

variable {r : Request} {log : Option Place}

/-- What is quiet asks for no check. -/
theorem Quiet.unchecked (h : r.Quiet) : r.Unchecked := by
  cases r <;> trivial

theorem Logs.quiet (h : r.Logs log) : r.Quiet := by
  cases r <;> trivial

theorem Logs.idle (h : r.Logs log) : r.Idle log := by
  cases r <;> trivial

theorem Looks.quiet (h : r.Looks) : r.Quiet := by
  cases r <;> trivial

/-- Looking leaves any log alone. -/
theorem Looks.idle (h : r.Looks) (log : Option Place) : r.Idle log := by
  cases r <;> trivial

/-- The answer of a machine that is a value, and the machine afterwards. -/
def perform (r : Request) (w : World) : r.Answer × World :=
  (r.ask : StateM World r.Answer).run w

/-- Looking changes nothing. -/
theorem Looks.perform_eq (h : r.Looks) (w : World) : (r.perform w).2 = w := by
  cases r <;> first | rfl | exact h.elim

/-- **An idle request** adds at most to the log. -/
theorem Idle.perform_appended (h : r.Idle log) (w : World) : Disk.Appended log w.disk (r.perform w).2.disk := by
  cases r with
  | openFile | openTemp | writeAt | mkdirAll | remove => exact h.elim
  | extend place data =>
      obtain rfl : log = some place := h
      simp only [perform, ask, Machine.extend, World.onOpen, StateT.run_bind, StateT.run_get, pure_bind]
      cases hd : w.disk.extend place data with
      | error e => exact .refl _ _
      | ok d => exact .extend hd
  | isCancelled =>
      simp only [perform, ask, Machine.isCancelled, World.check, StateT.run_bind, StateT.run_get, pure_bind]
      rcases w.checks with _ | _ | n <;> exact .refl _ _
  | _ => exact .refl _ _

end Request

/-- A request and how it was answered. -/
structure Event where
  request : Request
  answer : request.Answer

/-! ### Scripts -/

/-- A program as a tree of requests. -/
inductive Script (α : Type) where
  | done (a : α)
  | ask (r : Request) (next : r.Answer → Script α)

namespace Script

variable {α β : Type} {n : Type → Type} [Monad n] [Machine n]

/-- The second script goes on at every end of the first. -/
protected def bind : Script α → (α → Script β) → Script β
  | done a, f => f a
  | ask r next, f => ask r fun answer => (next answer).bind f

instance : Monad Script where
  pure := done
  bind := Script.bind

theorem bind_done (x : Script α) : x.bind done = x := by
  induction x with
  | done a => rfl
  | ask r next ih => exact congrArg (ask r) (funext ih)

theorem bind_bind {γ : Type} (x : Script α) (f : α → Script β) (g : β → Script γ) :
    (x.bind f).bind g = x.bind fun a => (f a).bind g := by
  induction x with
  | done a => rfl
  | ask r next ih => exact congrArg (ask r) (funext ih)

instance : LawfulMonad Script :=
  .mk' Script bind_done (fun _ _ => rfl) bind_bind

/-- One request. -/
def single (r : Request) : Script r.Answer :=
  ask r done

instance : Machine Script where
  workPath := single .workPath
  stat path := single (.stat path)
  lstat path := single (.lstat path)
  entries path := single (.entries path)
  read path := single (.read path)
  openFile keep path := single (.openFile keep path)
  openTemp stem ending := single (.openTemp stem ending)
  extend place data := single (.extend place data)
  writeAt place offset data := single (.writeAt place offset data)
  mkdirAll path := single (.mkdirAll path)
  remove path := single (.remove path)
  input := single .input
  print s := single (.print s)
  printDocument doc := single (.printDocument doc)
  printError s := single (.printError s)
  isCancelled := single .isCancelled
  keep r := single (.keep r)
  hostText t := single (.hostText t)
  wide := single .wide

/-- The machine of scripts writes a request down. -/
theorem ask_eq_single (r : Request) : (r.ask : Script r.Answer) = single r := by
  cases r <;> rfl

/-- Runs a script on a machine. -/
def run : Script α → n α
  | done a => pure a
  | ask r next => r.ask >>= fun answer => (next answer).run

/-- What a script returns on a machine that is a value, and the machine afterwards. -/
def perform (x : Script α) (w : World) : α × World :=
  (x.run : StateM World α).run w

/-- What is asked in a run, and the answers. -/
def history : Script α → World → List Event
  | done _, _ => []
  | ask r next, w => ⟨r, (r.perform w).1⟩ :: (next (r.perform w).1).history (r.perform w).2

/-- What is asked is of some kind, whatever the answers are. -/
def Only (P : Request → Prop) : Script α → Prop
  | done _ => True
  | ask r next => P r ∧ ∀ answer, (next answer).Only P

section Running

variable [LawfulMonad n]

/-- A script of two parts is run part by part. -/
theorem run_bind (x : Script α) (f : α → Script β) :
    ((x >>= f).run : n β) = x.run >>= fun a => (f a).run := by
  induction x with
  | done a =>
      change (f a).run = (pure a >>= fun a => (f a).run : n β)
      rw [pure_bind]
  | ask r next ih =>
      change (r.ask >>= fun answer => (next answer >>= f).run) = _
      simp only [ih, run, bind_assoc]

/-- A request is run by asking it. -/
theorem run_ask (r : Request) : ((r.ask : Script r.Answer).run : n r.Answer) = r.ask := by
  rw [ask_eq_single]
  change (r.ask >>= pure : n r.Answer) = r.ask
  exact bind_pure _

/-- On itself a script is run as it stands. -/
theorem run_self (x : Script α) : (x.run : Script α) = x := by
  induction x with
  | done a => rfl
  | ask r next ih =>
      rw [run, ask_eq_single]
      exact congrArg (ask r) (funext ih)

/-- A script does nothing to a state besides that of the machine. -/
theorem run_lift {σ : Type} (x : Script α) : (x.run : StateT σ n α) = StateT.lift x.run := by
  induction x with
  | done a =>
      funext s
      change (pure (a, s) : n (α × σ)) = pure a >>= fun a => pure (a, s)
      rw [pure_bind]
  | ask r next ih =>
      funext s
      simp only [run, ih, Request.ask_lift]
      simp only [bind, StateT.bind, StateT.lift, bind_assoc, pure_bind]

end Running

/-- A script of two parts has the histories of both. -/
theorem history_bind (x : Script α) (f : α → Script β) (w : World) :
    (x >>= f).history w = x.history w ++ (f (x.perform w).1).history (x.perform w).2 := by
  induction x generalizing w with
  | done a => rfl
  | ask r next ih => exact congrArg (List.cons _) (ih _ _)

variable {P Q : Request → Prop}

/-- Parts with such requests only make a script with such requests only. -/
theorem Only.bind {x : Script α} {f : α → Script β} (hx : x.Only P) (hf : ∀ a, (f a).Only P) :
    (x >>= f).Only P := by
  induction x with
  | done a => exact hf a
  | ask r next ih => exact ⟨hx.1, fun answer => ih answer (hx.2 answer)⟩

theorem Only.mono {x : Script α} (hx : x.Only P) (h : ∀ r, P r → Q r) : x.Only Q := by
  induction x with
  | done a => trivial
  | ask r next ih => exact ⟨h r hx.1, fun answer => ih answer (hx.2 answer)⟩

/-- A request is the only one of its script. -/
theorem only_ask {r : Request} (hr : P r) : (r.ask : Script r.Answer).Only P := by
  rw [ask_eq_single]
  exact ⟨hr, fun _ => trivial⟩

/-- The requests of a script are those of all its histories. -/
theorem Only.history {x : Script α} (hx : x.Only P) {w : World} {e : Event} (he : e ∈ x.history w) :
    P e.request := by
  induction x generalizing w with
  | done a => cases he
  | ask r next ih =>
      rcases List.mem_cons.1 he with rfl | he
      · exact hx.1
      · exact ih _ (hx.2 _) he

/-- **An idle script** adds at most to the log. -/
theorem Only.perform_appended {log : Option Place} {x : Script α} (hx : x.Only (Request.Idle log)) (w : World) :
    Disk.Appended log w.disk (x.perform w).2.disk := by
  induction x generalizing w with
  | done a => exact .refl _ _
  | ask r next ih => exact (hx.1.perform_appended w).trans (ih _ (hx.2 _) _)

end Script

/-! ### Results -/

/-- What is emitted for a stylesheet: a document on the standard output, or a file with its content. -/
inductive Result where
  | document (doc : Bytes)
  | file (path data : Bytes)
  deriving Repr, DecidableEq

/-- The result that an event is, in view of what comes next.  A file is a result when it has been opened
anew and then been given its content. -/
def Event.result? : Event → Option Event → Option Result
  | ⟨.printDocument doc, none⟩, _ => some (.document doc)
  | ⟨.openFile false path, .ok place⟩, some ⟨.extend place' data, .ok ()⟩ =>
    if place = place' then some (.file path data) else none
  | _, _ => none

/-- What was emitted. -/
def results : List Event → List Result
  | [] => []
  | e :: es => (e.result? es.head?).toList ++ results es

/-! ### Programs for any machine -/

/-- A program on a machine, and its script, which makes requests of some kind only. -/
structure Scripted {α : Type} {n : Type → Type} [Monad n] [Machine n] (P : Request → Prop) (x : Script α)
    (y : n α) : Prop where
  run_eq : x.run = y
  only : x.Only P

namespace Scripted

variable {α β : Type} {n : Type → Type} [Monad n] [Machine n] {P Q : Request → Prop} {x : Script α} {y : n α}
  {f : α → Script β} {g : α → n β}

/-- Doing nothing is a script without requests. -/
theorem pure (a : α) : Scripted P (pure a) (pure a : n α) :=
  ⟨rfl, trivial⟩

theorem mono (h : Scripted P x y) (hPQ : ∀ r, P r → Q r) : Scripted Q x y :=
  ⟨h.run_eq, h.only.mono hPQ⟩

variable [LawfulMonad n]

/-- Programs are scripted part by part. -/
theorem bind (hx : Scripted P x y) (hf : ∀ a, Scripted P (f a) (g a)) : Scripted P (x >>= f) (y >>= g) := by
  refine ⟨?_, hx.only.bind fun a => (hf a).only⟩
  rw [Script.run_bind, hx.run_eq]
  exact congrArg (y >>= ·) (funext fun a => (hf a).run_eq)

/-- One request. -/
theorem ask (r : Request) (hr : P r) : Scripted P r.ask (r.ask : n r.Answer) :=
  ⟨Script.run_ask r, Script.only_ask hr⟩

/-- A note in the log may come first. -/
theorem noted {note : Script Unit} {note' : n Unit} (hnote : Scripted P note note') {c : Prop} [Decidable c]
    (hx : Scripted P x y) :
    Scripted P (if c then note >>= fun _ => x else x) (if c then note' >>= fun _ => y else y) := by
  split
  · exact .bind hnote fun _ => hx
  · exact hx

end Scripted

end Restyle
