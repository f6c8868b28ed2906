import Restyle.Report
import Restyle.World

/-!
# Reports over a history of calls

A report is filled by calls that store a file or data under a name.  Calls may be far apart, so each is made
in a world of its own.  Two lemmas say what a call does: a name that is free is taken (`answer_of_free`), and
under one that is not nothing is stored any more (`answer_of_taken`).

* `items_after`: after any history, the items are those of the first calls with each name, in their order.
* `refused_iff`: a call is refused if the first one with its name was another one; data always, since names
  are not reused.
* `leaves_of_refused`: a call that is refused leaves the report as it was.
-/

namespace Restyle

/-- The absolute path of a path, or the path itself if the working directory is gone. -/
def Disk.fullPath (d : Disk) (path : Bytes) : Bytes :=
  if Path.isAbsolute path then Path.clean path
  else
    match d.workPath with
    | .ok dir => Path.join [dir, path]
    | .error _ => path

namespace Report

/-! ### One call -/

/-- A call that stores a file or data. -/
inductive Call where
  | file (name path : Bytes)
  | data (name content : Bytes)
  deriving Repr, DecidableEq

namespace Call

/-- The name under which something is stored. -/
def name : Call → Bytes
  | file name _ | data name _ => name

/-- The path by which a file is stored.  Data has none. -/
def origin : Call → Bytes
  | file _ path => path
  | data _ _ => []

/-- A file is stored by a path. -/
def HasPath : Call → Prop
  | file _ path => path ≠ []
  | data _ _ => True

/-- What a call would store. -/
def item (w : World) : Call → Item
  | file _ path => { origin := path, path := w.disk.fullPath path }
  | data _ content => { data := content }

/-- The answer to a call, and the world after it. -/
def answer (w : World) (r : Report) : Call → Except Refusal Report × World
  | file name path => (r.store name path : StateM World _).run w
  | data name content => (r.addData name content, w)

/-- The report after a call: a call that is refused gives none. -/
def leaves (w : World) (r : Report) (c : Call) : Report :=
  match (c.answer w r).1 with
  | .ok r' => r'
  | .error _ => r

end Call

/-- Storing a file only asks the world for the working directory. -/
theorem run_store (r : Report) (name path : Bytes) (w : World) :
    (r.store name path : StateM World _).run w = (r.addFile name path (w.disk.fullPath path), w) := by
  have hask : (Machine.workPath : StateM World _).run w = (w.disk.workPath, w) := rfl
  unfold store Machine.absolute Disk.fullPath
  split
  · rfl
  · rw [StateT.run_bind, StateT.run_bind, hask]
    cases w.disk.workPath <;> rfl

section Step

variable {r : Report} {c : Call}

/-- A name that is free is taken. -/
theorem answer_of_free (h : r.get? c.name = none) (w : World) :
    c.answer w r = (.ok (r.add c.name (c.item w)), w) := by
  cases c with
  | file name path =>
      rw [Call.answer, run_store, addFile]
      rw [show r.get? name = none from h]
      rfl
  | data name content =>
      rw [Call.answer, addData]
      rw [show r.get? name = none from h]
      rfl

/-- Only a file that is there already can be stored under a name that is taken. -/
theorem answer_of_taken {i : Item} (h : r.get? c.name = some i) (w : World) :
    (∃ path, c = .file c.name path ∧ i.origin = path ∧ c.answer w r = (.ok r, w)) ∨
      ((∀ path, c = .file c.name path → i.origin ≠ path) ∧ ∃ e, c.answer w r = (.error e, w)) := by
  cases c with
  | file name path =>
      have h : r.get? name = some i := h
      rw [Call.answer, run_store, addFile, h]
      dsimp only
      by_cases hsame : i.origin = path
      · rw [if_pos (beq_iff_eq.2 hsame)]
        exact .inl ⟨path, rfl, hsame, rfl⟩
      · rw [if_neg (mt beq_iff_eq.1 hsame)]
        refine .inr ⟨fun other hother => ?_, _, rfl⟩
        cases hother
        exact hsame
  | data name content =>
      have h : r.get? name = some i := h
      rw [Call.answer, addData, h]
      exact .inr ⟨fun _ hfile => (nomatch hfile), _, rfl⟩

theorem leaves_of_free (h : r.get? c.name = none) (w : World) : c.leaves w r = r.add c.name (c.item w) := by
  rw [Call.leaves, answer_of_free h]

/-- Under a name that is taken nothing is stored any more. -/
theorem leaves_of_taken {i : Item} (h : r.get? c.name = some i) (w : World) : c.leaves w r = r := by
  rw [Call.leaves]
  rcases answer_of_taken h w with ⟨_, _, _, hanswer⟩ | ⟨_, _, hanswer⟩ <;> rw [hanswer]

/-- A call that is refused leaves the report as it was. -/
theorem leaves_of_refused {w : World} {e : Refusal} (h : (c.answer w r).1 = .error e) : c.leaves w r = r := by
  rw [Call.leaves, h]

/-- What is found under a name is what was stored first. -/
theorem get?_add (r : Report) (name : Bytes) (i : Item) (other : Bytes) :
    (r.add name i).get? other = (r.get? other).or (if other = name then some i else none) := by
  rw [get?, add, List.lookup_append, get?, List.lookup_cons]
  by_cases h : other = name
  · rw [beq_iff_eq.2 h, if_pos h]
  · rw [beq_eq_false_iff_ne.2 h, if_neg h]
    rfl

end Step

/-! ### Any number of calls -/

/-- Calls in the order in which they were made, each with the world at that time. -/
abbrev History := List (World × Call)

/-- The report after calls. -/
def after (r : Report) : History → Report
  | [] => r
  | (w, c) :: history => after (c.leaves w r) history

namespace History

/-- The first call with a name, if there is one. -/
def holder? (history : History) (name : Bytes) : Option (World × Call) :=
  history.find? fun p => p.2.name == name

theorem holder?_cons (w : World) (c : Call) (history : History) (name : Bytes) :
    holder? ((w, c) :: history) name = if c.name = name then some (w, c) else holder? history name := by
  rw [holder?, List.find?_cons, holder?]
  by_cases h : c.name = name
  · rw [beq_iff_eq.2 h, if_pos h]
  · rw [beq_eq_false_iff_ne.2 h, if_neg h]

/-- The calls with a name that none before them has. -/
def firsts (history : History) : History :=
  history.eraseDupsBy fun p q => p.2.name == q.2.name

/-- A call asks for a name that is taken: by any call if it is one for data, and by another one than itself
if it is one for a file. -/
def Clashes (history : History) : Call → Prop
  | .data name _ => ∃ p ∈ history, p.2.name = name
  | .file name path => ∃ p, history.holder? name = some p ∧ p.2 ≠ .file name path

/-- Both kinds of clash, by the first call with the name. -/
theorem clashes_iff {history : History} {c : Call} : history.Clashes c ↔
    ∃ p, history.holder? c.name = some p ∧ ∀ path, c = .file c.name path → p.2 ≠ c := by
  cases c with
  | file name path =>
      refine exists_congr fun p => and_congr_right fun _ => ⟨fun hne _ _ => hne, fun h => h path rfl⟩
  | data name content =>
      constructor
      · rintro ⟨p, hp, hname⟩
        have hbeq : (p.2.name == name) = true := beq_iff_eq.2 hname
        have hsome : (history.holder? name).isSome := List.find?_isSome.2 ⟨p, hp, hbeq⟩
        obtain ⟨q, hq⟩ := Option.isSome_iff_exists.1 hsome
        exact ⟨q, hq, fun _ hfile => (nomatch hfile)⟩
      · rintro ⟨p, hp, -⟩
        have hbeq := List.find?_some hp
        exact ⟨p, List.mem_of_find?_eq_some hp, beq_iff_eq.1 hbeq⟩

end History

/-- Only a call for a file leaves a path, so the path tells which call it was. -/
theorem eq_file_iff {c : Call} {path : Bytes} (hpath : path ≠ []) (w : World) :
    (c.item w).origin = path ↔ c = .file c.name path := by
  cases c with
  | file name path' => simp [Call.item, Call.name]
  | data name content => simpa [Call.item] using hpath.symm

theorem after_append (r : Report) (history later : History) :
    after r (history ++ later) = after (after r history) later := by
  induction history generalizing r with
  | nil => rfl
  | cons p history ih => exact ih _

/-- After a history each name has what the first call with it stored. -/
theorem get?_after (r : Report) (history : History) (name : Bytes) :
    (after r history).get? name =
      (r.get? name).or ((history.holder? name).map fun p => p.2.item p.1) := by
  induction history generalizing r with
  | nil => rw [after, History.holder?, List.find?_nil, Option.map_none, Option.or_none]
  | cons p history ih =>
      obtain ⟨w, c⟩ := p
      rw [after, ih, History.holder?_cons]
      by_cases hname : c.name = name
      · subst hname
        cases hget : r.get? c.name with
        | none => simp [leaves_of_free hget, get?_add, hget]
        | some i => simp [leaves_of_taken hget, hget]
      · rw [if_neg hname]
        cases hget : r.get? c.name with
        | none => rw [leaves_of_free hget, get?_add, if_neg (Ne.symm hname), Option.or_none]
        | some i => rw [leaves_of_taken hget]

/-- The items after a history: those there were, and then those of the first calls with other names. -/
theorem items_after (r : Report) (history : History) :
    (after r history).items = r.items ++
      (History.firsts (history.filter fun p => (r.get? p.2.name).isNone)).map fun p => (p.2.name, p.2.item p.1) := by
  induction history generalizing r with
  | nil => exact (List.append_nil _).symm
  | cons p history ih =>
      obtain ⟨w, c⟩ := p
      rw [after, ih, List.filter_cons]
      cases hget : r.get? c.name with
      | none =>
          -- what is free afterwards is what was free before, less the name just taken
          have hfree : ∀ name, ((r.add c.name (c.item w)).get? name).isNone =
              (decide ((name == c.name) = false) && (r.get? name).isNone) := by
            intro name
            rw [get?_add]
            by_cases hname : name = c.name <;> simp [hname, hget]
          have hitems : (r.add c.name (c.item w)).items = r.items ++ [(c.name, c.item w)] := rfl
          simp only [leaves_of_free hget, hfree, hitems, Option.isNone_none, if_true, History.firsts,
            List.eraseDupsBy_cons, List.filter_filter, List.map_cons, List.append_assoc, List.singleton_append]
      | some i =>
          rw [leaves_of_taken hget, if_neg (by simp)]

/-- Calls leave the archive alone. -/
theorem archive_after (r : Report) (history : History) :
    (after r history).place = r.place ∧ (after r history).isOpen = r.isOpen := by
  induction history generalizing r with
  | nil => exact ⟨rfl, rfl⟩
  | cons p history ih =>
      obtain ⟨w, c⟩ := p
      obtain ⟨hplace, hopen⟩ := ih (c.leaves w r)
      rw [after, hplace, hopen]
      cases hget : r.get? c.name with
      | none =>
          rw [leaves_of_free hget]
          exact ⟨rfl, rfl⟩
      | some i =>
          rw [leaves_of_taken hget]
          exact ⟨rfl, rfl⟩

section Fresh

variable {r : Report} (hr : r.items = [])

include hr

theorem get?_of_fresh (name : Bytes) : r.get? name = none := by
  rw [get?, hr]
  rfl

/-- The items of a report that was empty. -/
theorem items_after_of_fresh (history : History) :
    (after r history).items = history.firsts.map fun p => (p.2.name, p.2.item p.1) := by
  have hall : (history.filter fun p => (r.get? p.2.name).isNone) = history :=
    List.filter_eq_self.2 fun p _ => by rw [get?_of_fresh hr]; rfl
  rw [items_after, hr, List.nil_append, hall]

/-- **A call is refused** if it clashes with one before it. -/
theorem refused_iff (history : History) {c : Call} (hc : c.HasPath) (w : World) :
    (∃ e, (c.answer w (after r history)).1 = .error e) ↔ history.Clashes c := by
  have hget : (after r history).get? c.name = (history.holder? c.name).map fun p => p.2.item p.1 := by
    rw [get?_after, get?_of_fresh hr, Option.none_or]
  rw [History.clashes_iff]
  cases hholder : history.holder? c.name with
  | none =>
      rw [hholder, Option.map_none] at hget
      rw [answer_of_free hget]
      exact iff_of_false (fun ⟨_, he⟩ => (nomatch he)) fun ⟨_, hp, _⟩ => (nomatch hp)
  | some p =>
      obtain ⟨v, first⟩ := p
      have hfind : history.find? (fun p => p.2.name == c.name) = some (v, first) := hholder
      have hbeq := List.find?_some hfind
      have hname : first.name = c.name := beq_iff_eq.1 hbeq
      rw [hholder, Option.map_some] at hget
      rcases answer_of_taken hget w with ⟨path, hfile, horigin, hanswer⟩ | ⟨hother, e, hanswer⟩
      · -- the same file again
        rw [hfile] at hc
        rw [eq_file_iff hc, hname, ← hfile] at horigin
        rw [hanswer]
        refine iff_of_false (fun ⟨_, he⟩ => (nomatch he)) fun ⟨q, hq, hne⟩ => ?_
        cases hq
        exact hne path hfile horigin
      · rw [hanswer]
        refine iff_of_true ⟨e, rfl⟩ ⟨(v, first), rfl, fun path hfile hfirst => hother path hfile ?_⟩
        rw [hfile] at hc
        rw [eq_file_iff hc, hname, ← hfile]
        exact hfirst

end Fresh

end Report

end Restyle
