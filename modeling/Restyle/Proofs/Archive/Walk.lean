import Mathlib.Data.List.Forall2
import Restyle.Archive.Walk
import Restyle.Proofs.Order

/-!
# Walks through archives

A walk goes through the entries to visit in the order of their names.  An entry *passes* if it can be opened
and the visitor accepts it (`Passes`), and otherwise it *fails* (`Fails`); what the visitor does depends on
what it has done before, so both are said of a state.  The calls of the visitor are written down by
`recorded`, which changes nothing else (`run_recorded`).

* `walk_calls`: with an unsafe name in the archive there is no call.  Otherwise the calls are for the first
  of the entries to visit, up to the first failure, and the walk tells that failure.  The entry that fails
  is among them if it was the visitor that refused it (`Stopped.seen`), so that all entries can have been
  visited though the last one failed.
-/

namespace Restyle.Archive

variable {σ ε : Type}

/-! ### Calls -/

/-- The name of an entry, and what reading it gives. -/
abbrev Call : Type :=
  Bytes × Except Error Bytes

/-- A visitor that writes down what it is called with. -/
def recorded (visit : Visitor (StateM σ) ε) : Visitor (StateM (σ × List Call)) ε := fun name data => do
  let (s, calls) ← get
  let (answer, t) := (visit name data).run s
  set (t, calls ++ [(name, data)])
  return answer

/-- A recorded visit answers as the visit itself, and is written down. -/
theorem run_recorded {visit : Visitor (StateM σ) ε} {name : Bytes} {data : Except Error Bytes} {s t : σ}
    {answer : Except ε Unit} (h : (visit name data).run s = (answer, t)) (calls : List Call) :
    (recorded visit name data).run (s, calls) = (answer, t, calls ++ [(name, data)]) := by
  change (((visit name data).run s).1, ((visit name data).run s).2, calls ++ [(name, data)]) = _
  rw [h]

/-- The entry can be opened, and this is the call for it. -/
structure Opens (archive : Array UInt8) (h : Header) (c : Call) : Prop where
  name : c.1 = h.name
  data : (h.content archive).opened = .ok c.2

/-! ### Passing and failing -/

section

variable (archive : Array UInt8) (visit : Visitor (StateM σ) ε)

/-- The entries can all be opened, and the visitor accepts them one after the other. -/
inductive Passes : σ → List Header → σ → Prop where
  | nil (s : σ) : Passes s [] s
  | cons {s t u : σ} {h : Header} {hs : List Header} {data : Except Error Bytes}
      (hopen : (h.content archive).opened = .ok data) (hvisit : (visit h.name data).run s = (.ok (), t))
      (hrest : Passes t hs u) : Passes s (h :: hs) u

/-- The entry cannot be opened, or the visitor refuses it. -/
inductive Fails : σ → Header → Stopped ε → σ → Prop where
  | unopened {s : σ} {h : Header} {e : Error} (hopen : (h.content archive).opened = .error e) :
      Fails s h (.walk (.entry h.name e)) s
  | refused {s t : σ} {h : Header} {data : Except Error Bytes} {e : ε}
      (hopen : (h.content archive).opened = .ok data)
      (hvisit : (visit h.name data).run s = (.error e, t)) : Fails s h (.visitor e) t

end

/-- Of the entry that fails, the visitor knows only if it has refused it. -/
def Stopped.seen (h : Header) : Stopped ε → List Header
  | .walk _ => []
  | .visitor _ => [h]

variable {archive : Array UInt8} {visit : Visitor (StateM σ) ε}

/-- Each entry passes or fails. -/
theorem passes_or_fails (archive : Array UInt8) (visit : Visitor (StateM σ) ε) (s : σ) (h : Header) :
    (∃ data t, (h.content archive).opened = .ok data ∧ (visit h.name data).run s = (.ok (), t)) ∨
      ∃ e t, Fails archive visit s h e t := by
  cases hopen : (h.content archive).opened with
  | error e => exact .inr ⟨_, _, .unopened hopen⟩
  | ok data =>
      cases hvisit : (visit h.name data).run s with
      | mk answer t =>
          cases answer with
          | ok => exact .inl ⟨data, t, rfl, hvisit⟩
          | error e => exact .inr ⟨_, _, .refused hopen hvisit⟩

/-! ### Walks -/

/-- An entry that is opened and not refused is passed. -/
theorem run_visitAll_cons {s t : σ} {h : Header} {data : Except Error Bytes}
    (hopen : (h.content archive).opened = .ok data) (hvisit : (visit h.name data).run s = (.ok (), t))
    (hs : List Header) : (visitAll archive visit (h :: hs)).run s = (visitAll archive visit hs).run t := by
  rw [visitAll, visitAllWith, pure_bind, hopen]
  simp only [StateT.run_bind, hvisit]
  rfl

/-- One that fails ends the walk with its error. -/
theorem Fails.run_visitAll {s t : σ} {h : Header} {e : Stopped ε} (hfails : Fails archive visit s h e t)
    (hs : List Header) : (visitAll archive visit (h :: hs)).run s = (.error e, t) := by
  cases hfails with
  | unopened hopen =>
      rw [visitAll, visitAllWith, pure_bind, hopen]
      rfl
  | refused hopen hvisit =>
      rw [visitAll, visitAllWith, pure_bind, hopen]
      simp only [StateT.run_bind, hvisit]
      rfl

/-- An entry fails in the same way when the calls are written down. -/
theorem Fails.recorded {s t : σ} {h : Header} {e : Stopped ε} (hfails : Fails archive visit s h e t)
    (before : List Call) :
    ∃ calls, List.Forall₂ (Opens archive) (e.seen h) calls ∧
      Fails archive (recorded visit) (s, before) h e (t, before ++ calls) := by
  cases hfails with
  | unopened hopen =>
      refine ⟨[], .nil, ?_⟩
      rw [List.append_nil]
      exact .unopened hopen
  | refused hopen hvisit =>
      exact ⟨[_], .cons ⟨rfl, hopen⟩ .nil, .refused hopen (run_recorded hvisit before)⟩

/-- How a walk through some entries ends: they all pass, or it stops at the first one that fails. -/
inductive Walked (archive : Array UInt8) (visit : Visitor (StateM σ) ε) (s : σ) (hs : List Header) :
    Except (Stopped ε) Unit → List Call → σ → Prop where
  | done {calls : List Call} {t : σ} (hpasses : Passes archive visit s hs t)
      (hcalls : List.Forall₂ (Opens archive) hs calls) : Walked archive visit s hs (.ok ()) calls t
  | stopped {init rest : List Header} {h : Header} {e : Stopped ε} {calls : List Call} {t u : σ}
      (heq : hs = init ++ h :: rest) (hpasses : Passes archive visit s init u)
      (hfails : Fails archive visit u h e t)
      (hcalls : List.Forall₂ (Opens archive) (init ++ e.seen h) calls) :
      Walked archive visit s hs (.error e) calls t

/-- A walk with one more entry before it. -/
theorem Walked.cons {s t u : σ} {h : Header} {hs : List Header} {data : Except Error Bytes}
    {r : Except (Stopped ε) Unit} {calls : List Call} (hopen : (h.content archive).opened = .ok data)
    (hvisit : (visit h.name data).run s = (.ok (), t)) (hrest : Walked archive visit t hs r calls u) :
    Walked archive visit s (h :: hs) r ((h.name, data) :: calls) u := by
  have hcall : Opens archive h (h.name, data) := ⟨rfl, hopen⟩
  cases hrest with
  | done hpasses hcalls => exact .done (.cons hopen hvisit hpasses) (.cons hcall hcalls)
  | stopped heq hpasses hfails hcalls =>
      exact .stopped (congrArg (h :: ·) heq) (.cons hopen hvisit hpasses) hfails (.cons hcall hcalls)

/-- **A walk through entries** ends in this way, whether the calls are written down or not. -/
theorem walked_visitAll (archive : Array UInt8) (visit : Visitor (StateM σ) ε) (hs : List Header) (s : σ)
    (before : List Call) :
    ∃ r calls t, (visitAll archive (recorded visit) hs).run (s, before) = (r, t, before ++ calls) ∧
      (visitAll archive visit hs).run s = (r, t) ∧ Walked archive visit s hs r calls t := by
  -- each entry starts from the state and the calls that the one before it has left
  induction hs generalizing s before with
  | nil =>
      refine ⟨.ok (), [], s, ?_, rfl, .done (.nil s) .nil⟩
      rw [List.append_nil]
      rfl
  | cons h hs ih =>
      rcases passes_or_fails archive visit s h with ⟨data, t, hopen, hvisit⟩ | ⟨e, t, hfails⟩
      · obtain ⟨r, calls, u, hrecorded, hplain, hwalked⟩ := ih t (before ++ [(h.name, data)])
        refine ⟨r, (h.name, data) :: calls, u, ?_, ?_, hwalked.cons hopen hvisit⟩
        · rw [run_visitAll_cons hopen (run_recorded hvisit before), hrecorded, List.append_assoc]
          rfl
        · rw [run_visitAll_cons hopen hvisit, hplain]
      · obtain ⟨calls, hcalls, hrecorded⟩ := hfails.recorded before
        exact ⟨.error e, calls, t, hrecorded.run_visitAll hs, hfails.run_visitAll hs,
          .stopped (List.nil_append _).symm (.nil s) hfails hcalls⟩

/-! ### The first failure -/

section

variable {s u : σ} {hs init : List Header}

/-- A walk goes on behind the entries it has passed. -/
theorem Passes.run_visitAll_append (hpasses : Passes archive visit s init u) (rest : List Header) :
    (visitAll archive visit (init ++ rest)).run s = (visitAll archive visit rest).run u := by
  induction hpasses with
  | nil => rfl
  | cons hopen hvisit _ ih => rw [List.cons_append, run_visitAll_cons hopen hvisit, ih]

theorem Passes.run_visitAll (hpasses : Passes archive visit s hs u) :
    (visitAll archive visit hs).run s = (.ok (), u) := by
  have h := hpasses.run_visitAll_append []
  rwa [List.append_nil] at h

/-- The first failure behind entries that are passed ends the walk. -/
theorem Passes.run_visitAll_fails (hpasses : Passes archive visit s init u) {h : Header} {e : Stopped ε}
    {t : σ} (hfails : Fails archive visit u h e t) (rest : List Header) :
    (visitAll archive visit (init ++ h :: rest)).run s = (.error e, t) := by
  rw [hpasses.run_visitAll_append, hfails.run_visitAll]

end

namespace Walked

variable {s t : σ} {hs : List Header} {r : Except (Stopped ε) Unit} {calls : List Call}

/-- The calls are for the first of the entries. -/
theorem exists_made (h : Walked archive visit s hs r calls t) :
    ∃ made, made <+: hs ∧ List.Forall₂ (Opens archive) made calls := by
  cases h with
  | done _ hcalls => exact ⟨hs, List.prefix_rfl, hcalls⟩
  | @stopped init rest h e _ _ _ heq _ _ hcalls =>
      refine ⟨_, ?_, hcalls⟩
      rw [heq, List.prefix_append_right_inj]
      cases e with
      | walk e => exact List.nil_prefix
      | visitor e => exact ⟨rest, rfl⟩

/-- What a walk comes to is what the program answers. -/
theorem run_visitAll (h : Walked archive visit s hs r calls t) :
    (visitAll archive visit hs).run s = (r, t) := by
  cases h with
  | done hpasses => exact hpasses.run_visitAll
  | stopped heq hpasses hfails =>
      rw [heq]
      exact hpasses.run_visitAll_fails hfails _

/-- A walk succeeds if it passes all entries. -/
theorem eq_ok_iff (h : Walked archive visit s hs r calls t) :
    r = .ok () ↔ ∃ u, Passes archive visit s hs u := by
  constructor
  · rintro rfl
    cases h with
    | done hpasses => exact ⟨t, hpasses⟩
  · rintro ⟨u, hpasses⟩
    exact congrArg Prod.fst (h.run_visitAll.symm.trans hpasses.run_visitAll)

/-- **All entries are visited** when none fails, and also when the visitor refuses the last. -/
theorem forall₂_iff (hwalked : Walked archive visit s hs r calls t) :
    List.Forall₂ (Opens archive) hs calls ↔
      (∃ u, Passes archive visit s hs u) ∨ ∃ init h u e v, hs = init ++ [h] ∧
        Passes archive visit s init u ∧ Fails archive visit u h (.visitor e) v := by
  constructor
  · intro hall
    cases hwalked with
    | done hpasses => exact .inl ⟨t, hpasses⟩
    | @stopped init rest h e _ _ u heq hpasses hfails hcalls =>
        have hlength : hs.length = (init ++ e.seen h).length := hall.length_eq.trans hcalls.length_eq.symm
        rw [heq, List.length_append, List.length_append, List.length_cons] at hlength
        cases e with
        | walk e => simp [Stopped.seen] at hlength
        | visitor e =>
            have hrest : rest = [] := by simpa [Stopped.seen] using hlength
            exact .inr ⟨init, h, u, e, t, by rw [heq, hrest], hpasses, hfails⟩
  · rintro (hpasses | ⟨init, h, u, e, v, heq, hpasses, hfails⟩)
    · obtain rfl := hwalked.eq_ok_iff.2 hpasses
      cases hwalked with
      | done _ hcalls => exact hcalls
    · -- there is one run only, so this is the failure that it told
      have hrun := hpasses.run_visitAll_fails hfails []
      rw [← heq, hwalked.run_visitAll] at hrun
      obtain ⟨rfl, rfl⟩ := Prod.mk.inj hrun
      cases hwalked with
      | @stopped init' rest' h' _ _ _ _ heq' hpasses' hfails' hcalls =>
          rcases List.eq_nil_or_concat rest' with rfl | ⟨more, last, rfl⟩
          · rw [heq']
            exact hcalls
          · -- the entry that fails would be one of those that pass
            have hsplit : init ++ [h] = (init' ++ h' :: more) ++ [last] := by
              rw [← heq, heq', List.concat_eq_append, List.append_assoc, List.cons_append]
            have hran := hpasses.run_visitAll
            rw [List.append_inj_left' hsplit rfl, hpasses'.run_visitAll_fails hfails'] at hran
            cases hran

end Walked

/-- **The calls of a walk.**  An unsafe name keeps it from calling the visitor at all.  Otherwise the calls are
for the first of the entries to visit, in their order, and end at the first failure, which is told.  They are
for all entries if none fails, or if it is the last one that fails and the visitor has refused it. -/
theorem walk_calls (archive : Array UInt8) (below : Bytes) (exts : List Bytes) (hs : List Header)
    (visit : Visitor (StateM σ) ε) (s : σ) :
    let wanted := hs.filter (isVisited below exts)
    let before := fun a b : Header => Natural.isBefore a.name b.name
    ∃ r calls t, (walk archive below exts (recorded visit) hs).run (s, []) = (r, t, calls) ∧
      (walk archive below exts visit hs).run s = (r, t) ∧
      ((∃ h ∈ hs, isSafe h.name = false) →
        (∃ h ∈ hs, isSafe h.name = false ∧ r = .error (.walk (.unsafeName h.name))) ∧
          calls = [] ∧ t = s) ∧
      ((∀ h ∈ hs, isSafe h.name = true) → ∃ all,
        all.Perm wanted ∧ (IsStrictWeak before wanted → StableSort before wanted all) ∧
        (∃ made, made <+: all ∧ List.Forall₂ (Opens archive) made calls) ∧
        Walked archive visit s all r calls t ∧
        (r = .ok () ↔ ∃ u, Passes archive visit s all u) ∧
        (List.Forall₂ (Opens archive) all calls ↔
          (∃ u, Passes archive visit s all u) ∨ ∃ init h u e v, all = init ++ [h] ∧
            Passes archive visit s init u ∧ Fails archive visit u h (.visitor e) v)) := by
  intro wanted before
  cases hfind : hs.find? fun h => !isSafe h.name with
  | some h =>
      have hmem : h ∈ hs := List.mem_of_find?_eq_some hfind
      have hunsafe : isSafe h.name = false := by simpa using List.find?_some hfind
      have hwalk : ∀ {τ : Type} (visit : Visitor (StateM τ) ε) (s : τ),
          (walk archive below exts visit hs).run s = (.error (.walk (.unsafeName h.name)), s) := by
        intro τ visit s
        rw [walk, walkWith, visits, hfind]
        rfl
      refine ⟨_, _, _, hwalk _ _, hwalk _ _, fun _ => ⟨⟨h, hmem, hunsafe, rfl⟩, rfl, rfl⟩, fun hsafe => ?_⟩
      rw [hsafe h hmem] at hunsafe
      cases hunsafe
  | none =>
      have hsafe : ∀ h ∈ hs, isSafe h.name = true := by simpa using hfind
      have hwalk : ∀ {τ : Type} (visit : Visitor (StateM τ) ε), walk archive below exts visit hs =
          visitAll archive visit (sortByName (hs.filter (isVisited below exts))) := by
        intro τ visit
        rw [walk, walkWith, visits, hfind]
        rfl
      obtain ⟨r, calls, t, hrecorded, hplain, hwalked⟩ := walked_visitAll archive visit
        (sortByName (hs.filter (isVisited below exts))) s []
      rw [hwalk, hwalk]
      refine ⟨r, calls, t, hrecorded, hplain, ?_, fun _ => ⟨_, sort_perm _ _, stableSort_sort,
        hwalked.exists_made, hwalked, hwalked.eq_ok_iff, hwalked.forall₂_iff⟩⟩
      rintro ⟨h, hmem, hunsafe⟩
      rw [hsafe h hmem] at hunsafe
      cases hunsafe

/-- An entry that is not packed. -/
def Item.stored (name data : Bytes) : Item :=
  ⟨name, methodStored, (Archive.checksum data).toNat, data.length, data, data.length⟩

/-- An archive of two entries.  The first is empty and has a packing method and a checksum that may be
wrong. -/
def pairArchive (method checksum : Nat) : Bytes :=
  encodeItems [⟨"a.css", method, checksum, 0, [], 0⟩, .stored "b.css" "p\x7b\x7d"]

def pairHeaders (method checksum : Nat) : List Header :=
  [⟨"a.css", method, true, checksum, 0, 0, 0, 0, 0⟩,
    ⟨"b.css", methodStored, true, (Archive.checksum "p\x7b\x7d").toNat, 3, 3, 51, 0, 0⟩]

/-- A visitor that refuses one entry. -/
def refuseB : Visitor (StateM Unit) Bytes := fun name _ =>
  return if name == "b.css" then .error "stop" else .ok ()

def twoHeaders : List Header := pairHeaders methodStored 0

def twoEntries : Array UInt8 := (pairArchive methodStored 0).toArray

def twoCalls : List Call := [("a.css", .ok []), ("b.css", .ok "p\x7b\x7d")]

theorem run_walk_twoEntries : (walk twoEntries [] [] (recorded refuseB) twoHeaders).run ((), []) =
    (.error (.visitor "stop"), (), twoCalls) := by
  change @Eq (Except (Stopped Bytes) Unit × Unit × List Call) _ _
  decide +kernel

theorem filter_twoHeaders : twoHeaders.filter (isVisited [] []) = twoHeaders := by decide +kernel

/-- On the names of two entries the order is a strict weak one, and the visitor refuses the last. -/
theorem walk_calls_twoEntries :
    ∃ all, StableSort (fun a b : Header => Natural.isBefore a.name b.name) twoHeaders all ∧
      Walked twoEntries refuseB () all (.error (.visitor "stop")) twoCalls () := by
  obtain ⟨r, calls, t, hrecorded, -, -, hsafe⟩ := walk_calls twoEntries [] [] twoHeaders refuseB ()
  rw [run_walk_twoEntries] at hrecorded
  obtain ⟨rfl, htail⟩ := Prod.mk.inj hrecorded
  obtain ⟨-, rfl⟩ := Prod.mk.inj htail
  obtain ⟨all, -, hstable, -, hwalked, -⟩ := hsafe (by decide +kernel)
  rw [filter_twoHeaders] at hstable
  exact ⟨all, hstable ⟨by decide +kernel, by decide +kernel⟩, hwalked⟩

/-- All entries have been visited though not all of them pass. -/
theorem walk_visits_refused :
    (walk twoEntries [] [] (recorded refuseB) twoHeaders).run ((), []) =
        (.error (.visitor "stop"), (), twoCalls) ∧
      List.Forall₂ (Opens twoEntries) (sortByName (twoHeaders.filter (isVisited [] []))) twoCalls ∧
      ¬ ∃ u, Passes twoEntries refuseB () (sortByName (twoHeaders.filter (isVisited [] []))) u := by
  have hsorted : sortByName twoHeaders = twoHeaders := by decide +kernel
  rw [filter_twoHeaders, hsorted]
  refine ⟨run_walk_twoEntries, .cons ⟨rfl, by decide +kernel⟩ (.cons ⟨rfl, by decide +kernel⟩ .nil), ?_⟩
  rintro ⟨u, hpasses⟩
  have hrun : ((visitAll twoEntries refuseB twoHeaders).run ()).1 = .ok () :=
    congrArg Prod.fst hpasses.run_visitAll
  revert hrun
  decide +kernel

end Restyle.Archive
