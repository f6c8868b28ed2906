import Mathlib.Data.List.Induction
import Restyle.Proofs.Css.Pipeline
import Restyle.State.Environment

/-!
# Environments over a history of calls

The settings of an environment are made by calls, each of which may fail.  `Answers` says once what a call
can do: it sets what it is for, or it fails and leaves the environment as it was, but that a code page which
is not known leaves none.

What holds after every history is shown by adding one call at its end.

* `calls_usable`: whatever has been called, the steps can be run and the suffix stays within a file name.
-/

namespace Restyle.Environment

/-! ### One call -/

/-- What a call can do. -/
inductive Answers (e : Environment) : Call → Environment → Option Settings.Error → Prop where
  | steps {names : List Bytes} {steps : List Css.Step} (hparse : Css.Step.parseAll names = .ok steps)
      (hne : steps ≠ []) :
      Answers e (.steps names) { e with settings := { e.settings with steps := steps } } none
  | suffix {given : Bytes} (hgiven : ∀ b ∈ given, Settings.isSeparator b = false) :
      Answers e (.suffix given) { e with settings := { e.settings with suffix := given } } none
  | codePage {name : Bytes} {page : Option CodePage} (hpage : Settings.codePageOf name = .ok page) :
      Answers e (.codePage name) { e with settings := { e.settings with codePage := page } } none
  | noSteps {names : List Bytes} {err : Settings.Error}
      (hparse : ∀ steps, Css.Step.parseAll names = .ok steps → steps = []) :
      Answers e (.steps names) e (some err)
  | noSuffix {given : Bytes} {err : Settings.Error} (hgiven : ∃ b ∈ given, Settings.isSeparator b = true) :
      Answers e (.suffix given) e (some err)
  | noPage {name : Bytes} {err : Settings.Error} (hpage : ∀ page, Settings.codePageOf name ≠ .ok page) :
      Answers e (.codePage name) { e with settings := { e.settings with codePage := none } } (some err)

/-- **A call does one of these things**, which one being told by what it is given. -/
theorem answers_call (e : Environment) (c : Call) : Answers e c (e.call c).1 (e.call c).2 := by
  cases c with
  | steps names =>
      rw [call, Settings.setSteps]
      cases hparse : Css.Step.parseAll names with
      | error err => exact .noSteps fun steps h => by rw [hparse] at h; cases h
      | ok steps =>
          cases steps with
          | nil => exact .noSteps fun steps h => (Except.ok.inj (hparse.symm.trans h)).symm
          | cons s steps => exact .steps hparse (List.cons_ne_nil s steps)
  | suffix given =>
      rw [call, Settings.setSuffix]
      cases hgiven : given.any Settings.isSeparator with
      | true => exact .noSuffix (List.any_eq_true.1 hgiven)
      | false => exact .suffix (by simpa using hgiven)
  | codePage name =>
      rw [call, Settings.setCodePage]
      cases hpage : Settings.codePageOf name with
      | error err => exact .noPage fun page h => by rw [hpage] at h; cases h
      | ok page => exact .codePage hpage

/-! ### Histories -/

/-- The environment after calls, those that failed included. -/
def afterCalls (e : Environment) (calls : List Call) : Environment :=
  calls.foldl (fun e c => (e.call c).1) e

theorem afterCalls_concat (e : Environment) (calls : List Call) (c : Call) :
    e.afterCalls (calls ++ [c]) = ((e.afterCalls calls).call c).1 := by
  rw [afterCalls, List.foldl_append]
  rfl

/-- Some call for the steps has not failed. -/
def HadSteps (calls : List Call) : Prop :=
  ∃ before names later, calls = before ++ .steps names :: later ∧
    ((({} : Environment).afterCalls before).call (.steps names)).2 = none

theorem hadSteps_concat_iff {calls : List Call} {c : Call} :
    HadSteps (calls ++ [c]) ↔ HadSteps calls ∨
      (∃ names, c = .steps names) ∧ ((({} : Environment).afterCalls calls).call c).2 = none := by
  constructor
  · rintro ⟨before, names, later, hcalls, hdone⟩
    rcases List.eq_nil_or_concat later with rfl | ⟨later, last, rfl⟩
    · obtain ⟨rfl, hc⟩ := List.append_inj' hcalls rfl
      obtain rfl := List.singleton_inj.1 hc
      exact .inr ⟨⟨names, rfl⟩, hdone⟩
    · rw [List.concat_eq_append, ← List.cons_append, ← List.append_assoc] at hcalls
      exact .inl ⟨before, names, later, (List.append_inj' hcalls rfl).1, hdone⟩
  · rintro (⟨before, names, later, rfl, hdone⟩ | ⟨⟨names, rfl⟩, hdone⟩)
    · exact ⟨before, names, later ++ [c], by simp, hdone⟩
    · exact ⟨calls, names, [], rfl, hdone⟩

/-- **There are no steps as long as none have been set.** -/
theorem steps_afterCalls_eq_nil_iff (calls : List Call) :
    (({} : Environment).afterCalls calls).settings.steps = [] ↔ ¬ HadSteps calls := by
  induction calls using List.reverseRecOn with
  | nil =>
      refine ⟨fun _ => ?_, fun _ => rfl⟩
      rintro ⟨before, names, later, hcalls, -⟩
      simp at hcalls
  | append_singleton calls c ih =>
      rw [afterCalls_concat, hadSteps_concat_iff]
      generalize ({} : Environment).afterCalls calls = e at ih ⊢
      have hanswers := answers_call e c
      generalize e.call c = r at hanswers ⊢
      obtain ⟨e', err⟩ := r
      cases hanswers with
      | steps _ hne => simp [hne]
      | suffix | codePage | noSteps | noSuffix | noPage => simpa using ih

/-- **No separator gets into the suffix.** -/
theorem suffix_afterCalls (calls : List Call) :
    ∀ b ∈ (({} : Environment).afterCalls calls).settings.suffix, Settings.isSeparator b = false := by
  induction calls using List.reverseRecOn with
  | nil => simp [afterCalls]
  | append_singleton calls c ih =>
      rw [afterCalls_concat]
      generalize ({} : Environment).afterCalls calls = e at ih ⊢
      have hanswers := answers_call e c
      generalize e.call c = r at hanswers ⊢
      obtain ⟨e', err⟩ := r
      cases hanswers with
      | suffix hgiven => exact hgiven
      | steps | codePage | noSteps | noSuffix | noPage => exact ih

/-! ### Running the steps -/

/-- **Settings stay usable over any history.**  After any calls on a fresh environment,

* a call sets what it is given if that is good, and fails if it is not;
* a call for the steps or the suffix that fails leaves the environment as it was, and one for the code page
  that fails leaves it without a code page and otherwise as it was;
* there are steps exactly if a call for them has not failed, and they are all known;
* the suffix has neither a slash nor a backslash;
* to run the steps on any document passes over nothing and gives one snapshot a step, each of them the
  document that the steps up to this one leave. -/
theorem calls_usable (calls : List Call) :
    let e := ({} : Environment).afterCalls calls
    let names := e.settings.steps.map fun s => (s.name : Bytes)
    (∀ c, Answers e c (e.call c).1 (e.call c).2) ∧
      (∀ given err, (e.call (.steps given)).2 = some err → (e.call (.steps given)).1 = e) ∧
      (∀ given err, (e.call (.suffix given)).2 = some err → (e.call (.suffix given)).1 = e) ∧
      (∀ given err, (e.call (.codePage given)).2 = some err →
        (e.call (.codePage given)).1 = { e with settings := { e.settings with codePage := none } }) ∧
      (e.settings.steps = [] ↔ ¬ HadSteps calls) ∧
      (∀ name ∈ names, ∃ s : Css.Step, Css.Step.ofName? name = some s) ∧
      0x2F ∉ e.settings.suffix ∧ 0x5C ∉ e.settings.suffix ∧
      ∀ doc, (∀ name, .skipped name ∉ Css.Pipeline.run names doc) ∧
        (Css.Pipeline.snapshots (Css.Pipeline.run names doc)).length = e.settings.steps.length ∧
        ∀ i s, e.settings.steps[i]? = some s →
          (Css.Pipeline.snapshots (Css.Pipeline.run names doc))[i]? =
            some (s, Css.Pipeline.result doc (Css.Pipeline.run (names.take (i + 1)) doc)) := by
  intro e names
  have hknown : ∀ name ∈ names, ∃ s : Css.Step, Css.Step.ofName? name = some s := by
    intro name hname
    obtain ⟨s, -, rfl⟩ := List.mem_map.1 hname
    exact ⟨s, s.ofName?_name⟩
  have hsuffix := suffix_afterCalls calls
  have hfailed : ∀ {c err}, (e.call c).2 = some err → Answers e c (e.call c).1 (some err) :=
    fun herr => herr ▸ answers_call e _
  refine ⟨answers_call e, ?_, ?_, ?_, steps_afterCalls_eq_nil_iff calls, hknown, ?_, ?_, fun doc => ⟨?_, ?_, ?_⟩⟩
  · intro given err herr
    match (e.call (.steps given)).1, hfailed herr with
    | _, .noSteps _ => rfl
  · intro given err herr
    match (e.call (.suffix given)).1, hfailed herr with
    | _, .noSuffix _ => rfl
  · intro given err herr
    match (e.call (.codePage given)).1, hfailed herr with
    | _, .noPage _ => rfl
  · intro hmem
    exact absurd (hsuffix _ hmem) (by decide)
  · intro hmem
    exact absurd (hsuffix _ hmem) (by decide)
  · intro name hskipped
    obtain ⟨hname, hnone⟩ := Css.Pipeline.skipped_mem_runFrom_iff.1 hskipped
    obtain ⟨s, hs⟩ := hknown name hname
    rw [hnone] at hs
    cases hs
  · rw [Css.Pipeline.snapshots_run, Css.Pipeline.filterMap_names, Css.Pipeline.length_stages]
  · intro i s hs
    rw [Css.Pipeline.snapshots_run, Css.Pipeline.result_run, ← List.map_take,
      Css.Pipeline.filterMap_names, Css.Pipeline.filterMap_names, Css.Pipeline.getElem?_stages, hs]
    rfl

/-- Calls of which the first of each kind is accepted and the second is not. -/
def contraryCalls : List Call :=
  [.steps ["Minify", " ", "merge"], .suffix "-x", .codePage [], .steps ["minify", "shrink"], .steps [" "],
    .suffix "a/b"]

theorem calls_usable_contrary :
    let e := ({} : Environment).afterCalls contraryCalls
    e.settings.steps = [.minify, .merge] ∧ e.settings.suffix = ("-x" : Bytes) ∧
      (e.call (.steps ["shrink"])).1 = e ∧
      (Css.Pipeline.snapshots (Css.Pipeline.run ["minify", "merge"] "p \x7b\x7d"))[1]? =
        some (.merge, Css.Pipeline.result "p \x7b\x7d" (Css.Pipeline.run ["minify", "merge"] "p \x7b\x7d")) := by
  have h := calls_usable contraryCalls
  have hsteps : (({} : Environment).afterCalls contraryCalls).settings.steps = [.minify, .merge] := by
    decide +kernel
  refine ⟨hsteps, by decide +kernel, h.2.1 ["shrink"] _ rfl, ?_⟩
  have hlast := (h.2.2.2.2.2.2.2.2 "p \x7b\x7d").2.2 1 .merge (by rw [hsteps]; rfl)
  rw [hsteps] at hlast
  exact hlast

end Restyle.Environment
