import Mathlib.Data.Set.List
import Restyle.Job.Command
import Restyle.Proofs.Config.Loading

/-!
# Accepted configurations

The format command makes two checks of a configuration again, in another form: it looks up the steps by
their names, whatever the case and the white space around them, and it refuses a suffix with a separator.

* `configure_of_load`: what loads is never refused by the command, and its steps are the ones named.
-/

namespace Restyle

/-! ### Steps by name -/

namespace Css.Step

/-- A step is found by its name whatever the case and the white space, so also by its name as it is. -/
theorem parse_name (s : Step) : parse (s.name : Bytes) = .ok s := by
  have hfound : ofName? (Utf8.encode (lowerText (trim (Utf8.codePoints (s.name : Bytes))))) = some s := by
    cases s <;> decide
  rw [parse, hfound]

theorem isEmpty_trim_name (s : Step) : (s.name : Bytes).trim.isEmpty = false := by
  cases s <;> decide

/-- **The names of steps are read** as these steps, in their order. -/
theorem parseAll_names (steps : List Step) : parseAll (steps.map fun s => (s.name : Bytes)) = .ok steps := by
  induction steps with
  | nil => rfl
  | cons s steps ih =>
      rw [parseAll] at ih ⊢
      rw [List.map_cons, List.filter_cons_of_pos (by rw [isEmpty_trim_name]; rfl), List.mapM_cons,
        parse_name, ih]
      rfl

end Css.Step

namespace Settings

/-- Steps are set from their names. -/
theorem setSteps_names (s : Settings) {steps : List Css.Step} (hne : steps ≠ []) :
    s.setSteps (steps.map fun s => (s.name : Bytes)) = .ok { s with steps := steps } := by
  rw [setSteps, Css.Step.parseAll_names]
  cases steps with
  | nil => exact absurd rfl hne
  | cons step steps => rfl

/-- A suffix within a file name is set as it is. -/
theorem setSuffix_of_no_separator (s : Settings) {suffix : Bytes}
    (h : ∀ b ∈ suffix, isSeparator b = false) : s.setSuffix suffix = .ok { s with suffix := suffix } := by
  rw [setSuffix, if_neg]
  simpa using h

end Settings

namespace Config

/-- A valid configuration names steps. -/
theorem Valid.exists_steps {c : Config} {isFile : Destinations} (h : c.Valid isFile) :
    ∃ steps : List Css.Step, steps ≠ [] ∧ steps.map (fun s => (s.name : Bytes)) = c.pipeline.steps := by
  obtain ⟨steps, hsteps⟩ : c.pipeline.steps ∈ Set.range (List.map fun s : Css.Step => (s.name : Bytes)) := by
    rw [Set.range_list_map]
    exact h.steps
  refine ⟨steps, ?_, hsteps⟩
  rintro rfl
  exact h.steps_ne_nil hsteps.symm

end Config

/-! ### The command -/

namespace Job

/-- The code page of a name, if there is one. -/
def knownPage (name : Bytes) : Option CodePage :=
  match Settings.codePageOf name with
  | .ok page => page
  | .error _ => none

/-- **What loads is not refused.**  A configuration that loads, from any file or from none, settles the
command when no flag says otherwise: its steps are those that the configuration names, in that order, the
suffix is the one that it gives, and a code page that is not known counts as none. -/
theorem configure_of_load (path : Bytes) (c : Config) (w w' : World)
    (hload : (Config.load path : StateM World _).run w = (.ok c, w')) (o : Options)
    (hsteps : o.steps = none) (hsuffix : o.suffix = none) (hpage : o.codePage = none) (log : Log.Logger)
    (s : Settings) (v : World) :
    ∃ steps : List Css.Step, steps.map (fun s => (s.name : Bytes)) = c.pipeline.steps ∧
      ((configure c o log s : StateM World _).run v).1 = .ok { s with
        steps := steps
        suffix := c.output.suffix
        overwrite := c.output.overwrite || o.overwrite
        codePage := knownPage c.input.codePage } := by
  obtain ⟨-, c₀, -, -, hvalid⟩ := Config.load_eq_ok_iff.1 hload
  obtain ⟨steps, hne, hnames⟩ := hvalid.exists_steps
  refine ⟨steps, hnames, ?_⟩
  rw [configure, hsteps, hsuffix, hpage]
  simp only [← hnames, Settings.setSteps_names s hne, Option.getD_none,
    Settings.setSuffix_of_no_separator _ hvalid.suffix]
  unfold Settings.setCodePage knownPage
  cases Settings.codePageOf c.input.codePage with
  | error e => rfl
  | ok page =>
      dsimp only
      split <;> rfl

/-- A configuration file with two steps and a suffix. -/
def sparseFile : Bytes :=
  "pipeline: \x7bsteps: [minify, merge]\x7d\noutput: \x7bsuffix: -x\x7d\n"

/-- What a file with a few settings comes to. -/
def sparseConfig : Config :=
  { Config.default with pipeline := ⟨["minify", "merge"]⟩, output := ⟨"-x", false, false⟩ }

def sparseWorld : World where
  disk := { nodes := [(["c.yaml"], .file sparseFile)], workDir := some [] }
  tempDir := "/tmp"

/-- The file is loaded as that. -/
theorem load_sparseWorld :
    (Config.load "c.yaml" : StateM World _).run sparseWorld = (.ok sparseConfig, sparseWorld) :=
  Config.load_loneWorld (by decide +kernel) rfl rfl rfl (by decide +kernel)

/-- Settings for two steps and a suffix. -/
theorem configure_of_load_sparse :
    (Config.load "c.yaml" : StateM World _).run sparseWorld = (.ok sparseConfig, sparseWorld) ∧
      ∃ steps : List Css.Step, steps.map (fun s => (s.name : Bytes)) = sparseConfig.pipeline.steps ∧
        ((configure sparseConfig {} ⟨.kept, []⟩ {} : StateM World _).run sparseWorld).1 =
          .ok { steps := steps, suffix := sparseConfig.output.suffix } :=
  ⟨load_sparseWorld, configure_of_load _ _ _ _ load_sparseWorld {} rfl rfl rfl ⟨.kept, []⟩ {} sparseWorld⟩

end Job

end Restyle
