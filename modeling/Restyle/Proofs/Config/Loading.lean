import Restyle.Config.Load
import Restyle.Proofs.Script

/-!
# Loading a configuration

A configuration that loads has passed a list of checks.  `Valid` says without this list what they come
to, and `faults_eq_nil_iff` that it is the same.

* `load_eq_ok_iff`: a configuration loads if a file, laid over the default one and with its paths cleaned,
  is valid.
-/

namespace Restyle

namespace Config

/-! ### Checks -/

theorem faultIf_eq_nil_iff {broken : Bool} {path field : Bytes} {rule : String} :
    faultIf broken path field rule = [] ↔ broken = false := by
  cases broken <;> simp [faultIf]

/-- A list is without fault if it has items, all of them good. -/
theorem listFaults_eq_nil_iff {path field : Bytes} {rule : String} {good : Bytes → Bool}
    {items : List Bytes} :
    listFaults path field rule good items = [] ↔ items ≠ [] ∧ ∀ item ∈ items, good item = true := by
  cases items with
  | nil => simp [listFaults]
  | cons item items =>
      simp only [listFaults, List.isEmpty_cons, Bool.false_eq_true, if_false, List.flatMap_eq_nil_iff,
        faultIf_eq_nil_iff, Bool.not_eq_false', ne_eq, reduceCtorEq, not_false_eq_true, true_and]
      constructor
      · intro h x hx
        obtain ⟨i, hi⟩ := List.mem_iff_getElem?.1 hx
        exact h (x, i) (List.mk_mem_zipIdx_iff_getElem?.2 hi)
      · rintro h ⟨x, i⟩ hx
        exact h x (List.mem_iff_getElem?.2 ⟨i, List.mk_mem_zipIdx_iff_getElem?.1 hx⟩)

theorem isOneOf_iff {words : List String} {s : Bytes} :
    isOneOf words s = true ↔ ∃ w ∈ words, (w : Bytes) = s := by
  simp [isOneOf]

/-- A field that may not be empty, with another rule for when it is not. -/
theorem required_eq_nil_iff {value : Bytes} {fault : Fault} {broken : Bool} {path field : Bytes}
    {rule : String} : (if value = [] then [fault] else faultIf broken path field rule) = [] ↔
      value ≠ [] ∧ broken = false := by
  cases value <;> simp [faultIf_eq_nil_iff]

/-- A logger with a known level and mode, whose destination can be a file. -/
structure Logger.Valid (c : Logger) (isFile : Bool) : Prop where
  level : ∃ w ∈ ["none", "debug", "normal"], (w : Bytes) = c.level
  destination : c.destination = [] ∨ isFile = true
  mode : c.mode = [] ∨ ∃ w ∈ ["append", "overwrite"], (w : Bytes) = c.mode

/-- A logger without faults is valid. -/
theorem Logger.faults_eq_nil_iff {c : Logger} {isFile : Bool} {path : Bytes} :
    c.faults isFile path = [] ↔ c.Valid isFile := by
  have hlevel : isOneOf ["none", "debug", "normal"] c.level = true → c.level ≠ [] := by
    intro h hnil
    rw [hnil] at h
    revert h
    decide
  simp only [faults, List.append_eq_nil_iff, required_eq_nil_iff, faultIf_eq_nil_iff,
    Bool.and_eq_false_iff, Bool.not_eq_false', List.isEmpty_iff]
  constructor
  · rintro ⟨⟨⟨-, hl⟩, hd⟩, hm⟩
    exact ⟨isOneOf_iff.1 hl, hd, hm.imp_right isOneOf_iff.1⟩
  · rintro ⟨hl, hd, hm⟩
    rw [← isOneOf_iff] at hl
    exact ⟨⟨⟨hlevel hl, hl⟩, hd⟩, hm.imp_right isOneOf_iff.2⟩

/-- What is checked, in words of its own. -/
structure Valid (c : Config) (isFile : Destinations) : Prop where
  version : c.version = 1
  steps_ne_nil : c.pipeline.steps ≠ []
  steps : ∀ name ∈ c.pipeline.steps, ∃ s : Css.Step, (s.name : Bytes) = name
  extensions_ne_nil : c.input.extensions ≠ []
  extensions : ∀ ext ∈ c.input.extensions, ext.head? = some Path.dot
  suffix : ∀ b ∈ c.output.suffix, Settings.isSeparator b = false
  file : c.logging.file.Valid isFile.file
  console : c.logging.console.Valid isFile.console
  report_ne_nil : c.reporting.destination ≠ []
  report : isFile.report = true

/-- A configuration can name all steps that there are, and no others. -/
theorem stepWords_eq_names : stepWords = Css.Step.names := by
  decide

/-- The words that are accepted are the names of steps. -/
theorem isOneOf_stepWords_iff {name : Bytes} :
    isOneOf stepWords name = true ↔ ∃ s : Css.Step, (s.name : Bytes) = name := by
  have hall : ∀ s : Css.Step, s ∈ Css.Step.all := by
    intro s
    cases s <;> decide
  rw [stepWords_eq_names, isOneOf_iff]
  constructor
  · rintro ⟨w, hw, rfl⟩
    obtain ⟨s, -, rfl⟩ := List.mem_map.1 hw
    exact ⟨s, rfl⟩
  · rintro ⟨s, rfl⟩
    exact ⟨_, List.mem_map_of_mem (hall s), rfl⟩

/-- **A configuration without faults is valid.** -/
theorem faults_eq_nil_iff {c : Config} {isFile : Destinations} :
    c.faults isFile = [] ↔ c.Valid isFile := by
  simp only [faults, List.append_eq_nil_iff, faultIf_eq_nil_iff, listFaults_eq_nil_iff,
    Logger.faults_eq_nil_iff, required_eq_nil_iff, isOneOf_stepWords_iff, bne_eq_false_iff_eq, beq_iff_eq,
    List.isEmpty_iff, List.any_eq_false, Bool.not_eq_true, Bool.not_eq_false']
  constructor
  · rintro ⟨⟨⟨⟨⟨⟨hversion, hne, hsteps⟩, hne', hexts⟩, hfile⟩, hconsole⟩, hdest, hreport⟩, hsuffix⟩
    exact ⟨hversion, hne, hsteps, hne', hexts, hsuffix, hfile, hconsole, hdest, hreport⟩
  · rintro ⟨hversion, hne, hsteps, hne', hexts, hsuffix, hfile, hconsole, hdest, hreport⟩
    exact ⟨⟨⟨⟨⟨⟨hversion, hne, hsteps⟩, hne', hexts⟩, hfile⟩, hconsole⟩, hdest, hreport⟩, hsuffix⟩

/-! ### Loading -/

/-- The path can be that of a file on the disk. -/
def canBeFile (d : Disk) (path : Bytes) : Bool :=
  match (d.stat path).map Files.Node.kind with
  | .ok .dir => false
  | .ok _ => true
  | .error e => !path.trim.isEmpty && path.getLast? != some Path.slash && e.errno != .invalid

/-- Whether a path can be a file is asked of the disk only. -/
theorem run_isFilePath (path : Bytes) (w : World) :
    (isFilePath path : StateM World Bool).run w = (canBeFile w.disk path, w) := by
  refine World.run_bind_eq_iff.2 ⟨(w.disk.stat path).map Files.Node.kind, w, rfl, ?_⟩
  unfold canBeFile
  rcases (w.disk.stat path).map Files.Node.kind with e | kind
  · rfl
  · cases kind <;> rfl

/-- The destinations of a configuration that can be files on the disk. -/
def destinations (c : Config) (d : Disk) : Destinations :=
  ⟨canBeFile d c.logging.file.destination, canBeFile d c.logging.console.destination,
    canBeFile d c.reporting.destination⟩

/-- A path that is there is cleaned, and the directory of its file made. -/
theorem run_settlePath {path : Bytes} (hne : path ≠ []) {w : World} {d : Disk}
    {made : Except Files.Failure Unit}
    (hdirs : w.disk.ensureDirs (Path.parent (Path.clean path)) = (d, made)) :
    (settlePath path : StateM World _).run w = (made.map fun _ => Path.clean path, { w with disk := d }) := by
  have hmkdir : (Machine.mkdirAll (Path.parent (Path.clean path)) : StateM World _).run w =
      (made, { w with disk := d }) := by
    change (_, _) = _
    rw [hdirs]
  rw [settlePath, if_neg (by simpa using hne)]
  refine World.run_bind_eq_iff.2 ⟨_, _, hmkdir, ?_⟩
  cases made <;> rfl

/-- The configuration is the default one with the file at a path laid over it, if there is a path. -/
inductive Laid (d : Disk) : Bytes → Config → Prop where
  | default : Laid d [] default
  | file {path data c} (hne : path ≠ []) (hread : d.read path = .ok data)
      (hdecode : Config.default.decode data = .ok c) : Laid d path c

/-- **Settled and checked.** -/
theorem finish_eq_ok_iff {c c' : Config} {builtIn : Bool} {w w' : World} :
    (finish c builtIn : StateM World _).run w = (.ok c', w') ↔
      (settle c : StateM World _).run w = (.ok c', w') ∧ c'.Valid (c'.destinations w'.disk) := by
  rw [← faults_eq_nil_iff]
  constructor
  · intro hfinish
    obtain ⟨r, w₁, hsettle, h⟩ := World.run_bind_eq_iff.1 hfinish
    cases r with
    | error f => cases h
    | ok c₁ =>
        simp only [World.run_bind_eq_iff, run_isFilePath] at h
        obtain ⟨_, _, ⟨rfl, rfl⟩, _, _, ⟨rfl, rfl⟩, _, _, ⟨rfl, rfl⟩, h⟩ := h
        split at h
        · next hnone =>
            cases h
            exact ⟨hsettle, hnone⟩
        · cases h
  · rintro ⟨hsettle, hnone⟩
    refine World.run_bind_eq_iff.2 ⟨_, _, hsettle, ?_⟩
    simp only [World.run_bind_eq_iff, run_isFilePath]
    refine ⟨_, _, rfl, _, _, rfl, _, _, rfl, ?_⟩
    rw [destinations] at hnone
    rw [hnone]
    rfl

/-- **Loading**: a file is laid over the default configuration, and the result is settled and checked. -/
theorem load_eq_ok_iff {path : Bytes} {c : Config} {w w' : World} :
    (load path : StateM World _).run w = (.ok c, w') ↔
      (∃ dir, w.disk.workPath = .ok dir) ∧ ∃ c₀, Laid w.disk path c₀ ∧
        (settle c₀ : StateM World _).run w = (.ok c, w') ∧ c.Valid (c.destinations w'.disk) := by
  constructor
  · intro hload
    obtain ⟨dir, w₁, hwork, h⟩ := World.run_bind_eq_iff.1 hload
    obtain ⟨rfl, rfl⟩ := Prod.mk.inj hwork
    split at h
    · cases h
    · next dir hdir =>
        refine ⟨⟨dir, hdir⟩, ?_⟩
        split at h
        · next hnil =>
            obtain rfl := List.isEmpty_iff.1 hnil
            exact ⟨_, .default, finish_eq_ok_iff.1 h⟩
        · next hne =>
            obtain ⟨data, w₁, hread, hdata⟩ := World.run_bind_eq_iff.1 h
            obtain ⟨rfl, rfl⟩ := Prod.mk.inj hread
            split at hdata
            · cases hdata
            · next data hread =>
                split at hdata
                · cases hdata
                · next c₀ hdecode =>
                    exact ⟨c₀, .file (by simpa using hne) hread hdecode, finish_eq_ok_iff.1 hdata⟩
  · rintro ⟨⟨dir, hdir⟩, c₀, hlaid, hc⟩
    -- the last part is the same for a file and for the defaults
    have hfinish : ∀ builtIn, (finish c₀ builtIn : StateM World _).run w = (.ok c, w') :=
      fun _ => finish_eq_ok_iff.2 hc
    refine World.run_bind_eq_iff.2 ⟨.ok dir, w, by rw [← hdir]; rfl, ?_⟩
    cases hlaid with
    | default => exact hfinish true
    | file hne hread hdecode =>
        dsimp only
        rw [if_neg (by simpa using hne)]
        refine World.run_bind_eq_iff.2 ⟨.ok _, w, by rw [← hread]; rfl, ?_⟩
        simp only [hdecode]
        exact hfinish false

/-! ### A machine with one file -/

/-- The machine has its working directory, and in it nothing but the file. -/
def loneWorld (data : Bytes) : World where
  disk := { nodes := [(["c.yaml"], .file data)], workDir := some [] }
  tempDir := "/tmp"

theorem locate_loneWorld (data : Bytes) :
    (loneWorld data).disk.locate true Path.here = .ok (.taken [] .dir) ∧
      (loneWorld data).disk.locate true "c.yaml" = .ok (.taken ["c.yaml"] (.file data)) ∧
      (loneWorld data).disk.locate true "cssfmt.log" = .ok (.free [] "cssfmt.log" false) ∧
      (loneWorld data).disk.locate true "cssfmt-report.zip" = .ok (.free [] "cssfmt-report.zip" false) :=
  ⟨rfl, rfl, rfl, rfl⟩

/-- A clean name in the working directory is settled already. -/
theorem settlePath_loneWorld (data : Bytes) {name : Bytes} (hne : name ≠ []) (hclean : Path.clean name = name)
    (hparent : Path.parent name = Path.here) :
    (settlePath name : StateM World _).run (loneWorld data) = (.ok name, loneWorld data) := by
  have hdirs : (loneWorld data).disk.ensureDirs Path.here = ((loneWorld data).disk, .ok ()) := by
    rw [Disk.ensureDirs, Disk.stat, (locate_loneWorld data).1]
  have h := run_settlePath hne (w := loneWorld data) (by rw [hclean, hparent, hdirs])
  rwa [hclean] at h

/-- A file that leaves the paths alone is loaded if it has no faults. -/
theorem load_loneWorld {data : Bytes} {c : Config} (hdecode : default.decode data = .ok c)
    (hfile : c.logging.file.destination = "cssfmt.log") (hconsole : c.logging.console.destination = [])
    (hreport : c.reporting.destination = "cssfmt-report.zip") (hfaults : c.faults ⟨true, false, true⟩ = []) :
    (load "c.yaml" : StateM World _).run (loneWorld data) = (.ok c, loneWorld data) := by
  obtain ⟨-, hyaml, hlog, hzip⟩ := locate_loneWorld data
  have hread : (loneWorld data).disk.read "c.yaml" = .ok data := by rw [Disk.read, hyaml]
  obtain ⟨version, pipeline, input, output, ⟨⟨level, _, mode⟩, ⟨level', _, mode'⟩⟩, ⟨_⟩⟩ := c
  dsimp only at hfile hconsole hreport
  subst hfile hconsole hreport
  refine load_eq_ok_iff.2 ⟨⟨_, rfl⟩, _, .file (by decide) hread hdecode, ?_, ?_⟩
  · have hlog : (settlePath "cssfmt.log" : StateM World _).run (loneWorld data) = (.ok "cssfmt.log", loneWorld data) :=
      settlePath_loneWorld data (by decide) (by decide) (by decide)
    have hzip : (settlePath "cssfmt-report.zip" : StateM World _).run (loneWorld data) =
        (.ok "cssfmt-report.zip", loneWorld data) :=
      settlePath_loneWorld data (by decide) (by decide) (by decide)
    refine World.run_bind_eq_iff.2 ⟨_, _, hlog, ?_⟩
    refine World.run_bind_eq_iff.2 ⟨.ok [], loneWorld data, rfl, ?_⟩
    exact World.run_bind_eq_iff.2 ⟨_, _, hzip, rfl⟩
  · have hlog : canBeFile (loneWorld data).disk "cssfmt.log" = true := by
      rw [canBeFile, Disk.stat, hlog]
      decide +kernel
    have hzip : canBeFile (loneWorld data).disk "cssfmt-report.zip" = true := by
      rw [canBeFile, Disk.stat, hzip]
      decide +kernel
    have hnone : canBeFile (loneWorld data).disk [] = false := rfl
    rw [← faults_eq_nil_iff, destinations, hlog, hzip, hnone]
    exact hfaults

end Config

end Restyle
