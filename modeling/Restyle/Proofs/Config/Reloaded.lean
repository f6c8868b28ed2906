import Restyle.Proofs.Config.Dump
import Restyle.Proofs.Files.Rewriting

/-!
# Loading a configuration again

A configuration that loads has clean paths in directories that are there (`Housed`), so that nothing is left
to settle when it is written to a file and loaded again.  What comes back is then what the file says, and
that is not always what was written.

* `load_dump_eq_ok_iff`: a written configuration is loaded as it is if it names a log file and its mode, which
  a file leaves out when they are empty and which then have defaults, and if no text of several lines begins
  with a line end or a tab.
-/

namespace Restyle.Config

open Disk Yaml

/-! ### Settled paths -/

/-- A path as it is settled. -/
def cleaned (path : Bytes) : Bytes :=
  if path.isEmpty then path else Path.clean path

/-- Cleaning makes no path longer. -/
theorem length_cleaned_le (path : Bytes) : (cleaned path).length ≤ path.length := by
  unfold cleaned
  split
  · exact Nat.le_refl _
  · next hne => exact Path.length_clean_le (by simpa using hne)

/-- The path is none, or clean and in a directory that is there. -/
def Housed (d : Disk) (path : Bytes) : Prop :=
  path ≠ [] → Path.clean path = path ∧ d.stat (Path.parent path) = .ok .dir

/-- A path stays in a directory that is there when directories and links are kept. -/
theorem Housed.kept {d d' : Disk} {path : Bytes} (h : Housed d path) (htree : KeepsTree d d')
    (hwork : d'.workDir = d.workDir) : Housed d' path :=
  fun hne => ⟨(h hne).1, htree.stat_dir hwork (h hne).2⟩

/-- There is nothing to do for a path that is settled. -/
theorem Housed.settlePath {w : World} {path : Bytes} (h : Housed w.disk path) :
    (settlePath path : StateM World _).run w = (.ok path, w) := by
  by_cases hnil : path = []
  · subst hnil
    rfl
  · obtain ⟨hclean, hdir⟩ := h hnil
    have hrun := run_settlePath hnil (w := w) (by rw [hclean, ensureDirs_of_stat hdir])
    rwa [hclean] at hrun

/-- **A path that has been settled is clean, and its directory is there.** -/
theorem settlePath_spec {w w' : World} {path path' : Bytes}
    (h : (settlePath path : StateM World _).run w = (.ok path', w')) :
    path' = cleaned path ∧ Housed w'.disk path' ∧ KeepsTree w.disk w'.disk ∧ w'.disk.workDir = w.disk.workDir := by
  by_cases hnil : path = []
  · subst hnil
    cases h
    exact ⟨rfl, absurd rfl, .refl _, rfl⟩
  · rcases hdirs : w.disk.ensureDirs (Path.parent (Path.clean path)) with ⟨d, made⟩
    rw [run_settlePath hnil hdirs] at h
    cases made with
    | error e => cases h
    | ok =>
        cases h
        obtain ⟨htree, hwork⟩ := ensureDirs_keeps hdirs
        have hdir := stat_of_ensureDirs Path.eq_root_of_getLast? hdirs
        exact ⟨by simp [cleaned, hnil], fun _ => ⟨Path.clean_clean path, hdir⟩, htree, hwork⟩

/-- The configuration with its paths cleaned. -/
def withCleanPaths (c : Config) : Config :=
  { c with
    logging := ⟨{ c.logging.file with destination := cleaned c.logging.file.destination },
      { c.logging.console with destination := cleaned c.logging.console.destination }⟩
    reporting := ⟨cleaned c.reporting.destination⟩ }

/-- All paths of a configuration are settled. -/
structure Settled (c : Config) (d : Disk) : Prop where
  file : Housed d c.logging.file.destination
  console : Housed d c.logging.console.destination
  report : Housed d c.reporting.destination

/-- Settling what is settled changes nothing. -/
theorem settle_of_settled {c : Config} {w : World} (h : c.Settled w.disk) :
    (settle c : StateM World _).run w = (.ok c, w) := by
  refine World.run_bind_eq_iff.2 ⟨_, _, h.file.settlePath, ?_⟩
  refine World.run_bind_eq_iff.2 ⟨_, _, h.console.settlePath, ?_⟩
  exact World.run_bind_eq_iff.2 ⟨_, _, h.report.settlePath, rfl⟩

/-- **Settling** cleans all paths, and their directories are there afterwards. -/
theorem settle_spec {c c' : Config} {w w' : World} (h : (settle c : StateM World _).run w = (.ok c', w')) :
    c' = c.withCleanPaths ∧ c'.Settled w'.disk ∧ w'.disk.workDir = w.disk.workDir := by
  obtain ⟨file, w₁, hfile, h⟩ := World.run_bind_eq_iff.1 h
  cases file with
  | error e => cases h
  | ok file =>
      obtain ⟨console, w₂, hconsole, h⟩ := World.run_bind_eq_iff.1 h
      cases console with
      | error e => cases h
      | ok console =>
          obtain ⟨report, w₃, hreport, h⟩ := World.run_bind_eq_iff.1 h
          cases report with
          | error e => cases h
          | ok report =>
              cases h
              obtain ⟨rfl, hfile, -, hwork₁⟩ := settlePath_spec hfile
              obtain ⟨rfl, hconsole, htree₂, hwork₂⟩ := settlePath_spec hconsole
              obtain ⟨rfl, hreport, htree₃, hwork₃⟩ := settlePath_spec hreport
              exact ⟨rfl, ⟨(hfile.kept htree₂ hwork₂).kept htree₃ hwork₃, hconsole.kept htree₃ hwork₃, hreport⟩,
                hwork₃.trans (hwork₂.trans hwork₁)⟩

/-- Settled configurations stay so when directories and links are kept. -/
theorem Settled.kept {c : Config} {d d' : Disk} (h : c.Settled d) (htree : KeepsTree d d')
    (hwork : d'.workDir = d.workDir) : c.Settled d' :=
  ⟨h.file.kept htree hwork, h.console.kept htree hwork, h.report.kept htree hwork⟩

/-! ### Destinations -/

/-- A path can be that of a file if it is no directory, and if it is that of something or looks like one. -/
theorem canBeFile_iff {d : Disk} {path : Bytes} : canBeFile d path = true ↔ d.stat path ≠ .ok .dir ∧
    ((∃ n, d.stat path = .ok n) ∨ path.trim ≠ [] ∧ path.getLast? ≠ some Path.slash ∧ 0 ∉ path) := by
  unfold canBeFile
  cases hstat : d.stat path with
  | error e =>
      have herrno := errno_of_stat hstat
      simp [Except.map, herrno, and_assoc]
  | ok n => cases n <;> simp [Except.map, Files.Node.kind]

/-- What can be a file still can when files are written. -/
theorem canBeFile_of_rewrites {d d' : Disk} (h : Rewrites d d') {path : Bytes} (hfile : canBeFile d path = true) :
    canBeFile d' path = true := by
  rw [canBeFile_iff] at hfile ⊢
  obtain ⟨hdir, hthere⟩ := hfile
  refine ⟨h.stat_dir_iff.not.2 hdir, hthere.imp_left ?_⟩
  rintro ⟨n, hn⟩
  exact h.exists_stat hn

theorem Logger.Valid.mono {c : Logger} {isFile isFile' : Bool} (h : c.Valid isFile)
    (himp : isFile = true → isFile' = true) : c.Valid isFile' :=
  ⟨h.level, h.destination.imp_right himp, h.mode⟩

/-- A valid configuration stays valid when files are written. -/
theorem Valid.rewrites {c : Config} {d d' : Disk} (h : c.Valid (c.destinations d)) (hrw : Rewrites d d') :
    c.Valid (c.destinations d') :=
  { h with
    file := h.file.mono (canBeFile_of_rewrites hrw)
    console := h.console.mono (canBeFile_of_rewrites hrw)
    report := canBeFile_of_rewrites hrw h.report }

/-! ### Loading again -/

section

variable {c : Config} {copy : Bytes}

/-- **What has been loaded stays settled and valid** when a file is written. -/
theorem settled_of_write {path data : Bytes} {w w' : World} {d : Disk}
    (hload : (load path : StateM World _).run w = (.ok c, w')) (hwrite : w'.disk.write copy data = .ok d) :
    (∃ dir, d.workPath = .ok dir) ∧ c.Settled d ∧ c.Valid (c.destinations d) := by
  obtain ⟨⟨dir, hdir⟩, _, -, hsettle, hvalid⟩ := load_eq_ok_iff.1 hload
  obtain ⟨-, hsettled, hwork⟩ := settle_spec hsettle
  have hrw := Rewrites.write hwrite
  refine ⟨⟨dir, ?_⟩, hsettled.kept hrw.tree hrw.workDir, hvalid.rewrites hrw⟩
  rw [workPath, hrw.workDir, hwork]
  exact hdir

/-- A configuration with valid and settled paths is loaded as its file says. -/
theorem load_eq_of_read {v : World} {data : Bytes} (hread : v.disk.read copy = .ok data)
    (hdecode : default.decode data = .ok c) (hwork : ∃ dir, v.disk.workPath = .ok dir) (hsettled : c.Settled v.disk)
    (hvalid : c.Valid (c.destinations v.disk)) : (load copy : StateM World _).run v = (.ok c, v) := by
  have hne : copy ≠ [] := by
    rintro rfl
    cases hread
  exact load_eq_ok_iff.2 ⟨hwork, c, .file hne hread hdecode, settle_of_settled hsettled, hvalid⟩

/-- A text that does not come back shorter has kept its start. -/
theorem keeps_of_length_le {v : Bytes} (hread : bytesContent v ≠ none) (h : v.length ≤ (readBack v).length) :
    losesStart v = false := by
  cases hloses : losesStart v with
  | false => rfl
  | true => exact absurd (length_readBack_lt hloses hread) (Nat.not_lt.2 h)

/-- A path that comes back as it was has lost nothing. -/
theorem keeps_of_cleaned {v : Bytes} (hread : bytesContent v ≠ none) (h : cleaned (readBack v) = v) :
    losesStart v = false := by
  refine keeps_of_length_le hread ?_
  have hle := length_cleaned_le (readBack v)
  rwa [h] at hle

theorem Logger.keeps_of_reread {c base : Logger} (hread : bytesContent c.destination ≠ none)
    (h : cleaned (c.reread base).destination = c.destination) : losesStart c.destination = false := by
  by_cases hnil : c.destination = []
  · rw [hnil]
    decide
  · refine keeps_of_cleaned hread ?_
    simpa [reread, hnil] using h

/-- **What is the same after it was read back** names a log file and its mode, and keeps the start of its texts. -/
theorem keeps_of_reread (hread : ∀ v ∈ c.freeTexts, bytesContent v ≠ none) (h : c.reread.withCleanPaths = c) :
    (c.logging.file.destination ≠ [] ∧ c.logging.file.mode ≠ []) ∧ ∀ v ∈ c.freeTexts, losesStart v = false := by
  have hinput : readBack c.input.codePage = c.input.codePage := congrArg (·.input.codePage) h
  have hsuffix : readBack c.output.suffix = c.output.suffix := congrArg (·.output.suffix) h
  have hfile : cleaned (c.logging.file.reread default.logging.file).destination = c.logging.file.destination :=
    congrArg (·.logging.file.destination) h
  have hmode : (c.logging.file.reread default.logging.file).mode = c.logging.file.mode :=
    congrArg (·.logging.file.mode) h
  have hconsole : cleaned (c.logging.console.reread default.logging.console).destination =
      c.logging.console.destination := congrArg (·.logging.console.destination) h
  have hreport : cleaned (readBack c.reporting.destination) = c.reporting.destination :=
    congrArg (·.reporting.destination) h
  simp only [freeTexts, List.forall_mem_cons] at hread ⊢
  obtain ⟨hrinput, hrsuffix, hrfile, hrconsole, hrreport, -⟩ := hread
  refine ⟨⟨fun hnil => ?_, fun hnil => ?_⟩, keeps_of_length_le hrinput (by simp [hinput]),
    keeps_of_length_le hrsuffix (by simp [hsuffix]), Logger.keeps_of_reread hrfile hfile,
    Logger.keeps_of_reread hrconsole hconsole, keeps_of_cleaned hrreport hreport, by simp⟩
  · have hdefault : cleaned default.logging.file.destination = [] := by simpa [Logger.reread, hnil] using hfile
    exact absurd hdefault (by decide)
  · have hdefault : default.logging.file.mode = [] := by simpa [Logger.reread, hnil] using hmode
    exact absurd hdefault (by decide)

/-- What a configuration has to have if it is loaded as it was written. -/
theorem keeps_of_load {v v' : World} {isFile : Destinations} (hvalid : c.Valid isFile)
    (hread : v.disk.read copy = .ok c.dump) (h : (load copy : StateM World _).run v = (.ok c, v')) :
    (c.logging.file.destination ≠ [] ∧ c.logging.file.mode ≠ []) ∧ ∀ v ∈ c.freeTexts, losesStart v = false := by
  obtain ⟨-, c₁, hlaid, hsettle, -⟩ := load_eq_ok_iff.1 h
  cases hlaid with
  | default => cases hread
  | file _ hread' hdecode =>
      obtain rfl := Except.ok.inj (hread.symm.trans hread')
      obtain ⟨hcontent, rfl⟩ := (decode_dump_eq_ok_iff hvalid).1 hdecode
      exact keeps_of_reread hcontent (settle_spec hsettle).1.symm

end

/-- **A configuration that was loaded, written to a file and loaded again** is the same exactly if it names a
log file and a mode for it, and no text in it of several lines begins with a line end or a tab. -/
theorem load_dump_eq_ok_iff (path copy : Bytes) (c : Config) (w w' : World) (d : Disk)
    (hload : (load path : StateM World _).run w = (.ok c, w')) (hwrite : w'.disk.write copy c.dump = .ok d)
    (hread : d.read copy = .ok c.dump) :
    ((load copy : StateM World _).run { w' with disk := d }).1 = .ok c ↔
      (c.logging.file.destination ≠ [] ∧ c.logging.file.mode ≠ []) ∧ ∀ v ∈ c.freeTexts, losesStart v = false := by
  obtain ⟨hwork, hsettled, hvalid⟩ := settled_of_write hload hwrite
  constructor
  · intro h
    exact keeps_of_load hvalid (v := { w' with disk := d }) hread (Prod.ext h rfl)
  · rintro ⟨⟨hdest, hmode⟩, hkeeps⟩
    have hdecode : default.decode c.dump = .ok c := by
      rw [decode_dump hvalid hkeeps, filled_eq_self hdest hmode]
    rw [load_eq_of_read (v := { w' with disk := d }) hread hdecode hwork hsettled hvalid]

/-- A new file can be written beside the one that is there. -/
theorem exists_write_loneWorld (data copied : Bytes) :
    ∃ d, (loneWorld data).disk.write "/d.yaml" copied = .ok d ∧ d.read "/d.yaml" = .ok copied := by
  have hfree : (loneWorld data).disk.locate true "/d.yaml" = .ok (.free [] "d.yaml" false) := rfl
  exact exists_write_of_free (by decide) hfree copied

/-- A configuration file with a text of two lines, the first of them indented, and one that needs quotes. -/
def quotedFile : Bytes :=
  "input: \x7bcode_page: \" two\\nlines\"\x7d\noutput: \x7bsuffix: \"- x\"\x7d\n"

def quotedConfig : Config :=
  { default with input := ⟨[".css"], " two\nlines"⟩, output := ⟨"- x", false, false⟩ }

/-- Texts that have to be quoted come back. -/
theorem load_dump_quoted : ∃ d, (loneWorld quotedFile).disk.write "/d.yaml" quotedConfig.dump = .ok d ∧
    d.read "/d.yaml" = .ok quotedConfig.dump ∧
      ((load "/d.yaml" : StateM World _).run { loneWorld quotedFile with disk := d }).1 = .ok quotedConfig := by
  have hload : (load "c.yaml" : StateM World _).run (loneWorld quotedFile) = (.ok quotedConfig, loneWorld quotedFile) :=
    load_loneWorld (by decide +kernel) rfl rfl rfl (by decide +kernel)
  obtain ⟨d, hwrite, hread⟩ := exists_write_loneWorld quotedFile quotedConfig.dump
  have hbegins : ∀ v ∈ quotedConfig.freeTexts.tail, v = [] ∨ Begins v := by decide
  have hkeeps : ∀ v ∈ quotedConfig.freeTexts, losesStart v = false :=
    List.forall_mem_cons.2 ⟨by decide +kernel, fun v hv => keeps_of_begins (hbegins v hv)⟩
  exact ⟨d, hwrite, hread, (load_dump_eq_ok_iff _ _ _ _ _ _ hload hwrite hread).2 ⟨by decide, hkeeps⟩⟩

/-- A configuration file that takes the mode of the log file away. -/
def modelessFile : Bytes :=
  "logging: \x7bfile: \x7bmode: \"\"\x7d\x7d\n"

def modelessConfig : Config :=
  { default with logging := ⟨⟨"none", "cssfmt.log", []⟩, ⟨"normal", [], []⟩⟩ }

/-- The mode is not written, and what is loaded again is the default configuration. -/
theorem load_dump_modeless :
    (load "c.yaml" : StateM World _).run (loneWorld modelessFile) = (.ok modelessConfig, loneWorld modelessFile) ∧
      ∃ d, (loneWorld modelessFile).disk.write "/d.yaml" modelessConfig.dump = .ok d ∧
        d.read "/d.yaml" = .ok modelessConfig.dump ∧
          ((load "/d.yaml" : StateM World _).run { loneWorld modelessFile with disk := d }).1 = .ok default ∧
            default ≠ modelessConfig := by
  have hload : (load "c.yaml" : StateM World _).run (loneWorld modelessFile) =
      (.ok modelessConfig, loneWorld modelessFile) :=
    load_loneWorld (by decide +kernel) rfl rfl rfl (by decide +kernel)
  obtain ⟨d, hwrite, hread⟩ := exists_write_loneWorld modelessFile modelessConfig.dump
  refine ⟨hload, d, hwrite, hread, ?_, by decide⟩
  obtain ⟨hwork, hsettled, hvalid⟩ := settled_of_write hload hwrite
  have hbegins : ∀ v ∈ modelessConfig.freeTexts, v = [] ∨ Begins v := by decide
  have hdecode : default.decode modelessConfig.dump = .ok default :=
    decode_dump hvalid fun v hv => keeps_of_begins (hbegins v hv)
  have hvalid' : default.Valid (default.destinations d) :=
    { hvalid with file := { hvalid.file with mode := .inr ⟨"overwrite", by decide, rfl⟩ } }
  rw [load_eq_of_read (v := { loneWorld modelessFile with disk := d }) hread hdecode hwork
    ⟨hsettled.file, hsettled.console, hsettled.report⟩ hvalid']

end Restyle.Config
