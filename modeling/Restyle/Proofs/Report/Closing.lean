import Restyle.Proofs.Report.Calls
import Restyle.Proofs.Report.Drafts
import Restyle.Proofs.Text.Lines

/-!
# What a closed report records

A report that has been filled by calls (`Report.Calls`) is written item by item (`Report.Drafts`).  What has
become of the items is a list of outcomes, from which the lines of the manifest and the entries of the archive
can be told.

* `close_history_iff`: after any history of calls, which further calls are refused, what a closed report
  holds and what reading it gives; and its manifest has one line an item exactly if no line end stands in the
  name or the path of one.
-/

namespace Restyle

namespace Report

/-! ### The manifest -/

/-- The fields of a line in the manifest: what has become of an item, its size, its name and, for a file, its
path. -/
def Outcome.fields (name origin : Bytes) : Outcome → List Bytes
  | .data content => ["data", decimal content.length, name]
  | .file size _ => ["file", decimal size, name, origin]
  | .missing => ["missing", "-", name, origin]

/-- The line without its end. -/
def Outcome.line (name origin : Bytes) (o : Outcome) : Bytes :=
  List.intercalate "\t" (o.fields name origin)

/-- The manifest has these lines, each with its end. -/
theorem manifestLine_eq (name : Bytes) (i : Item) (o : Outcome) :
    manifestLine name i o = o.line name i.origin ++ [0x0A] := by
  cases o <;> simp [manifestLine, Outcome.line, Outcome.fields, List.intercalate] <;> rfl

namespace History

/-- What has become, on a disk, of what the calls stored. -/
def found (d : Disk) (history : History) : List Outcome :=
  history.firsts.map fun p => (p.2.item p.1).found d

/-- The lines of the manifest: one for each call that stored something. -/
def lines (history : History) (os : List Outcome) : List Bytes :=
  (history.firsts.zip os).map fun q => q.2.line q.1.2.name q.1.2.origin

def manifest (history : History) (os : List Outcome) : Bytes :=
  (history.lines os).flatMap (· ++ [0x0A])

/-- The entries of the archive: data and files that are there, and the manifest. -/
def archived (history : History) (os : List Outcome) : List Archive.Entry :=
  (history.firsts.zip os).flatMap (fun q => q.2.entries q.1.2.name) ++ [⟨"MANIFEST", history.manifest os⟩]

end History

/-- A line is one line if there is no line end in the name and the path. -/
theorem lineEnd_not_mem_line_iff {d : Disk} {place : Files.Place} {old text : Bytes} {v : World} {c : Call}
    {o : Outcome} (h : (c.item v).Becomes d place old text o) :
    0x0A ∉ o.line c.name c.origin ↔ 0x0A ∉ c.name ∧ 0x0A ∉ c.origin := by
  have hdata : (0x0A : UInt8) ∉ ("data" : Bytes) := by decide
  have hfile : (0x0A : UInt8) ∉ ("file" : Bytes) := by decide
  have hmissing : (0x0A : UInt8) ∉ ("missing" : Bytes) := by decide
  have hdash : (0x0A : UInt8) ∉ ("-" : Bytes) := by decide
  have hsize := lineEnd_not_mem_decimal
  rw [Outcome.line, Bytes.not_mem_intercalate_iff (by decide)]
  cases o with
  | data content =>
      -- only data becomes data, and its path is empty
      have horigin : c.origin = [] := by
        cases c with
        | data => rfl
        | file name path => exact h.origin_eq_nil
      simp only [horigin, Outcome.fields, List.forall_mem_cons, List.not_mem_nil, hdata, hsize, not_false_eq_true,
        true_and, and_true, false_implies, implies_true]
  | file | missing =>
      simp only [Outcome.fields, List.forall_mem_cons, List.not_mem_nil, hfile, hmissing, hdash, hsize,
        not_false_eq_true, true_and, and_true, false_implies, implies_true]

/-! ### A history and its report -/

/-- What is written after a history is what its first calls stored. -/
theorem archived_after (name : Bytes) (place : Files.Place) (history : History) (os : List Outcome) :
    archived (after { name := name, place := place } history).items os = history.archived os := by
  have horigin : ∀ p : World × Call, (p.2.item p.1).origin = p.2.origin := by
    rintro ⟨w, c⟩
    cases c <;> rfl
  have hmanifest : manifest (history.firsts.map fun p => (p.2.name, p.2.item p.1)) os = history.manifest os := by
    rw [manifest, History.manifest, History.lines, List.zip_map_left, List.flatMap_map, List.flatMap_map]
    simp only [manifestLine_eq, Prod.map_fst, Prod.map_snd, horigin, id_eq]
  rw [items_after_of_fresh rfl, archived, hmanifest, entries, List.zip_map_left, List.flatMap_map]
  rfl

/-- No line has a line end in it if no name and no path has. -/
theorem forall_lines_iff {history : History} {d : Disk} {place : Files.Place} {old text : Bytes} {os : List Outcome}
    (hos : List.Forall₂ (fun p o => (p.2.item p.1).Becomes d place old text o) history.firsts os) :
    (∀ line ∈ history.lines os, 0x0A ∉ line) ↔ ∀ p ∈ history.firsts, 0x0A ∉ p.2.name ∧ 0x0A ∉ p.2.origin := by
  rw [History.lines, List.forall_mem_map]
  generalize history.firsts = firsts at hos
  induction hos with
  | nil => simp
  | cons h _ ih => rw [List.zip_cons_cons, List.forall_mem_cons, List.forall_mem_cons, ih, lineEnd_not_mem_line_iff h]

/-- What is written cannot be seen in a report that has not stored itself. -/
theorem eq_found_of_others {history : History} {d : Disk} {place : Files.Place} {old text : Bytes}
    {os : List Outcome}
    (hos : List.Forall₂ (fun p o => (p.2.item p.1).Becomes d place old text o) history.firsts os)
    (hothers : ∀ p ∈ history.firsts, ¬ (p.2.item p.1).IsOwn d place) : os = history.found d := by
  rw [History.found]
  generalize history.firsts = firsts at hos hothers
  induction hos with
  | nil => rfl
  | cons h _ ih =>
      rw [List.forall_mem_cons] at hothers
      rw [List.map_cons, h.eq_found hothers.1, ih hothers.2]

/-- **After any history of calls**, a further call is refused exactly if it clashes with one before it, and then
changes nothing.  When the report is closed, something has become of each item: what is found of it on the
disk or, for the file of the report itself, the text as far as it had been written.  Closing succeeds exactly
if every entry can be written; the file of the report then begins with an archive, from which exactly the
entries are read back: data, files that are there, and the manifest.  The manifest has one line for each item
exactly if there is no line end in the name or the path of one.

Archives are read back up to a size of four gigabytes.  The bound is one of this archive format: the records
by which larger entries and archives are described are neither written nor read here. -/
theorem close_history_iff (name : Bytes) (place : Files.Place) (history : History) (w : World) (old : Bytes)
    (hold : w.disk.get? place = some (.file old)) :
    (∀ v c, c.HasPath →
      ((∃ e, (c.answer v (after { name := name, place := place } history)).1 = .error e) ↔ history.Clashes c) ∧
        (history.Clashes c → after { name := name, place := place } (history ++ [(v, c)]) =
          after { name := name, place := place } history)) ∧
    ∃ text os,
      List.Forall₂ (fun p o => (p.2.item p.1).Becomes w.disk place old text o) history.firsts os ∧
      ((∀ p ∈ history.firsts, ¬ (p.2.item p.1).IsOwn w.disk place) → os = history.found w.disk) ∧
      ((((after { name := name, place := place } history).close : StateM World _).run w).1.2 = none ↔
        ∀ e ∈ history.archived os, e.refusal? = none) ∧
      ((((after { name := name, place := place } history).close : StateM World _).run w).1.2 = none →
        text = Archive.encode (history.archived os) ∧
        (((after { name := name, place := place } history).close : StateM World _).run w).2 =
          w.filed place (Disk.overlay old 0 text) ∧
        ((∀ e ∈ history.archived os, e.data.length < UInt32.size) → text.length < UInt32.size →
          Archive.listing text = .ok ((history.archived os).map fun e => (e.name, .data e.data)))) ∧
      (Bytes.split 0x0A (history.manifest os) = history.lines os ++ [[]] ↔
        ∀ p ∈ history.firsts, 0x0A ∉ p.2.name ∧ 0x0A ∉ p.2.origin) := by
  obtain ⟨hplace, hopen⟩ := archive_after { name := name, place := place } history
  have hfile : w.disk.get? (after { name := name, place := place } history).place = some (.file old) := by
    rw [hplace, hold]
  obtain ⟨text, os, hos, hsuccess, hwritten⟩ := run_close hopen hfile
  rw [archived_after] at hsuccess hwritten
  rw [hplace, items_after_of_fresh rfl, List.forall₂_map_left_iff] at hos
  refine ⟨fun v c hc => ?_, text, os, hos, fun hothers => ?_, hsuccess, fun hnone => ?_, ?_⟩
  · have hrefused := refused_iff (show ({ name := name, place := place } : Report).items = [] from rfl) history hc v
    refine ⟨hrefused, fun hclash => ?_⟩
    obtain ⟨e, he⟩ := hrefused.2 hclash
    rw [after_append]
    exact leaves_of_refused he
  · exact eq_found_of_others hos hothers
  · obtain ⟨rfl, hworld⟩ := hwritten hnone
    rw [hplace] at hworld
    exact ⟨rfl, hworld, fun hdata hsize => Archive.listing_encode (hsuccess.1 hnone) hdata hsize⟩
  · rw [History.manifest, Bytes.split_lines_iff]
    exact forall_lines_iff hos

/-- A machine with an empty archive and a stylesheet. -/
def sheetWorld : World :=
  { disk := ⟨[(["r.zip"], .file []), (["b.css"], .file "p\x7b\x7d")], some []⟩, tempDir := "/" }

/-- Data, a file, one that is missing, data under a name that is taken, and the file again. -/
def mixedCalls : History :=
  [(sheetWorld, .data "a" "x"), (sheetWorld, .file "sheet" "/b.css"), (sheetWorld, .file "log" "/x.log"),
    (sheetWorld, .data "a" "y"), (sheetWorld, .file "sheet" "/b.css")]

/-- No call is for the archive itself. -/
theorem mixedCalls_others : ∀ p ∈ mixedCalls.firsts, ¬ (p.2.item p.1).IsOwn sheetWorld.disk ["r.zip"] := by
  have hfirsts : mixedCalls.firsts = [(sheetWorld, .data "a" "x"), (sheetWorld, .file "sheet" "/b.css"),
      (sheetWorld, .file "log" "/x.log")] := rfl
  have hsheet : sheetWorld.disk.locate true "/b.css" = .ok (.taken ["b.css"] (.file "p\x7b\x7d")) := rfl
  have hlog : sheetWorld.disk.locate true "/x.log" = .ok (.free [] "x.log" false) := rfl
  rw [hfirsts, List.forall_mem_cons, List.forall_mem_cons, List.forall_mem_singleton]
  refine ⟨fun h => h.1 rfl, fun h => ?_, fun h => ?_⟩
  · obtain ⟨-, n, hn⟩ := h
    injection Except.ok.inj (hsheet.symm.trans hn) with hplace
    exact absurd hplace (by decide)
  · obtain ⟨-, n, hn⟩ := h
    cases hlog.symm.trans hn

/-- The missing file is in the manifest only. -/
theorem archived_mixedCalls : mixedCalls.archived (mixedCalls.found sheetWorld.disk) =
    [⟨"a", "x"⟩, ⟨"sheet", "p\x7b\x7d"⟩,
      ⟨"MANIFEST", "data\t1\ta\nfile\t3\tsheet\t/b.css\nmissing\t-\tlog\t/x.log\n"⟩] := by
  decide +kernel

theorem lines_mixedCalls : mixedCalls.lines (mixedCalls.found sheetWorld.disk) =
    [("data\t1\ta" : Bytes), ("file\t3\tsheet\t/b.css" : Bytes), ("missing\t-\tlog\t/x.log" : Bytes)] := by
  decide +kernel

/-- The manifest has a line for each of the three items. -/
theorem close_history_iff_mixed :
    (∀ p ∈ mixedCalls, p.2.HasPath) ∧ sheetWorld.disk.get? ["r.zip"] = some (.file []) ∧
      (∃ e, ((Call.data "a" "z").answer sheetWorld
        (after { name := "r.zip", place := ["r.zip"] } mixedCalls)).1 = .error e) ∧
      (((after { name := "r.zip", place := ["r.zip"] } mixedCalls).close : StateM World _).run sheetWorld).1.2 =
        none ∧
      (((after { name := "r.zip", place := ["r.zip"] } mixedCalls).close : StateM World _).run sheetWorld).2 =
        sheetWorld.filed ["r.zip"] (Archive.encode [⟨"a", "x"⟩, ⟨"sheet", "p\x7b\x7d"⟩,
          ⟨"MANIFEST", "data\t1\ta\nfile\t3\tsheet\t/b.css\nmissing\t-\tlog\t/x.log\n"⟩]) ∧
      Bytes.split 0x0A (mixedCalls.manifest (mixedCalls.found sheetWorld.disk)) =
        [("data\t1\ta" : Bytes), ("file\t3\tsheet\t/b.css" : Bytes), ("missing\t-\tlog\t/x.log" : Bytes), []] := by
  have hpaths : ∀ p ∈ mixedCalls, p.2.HasPath := by
    simp [mixedCalls, Call.HasPath, Utf8.encode, Utf8.encodeChar]
  have hold : sheetWorld.disk.get? ["r.zip"] = some (.file []) := by decide
  obtain ⟨hrefused, text, os, -, hfound, hsuccess, hwritten, hlines⟩ :=
    close_history_iff "r.zip" ["r.zip"] mixedCalls sheetWorld [] hold
  obtain rfl := hfound mixedCalls_others
  have hnone := hsuccess.2 (by rw [archived_mixedCalls]; decide)
  obtain ⟨rfl, hworld, -⟩ := hwritten hnone
  rw [archived_mixedCalls, Disk.overlay_zero, List.drop_nil, List.append_nil] at hworld
  refine ⟨hpaths, hold, (hrefused sheetWorld (.data "a" "z") trivial).1.2 ?_, hnone, hworld, ?_⟩
  · exact ⟨(sheetWorld, .data "a" "x"), List.mem_cons_self, rfl⟩
  · rw [hlines.2 (by decide), lines_mixedCalls]
    rfl

/-- Data under a name with a line end. -/
def brokenCalls : History :=
  [(sheetWorld, .data "a\nb" "x")]

/-- The manifest has two lines for the only item. -/
theorem close_splits_line :
    (((after { name := "r.zip", place := ["r.zip"] } brokenCalls).close : StateM World _).run sheetWorld).1.2 =
        none ∧
      (((after { name := "r.zip", place := ["r.zip"] } brokenCalls).close : StateM World _).run sheetWorld).2 =
        sheetWorld.filed ["r.zip"] (Archive.encode [⟨"a\nb", "x"⟩, ⟨"MANIFEST", "data\t1\ta\nb\n"⟩]) ∧
      (after { name := "r.zip", place := ["r.zip"] } brokenCalls).items.length = 1 ∧
      Bytes.split 0x0A ("data\t1\ta\nb\n" : Bytes) = [("data\t1\ta" : Bytes), ("b" : Bytes), []] := by
  have hfile : sheetWorld.disk.get? (after { name := "r.zip", place := ["r.zip"] } brokenCalls).place =
      some (.file []) := by decide
  obtain ⟨text, os, hos, hsuccess, hwritten⟩ := run_close rfl hfile
  have hdata : os = [.data "x"] := by
    cases hos with
    | cons hx hnil =>
        cases hnil
        rw [hx.eq_found fun hown => hown.1 rfl]
        rfl
  subst hdata
  have harchived : archived (after { name := "r.zip", place := ["r.zip"] } brokenCalls).items [.data "x"] =
      [⟨"a\nb", "x"⟩, ⟨"MANIFEST", "data\t1\ta\nb\n"⟩] := by decide
  rw [harchived] at hsuccess hwritten
  have hnone := hsuccess.2 (by decide)
  obtain ⟨rfl, hworld⟩ := hwritten hnone
  rw [Disk.overlay_zero, List.drop_nil, List.append_nil] at hworld
  exact ⟨hnone, hworld, by decide, by decide⟩

end Report

end Restyle
