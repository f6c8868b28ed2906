import Restyle.Css.Outline
import Restyle.Css.Pipeline
import Restyle.Encoding.Decode
import Restyle.FileName
import Restyle.Job.Basic
import Restyle.Trace

/-!
# One stylesheet

A stylesheet is decoded, taken through the pipeline, and written to the standard output or to a file
under the destination.  A file that exists is kept unless it may be overwritten.
-/

namespace Restyle.Job

variable {m : Type → Type} [Monad m] [Machine m]

/-! ### Trace -/

def statsLine (doc : Bytes) : Bytes :=
  Trace.line 1 ("stats: " ++ (Css.outline doc).line)

/-- The trace of a pipeline on a document. -/
def trace (source doc : Bytes) (events : List Css.Pipeline.Event) : Bytes :=
  let start := (Trace.start source doc).add (statsLine doc)
  ((Css.Pipeline.snapshots events).foldl
    (fun t (step, after) => (t.step step.name after).add (statsLine after)) start).text

/-- A number of at least four digits. -/
def fourDigits (n : Nat) : Bytes :=
  let digits := decimal n
  List.replicate (4 - digits.length) 0x30 ++ digits

/-- The name of the trace of the stylesheet with a number. -/
def traceName (count : Nat) (source : Bytes) : Bytes :=
  "trace/" ++ fourDigits count ++ "-" ++ FileName.flat source ++ ".txt"

/-- Stores a trace in the report, if there is one.  A refusal means a mistake in the program and is meant
to end the whole run with a panic; it is modelled as a cause for this one stylesheet to fail.  A run comes to
one only with a report that has traces already. -/
def storeTrace (source text : Bytes) : Run m Causes := do
  let p ← get
  match p.report with
  | none => return []
  | some r =>
    match r.addData (traceName p.count source) text with
    | .ok r =>
      set { p with report := some r }
      return []
    | .error e => return [e.message]

/-! ### Output -/

/-- Makes sure that a result can be written to a file. -/
def prepareOutput (j : Job) (path : Bytes) : m Causes := do
  match ← Machine.stat path with
  | .ok _ =>
    if j.settings.overwrite then
      j.log.warn "Overwriting existing file" [("file", .text path)]
      return []
    else return ["output file already exists: " ++ path]
  | .error e =>
    if e.errno == .noEntry then
      match ← Machine.mkdirAll (Path.parent path) with
      | .ok () => return []
      | .error e => return ["unable to create output directory: " ++ e.message]
    else return [e.message]

/-- Writes a result to the file of a source, and tells where. -/
def writeFile (j : Job) (source result : Bytes) : m (Except Causes Bytes) := do
  let path := FileName.outputPath source j.destination j.settings.suffix j.transliterate
  match ← prepareOutput j path with
  | [] =>
    match ← Machine.write path result with
    | .ok () => return .ok path
    | .error e => return .error ["unable to write result: " ++ e.message]
  | causes => return .error causes

/-- Writes a result to the standard output, and tells where. -/
def writeStdout (result : Bytes) : m (Except Causes Bytes) := do
  match ← Machine.printDocument result with
  | none => return .ok "STDOUT"
  | some e => return .error ["unable to write result: " ++ e]

def emit (j : Job) (source result : Bytes) : m (Except Causes Bytes) :=
  if j.settings.toStdout then writeStdout result else writeFile j source result

/-! ### Processing -/

/-- Takes a document through the pipeline and writes the result. -/
def format (j : Job) (source doc : Bytes) : Run m Causes := do
  let names := j.settings.steps.map fun s => (s.name : Bytes)
  let before := Css.outline doc
  let events := Css.Pipeline.run names doc
  let result := Css.Pipeline.result doc events
  let after := Css.outline result
  j.log.logAll (events.flatMap (·.records (Css.Pipeline.logger j.log.name)))
  match ← storeTrace source (trace source doc events) with
  | [] =>
    if !before.isEmpty && after.isEmpty then
      j.log.warn "Stylesheet has no rules left after processing"
        [("from", .text source), ("steps", .texts names)]
    match ← emit j source result with
    | .error causes => return causes
    | .ok place =>
      j.log.info "Stylesheet processed" [("from", .text source), ("to", .text place),
        ("before", .counts before.counts), ("after", .counts after.counts)]
      return []
  | causes => return causes

/-- Processes one stylesheet, given by what reading it gave.  The source is the path by which the output
is named. -/
def sheet (j : Job) (data : Except Bytes Bytes) (source : Bytes) : Run m Causes :=
  unlessCancelled do
    modify fun p => { p with count := p.count + 1 }
    match data with
    | .error e => return ["unable to read stylesheet (" ++ source ++ "): " ++ e]
    | .ok data =>
      match decode j.settings.codePage data j.wide with
      | .error e => return ["unable to decode stylesheet (" ++ source ++ "): " ++ e.message]
      | .ok doc => format j source doc

end Restyle.Job
