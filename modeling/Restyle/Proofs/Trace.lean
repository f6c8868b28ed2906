import Restyle.Proofs.Text.Lines
import Restyle.Proofs.Text.Quoted
import Restyle.Trace

/-!
# What a trace tells

A trace is written from a *history*: the source of a document, its text, and name and result of every step.
Each of these has a line of its own (`History.lines`), whatever bytes the texts are made of, for a text is
quoted and so stays on its line; only the source and the names have to be without line ends
(`History.Inline`).

A line can be told from its neighbours, and what it says can be told from the line (`History.lines_inj`).  A
name may end like the line it stands on, with a size in brackets: the text below gives the size, and the name
is what is left.

* `record_lossless`: a trace has two lines, and two for each step, and no other history has the same trace.
-/

namespace Restyle.Trace

/-- What has become of a document: its source, its text, and name and result of every step. -/
structure History where
  source : Bytes
  input : Bytes
  steps : List (Bytes × Bytes)
  deriving Repr, DecidableEq

/-- The trace of a history. -/
def record (h : History) : Trace :=
  h.steps.foldl (fun t step => t.step step.1 step.2) (start h.source h.input)

namespace History

/-- The source and the names of the steps have no line end. -/
structure Inline (h : History) : Prop where
  source : 0x0A ∉ h.source
  names : ∀ step ∈ h.steps, 0x0A ∉ step.1

/-- The line that begins a step. -/
def heading (n : Nat) (name text : Bytes) : Bytes :=
  "step " ++ decimal n ++ ": " ++ name ++ " (" ++ decimal text.length ++ " bytes)"

/-- The lines of steps behind the first `n`. -/
def stepLines (n : Nat) : List (Bytes × Bytes) → List Bytes
  | [] => []
  | (name, text) :: steps =>
    heading (n + 1) name text :: ("  result: " ++ shown text) :: stepLines (n + 1) steps

/-- The lines of the trace. -/
def lines (h : History) : List Bytes :=
  ("source: " ++ h.source) :: ("  input: " ++ shown h.input) :: stepLines 0 h.steps

end History

open History

/-! ### Lines -/

/-- A step adds its heading and its result. -/
theorem text_step (t : Trace) (name text : Bytes) :
    (t.step name text).text =
      t.text ++ [heading (t.steps + 1) name text, "  result: " ++ shown text].flatMap (· ++ [0x0A]) := by
  have hdepth : indent 1 = "  " := rfl
  have hflat : indent 0 = [] := rfl
  have hlabel : ("  result: " : Bytes) = "  " ++ "result" ++ ": " := by decide
  simp only [step, line, block, heading, hdepth, hflat, hlabel, List.flatMap_cons, List.flatMap_nil,
    List.nil_append, List.append_nil, List.append_assoc]
  rfl

/-- Steps add their lines. -/
theorem text_foldl_step (t : Trace) (steps : List (Bytes × Bytes)) :
    (steps.foldl (fun t step => t.step step.1 step.2) t).text =
      t.text ++ (stepLines t.steps steps).flatMap (· ++ [0x0A]) := by
  induction steps generalizing t with
  | nil => exact (List.append_nil _).symm
  | cons step steps ih =>
      obtain ⟨name, text⟩ := step
      rw [List.foldl_cons, ih, text_step, List.append_assoc, ← List.flatMap_append]
      rfl

/-- **A trace is its lines.** -/
theorem text_record (h : History) : (record h).text = h.lines.flatMap (· ++ [0x0A]) := by
  have hlabel : ("  input: " : Bytes) = "  " ++ "input" ++ ": " := by decide
  rw [record, text_foldl_step, History.lines, List.flatMap_cons, List.flatMap_cons, ← List.append_assoc, hlabel]
  rfl

/-- Each step has two lines. -/
theorem length_stepLines (n : Nat) (steps : List (Bytes × Bytes)) :
    (stepLines n steps).length = 2 * steps.length := by
  induction steps generalizing n with
  | nil => rfl
  | cons step steps ih =>
      rw [stepLines, List.length_cons, List.length_cons, ih, List.length_cons]
      omega

/-- A text is shown on one line. -/
theorem lineEnd_not_mem_shown (text : Bytes) : (0x0A : UInt8) ∉ shown text := by
  rw [shown]
  split
  · exact List.not_mem_nil
  · exact lineEnd_not_mem_quote text

theorem lineEnd_not_mem_stepLines (n : Nat) {steps : List (Bytes × Bytes)}
    (hsteps : ∀ step ∈ steps, 0x0A ∉ step.1) : ∀ line ∈ stepLines n steps, 0x0A ∉ line := by
  induction steps generalizing n with
  | nil => exact fun _ hline => by cases hline
  | cons step steps ih =>
      obtain ⟨name, text⟩ := step
      rw [List.forall_mem_cons] at hsteps
      have hlabels : (0x0A : UInt8) ∉ ("step " : Bytes) ∧ (0x0A : UInt8) ∉ (": " : Bytes) ∧
          (0x0A : UInt8) ∉ (" (" : Bytes) ∧ (0x0A : UInt8) ∉ (" bytes)" : Bytes) ∧
          (0x0A : UInt8) ∉ ("  result: " : Bytes) := by decide
      rw [stepLines, List.forall_mem_cons, List.forall_mem_cons]
      refine ⟨?_, ?_, ih (n + 1) hsteps.2⟩
      · simp only [heading, List.mem_append, not_or]
        exact ⟨⟨⟨⟨⟨⟨hlabels.1, lineEnd_not_mem_decimal _⟩, hlabels.2.1⟩, hsteps.1⟩, hlabels.2.2.1⟩,
          lineEnd_not_mem_decimal _⟩, hlabels.2.2.2.1⟩
      · rw [List.mem_append, not_or]
        exact ⟨hlabels.2.2.2.2, lineEnd_not_mem_shown text⟩

/-- No line of the trace has a line end in it. -/
theorem History.Inline.lineEnd_not_mem {h : History} (hin : h.Inline) : ∀ line ∈ h.lines, 0x0A ∉ line := by
  have hlabels : (0x0A : UInt8) ∉ ("source: " : Bytes) ∧ (0x0A : UInt8) ∉ ("  input: " : Bytes) := by decide
  rw [History.lines, List.forall_mem_cons, List.forall_mem_cons]
  refine ⟨?_, ?_, lineEnd_not_mem_stepLines 0 hin.names⟩
  · rw [List.mem_append, not_or]
    exact ⟨hlabels.1, hin.source⟩
  · rw [List.mem_append, not_or]
    exact ⟨hlabels.2, lineEnd_not_mem_shown h.input⟩

/-! ### What lines tell -/

/-- A text that is shown without quotes is empty. -/
theorem shown_inj {s t : Bytes} : shown s = shown t ↔ s = t := by
  refine ⟨fun h => ?_, congrArg shown⟩
  rw [shown, shown] at h
  split at h
  · next hs =>
      rw [List.isEmpty_iff] at hs
      split at h
      · next ht => rw [hs, List.isEmpty_iff.1 ht]
      · exact absurd h.symm (quote_ne_nil t)
  · split at h
    · exact absurd h (quote_ne_nil s)
    · exact quote_inj.1 h

/-- **The lines of a step tell its name and its text**: the text by the quotes, and the name by what
remains, for the text has told the size. -/
theorem stepLines_inj {n : Nat} {steps steps' : List (Bytes × Bytes)}
    (h : stepLines n steps = stepLines n steps') : steps = steps' := by
  induction steps generalizing n steps' with
  | nil =>
      cases steps' with
      | nil => rfl
      | cons step' steps' => cases h
  | cons step steps ih =>
      cases steps' with
      | nil => cases h
      | cons step' steps' =>
          obtain ⟨name, text⟩ := step
          obtain ⟨name', text'⟩ := step'
          simp only [stepLines, List.cons.injEq] at h
          obtain ⟨hheading, htext, hrest⟩ := h
          obtain rfl := shown_inj.1 (List.append_cancel_left htext)
          have hname : name = name' := by
            rw [heading, heading] at hheading
            have hfront := List.append_cancel_right
              (List.append_cancel_right (List.append_cancel_right hheading))
            exact List.append_cancel_left hfront
          rw [hname, ih hrest]

/-- A history is known from its lines. -/
theorem History.lines_inj {h h' : History} (heq : h.lines = h'.lines) : h = h' := by
  obtain ⟨source, input, steps⟩ := h
  obtain ⟨source', input', steps'⟩ := h'
  simp only [History.lines, List.cons.injEq] at heq
  obtain ⟨hsource, hinput, hsteps⟩ := heq
  rw [List.append_cancel_left hsource, shown_inj.1 (List.append_cancel_left hinput), stepLines_inj hsteps]

/-- **A trace loses nothing.**  Whatever bytes the texts of a history are made of, its trace has one line for
the source, one for the text and two for each step, and two histories with the same trace are the same. -/
theorem record_lossless (h : History) (hin : h.Inline) :
    Bytes.split 0x0A (record h).text = h.lines ++ [[]] ∧ h.lines.length = 2 + 2 * h.steps.length ∧
      ∀ h' : History, h'.Inline → (record h').text = (record h).text → h' = h := by
  refine ⟨?_, ?_, fun h' hin' heq => ?_⟩
  · rw [text_record]
    exact Bytes.split_lines_iff.2 hin.lineEnd_not_mem
  · rw [History.lines, List.length_cons, List.length_cons, length_stepLines]
    omega
  · rw [text_record, text_record] at heq
    exact History.lines_inj (Bytes.lines_inj hin'.lineEnd_not_mem hin.lineEnd_not_mem heq)

/-- A history with an empty text, stray bytes, a replacement character that is none of them, and a name that
ends like its line. -/
def oddHistory : History :=
  ⟨"a.css", [0x22, 0xFF, 0x0A, 0xEF, 0xBF, 0xBD], [("minify (0 bytes)", []), ("", [0x5C, 0x00])]⟩

theorem inline_oddHistory : oddHistory.Inline where
  source := by decide
  names := by decide

theorem record_lossless_oddHistory :
    oddHistory.Inline ∧ Bytes.split 0x0A (record oddHistory).text = oddHistory.lines ++ [[]] ∧
      oddHistory.lines.length = 6 ∧
      ∀ h' : History, h'.Inline → (record h').text = (record oddHistory).text → h' = oddHistory :=
  ⟨inline_oddHistory, record_lossless oddHistory inline_oddHistory⟩

end Restyle.Trace
