import Restyle.Css.Pipeline
import Restyle.Proofs.Css.Edit

/-!
# Pipelines

A run of a pipeline is a list of events.  What it leaves is the document that the steps make one after
another, names that are no step left out (`result_runFrom`), and the snapshots are the documents on the way
(`snapshots_runFrom`).

A step looks at the code points of a document and not at its bytes.  To replace the stray bytes of a
document first is therefore the same as to replace those of the result (`Edit.apply_sanitize`), and this
passes from one step to a whole pipeline.

* `run_sanitize`: a pipeline does to a document what it does to its text, whether the document holds stray
  bytes or not.
-/

namespace Restyle

/-! ### Stray bytes -/

namespace Utf8

@[simp] theorem codePoints_sanitize (s : Bytes) : codePoints (sanitize s) = codePoints s :=
  codePoints_encode (codePoints s)

/-- What was encoded needs no repair. -/
theorem sanitize_encode (text : List Char) : sanitize (encode text) = encode text := by
  rw [sanitize, codePoints_encode]

/-- **To be valid is to have no stray byte that could be replaced.** -/
theorem sanitize_eq_self_iff {s : Bytes} : sanitize s = s ↔ isValid s = true := by
  refine ⟨fun h => ?_, encode_codePoints⟩
  rw [← h]
  exact isValid_encode (codePoints s)

end Utf8

namespace Css

open Utf8 (sanitize codePoints isValid)

/-- **An edit may find the stray bytes replaced or replace them.** -/
theorem Edit.apply_sanitize (e : Edit) (doc : Bytes) :
    e.apply (sanitize doc) = sanitize (e.apply doc) := by
  unfold apply
  rw [Utf8.codePoints_sanitize]
  cases e (codePoints doc) with
  | none => rfl
  | some text => exact (Utf8.sanitize_encode text).symm

/-- Valid documents stay valid. -/
theorem Edit.isValid_apply (e : Edit) {doc : Bytes} (h : isValid doc = true) :
    isValid (e.apply doc) = true := by
  rw [← Utf8.sanitize_eq_self_iff, ← e.apply_sanitize, Utf8.sanitize_eq_self_iff.2 h]

/-- A step is found by its name. -/
theorem Step.ofName?_name (s : Step) : Step.ofName? (s.name : Bytes) = some s := by
  cases s <;> decide

namespace Pipeline

/-! ### What a run leaves -/

/-- The document after steps that are all run. -/
def after (steps : List Step) (doc : Bytes) : Bytes :=
  steps.foldl (fun doc s => s.apply doc) doc

theorem after_cons (s : Step) (steps : List Step) (doc : Bytes) :
    after (s :: steps) doc = after steps (s.apply doc) := rfl

/-- **A run leaves what its steps make.** -/
theorem result_runFrom (n : Nat) (names : List Bytes) (doc : Bytes) :
    result doc (runFrom n names doc) = after (names.filterMap Step.ofName?) doc := by
  induction names generalizing n doc with
  | nil => rfl
  | cons name names ih =>
      rw [runFrom, List.filterMap_cons]
      cases Step.ofName? name with
      | none => exact ih (n + 1) doc
      | some s => exact ih (n + 1) (s.apply doc)

/-- The result of a run is the document after those steps that are known. -/
theorem result_run (names : List Bytes) (doc : Bytes) :
    result doc (run names doc) = after (names.filterMap Step.ofName?) doc :=
  result_runFrom 1 names doc

/-- The documents that steps make one after another, each with its step. -/
def stages : List Step → Bytes → List (Step × Bytes)
  | [], _ => []
  | s :: steps, doc => (s, s.apply doc) :: stages steps (s.apply doc)

/-- **The snapshots of a run are the documents on the way.** -/
theorem snapshots_runFrom (n : Nat) (names : List Bytes) (doc : Bytes) :
    snapshots (runFrom n names doc) = stages (names.filterMap Step.ofName?) doc := by
  induction names generalizing n doc with
  | nil => rfl
  | cons name names ih =>
      rw [runFrom, List.filterMap_cons]
      cases Step.ofName? name with
      | none => exact ih (n + 1) doc
      | some s => exact congrArg ((s, s.apply doc) :: ·) (ih (n + 1) (s.apply doc))

/-- A run keeps the document at every stage. -/
theorem snapshots_run (names : List Bytes) (doc : Bytes) :
    snapshots (run names doc) = stages (names.filterMap Step.ofName?) doc :=
  snapshots_runFrom 1 names doc

theorem length_stages (steps : List Step) (doc : Bytes) : (stages steps doc).length = steps.length := by
  induction steps generalizing doc with
  | nil => rfl
  | cons s steps ih => exact congrArg (· + 1) (ih (s.apply doc))

/-- The document at a place is made by the steps up to that place. -/
theorem getElem?_stages (steps : List Step) (doc : Bytes) (i : Nat) :
    (stages steps doc)[i]? = steps[i]?.map fun s => (s, after (steps.take (i + 1)) doc) := by
  induction steps generalizing doc i with
  | nil => rfl
  | cons s steps ih =>
      cases i with
      | zero => rfl
      | succ i => exact ih (s.apply doc) i

/-- **What is passed over is what names no step.** -/
theorem skipped_mem_runFrom_iff {n : Nat} {names : List Bytes} {doc name : Bytes} :
    .skipped name ∈ runFrom n names doc ↔ name ∈ names ∧ Step.ofName? name = none := by
  induction names generalizing n doc with
  | nil => simp [runFrom]
  | cons first names ih =>
      rw [runFrom]
      cases hfirst : Step.ofName? first with
      | none =>
          rw [List.mem_cons, List.mem_cons, ih, Event.skipped.injEq]
          constructor
          · rintro (rfl | ⟨hmem, hname⟩)
            · exact ⟨.inl rfl, hfirst⟩
            · exact ⟨.inr hmem, hname⟩
          · rintro ⟨rfl | hmem, hname⟩
            · exact .inl rfl
            · exact .inr ⟨hmem, hname⟩
      | some s =>
          rw [List.mem_cons, List.mem_cons, ih]
          constructor
          · rintro (h | ⟨hmem, hname⟩)
            · cases h
            · exact ⟨.inr hmem, hname⟩
          · rintro ⟨rfl | hmem, hname⟩
            · rw [hfirst] at hname
              cases hname
            · exact .inr ⟨hmem, hname⟩

/-! ### Known steps -/

/-- The names of steps name these steps. -/
theorem filterMap_names (steps : List Step) :
    (steps.map fun s => (s.name : Bytes)).filterMap Step.ofName? = steps := by
  induction steps with
  | nil => rfl
  | cons s steps ih => rw [List.map_cons, List.filterMap_cons, s.ofName?_name, ih]

/-! ### Documents and their texts -/

/-- **Repair can come first or last.** -/
theorem after_sanitize (steps : List Step) (doc : Bytes) :
    after steps (sanitize doc) = sanitize (after steps doc) := by
  induction steps generalizing doc with
  | nil => rfl
  | cons s steps ih =>
      have hstep : s.apply (sanitize doc) = sanitize (s.apply doc) := s.edit.apply_sanitize doc
      rw [after_cons, after_cons, hstep, ih]

/-- Repair can come first or last at every stage. -/
theorem stages_sanitize (steps : List Step) (doc : Bytes) :
    stages steps (sanitize doc) = (stages steps doc).map fun p => (p.1, sanitize p.2) := by
  induction steps generalizing doc with
  | nil => rfl
  | cons s steps ih =>
      have hstep : s.apply (sanitize doc) = sanitize (s.apply doc) := s.edit.apply_sanitize doc
      rw [stages, stages, List.map_cons, hstep, ih]

/-- The text after steps is what their edits make of it. -/
theorem codePoints_after (steps : List Step) (doc : Bytes) :
    codePoints (after steps doc) = steps.foldl (fun text s => s.edit.run text) (codePoints doc) := by
  induction steps generalizing doc with
  | nil => rfl
  | cons s steps ih =>
      have hstep : codePoints (s.apply doc) = s.edit.run (codePoints doc) := s.edit.codePoints_apply doc
      rw [after_cons, ih, hstep, List.foldl_cons]

/-- **Stray bytes never change what a pipeline does.**  For every document and every list of names, known
or not, the code points that the pipeline leaves are those that it leaves of the document with its stray
bytes replaced, and they are what the steps, as edits of texts, make of the code points of the document.
The documents on the way, and the one left, differ only in that the stray bytes are replaced.  In
particular a step takes a valid document to a valid one. -/
theorem run_sanitize (names : List Bytes) (doc : Bytes) :
    codePoints (result doc (run names doc)) =
        codePoints (result (sanitize doc) (run names (sanitize doc))) ∧
      codePoints (result doc (run names doc)) =
        (names.filterMap Step.ofName?).foldl (fun text s => s.edit.run text) (codePoints doc) ∧
      result (sanitize doc) (run names (sanitize doc)) = sanitize (result doc (run names doc)) ∧
      snapshots (run names (sanitize doc)) =
        (snapshots (run names doc)).map (fun p => (p.1, sanitize p.2)) ∧
      ∀ (s : Step) (d : Bytes), isValid d = true → isValid (s.apply d) = true := by
  simp only [result_run, snapshots_run]
  refine ⟨?_, codePoints_after _ doc, after_sanitize _ doc, stages_sanitize _ doc, ?_⟩
  · rw [after_sanitize, Utf8.codePoints_sanitize]
  · intro s d hd
    exact s.edit.isValid_apply hd

/-- A rule with a stray byte, and the same one with the byte replaced: minification finds something to
write in both, the other steps only pass on what they are given. -/
def strayRule : Bytes := [0x70, 0x7B, 0xFF, 0x20, 0x7D]

theorem run_sanitize_strayRule :
    isValid (sanitize strayRule) = true ∧ isValid (Step.minify.apply (sanitize strayRule)) = true ∧
      codePoints (result strayRule (run ["fix_rgb", "none", "minify"] strayRule)) =
        codePoints (result (sanitize strayRule) (run ["fix_rgb", "none", "minify"] (sanitize strayRule))) :=
  have h := run_sanitize ["fix_rgb", "none", "minify"] strayRule
  ⟨by decide, h.2.2.2.2 .minify (sanitize strayRule) (by decide), h.1⟩

end Pipeline

end Css

end Restyle
