import Restyle.Css.Step
import Restyle.Log.Record

/-!
# Pipelines

A pipeline runs the steps of a list of names one after another.  Names that are no step are passed
over.  `run` gives an event a name, from which come the final document, the snapshots and the log.
-/

namespace Restyle.Css

namespace Pipeline

inductive Event where
  | skipped (name : Bytes)
  /-- The step at place `n` of the list, counted from one, made `after` out of `before`. -/
  | applied (n : Nat) (step : Step) (before after : Bytes)
  deriving Repr, DecidableEq

def runFrom (n : Nat) : List Bytes → Bytes → List Event
  | [], _ => []
  | name :: names, doc =>
    match Step.ofName? name with
    | none => .skipped name :: runFrom (n + 1) names doc
    | some step =>
      let after := step.apply doc
      .applied n step doc after :: runFrom (n + 1) names after

def run (names : List Bytes) (doc : Bytes) : List Event :=
  runFrom 1 names doc

/-- The document that a run leaves. -/
def result (doc : Bytes) : List Event → Bytes
  | [] => doc
  | .skipped _ :: events => result doc events
  | .applied _ _ _ after :: events => result after events

/-- The documents after each step that ran. -/
def snapshots (events : List Event) : List (Step × Bytes) :=
  events.filterMap fun
    | .skipped _ => none
    | .applied _ step _ after => some (step, after)

end Pipeline

/-! ### The log of a run -/

open Log in
def Note.record (logger : Bytes) : Note → Record
  | .merged queries bytes =>
    ⟨.debug, logger, "Merged rules", [("queries", .number queries), ("bytes", .number bytes)]⟩
  | .combined groups bytes =>
    ⟨.debug, logger, "Combined media queries",
      [("groups", .number groups), ("bytes", .number bytes)]⟩
  | .minified before after =>
    ⟨.debug, logger, "Minified", [("before", .number before), ("after", .number after)]⟩
  | .removedQueries count bytes =>
    ⟨.debug, logger, "Removed media queries",
      [("count", .number count), ("bytes", .number bytes)]⟩

open Log in
def Pipeline.Event.records (logger : Bytes) : Event → List Record
  | .skipped name => [⟨.warn, logger, "Skipping unknown step", [("step", .text name)]⟩]
  | .applied n step before after =>
    ((step.note? before after).map (Note.record logger)).toList ++
      [⟨.debug, logger, "Step completed",
        [("n", .number n), ("step", .text step.name), ("before", .number before.length),
          ("after", .number after.length)]⟩]

/-- The logger of a pipeline below another. -/
def Pipeline.logger (parent : Bytes) : Bytes :=
  Log.child parent "css-rewriter"

end Restyle.Css
