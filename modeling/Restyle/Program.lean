import Restyle.Path

/-!
# The program

Name, version and revision, as they stand in help texts, logs and reports.
-/

namespace Restyle.Program

def builtInName : Bytes := "cssfmt"

def version : Bytes := "dev"

def revision : Bytes := "unknown"

/-- The name of the program by the path it was started with, extension left aside.  A test binary, and
one without name, goes by the built-in name. -/
def name (started : Option Bytes) : Bytes :=
  match started with
  | none | some [] => builtInName
  | some path =>
    let base := Path.base path
    if (".test" : Bytes).isSuffixOf base then builtInName
    else
      let stem := base.dropEnding (Path.extension base)
      if stem.isEmpty then builtInName else stem

end Restyle.Program
