import Restyle.Css.Step
import Restyle.Encoding.Registry

/-!
# Settings of a run

What the format command works with, after configuration and flags have been settled: the steps, the
suffix of output names and the code page of input without byte order mark.  A setting that is refused
leaves the others as they were.
-/

namespace Restyle

structure Settings where
  steps : List Css.Step := []
  suffix : Bytes := []
  overwrite : Bool := false
  toStdout : Bool := false
  codePage : Option CodePage := none
  deriving Repr, DecidableEq

namespace Settings

inductive Error where
  | step (e : Css.Step.Error)
  | noSteps
  | suffix (given : Bytes)
  | codePage (e : CodePage.Error)
  deriving Repr, DecidableEq

def Error.message : Error → Bytes
  | .step e => e.message
  | .noSteps => "no processing steps have been specified"
  | .suffix given => "output suffix must not contain path separators: " ++ quote given
  | .codePage e => e.message

/-- A byte that separates path components on some platform. -/
def isSeparator (b : UInt8) : Bool :=
  b == 0x2F || b == 0x5C

/-- Sets the steps.  At least one is needed. -/
def setSteps (s : Settings) (names : List Bytes) : Except Error Settings :=
  match Css.Step.parseAll names with
  | .error e => .error (.step e)
  | .ok [] => .error .noSteps
  | .ok steps => .ok { s with steps := steps }

/-- Sets the suffix, which has to stay within the file name. -/
def setSuffix (s : Settings) (suffix : Bytes) : Except Error Settings :=
  if suffix.any isSeparator then .error (.suffix suffix) else .ok { s with suffix := suffix }

/-- The code page of a name, none for the empty name. -/
def codePageOf (name : Bytes) : Except Error (Option CodePage) :=
  if name.isEmpty then .ok none
  else match CodePage.ofName name with
    | .ok p => .ok (some p)
    | .error e => .error (.codePage e)

/-- Sets the code page.  A name that is refused leaves none. -/
def setCodePage (s : Settings) (name : Bytes) : Settings × Except Error Unit :=
  match codePageOf name with
  | .ok p => ({ s with codePage := p }, .ok ())
  | .error e => ({ s with codePage := none }, .error e)

def codePageName (s : Settings) : Bytes :=
  match s.codePage with
  | some p => p.name
  | none => []

end Settings

end Restyle
