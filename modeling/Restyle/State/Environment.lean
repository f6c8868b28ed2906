import Restyle.Log.Logger
import Restyle.State.Settings

/-!
# Environment

The settings of a run together with its log.  Messages of the standard log can be redirected there;
they are then records without logger name.  Closing the environment ends every redirection.  Settings are
made by calls, each of which may fail.
-/

namespace Restyle

structure Environment where
  settings : Settings := {}
  log : Option Log.Sink := some .discarded
  /-- Where messages of the standard log go while they are redirected. -/
  redirected : Option Log.Sink := none
  deriving Repr, DecidableEq

namespace Environment

/-- What is said when a command is started without environment. -/
def missing : Bytes := "program environment is missing from context"

/-! ### Settings -/

/-- A call that is to set something, with what it is given. -/
inductive Call where
  | steps (names : List Bytes)
  | suffix (given : Bytes)
  | codePage (name : Bytes)
  deriving Repr, DecidableEq

/-- The environment after a call, and why the call failed if it did. -/
def call (e : Environment) : Call → Environment × Option Settings.Error
  | .steps names =>
    match e.settings.setSteps names with
    | .ok s => ({ e with settings := s }, none)
    | .error err => (e, some err)
  | .suffix given =>
    match e.settings.setSuffix given with
    | .ok s => ({ e with settings := s }, none)
    | .error err => (e, some err)
  | .codePage name =>
    match e.settings.setCodePage name with
    | (s, .ok ()) => ({ e with settings := s }, none)
    | (s, .error err) => ({ e with settings := s }, some err)

/-! ### The standard log -/

/-- Sends the standard log to the log of the environment, if there is one. -/
def redirect (e : Environment) : Environment :=
  match e.log with
  | some sink => { e with redirected := some sink }
  | none => e

def close (e : Environment) : Environment :=
  { e with redirected := none }

/-- The records that a message of the standard log leaves. -/
def print (e : Environment) (message : Bytes) : List Log.Record :=
  match e.redirected with
  | some .kept => [⟨.info, [], message.trim, []⟩]
  | _ => []

end Environment

end Restyle
