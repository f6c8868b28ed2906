import Restyle.Config.Load
import Restyle.Log.Logger

/-!
# Output of a configuration

Writes the configuration in use, or the default one, and logs which of them goes where.
-/

namespace Restyle.Config

variable {m : Type → Type} [Monad m] [Machine m]

/-- Writes a configuration, or the default one, with `write`.  The name is that of the file, if it is
one. -/
def writeOut (c : Config) (log : Log.Logger) (wantsDefault : Bool) (name : Bytes)
    (write : Bytes → m (Option Bytes)) : m (Option Bytes) := do
  let text ← if wantsDefault then prepare else pure (.ok c.dump)
  match text with
  | .error e => return some ("unable to get configuration: " ++ e)
  | .ok text =>
    log.info "Outputting configuration" [
      ("state", .text (if wantsDefault then "default" else "actual")),
      ("file", .text (if name.isEmpty then "STDOUT" else name))]
    match ← write text with
    | none => return none
    | some e => return some ("unable to write configuration: " ++ e)

end Restyle.Config
