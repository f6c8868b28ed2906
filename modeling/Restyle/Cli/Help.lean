import Restyle.Cli.Command
import Restyle.Program

/-!
# Help texts

Help lists commands and flags in two columns, the first as wide as its longest line needs.
-/

namespace Restyle.Cli

/-- Rows of two columns. -/
def table (rows : List (String × String)) : List String :=
  let width := rows.foldl (fun w (left, _) => max w left.length) 0
  rows.map fun (left, right) =>
    "   " ++ left ++ String.ofList (List.replicate (width - left.length + 2) ' ') ++ right

/-- The forms in which a flag can be written. -/
def Flag.forms (f : Flag) : String :=
  String.intercalate ", " <| f.names.map fun n =>
    (if n.length == 1 then "-" else "--") ++ n ++
      match f.value with
      | some v => " " ++ v
      | none => ""

def flagTable (fs : List Flag) : List String :=
  table (fs.map fun f => (f.forms, f.help))

def lines (ls : List String) : Bytes :=
  ls.flatMap fun (l : String) => (l : Bytes) ++ "\n"

def heading (title : String) (body : List String) : List String :=
  [title ++ ":"] ++ body

/-- The help of the program, given its name and what is said of its version. -/
def programHelp (app version : Bytes) : Bytes :=
  lines ["NAME:"]
    ++ "   " ++ app ++ " - rewriting engine for CSS stylesheets\n\nUSAGE:\n   " ++ app
    ++ " [global options] [command [command options]]\n\nVERSION:\n   " ++ version ++ "\n\n"
    ++ lines (heading "COMMANDS" (table (Command.all.map fun c => (c.name, c.usage))))
    ++ "\n" ++ lines (heading "GLOBAL OPTIONS" (flagTable (globalFlags ++ [helpFlag, versionFlag])))

/-- The help of a command. -/
def commandHelp (app : Bytes) (c : Command) : Bytes :=
  let full := app ++ " " ++ (c.name : Bytes)
  "NAME:\n   " ++ full ++ " - " ++ (c.usage : Bytes) ++ "\n\nUSAGE:\n   " ++ full ++ " [options] "
    ++ (c.argsUsage : Bytes) ++ "\n\n"
    ++ lines (heading "OPTIONS" (flagTable (c.flags ++ [helpFlag])))
    ++ "\n" ++ lines (heading "GLOBAL OPTIONS" (flagTable globalFlags))
    ++ "\n" ++ lines c.details

/-- The help of the help that a command has. -/
def helpHelp (app : Bytes) (c : Command) : Bytes :=
  let full := app ++ " " ++ (c.name : Bytes) ++ " help"
  "NAME:\n   " ++ full ++ " - Shows a list of commands or help for one command\n\nUSAGE:\n   "
    ++ full ++ " [command]\n\n" ++ lines (heading "GLOBAL OPTIONS" (flagTable globalFlags))

/-- What is said of the version, given the runtime. -/
def versionText (runtime : Bytes) : Bytes :=
  Program.version ++ " (" ++ runtime ++ ") : " ++ Program.revision

end Restyle.Cli
