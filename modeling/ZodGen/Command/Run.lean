import ZodGen.Command.Basic
import ZodGen.Document.Parse
import ZodGen.Json.Printer
import ZodGen.Storage.Basic
import ZodGen.Storage.Path

/-!
# Running commands

A command reads one file and writes its results file by file, so files written before an error stay.
-/

namespace ZodGen.Command

variable {m : Type → Type} [Monad m]

def lift {α : Type} (r : Outcome α) : ExceptT Error m α := ExceptT.mk (pure r)

def readDocument (s : Storage m) (path : String) : ExceptT Error m Value := do
  lift (Document.parse (← s.readText path))

/-- Writes a file for each path of a document. -/
def writeParts (s : Storage m) (directory extension : String) (parts : List (String × String)) :
    ExceptT Error m Unit :=
  parts.forM fun (path, text) =>
    s.writeText (Storage.join directory (Document.fileStem path ++ extension)) text

/-- Runs a command. Gives the message for the user. -/
def execute (s : Storage m) : Command → ExceptT Error m String
  | .compile input output options => do
    let doc ← readDocument s input
    s.writeText output (← lift (Module.generate doc options))
    return "Zod schemas written to " ++ output
  | .split input directory => do
    let doc ← readDocument s input
    let parts ← lift (Document.split doc)
    writeParts s directory ".json" (parts.map fun (path, part) => (path, Json.pretty part))
    return "Split " ++ toString parts.length ++ " paths into " ++ directory
  | .generate input directory options => do
    let doc ← readDocument s input
    let parts ← lift (Module.generatePaths doc options)
    writeParts s directory ".ts" parts
    return "Generated " ++ toString parts.length ++ " modules in " ++ directory
  | .prune input output => do
    let source ← s.readText input
    s.writeText output (← lift (Script.prune source))
    return "Pruned module written to " ++ output

/-- How a run ends: the status, and what it prints. -/
structure Exit where
  status : Nat
  output : String := ""
  errors : String := ""
  deriving DecidableEq, Repr

def usage : String :=
  "Usage: zodgen <compile|split|generate|prune> [OPTIONS] <INPUT> <OUTPUT>\n"

/-- Runs the command that arguments ask for. -/
def run (s : Storage m) (args : List String) (env : String → Option String) : m Exit := do
  match parse? args env with
  | none => return { status := 2, errors := usage }
  | some command =>
    match ← (execute s command).run with
    | .ok message => return { status := 0, output := message ++ "\n" }
    | .error e => return { status := 1, errors := "Error: " ++ e.message ++ "\n" }

end ZodGen.Command
