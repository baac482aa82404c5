import ZodGen.Module.Generate

/-!
# Commands

What the command line asks for. `Command.parse?` reads its arguments: the name of a command, two
paths, and flags, which may stand anywhere behind the name. Behind `--` everything is a path.
-/

namespace ZodGen

inductive Command where
  /-- One module for a whole document. -/
  | compile (input output : String) (options : Module.Options)
  /-- One document for each path. -/
  | split (input directory : String)
  /-- One module for each path. -/
  | generate (input directory : String) (options : Module.Options)
  /-- A module without the bindings that nothing needs. -/
  | prune (input output : String)
  deriving DecidableEq, Repr

namespace Command

/-- Arguments told apart: paths, and flags in order. -/
structure Arguments where
  paths : List String := []
  flags : List String := []

/-- Tells flags from paths. A dash alone is a path. -/
def Arguments.read : List String → Arguments
  | [] => {}
  | "--" :: rest => { paths := rest }
  | a :: rest =>
    let found := read rest
    if a != "-" && a.toList.head? == some '-' then { found with flags := a :: found.flags }
    else { found with paths := a :: found.paths }

/-- Whether a flag is set, on the command line or by a variable of the environment. Neither may a
flag be repeated nor a variable be anything but `true` or `false`. -/
def flag? (flags : List String) (flag : String) (variable_ : Option String) : Option Bool :=
  match (flags.filter (· == flag)).length, variable_ with
  | 1, _ => some true
  | 0, none => some false
  | 0, some "true" => some true
  | 0, some "false" => some false
  | _, _ => none

/-- Flag and variable for exported components. -/
def exportFlag : String := "--export-components"

def exportVariable : String := "OAS2ZOD_EXPORT_COMPONENTS"

/-- Flag and variable for keeping every binding. -/
def keepFlag : String := "--no-prune"

def keepVariable : String := "OAS2ZOD_NO_PRUNE"

/-- The options that flags and variables give; no other flag is known. -/
def options? (flags : List String) (env : String → Option String) : Option Module.Options := do
  if flags.any fun f => f != exportFlag && f != keepFlag then none
  else
    let exported ← flag? flags exportFlag (env exportVariable)
    let kept ← flag? flags keepFlag (env keepVariable)
    some { exportComponents := exported, prune := !kept }

/-- The command that arguments ask for. -/
def parse? (args : List String) (env : String → Option String) : Option Command :=
  match args with
  | [] => none
  | name :: rest =>
    let found := Arguments.read rest
    match found.paths with
    | [input, output] =>
      if input.isEmpty || output.isEmpty then none
      else match name with
        | "compile" => (options? found.flags env).map (.compile input output)
        | "generate" => (options? found.flags env).map (.generate input output)
        | "split" => if found.flags.isEmpty then some (.split input output) else none
        | "prune" => if found.flags.isEmpty then some (.prune input output) else none
        | _ => none
    | _ => none

end Command

end ZodGen
