import ZodGen.Module.Compile
import ZodGen.Validator.Render

/-!
# Source text of a module

The import of zod, the components, then the requests and the responses, with an empty line between
any two. A single operation has its validators bound by name; otherwise they stand in two lists.
-/

namespace ZodGen.Module

/-- What a module is written with. -/
structure Options where
  exportComponents : Bool := false
  prune : Bool := true
  deriving DecidableEq, Repr

/-- The binding of a component. -/
def componentLine (exported : Bool) (name : String) (code : String) : String :=
  (if exported then "export const " else "const ") ++ name ++ " = " ++ code ++ ";"

/-- The exported list of validators. -/
def listLine (name : String) (codes : List String) : String :=
  if codes.isEmpty then "export const " ++ name ++ " = [];"
  else "export const " ++ name ++ " = [\n  " ++ ",\n  ".intercalate codes ++ "\n];"

def operationSections (ops : List Operation.Compiled) : Outcome (List String) :=
  match ops with
  | [op] => do
    let request ← op.request.render
    let response ← op.response.render
    .ok [componentLine true "requestSchema" request, componentLine true "responseSchema" response]
  | ops => do
    let requests ← ops.mapM fun op => op.request.render
    let responses ← ops.mapM fun op => op.response.render
    .ok [listLine "requestSchemas" requests, listLine "responseSchemas" responses]

def sections (m : Module) (exported : Bool) : Outcome (List String) := do
  let components ← m.components.mapM fun (name, v) => do
    .ok (componentLine exported name (← v.render))
  let operations ← operationSections m.operations
  .ok ("import \x7b z \x7d from \"zod\";" :: (components ++ operations))

def render (m : Module) (exported : Bool) : Outcome String := do
  .ok ("\n\n".intercalate (← sections m exported) ++ "\n")

end ZodGen.Module
