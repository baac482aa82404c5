import ZodGen.Error
import ZodGen.Json.Basic

/-!
# API documents

A document is a JSON value. Its operations are the members of the path items whose key is a request
method, in the order written.
-/

namespace ZodGen.Document

/-- The keys of a path item that hold operations. -/
def methods : List String := ["get", "put", "post", "delete", "options", "head", "patch", "trace"]

/-- An operation with what its path gives it. -/
structure Operation where
  path : String
  method : String
  body : Value
  pathParameters : List Value
  deriving Repr

/-- The path items by path. -/
def paths (doc : Value) : Outcome (Assoc Value) :=
  match doc.obj? "paths" with
  | some ms => .ok ms
  | none => fail .invalidSpec "document has no `paths` object"

def pathOperations (path : String) (item : Value) : List Operation :=
  match item with
  | .obj ms =>
    let shared := (item.arr? "parameters").getD []
    (ms.filter fun (key, _) => methods.contains key).map fun (method, body) =>
      ⟨path, method, body, shared⟩
  | _ => []

def operations (doc : Value) : Outcome (List Operation) := do
  let items ← paths doc
  .ok (items.flatMap fun (path, item) => pathOperations path item)

/-- The name of the file for a path: slashes become `_`, and one in front is dropped. -/
def fileStem (path : String) : String :=
  let replaced := path.toList.map fun c => if c = '/' then '_' else c
  let stem := match replaced with
    | '_' :: rest => rest
    | cs => cs
  if stem.isEmpty then "index" else String.ofList stem

end ZodGen.Document
