import ZodGen.Error
import ZodGen.Yaml.Value

/-!
# Reading a document
-/

namespace ZodGen.Document

/-- Reads a document from YAML text, which JSON text also is. Its root must be an object. -/
def parse (text : String) : Outcome Value :=
  match Yaml.parse? text with
  | none => fail .general "Failed to parse OpenAPI YAML"
  | some (.obj ms) => .ok (.obj ms)
  | some _ => fail .invalidSpec "document root must be an object"

end ZodGen.Document
