import ZodGen.Document.Split
import ZodGen.Module.Render
import ZodGen.Script.Prune

/-!
# From documents to source text
-/

namespace ZodGen.Module

/-- The source text for a document, without bindings that nothing needs unless the options keep
them. -/
def generate (doc : Value) (options : Options) : Outcome String := do
  let source ← (← compile doc).render options.exportComponents
  if options.prune then Script.prune source else .ok source

def generatePaths (doc : Value) (options : Options) : Outcome (List (String × String)) := do
  (← Document.split doc).mapM fun (path, part) => do .ok (path, ← generate part options)

end ZodGen.Module
