import ZodGen.Operation.Compile

/-!
# Modules of a document

A module binds a validator for every schema component and holds the validators of every operation.
Each binding is named once and never as one of the names that every module has.
-/

namespace ZodGen

/-- The bindings of a module in order, and its operations. -/
structure Module where
  components : List (String × Validator)
  operations : List Operation.Compiled

namespace Module

/-- Names that every module has besides its components. -/
def reserved : List String :=
  ["z", "requestSchema", "responseSchema", "requestSchemas", "responseSchemas"]

/-- The schema components of a document. -/
def schemas (doc : Value) : Assoc Value :=
  ((doc.get? "components").bind (Value.obj? · "schemas")).getD []

/-- The binding of a component, given the components bound before it by their bindings. -/
def bindingFor (owners : Assoc String) (name : String) : Outcome String := do
  let binding ← BindingName.ofReference (Pointer.forComponent "schemas" name)
  if reserved.contains binding then
    fail .bindingCollision
      s!"component `{name}` renders as `{binding}`, which the module exports"
  else match Assoc.get? binding owners with
    | some previous =>
      fail .bindingCollision s!"components `{previous}` and `{name}` both render as `{binding}`"
    | none => .ok binding

/-- The bindings of components; `owners` are those bound before. -/
def compileComponents (c : Schema.Compiler) (owners : Assoc String) :
    List (String × Value) → Outcome (List (String × Validator))
  | [] => .ok []
  | (name, schema) :: rest => do
    let binding ← bindingFor owners name
    let v ← c.compile schema {}
    .ok ((binding, v) :: (← compileComponents c (owners ++ [(binding, name)]) rest))

def compile (doc : Value) : Outcome Module := do
  let _ ← Document.paths doc
  let c : Schema.Compiler := { root := doc }
  let components ← compileComponents c [] (schemas doc)
  let ops ← (← Document.operations doc).mapM (Operation.compile c)
  .ok ⟨components, ops.flatten⟩

end Module

end ZodGen
