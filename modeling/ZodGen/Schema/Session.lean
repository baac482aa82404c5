import ZodGen.Schema.Rule

/-!
# A compiler in use

A compiler serves one schema after another. While it replaces references it keeps a stack of them,
innermost first: a reference goes on the stack before its target is compiled, and the top of the
stack comes off afterwards, also when the target could not be compiled. A reference that is on the
stack already is circular.

Nothing in these definitions bounds the recursion. Work that would never end is `none`.
-/

namespace ZodGen.Schema

/-- Work with the stack of references that are being replaced. It leaves a stack behind with every
outcome, also with an error. -/
abbrev Work (α : Type) := ExceptT Error (StateT (List String) Option) α

/-- A compiler with the options of the schema it is given. -/
structure Worker where
  compiler : Compiler
  options : Options

namespace Worker

mutual

def compile (w : Worker) (schema : Value) : Work Validator :=
  match schema.ref? with
  | some r =>
    if (Reference.schemaName? r).isSome then do
      return ⟨.reference (← ofExcept (w.compiler.bindingName r)), schema.str? "description"⟩
    else w |>.expand false r
  | none => do return finish schema (← w |>.lower schema)
partial_fixpoint

/-- The form of a schema without `$ref`. -/
def lower (w : Worker) (schema : Value) : Work (Form Validator) :=
  match Rule.of schema with
  | .tagged d alts =>
    match d.propertyName? with
    | none => throw ⟨.invalidDiscriminatedUnion, "discriminator has no propertyName"⟩
    | some property => do
      let variants ← (taggedReferences d alts).mapM fun m => do
        ofExcept (tagged property m.2 m.1 (← w |>.expand true m.1))
      return .discriminatedUnion property variants
  | .allOf parts own => do
    let compiled ← parts.mapM fun part => w |>.compilePart part
    let shape := absorbParts (Shape.empty.require (required schema)) compiled
    match own with
    | none => return .object shape
    | some ps => return .object (shape.absorb (← w |>.objectShape schema ps))
  | .alternatives alts => do return alternatives (← alts.mapM fun alt => w |>.compile alt)
  | .properties ps => do return .object (← w |>.objectShape schema ps)
  | .array none =>
    throw ⟨.missingArrayItems, (schema.str? "description").getD "array schema"⟩
  | .array (some item) => do return .array (← w |>.compile item)
  | .plain => ofExcept (plainForm w.options schema)
partial_fixpoint

/-- The properties of a schema, with the names it requires. -/
def objectShape (w : Worker) (schema : Value) (ps : Assoc Value) : Work (Shape Validator) := do
  let compiled ← ps.mapM fun m => do return (m.1, ← w |>.compile m.2)
  return (Shape.mk compiled []).require (required schema)
partial_fixpoint

/-- The validator of a part under `allOf`; a reference is replaced. -/
def compilePart (w : Worker) (part : Value) : Work Validator :=
  match part.ref? with
  | some r => w |>.expand true r
  | none => w |>.compile part
partial_fixpoint

/-- The validator of what a reference leads to. The top of the stack comes off whatever the outcome
is, so the outcome is taken as a value before it goes on. -/
def expand (w : Worker) (follow : Bool) (r : String) : Work Validator := do
  if r ∈ (← get) then throw ⟨.circularReference, r⟩
  let target ← ofExcept (Reference.resolve w.compiler.root r)
  modify (r :: ·)
  show StateT (List String) Option (Outcome Validator) from do
    let outcome ← (w |>.compileTarget follow target).run
    modify List.tail
    return outcome
partial_fixpoint

/-- The validator of a target; with `follow`, one that is itself a reference is replaced as well. -/
def compileTarget (w : Worker) (follow : Bool) (target : Value) : Work Validator :=
  match target.ref?, follow with
  | some next, true => w |>.expand true next
  | _, _ => w |>.compile target
partial_fixpoint

end

end Worker

/-- A compiler with its stack. -/
structure Session where
  compiler : Compiler
  inlining : List String

namespace Session

/-- A compiler before its first use. -/
def start (c : Compiler) : Session := ⟨c, []⟩

/-- The outcome for a schema, and the compiler after it. -/
def compile (s : Session) (schema : Value) (o : Options) : Option (Outcome Validator × Session) :=
  ((Worker.compile ⟨s.compiler, o⟩ schema).run.run s.inlining).map fun result =>
    (result.1, { s with inlining := result.2 })

/-- The outcomes for schemas one after another, each with the compiler after it. -/
def compileAll (s : Session) : List (Value × Options) → Option (List (Outcome Validator × Session))
  | [] => some []
  | (schema, o) :: jobs => do
    let result ← s.compile schema o
    some (result :: (← result.2.compileAll jobs))

end Session

end ZodGen.Schema
